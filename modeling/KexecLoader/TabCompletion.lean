import KexecLoader.LineEditing

/-!
# TAB inserts what all completions share

Neighbouring completions are compared only, which is enough: what all of them begin with
is no longer than what any two neighbours begin with.
-/
namespace KexecLoader

/-- What all texts begin with, and nothing longer; nothing if there are none. -/
structure LongestCommonPrefix (list : List Str) (text : Str) : Prop where
  common : ∀ a ∈ list, text <+: a
  longest : ∀ front, (∀ a ∈ list, front <+: a) → list ≠ [] → front <+: text
  none : list = [] → text = []

/-- The text in the buffer with an insertion at the offset, and the cursor behind it, both
limited to the buffer. -/
structure InsertedAt (e e' : Editor) (text insertion : Str) : Prop where
  holds : e'.cmdbuf.Holds
    ((text.take e.offset ++ insertion ++ text.drop e.offset).take (CMDBUF_SIZE - 1))
  cmdlen : e'.cmdlen = (e'.cmdbuf.strFrom 0).length
  left : (e'.cmdbuf.strFrom 0).take e.offset = text.take e.offset
  offset : e'.offset = min (e.offset + insertion.length) e'.cmdlen
  hnum : e'.hnum = e.hnum

/-! ### What completions share -/

theorem klStrMatchLen_iff {front a : Str} (b : Str) (first : front <+: a) :
    front.length ≤ klStrMatchLen a b ↔ front <+: b := by
  induction front generalizing a b with
  | nil => simp
  | cons c front ih =>
    cases a with
    | nil => simp at first
    | cons x a =>
      rw [List.cons_prefix_cons] at first
      obtain ⟨rfl, below⟩ := first
      cases b with
      | nil => simp [klStrMatchLen]
      | cons y b =>
        rw [klStrMatchLen, List.cons_prefix_cons, List.length_cons]
        split
        next same => rw [Nat.add_le_add_iff_right, ih b below, and_iff_right same]
        next other => simp [other]

/-- A front of the first text that is not too long is shared exactly if it is one of all
the texts. -/
theorem sharedLen_iff {n : Nat} {front a : Str} (rest : List Str) (first : front <+: a)
    (short : front.length ≤ n) :
    front.length ≤ sharedLen n (a :: rest) ↔ ∀ b ∈ rest, front <+: b := by
  induction rest generalizing a n with
  | nil => simp [sharedLen, short]
  | cons b rest ih =>
    rw [sharedLen, List.forall_mem_cons]
    by_cases next : front <+: b
    · rw [ih next (Nat.le_min.mpr ⟨(klStrMatchLen_iff b first).mpr next, short⟩),
        and_iff_right next]
    · -- the neighbours differ already
      refine iff_of_false (fun more => next ?_) fun both => next both.1
      have bound := sharedLen_le (min (klStrMatchLen a b) n) (b :: rest)
      exact (klStrMatchLen_iff b first).mp (more.trans (bound.trans (Nat.min_le_left _ _)))

theorem appChars_iff {front a : Str} (rest : List Str) (first : front <+: a)
    (short : a.length < 2 ^ 31) :
    front.length ≤ appChars (a :: rest) ↔ ∀ b ∈ rest, front <+: b := by
  have le := first.length_le
  cases rest with
  | nil => simpa [appChars] using le
  | cons b rest => exact sharedLen_iff (b :: rest) first (by omega)

theorem completionText_longest {list : List Str} (short : ∀ text ∈ list, text.length < 2 ^ 31) :
    LongestCommonPrefix list (completionText list) := by
  cases list with
  | nil => exact ⟨by simp, fun _ _ some => absurd rfl some, fun _ => rfl⟩
  | cons a rest =>
    have length := completionText_length (a :: rest)
    have first : completionText (a :: rest) <+: a := List.take_prefix _ _
    have bound := short a (by simp)
    refine ⟨?_, fun front common _ => ?_, fun none => by cases none⟩
    · rw [List.forall_mem_cons]
      exact ⟨first, (appChars_iff rest first bound).mp (Nat.le_of_eq length)⟩
    · rw [List.forall_mem_cons] at common
      have fits := (appChars_iff rest common.1 bound).mpr common.2
      exact List.prefix_of_prefix_length_le common.1 first (by rwa [length])

/-! ### The key -/

section
variable {e : Editor} {text : Str} (holds : e.cmdbuf.Holds text) (cmdlen : e.cmdlen = text.length)
  (inside : e.offset ≤ text.length) (short : text.length < CMDBUF_SIZE)
  (room : CMDBUF_SIZE ≤ e.cmdbuf.bytes.length)
include holds cmdlen inside short room

theorem editTab_inserted {completions : List Str} (no_nul : ∀ a ∈ completions, 0 ∉ a) :
    InsertedAt e (editTab e completions) text (completionText completions) := by
  have parts := List.take_append_drop e.offset text
  have length : (text.take e.offset).length = e.offset := by
    rw [List.length_take, Nat.min_eq_left inside]
  have count := completionText_length completions
  unfold editTab
  split
  next nothing =>
    have empty : completionText completions = [] :=
      List.eq_nil_of_length_eq_zero (count.trans nothing)
    have whole : (text.take e.offset ++ [] ++ text.drop e.offset).take (CMDBUF_SIZE - 1) = text := by
      rw [List.append_nil, parts, List.take_of_length_le (by omega)]
    have string := holds.strFrom_zero
    rw [empty]
    refine ⟨by rwa [whole], by rw [string, cmdlen], by rw [string], ?_, rfl⟩
    rw [cmdlen, List.length_nil, Nat.add_zero, Nat.min_eq_left inside]
  next =>
    have holds' := holds
    have short' := short
    rw [← parts] at holds' short'
    have inserted := klStrins_holds holds' (completionText completions) (completionText_no_nul no_nul)
      short' room
    rw [length] at inserted
    have left : ((klStrins e.cmdbuf (completionText completions) e.offset CMDBUF_SIZE).strFrom 0).take
        e.offset = text.take e.offset := by
      rw [inserted.strFrom_zero, List.take_take, Nat.min_eq_left (by omega), List.append_assoc,
        List.take_left' length]
    exact ⟨inserted, rfl, left, by rw [count], rfl⟩

/-- TAB inserts the longest common prefix of the completions at the cursor. -/
theorem editKey_tab (key : KeyPress) (tab : key.c = 9) (history : List (Option Str))
    (no_nul : ∀ a ∈ key.completions, 0 ∉ a) (bounded : ∀ a ∈ key.completions, a.length < 2 ^ 31) :
    ∃ shared, LongestCommonPrefix key.completions shared ∧
      InsertedAt e (editKey history e key) text shared := by
  have edit : key.edit = .complete (completionText key.completions) := by
    simp [KeyPress.edit, tab, KEY_LEFT, KEY_BACKSPACE, KEY_RIGHT, KEY_HOME, KEY_END, KEY_DEL, KEY_UP,
      KEY_DOWN]
  refine ⟨_, completionText_longest bounded, ?_⟩
  rw [editKey_edit, edit]
  exact editTab_inserted holds cmdlen inside short room no_nul

end

def tabEditor : Editor := ⟨⟨bytes "load x" ++ List.replicate 1018 0, []⟩, 6, 4, -1⟩

def tabKey : KeyPress := ⟨9, [bytes "ing ", bytes "in"]⟩

theorem editKey_tab_sample : ∃ shared, LongestCommonPrefix tabKey.completions shared ∧
    InsertedAt tabEditor (editKey [] tabEditor tabKey) (bytes "load x") shared := by
  have holds : tabEditor.cmdbuf.Holds (bytes "load x") := ⟨by decide, List.replicate 1017 0, rfl⟩
  have room : CMDBUF_SIZE ≤ (bytes "load x" ++ List.replicate 1018 (0 : UInt8)).length := by
    rw [List.length_append, List.length_replicate]
    decide
  exact editKey_tab holds rfl (by decide) (by decide) room tabKey rfl [] (by decide) (by decide)

end KexecLoader
