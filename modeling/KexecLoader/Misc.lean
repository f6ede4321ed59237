import KexecLoader.Library.CString

/-!
# String helpers of misc.c
-/
namespace KexecLoader

/-! The sizes of the character arrays. -/

instance neZero16 : NeZero 16 := ⟨by decide⟩

instance neZero32 : NeZero 32 := ⟨by decide⟩

instance neZero256 : NeZero 256 := ⟨by decide⟩

instance neZero1024 : NeZero 1024 := ⟨by decide⟩

/-- How a call ends: with a value, with `errno` set, or by leaving the memory it
may touch. -/
inductive Outcome (α : Type) where
  | ok (value : α)
  | fail (errno : Nat)
  | crash
deriving DecidableEq

/-- Why a function does not come back: the rounds do not suffice, it leaves the memory it
may touch, or there is no memory left, of which the program dies. -/
inductive Stuck where
  | unfinished
  | crash
  | died
deriving DecidableEq

/-- "Invalid filename". -/
def EINFILE : Nat := 256

/-- "Unknown filesystem format". -/
def EBADFS : Nat := 257

/-- "No disk specified". -/
def ENDISK : Nat := 258

def ENOENT : Nat := 2

def EBUSY : Nat := 16

def EEXIST : Nat := 17

def ENODEV : Nat := 19

def ENOTDIR : Nat := 20

def EISDIR : Nat := 21

def klStreq : Str → Str → Bool
  | [], [] => true
  | a :: s1, b :: s2 => a == b && klStreq s1 s2
  | _, _ => false

/-- Stops after `max` characters, or at a terminator the strings share. -/
def klStrneq : Str → Str → Nat → Bool
  | _, _, 0 => true
  | [], [], _ + 1 => true
  | a :: s1, b :: s2, max + 1 => a == b && klStrneq s1 s2 max
  | _, _, _ + 1 => false

def klStrceq : Str → Str → Bool
  | [], [] => true
  | a :: s1, b :: s2 => tolower a == tolower b && klStrceq s1 s2
  | _, _ => false

def klStrnceq : Str → Str → Nat → Bool
  | _, _, 0 => true
  | [], [], _ + 1 => true
  | a :: s1, b :: s2, max + 1 => tolower a == tolower b && klStrnceq s1 s2 max
  | _, _, _ + 1 => false

def klStreqEnd (str tail : Str) : Bool :=
  if str.length < tail.length then false
  else klStreq (str.drop (str.length - tail.length)) tail

/-- Cuts the string at its first blank: the token left in place, and the pointer
returned, at the next value. -/
def nextValue (ptr : Str) : Str × Str :=
  let token := ptr.take (strcspn ptr blanks)
  match ptr.drop (strcspn ptr blanks) with
  | [] => (token, [])
  | _ :: rest => (token, rest.drop (strspn rest blanks))

theorem klStreq_iff (s1 s2 : Str) : klStreq s1 s2 = true ↔ s1 = s2 := by
  induction s1 generalizing s2 with
  | nil => cases s2 <;> simp [klStreq]
  | cons a s1 ih =>
    cases s2 with
    | nil => simp [klStreq]
    | cons b s2 => simp [klStreq, ih]

theorem klStreq_eq_false (s1 s2 : Str) : klStreq s1 s2 = false ↔ s1 ≠ s2 := by
  rw [← Bool.not_eq_true, klStreq_iff]

/-- With a bound that is the length of the second string: a prefix test. -/
theorem klStrneq_iff (s pre : Str) : klStrneq s pre pre.length = true ↔ pre <+: s := by
  induction pre generalizing s with
  | nil => simp [klStrneq]
  | cons b pre ih =>
    cases s with
    | nil => simp [klStrneq]
    | cons a s =>
      simp only [List.length_cons, klStrneq, Bool.and_eq_true, beq_iff_eq, ih,
        List.cons_prefix_cons]
      exact ⟨fun h => ⟨h.1.symm, h.2⟩, fun h => ⟨h.1.symm, h.2⟩⟩

theorem klStrceq_iff (s1 s2 : Str) :
    klStrceq s1 s2 = true ↔ s1.map tolower = s2.map tolower := by
  induction s1 generalizing s2 with
  | nil => cases s2 <;> simp [klStrceq]
  | cons a s1 ih =>
    cases s2 with
    | nil => simp [klStrceq]
    | cons b s2 => simp [klStrceq, ih]

theorem klStreqEnd_iff (str tail : Str) : klStreqEnd str tail = true ↔ tail <:+ str := by
  unfold klStreqEnd
  split
  next short =>
    simp only [Bool.false_eq_true, false_iff]
    intro suffix
    have := suffix.length_le
    omega
  next long =>
    rw [klStreq_iff, List.suffix_iff_eq_drop]
    exact eq_comm

/-- The text of a line, without its ending and its indentation. -/
def lineText (piece : Str) : Str :=
  (piece.takeWhile (· ∉ newlines)).dropWhile (· ∈ newlines ++ blanks)

/-- The text as the readers cut it out of their buffer. -/
theorem lineText_cut (piece : Str) :
    (piece.take (strcspn piece newlines)).drop
      (strspn (piece.take (strcspn piece newlines)) (newlines ++ blanks)) = lineText piece := by
  rw [drop_strspn, take_strcspn, lineText]

/-- One comparison in a chain of words, of which the first that is the name decides;
what comes of it is seen through `view`. -/
theorem streq_chain {ω κ τ σ : Type} (text : ω → Str) (command : ω → Option κ) (view : τ → σ)
    (result : Option κ → σ) (name : Str) (w : ω) {ws : List ω} {a b : τ}
    (here : view a = result (command w))
    (there : view b = result ((ws.find? (text · = name)).bind command)) :
    view (if klStreq name (text w) = true then a else b) =
      result (((w :: ws).find? (text · = name)).bind command) := by
  by_cases same : text w = name
  · rw [if_pos ((klStreq_iff _ _).mpr same.symm), List.find?_cons_of_pos (by simpa using same)]
    exact here
  · have differs : ¬ klStreq name (text w) = true := by
      rw [klStreq_iff]
      exact Ne.symm same
    rw [if_neg differs, List.find?_cons_of_neg (by simpa using same)]
    exact there

theorem lineText_append {text ends : Str} (one_line : ∀ c ∈ text, c ∉ newlines)
    (ended : ∀ c ∈ ends, c ∈ newlines) :
    lineText (text ++ ends) = text.dropWhile (· ∈ newlines ++ blanks) := by
  rw [lineText, ← take_strcspn, take_strcspn_stop one_line]
  exact fun c head => ended c (List.mem_of_mem_head? head)

/-- The word and the value of a line as `fgets` delivers it, for the readers that
separate them with `next_value`. -/
def lineWords (piece : Str) : Str × Str := nextValue (lineText piece)

theorem nextValue_token (ptr : Str) : (nextValue ptr).1 = ptr.takeWhile (· ∉ blanks) := by
  unfold nextValue
  split <;> exact take_strcspn ptr blanks

/-- The word and the value are parts of the string. -/
theorem nextValue_length (ptr : Str) :
    (nextValue ptr).1.length + (nextValue ptr).2.length ≤ ptr.length := by
  have parts := congrArg List.length (List.take_append_drop (strcspn ptr blanks) ptr)
  rw [List.length_append] at parts
  unfold nextValue
  split
  next rest => simp only [List.length_nil]; omega
  next c rest found =>
    rw [found, List.length_cons] at parts
    simp only [List.length_drop]
    omega

/-- A value starts with a byte that is not blank. -/
theorem nextValue_starts (ptr : Str) : ∀ c ∈ (nextValue ptr).2.head?, c ∉ blanks := by
  unfold nextValue
  split
  next => simp
  next c rest _ =>
    intro b head
    rw [drop_strspn] at head
    simpa using dropWhile_head_fails b head

/-- So a value has a first word, if it is not empty. -/
theorem nextValue_first (ptr : Str) (given : (nextValue ptr).2 ≠ []) :
    (nextValue (nextValue ptr).2).1 ≠ [] := by
  have starts := nextValue_starts ptr
  rw [nextValue_token]
  cases value : (nextValue ptr).2 with
  | nil => exact absurd value given
  | cons c rest => simp [starts c (by simp [value])]

/-- A word and a value are apart. -/
theorem nextValue_apart (ptr : Str) (given : (nextValue ptr).2 ≠ []) :
    (nextValue ptr).1.length + (nextValue ptr).2.length < ptr.length := by
  have parts := congrArg List.length (List.take_append_drop (strcspn ptr blanks) ptr)
  rw [List.length_append] at parts
  unfold nextValue at given ⊢
  split
  next rest =>
    rw [rest] at given
    exact absurd rfl given
  next c rest found =>
    rw [found, List.length_cons] at parts
    simp only [List.length_drop]
    omega

/-- The line feed of a line does not matter. -/
theorem lineText_lf (line : Str) : lineText (cstr (line ++ [lf])) = lineText (cstr line) := by
  by_cases nul : 0 ∈ line
  · -- the string ends before the line feed
    obtain ⟨front, rest, rfl, no_nul⟩ := List.eq_append_cons_of_mem nul
    rw [List.append_assoc, cstr_append _ no_nul, cstr_append _ no_nul, List.cons_append, cstr_nul,
      cstr_nul]
  · have ended : cstr [lf] = [lf] := rfl
    rw [cstr_append _ nul, cstr_of_no_nul nul, ended, lineText, lineText,
      takeWhile_concat line (by decide)]

theorem lineWords_lf (line : Str) : lineWords (cstr (line ++ [lf])) = lineWords (cstr line) := by
  rw [lineWords, lineWords, lineText_lf]

theorem lineText_length (piece : Str) : (lineText piece).length ≤ piece.length :=
  (length_dropWhile_le _ _).trans (List.takeWhile_prefix _).length_le

theorem blank_not_newline {c : UInt8} (blank : c ∈ blanks) : c ∉ newlines := by
  obtain rfl | rfl : c = tab ∨ c = space := by simpa [blanks] using blank
  all_goals decide

def Blank (s : Str) : Prop := ∀ c ∈ s, c ∈ blanks

instance (s : Str) : Decidable (Blank s) := inferInstanceAs (Decidable (∀ c ∈ s, c ∈ blanks))

/-- A value as it can stand on a line of a text file, after blanks. -/
structure LineValue (s : Str) : Prop where
  nonempty : s ≠ []
  starts : ∀ c ∈ s.head?, c ∉ blanks
  one_line : ∀ c ∈ s, c ∉ newlines
  no_nul : 0 ∉ s

theorem LineValue.take {s : Str} (ok : LineValue s) (n : Nat) (pos : 0 < n) :
    LineValue (s.take n) := by
  obtain ⟨c, s, rfl⟩ := List.exists_cons_of_ne_nil ok.nonempty
  obtain ⟨n, rfl⟩ : ∃ m, n = m + 1 := ⟨n - 1, by omega⟩
  exact ⟨by simp, ok.starts, fun c member => ok.one_line c (List.mem_of_mem_take member),
    fun member => ok.no_nul (List.mem_of_mem_take member)⟩

/-- A word, blanks, and a value that starts with none: the tokenizer separates
the two. -/
theorem nextValue_split (word sep value : Str) (whole : ∀ c ∈ word, c ∉ blanks)
    (apart : sep = [] → value = []) (blank : Blank sep)
    (starts : ∀ c ∈ value.head?, c ∉ blanks) :
    nextValue (word ++ (sep ++ value)) = (word, value) := by
  cases sep with
  | nil =>
    have taken := take_strcspn_stop (t := []) whole (by simp)
    have dropped := drop_strcspn_stop (t := []) whole (by simp)
    simp only [List.append_nil] at taken dropped
    simp only [apart rfl, List.append_nil, nextValue, taken, dropped]
  | cons b sep =>
    have stop : ∀ c ∈ (b :: (sep ++ value)).head?, c ∈ blanks := by
      simpa using blank b (by simp)
    have value_left := drop_strspn_stop (s := sep) (fun c member => blank c (by simp [member])) starts
    simp only [nextValue, List.cons_append, take_strcspn_stop whole stop,
      drop_strcspn_stop whole stop, value_left]

end KexecLoader
