import Mathlib.Algebra.Order.Ring.Int
import Mathlib.Data.List.TakeWhile

/-!
# C strings over byte lists

A C string is the list of the bytes before its terminator, a pointer into it is
the suffix that starts there, and a fixed-size character array is a string that
carries the proof that it fits with its terminator.
-/
namespace KexecLoader

abbrev Str := List UInt8

/-- The bytes of an ASCII literal. -/
def bytes (s : String) : Str := s.toList.map Char.toUInt8

def tab : UInt8 := 9
def lf : UInt8 := 10
def cr : UInt8 := 13
def space : UInt8 := 32
def slash : UInt8 := 47

/-- The separators of the tokenizers, `"\t "`. -/
def blanks : Str := [tab, space]

/-- `"\r\n"`. -/
def newlines : Str := [cr, lf]

/-- The string at the start of a buffer: what a reader sees before the first NUL. -/
def cstr (buffer : Str) : Str := buffer.takeWhile (· ≠ 0)

def strspn (s accept : Str) : Nat := (s.takeWhile (· ∈ accept)).length

def strcspn (s reject : Str) : Nat := (s.takeWhile (· ∉ reject)).length

/-- `strchr` as the suffix that starts at the first occurrence. -/
def strchr (s : Str) (c : UInt8) : Option Str :=
  match s.dropWhile (· ≠ c) with
  | [] => none
  | rest => some rest

/-- The index of the last occurrence, or none when `strrchr` returns NULL. -/
def strrchr : Str → UInt8 → Option Nat
  | [], _ => none
  | a :: s, c =>
    match strrchr s c with
    | some i => some (i + 1)
    | none => if a = c then some 0 else none

def isdigit (c : UInt8) : Bool := 48 ≤ c && c ≤ 57

def islower (c : UInt8) : Bool := 97 ≤ c && c ≤ 122

def tolower (c : UInt8) : UInt8 := if 65 ≤ c && c ≤ 90 then c + 32 else c

def isspace (c : UInt8) : Bool := c = space || (9 ≤ c && c ≤ 13)

theorem isdigit_iff (c : UInt8) : isdigit c = true ↔ 48 ≤ c.toNat ∧ c.toNat ≤ 57 := by
  simp [isdigit, UInt8.le_iff_toNat_le]

theorem isspace_of_isdigit {c : UInt8} (digit : isdigit c = true) : isspace c = false := by
  rw [isdigit_iff] at digit
  have not_space : c ≠ space := fun h => by rw [h] at digit; exact absurd digit (by decide)
  have not_control : ¬ c ≤ 13 := fun h => by
    rw [UInt8.le_iff_toNat_le] at h
    exact absurd (Nat.le_trans digit.1 h) (by decide)
  simp [isspace, not_space, not_control]

/-- `char field[size]` holding a terminated string. -/
structure Buf (size : Nat) where
  str : Str
  fits : str.length < size
deriving DecidableEq

theorem Buf.eq_of_str {size : Nat} {a b : Buf size} (h : a.str = b.str) : a = b := by
  cases a
  cases b
  simpa using h

/-- `field[0] = '\0'`. -/
def Buf.empty (size : Nat) [NeZero size] : Buf size := ⟨[], Nat.pos_of_neZero size⟩

@[simp] theorem Buf.empty_str (size : Nat) [NeZero size] : (Buf.empty size).str = [] := rfl

instance (size : Nat) [NeZero size] : Inhabited (Buf size) := ⟨Buf.empty size⟩

/-- `strlcpy(field, src, sizeof(field))`: copies what fits and terminates it. -/
def strlcpy {size : Nat} [NeZero size] (src : Str) : Buf size :=
  ⟨src.take (size - 1), by
    have pos := Nat.pos_of_neZero size
    rw [List.length_take]
    omega⟩

@[simp] theorem strlcpy_str {size : Nat} [NeZero size] (src : Str) :
    (strlcpy src : Buf size).str = src.take (size - 1) := rfl

theorem strlcpy_fits {size : Nat} [NeZero size] (src : Str) (h : src.length < size) :
    (strlcpy src : Buf size) = ⟨src, h⟩ :=
  Buf.eq_of_str (List.take_of_length_le (by omega))

@[simp] theorem strlcpy_buf {size : Nat} [NeZero size] (b : Buf size) :
    (strlcpy b.str : Buf size) = b :=
  strlcpy_fits b.str b.fits

/-! ### Spans -/

theorem drop_length_takeWhile (p : UInt8 → Bool) (s : Str) :
    s.drop (s.takeWhile p).length = s.dropWhile p := by
  induction s with
  | nil => rfl
  | cons c s ih =>
    by_cases h : p c
    · simpa [h] using ih
    · simp [h]

theorem take_length_takeWhile (p : UInt8 → Bool) (s : Str) :
    s.take (s.takeWhile p).length = s.takeWhile p := by
  induction s with
  | nil => rfl
  | cons c s ih =>
    by_cases h : p c
    · simpa [h] using ih
    · simp [h]

@[simp] theorem drop_strspn (s accept : Str) :
    s.drop (strspn s accept) = s.dropWhile (· ∈ accept) :=
  drop_length_takeWhile _ s

@[simp] theorem drop_strcspn (s reject : Str) :
    s.drop (strcspn s reject) = s.dropWhile (· ∉ reject) :=
  drop_length_takeWhile _ s

@[simp] theorem take_strcspn (s reject : Str) :
    s.take (strcspn s reject) = s.takeWhile (· ∉ reject) :=
  take_length_takeWhile _ s

/-! ### Deciding -/

section
variable (p : UInt8 → Prop) [DecidablePred p]

/-- Goes through the string, where the instance for finite types goes through all
256 bytes. -/
instance decidableMemStr (s : Str) : Decidable (∀ c ∈ s, p c) := List.decidableBAll p s

instance decidableMemOption : (o : Option UInt8) → Decidable (∀ c ∈ o, p c)
  | none => .isTrue (by simp)
  | some c => decidable_of_iff (p c) (by simp)

end

/-- A span of bytes that pass is taken whole when what follows does not start
with one. -/
theorem takeWhile_append_stop {p : UInt8 → Bool} {s t : Str} (pass : ∀ c ∈ s, p c = true)
    (stop : ∀ c ∈ t.head?, p c = false) : (s ++ t).takeWhile p = s := by
  rw [List.takeWhile_append_of_pos pass]
  cases t with
  | nil => simp
  | cons c t => simp [stop c rfl]

/-- A byte that does not pass is never taken. -/
theorem takeWhile_concat {p : UInt8 → Bool} (s : Str) {c : UInt8} (stop : p c = false) :
    (s ++ [c]).takeWhile p = s.takeWhile p := by
  induction s with
  | nil => simp [stop]
  | cons b s ih => simp only [List.cons_append, List.takeWhile_cons, ih]

theorem dropWhile_append_stop {p : UInt8 → Bool} {s t : Str} (pass : ∀ c ∈ s, p c = true)
    (stop : ∀ c ∈ t.head?, p c = false) : (s ++ t).dropWhile p = t := by
  rw [List.dropWhile_append_of_pos pass]
  cases t with
  | nil => simp
  | cons c t => simp [stop c rfl]

theorem cstr_of_no_nul {s : Str} (no_nul : 0 ∉ s) : cstr s = s := by
  have pass : ∀ c ∈ s, decide (c ≠ 0) = true := fun c member => by
    simpa using fun zero : c = 0 => no_nul (zero ▸ member)
  simpa [cstr] using takeWhile_append_stop (t := []) pass (by simp)

theorem cstr_append {s : Str} (t : Str) (no_nul : 0 ∉ s) : cstr (s ++ t) = s ++ cstr t := by
  refine List.takeWhile_append_of_pos fun c member => ?_
  simpa using fun zero : c = 0 => no_nul (zero ▸ member)

@[simp] theorem cstr_nul (t : Str) : cstr (0 :: t) = [] := by simp [cstr]

/-- What stands behind the terminator is no part of the string. -/
theorem cstr_terminated {s : Str} (t : Str) (nul : 0 ∈ s) : cstr (s ++ t) = cstr s := by
  induction s with
  | nil => simp at nul
  | cons c s ih =>
    by_cases zero : c = 0
    · simp [zero]
    · have later : 0 ∈ s := (List.mem_cons.mp nul).resolve_left (Ne.symm zero)
      simpa [cstr, zero] using ih later

theorem cstr_isPrefix (s : Str) : cstr s <+: s := List.takeWhile_prefix _

theorem length_cstr_le (s : Str) : (cstr s).length ≤ s.length := (cstr_isPrefix s).length_le

theorem strcspn_le (s reject : Str) : strcspn s reject ≤ s.length :=
  (List.takeWhile_prefix _).length_le

theorem no_nul_cstr (s : Str) : 0 ∉ cstr s := fun member => by
  simpa using List.mem_takeWhile_imp member

theorem cstr_split {s : Str} (nul : 0 ∈ s) : ∃ t, s = cstr s ++ 0 :: t := by
  induction s with
  | nil => simp at nul
  | cons c s ih =>
    by_cases zero : c = 0
    · exact ⟨s, by simp [zero]⟩
    · obtain ⟨t, split⟩ := ih ((List.mem_cons.mp nul).resolve_left (Ne.symm zero))
      exact ⟨t, by simpa [cstr, zero] using split⟩

theorem cstr_length_lt {s : Str} (nul : 0 ∈ s) : (cstr s).length < s.length := by
  obtain ⟨t, split⟩ := cstr_split nul
  have size := congrArg List.length split
  rw [List.length_append, List.length_cons] at size
  omega

/-- Cutting a string at the first byte of a set. -/
theorem take_strcspn_stop {s t reject : Str} (pass : ∀ c ∈ s, c ∉ reject)
    (stop : ∀ c ∈ t.head?, c ∈ reject) : (s ++ t).take (strcspn (s ++ t) reject) = s := by
  rw [take_strcspn]
  exact takeWhile_append_stop (by simpa using pass) (by simpa using stop)

theorem drop_strcspn_stop {s t reject : Str} (pass : ∀ c ∈ s, c ∉ reject)
    (stop : ∀ c ∈ t.head?, c ∈ reject) : (s ++ t).drop (strcspn (s ++ t) reject) = t := by
  rw [drop_strcspn]
  exact dropWhile_append_stop (by simpa using pass) (by simpa using stop)

theorem strspn_stop {s t accept : Str} (pass : ∀ c ∈ s, c ∈ accept)
    (stop : ∀ c ∈ t.head?, c ∉ accept) : strspn (s ++ t) accept = s.length := by
  have taken : (s ++ t).takeWhile (· ∈ accept) = s :=
    takeWhile_append_stop (by simpa using pass) (by simpa using stop)
  rw [strspn, taken]

theorem strcspn_stop {s t reject : Str} (pass : ∀ c ∈ s, c ∉ reject)
    (stop : ∀ c ∈ t.head?, c ∈ reject) : strcspn (s ++ t) reject = s.length := by
  have taken : (s ++ t).takeWhile (· ∉ reject) = s :=
    takeWhile_append_stop (by simpa using pass) (by simpa using stop)
  rw [strcspn, taken]

/-- Skipping the bytes of a set. -/
theorem drop_strspn_stop {s t accept : Str} (pass : ∀ c ∈ s, c ∈ accept)
    (stop : ∀ c ∈ t.head?, c ∉ accept) : (s ++ t).drop (strspn (s ++ t) accept) = t := by
  rw [drop_strspn]
  exact dropWhile_append_stop (by simpa using pass) (by simpa using stop)

theorem dropWhile_head_fails {p : UInt8 → Bool} {s : Str} :
    ∀ c ∈ (s.dropWhile p).head?, p c = false := by
  induction s with
  | nil => simp
  | cons a s ih =>
    by_cases h : p a = true
    · simpa [h] using ih
    · intro c hc
      have : a = c := by simpa [h] using hc
      simpa [← this] using h

/-- Conditions that agree on the bytes of a string drop the same of it. -/
theorem dropWhile_agree {p q : UInt8 → Bool} {s : Str} (agree : ∀ c ∈ s, p c = q c) :
    s.dropWhile p = s.dropWhile q := by
  induction s with
  | nil => rfl
  | cons c s ih =>
    rw [List.dropWhile_cons, List.dropWhile_cons, agree c (by simp),
      ih fun b member => agree b (by simp [member])]

theorem length_dropWhile_le (p : UInt8 → Bool) (s : Str) :
    (s.dropWhile p).length ≤ s.length :=
  (List.dropWhile_sublist p).length_le

/-- A byte that only the second part has can only come first when the first part
is dropped. -/
theorem length_dropWhile_append_le {p : UInt8 → Bool} {front tail : Str} {c : UInt8}
    (first : ((front ++ tail).dropWhile p).head? = some c) (apart : c ∉ front) :
    ((front ++ tail).dropWhile p).length ≤ tail.length := by
  rw [List.dropWhile_append] at first ⊢
  split at first
  next skipped =>
    rw [if_pos skipped]
    exact length_dropWhile_le p tail
  next stopped =>
    obtain ⟨b, more, cons⟩ := List.exists_cons_of_ne_nil (mt List.isEmpty_iff.mpr stopped)
    rw [cons] at first
    obtain rfl : b = c := by simpa using first
    have member : b ∈ front.dropWhile p := by
      rw [cons]
      exact .head _
    exact absurd ((List.dropWhile_sublist p).mem member) apart

/-- Cutting a string does not change the first byte that is left of it. -/
theorem dropWhile_head_append (p : UInt8 → Bool) (s t : Str) :
    s.dropWhile p = [] ∨ (s.dropWhile p).head? = ((s ++ t).dropWhile p).head? := by
  rw [List.dropWhile_append]
  cases s.dropWhile p with
  | nil => exact .inl rfl
  | cons c s => exact .inr rfl

theorem strchr_isSome (s : Str) (c : UInt8) : (strchr s c).isSome = true ↔ c ∈ s := by
  induction s with
  | nil => simp [strchr]
  | cons a s ih =>
    by_cases h : a = c
    · simp [strchr, h]
    · simpa [strchr, h, Ne.symm h] using ih

/-- A byte that occurs has a last occurrence. -/
theorem split_at_last {s : Str} {c : UInt8} (member : c ∈ s) :
    ∃ front tail, s = front ++ c :: tail ∧ c ∉ tail := by
  induction s with
  | nil => cases member
  | cons a s ih =>
    by_cases later : c ∈ s
    · obtain ⟨front, tail, rfl, none_after⟩ := ih later
      exact ⟨a :: front, tail, rfl, none_after⟩
    · obtain rfl | later' := List.mem_cons.mp member
      · exact ⟨[], s, rfl, later⟩
      · exact absurd later' later

/-- The last occurrence splits the string: the byte itself, and none of it after. -/
theorem strrchr_append (s t : Str) (c : UInt8) (h : c ∉ t) :
    strrchr (s ++ c :: t) c = some s.length := by
  have none_in_tail : ∀ t : Str, c ∉ t → strrchr t c = none := by
    intro t
    induction t with
    | nil => intro _; rfl
    | cons a t ih =>
      intro h
      simp only [List.mem_cons, not_or] at h
      simp [strrchr, ih h.2, Ne.symm h.1]
  induction s with
  | nil => simp [strrchr, none_in_tail t h]
  | cons a s ih => simp [strrchr, ih]

/-- A text is what stands before its first separator, and a text behind it. -/
@[elab_as_elim]
theorem separated_induction (sep : UInt8) {motive : Str → Prop}
    (last : ∀ piece, sep ∉ piece → motive piece)
    (more : ∀ piece rest, sep ∉ piece → motive rest → motive (piece ++ sep :: rest)) (text : Str) :
    motive text := by
  induction len : text.length using Nat.strongRecOn generalizing text with
  | _ n ih =>
    by_cases member : sep ∈ text
    · obtain ⟨piece, rest, rfl, plain⟩ := List.eq_append_cons_of_mem member
      rw [List.length_append, List.length_cons] at len
      exact more piece rest plain (ih rest.length (by omega) rest rfl)
    · exact last text member

end KexecLoader
