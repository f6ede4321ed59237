import KexecLoader.Library.CString

/-!
# Memory under a character array

The bytes from the start of an array on, with those that follow it, and the
indexes that were read or written. A string in the array is what stands before
its first NUL.
-/
namespace KexecLoader

structure Memory where
  bytes : Str
  touched : List Nat
deriving DecidableEq

/-- The bytes with `bs` written over those from `dst` on. -/
def overwrite (bytes : Str) (dst : Nat) (bs : Str) : Str :=
  bytes.take dst ++ bs ++ bytes.drop (dst + bs.length)

/-- The string that starts at an index. -/
def Memory.strFrom (mem : Memory) (i : Nat) : Str := cstr (mem.bytes.drop i)

def Memory.write (mem : Memory) (dst : Nat) (bs : Str) : Memory :=
  ⟨overwrite mem.bytes dst bs, mem.touched ++ List.range' dst bs.length⟩

def Memory.memmove (mem : Memory) (dst src n : Nat) : Memory :=
  ⟨overwrite mem.bytes dst ((mem.bytes.drop src).take n),
    mem.touched ++ List.range' src n ++ List.range' dst n⟩

/-- `strlcpy` of a string from elsewhere into `size` bytes. -/
def Memory.strlcpy (mem : Memory) (dst : Nat) (src : Str) (size : Nat) : Memory :=
  mem.write dst (src.take (size - 1) ++ [0])

/-- The array holds a string. -/
structure Memory.Holds (mem : Memory) (text : Str) : Prop where
  no_nul : 0 ∉ text
  stored : ∃ rest, mem.bytes = text ++ 0 :: rest

theorem Memory.Holds.cstr_bytes {mem : Memory} {text : Str} (holds : mem.Holds text) :
    cstr mem.bytes = text := by
  obtain ⟨rest, bytes⟩ := holds.stored
  rw [bytes, cstr_append _ holds.no_nul]
  simp [cstr]

theorem Memory.Holds.strFrom_append {mem : Memory} {before after : Str}
    (holds : mem.Holds (before ++ after)) : mem.strFrom before.length = after := by
  obtain ⟨rest, bytes⟩ := holds.stored
  have no_nul : 0 ∉ after := fun member => holds.no_nul (by simp [member])
  rw [Memory.strFrom, bytes, List.append_assoc, List.drop_left, cstr_append _ no_nul]
  simp [cstr]

/-- The string in the array. -/
theorem Memory.Holds.strFrom_zero {mem : Memory} {text : Str} (holds : mem.Holds text) :
    mem.strFrom 0 = text := holds.cstr_bytes

theorem Memory.Holds.strFrom_drop {mem : Memory} {text : Str} (holds : mem.Holds text) {k : Nat}
    (inside : k ≤ text.length) : mem.strFrom k = text.drop k := by
  have parts : mem.Holds (text.take k ++ text.drop k) := by rwa [List.take_append_drop]
  have string := parts.strFrom_append
  rwa [List.length_take, Nat.min_eq_left inside] at string

/-- Bytes that are where they are written over. -/
theorem overwrite_append (before : Str) {old bs : Str} (after : Str) (same : old.length = bs.length) :
    overwrite (before ++ (old ++ after)) before.length bs = before ++ (bs ++ after) := by
  unfold overwrite
  rw [List.take_left, ← List.drop_drop, List.drop_left, ← same, List.drop_left,
    List.append_assoc]

/-- Nothing is lost behind the bytes. -/
theorem length_le_overwrite {bytes : Str} {dst : Nat} (inside : dst ≤ bytes.length) (bs : Str) :
    bytes.length ≤ (overwrite bytes dst bs).length := by
  simp only [overwrite, List.length_append, List.length_take, List.length_drop]
  omega

namespace Memory

variable {mem : Memory} {before after : Str}

/-- A string written over the rest of another, with its NUL. -/
theorem Holds.write_tail (holds : mem.Holds (before ++ after)) (s : Str) (no_nul : 0 ∉ s) :
    (mem.write before.length (s ++ [0])).Holds (before ++ s) := by
  obtain ⟨rest, bytes⟩ := holds.stored
  have kept : 0 ∉ before := fun member => holds.no_nul (by simp [member])
  refine ⟨by simp [kept, no_nul], ?_⟩
  refine ⟨mem.bytes.drop (before.length + (s ++ [0]).length), ?_⟩
  have taken : mem.bytes.take before.length = before := by
    rw [bytes, List.append_assoc, List.take_left]
  simp only [write, overwrite, taken]
  simp

/-- A string written at the start. -/
theorem Holds.write_start {text : Str} (holds : mem.Holds text) (s : Str) (no_nul : 0 ∉ s) :
    (mem.write 0 (s ++ [0])).Holds s := by
  rw [← List.nil_append text] at holds
  exact holds.write_tail s no_nul

/-- Moving what is behind a byte over it, the NUL included. -/
theorem Holds.memmove_erase {x : UInt8} {n : Nat} (holds : mem.Holds (before ++ x :: after))
    (enough : after.length + 1 ≤ n) :
    (mem.memmove before.length (before.length + 1) n).Holds (before ++ after) := by
  obtain ⟨rest, bytes⟩ := holds.stored
  obtain ⟨k, rfl⟩ : ∃ k, n = after.length + (k + 1) := ⟨n - after.length - 1, by omega⟩
  have no_nul := holds.no_nul
  simp only [List.mem_append, List.mem_cons, not_or] at no_nul
  have moved : (mem.bytes.drop (before.length + 1)).take (after.length + (k + 1)) =
      after ++ 0 :: rest.take k := by
    rw [bytes, List.append_assoc, ← List.drop_drop, List.drop_left, List.cons_append,
      List.drop_succ_cons, List.drop_zero, List.take_length_add_append, List.take_succ_cons]
  have taken : mem.bytes.take before.length = before := by
    rw [bytes, List.append_assoc, List.take_left]
  refine ⟨by simp [no_nul], ?_⟩
  simp only [memmove, moved, overwrite, taken, List.append_assoc, List.cons_append]
  exact ⟨_, rfl⟩

/-- Opening a gap, filling it and ending the string behind the bytes that were
moved. -/
theorem Holds.fill_gap_bytes {n : Nat} (holds : mem.Holds (before ++ after)) (s : Str)
    (moved : n ≤ after.length) (room : before.length + s.length + n < mem.bytes.length) :
    ∃ rest, (((mem.memmove (before.length + s.length) before.length n).write before.length s).write
      (before.length + s.length + n) [0]).bytes = before ++ (s ++ (after.take n ++ 0 :: rest)) := by
  obtain ⟨rest, bytes⟩ := holds.stored
  have chunk : (mem.bytes.drop before.length).take n = after.take n := by
    rw [bytes, List.append_assoc, List.drop_left, List.take_append_of_le_length moved]
  -- the bytes behind the string as the gap, the place of the bytes moved, and the rest
  obtain ⟨gap, place, z, tail, shape, gap_len, place_len⟩ : ∃ gap place z tail,
      mem.bytes = before ++ (gap ++ (place ++ z :: tail)) ∧ gap.length = s.length ∧
        place.length = n := by
    have long : s.length + n < (after ++ 0 :: rest).length := by
      rw [bytes, List.append_assoc, List.length_append] at room
      omega
    obtain ⟨z, tail, at_end⟩ := List.exists_cons_of_ne_nil
      (show (after ++ 0 :: rest).drop (s.length + n) ≠ [] by
        rw [ne_eq, List.drop_eq_nil_iff]
        omega)
    refine ⟨(after ++ 0 :: rest).take s.length, ((after ++ 0 :: rest).drop s.length).take n, z,
      tail, ?_, by rw [List.length_take]; omega, by rw [List.length_take, List.length_drop]; omega⟩
    rw [bytes, List.append_assoc, ← at_end, ← List.drop_drop, List.take_append_drop,
      List.take_append_drop]
  have taken_len : (after.take n).length = n := by rw [List.length_take]; omega
  have first : overwrite mem.bytes (before.length + s.length) (after.take n) =
      before ++ (gap ++ (after.take n ++ z :: tail)) := by
    have step := overwrite_append (before ++ gap) (z :: tail)
      (place_len.trans taken_len.symm)
    rw [List.length_append, gap_len, List.append_assoc, List.append_assoc] at step
    rw [shape, step]
  have second := overwrite_append before (after.take n ++ z :: tail) gap_len
  have third := overwrite_append (before ++ (s ++ after.take n)) tail
    (show [z].length = ([0] : Str).length from rfl)
  rw [List.length_append, List.length_append, taken_len, ← Nat.add_assoc] at third
  refine ⟨tail, ?_⟩
  simp only [memmove, write, chunk, first, second]
  simpa using third

theorem Holds.fill_gap {n : Nat} (holds : mem.Holds (before ++ after)) (s : Str) (no_nul : 0 ∉ s)
    (moved : n ≤ after.length) (room : before.length + s.length + n < mem.bytes.length) :
    (((mem.memmove (before.length + s.length) before.length n).write before.length s).write
      (before.length + s.length + n) [0]).Holds (before ++ (s ++ after.take n)) := by
  have kept := holds.no_nul
  simp only [List.mem_append, not_or] at kept
  obtain ⟨rest, bytes⟩ := holds.fill_gap_bytes s moved room
  refine ⟨?_, rest, by rw [bytes]; simp⟩
  simp only [List.mem_append, not_or]
  exact ⟨kept.1, no_nul, fun member => kept.2 (List.mem_of_mem_take member)⟩

theorem length_le_write {dst : Nat} (inside : dst ≤ mem.bytes.length) (bs : Str) :
    mem.bytes.length ≤ (mem.write dst bs).bytes.length := length_le_overwrite inside bs

theorem length_le_memmove {dst : Nat} (inside : dst ≤ mem.bytes.length) (src n : Nat) :
    mem.bytes.length ≤ (mem.memmove dst src n).bytes.length := length_le_overwrite inside _

/-! ### Staying inside the array -/

/-- Only the first `size` bytes were read or written. -/
def Within (mem : Memory) (size : Nat) : Prop := ∀ i ∈ mem.touched, i < size

theorem range_within (start n size : Nat) :
    (∀ i ∈ List.range' start n, i < size) ↔ n = 0 ∨ start + n ≤ size := by
  simp only [List.mem_range'_1]
  constructor
  · intro inside
    by_cases none : n = 0
    · exact .inl none
    · have last := inside (start + n - 1) (by omega)
      omega
  · rintro (rfl | fits) i member <;> omega

theorem within_write {size dst : Nat} {bs : Str} : (mem.write dst bs).Within size ↔
    mem.Within size ∧ (bs.length = 0 ∨ dst + bs.length ≤ size) := by
  simp only [Within, write, List.mem_append, or_imp, forall_and, range_within]

theorem within_memmove {size dst src n : Nat} : (mem.memmove dst src n).Within size ↔
    mem.Within size ∧ (n = 0 ∨ src + n ≤ size) ∧ (n = 0 ∨ dst + n ≤ size) := by
  simp only [Within, memmove, List.mem_append, or_imp, forall_and, range_within, and_assoc]

end Memory

end KexecLoader
