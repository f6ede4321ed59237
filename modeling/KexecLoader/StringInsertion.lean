import KexecLoader.LineEditing

/-!
# Insertion into a string

`kl_strins` keeps what fits of the text with the insertion, and nothing outside of the
buffer changes. What it returns is the size of the text from the offset on.
-/
namespace KexecLoader

/-- `kl_strins` with its result. -/
def klStrinsReq (mem : Memory) (src : Str) (offset size : Nat) : Memory × Nat :=
  (klStrins mem src offset size, (mem.strFrom offset).length + src.length + 1)

/-- The text with the insertion, cut to the buffer, and nothing outside of it. -/
structure Inserted (mem mem' : Memory) (text src : Str) (offset size : Nat) : Prop where
  holds : mem'.Holds ((text.take offset ++ src ++ text.drop offset).take (size - 1))
  within : mem'.Within size
  behind : mem'.bytes.drop size = mem.bytes.drop size

/-! ### Behind the buffer -/

theorem overwrite_behind {bytes bs : Str} {dst size : Nat} (inside : dst + bs.length ≤ size)
    (room : size ≤ bytes.length) : (overwrite bytes dst bs).drop size = bytes.drop size ∧
      size ≤ (overwrite bytes dst bs).length := by
  constructor
  · have front : (bytes.take dst ++ bs).length = dst + bs.length := by
      rw [List.length_append, List.length_take]
      omega
    rw [overwrite, List.drop_append, List.drop_of_length_le (by omega), List.nil_append,
      List.drop_drop, front]
    congr 1
    omega
  · exact room.trans (length_le_overwrite (by omega) bs)

namespace Memory

/-- The buffer is there, and behind it is what was there. -/
def Keeps (mem mem' : Memory) (size : Nat) : Prop :=
  mem'.bytes.drop size = mem.bytes.drop size ∧ size ≤ mem'.bytes.length

variable {mem mem' : Memory} {size : Nat}

theorem Keeps.write (keeps : mem.Keeps mem' size) {dst : Nat} {bs : Str}
    (inside : dst + bs.length ≤ size) : mem.Keeps (mem'.write dst bs) size := by
  obtain ⟨behind, room⟩ := overwrite_behind inside keeps.2
  exact ⟨behind.trans keeps.1, room⟩

theorem Keeps.memmove (keeps : mem.Keeps mem' size) {dst src n : Nat} (inside : dst + n ≤ size) :
    mem.Keeps (mem'.memmove dst src n) size := by
  have short : dst + ((mem'.bytes.drop src).take n).length ≤ size := by
    rw [List.length_take]
    omega
  have step := overwrite_behind short keeps.2
  exact ⟨step.1.trans keeps.1, step.2⟩

end Memory

section
variable {mem : Memory} {text : Str} {size : Nat} (holds : mem.Holds text)
  (short : text.length < size) (room : size ≤ mem.bytes.length) (src : Str) {offset : Nat}
  (inside : offset ≤ text.length)
include holds short room inside

theorem klStrins_keeps : mem.Keeps (klStrins mem src offset size) size := by
  have start : mem.Keeps mem size := ⟨rfl, room⟩
  have dlen : (mem.strFrom offset).length = text.length - offset := by
    rw [holds.strFrom_drop inside, List.length_drop]
  simp only [klStrins, dlen]
  split
  next long =>
    refine start.write ?_
    simp only [List.length_append, List.length_take, List.length_singleton]
    omega
  next fits =>
    split
    next => exact ((start.memmove (by omega)).write (by omega)).write (by simp; omega)
    next => exact ((start.memmove (by omega)).write (by omega)).write (by simp; omega)

variable (within : mem.Within size) (no_nul : 0 ∉ src)
include within no_nul

theorem klStrins_inserted : Inserted mem (klStrins mem src offset size) text src offset size := by
  have parts := List.take_append_drop offset text
  have length : (text.take offset).length = offset := by
    rw [List.length_take, Nat.min_eq_left inside]
  have holds' := holds
  rw [← parts] at holds' short
  have inserted := klStrins_holds holds' src no_nul short room
  have touched := klStrins_touches holds' within short src
  rw [length] at inserted touched
  rw [parts] at short
  exact ⟨inserted, touched, (klStrins_keeps holds short room src inside).1⟩

/-- The text is what it should be in any case, the size only for an insertion at the
start. -/
theorem klStrins_size_iff :
    (Inserted mem (klStrinsReq mem src offset size).1 text src offset size ∧
      (klStrinsReq mem src offset size).2 = text.length + src.length + 1) ↔ offset = 0 := by
  have inserted := klStrins_inserted holds short room src inside within no_nul
  have req : (klStrinsReq mem src offset size).2 = text.length - offset + src.length + 1 := by
    rw [klStrinsReq, holds.strFrom_drop inside, List.length_drop]
  constructor
  · rintro ⟨-, whole⟩
    omega
  · rintro rfl
    exact ⟨inserted, req⟩

end

def sampleBuffer : Memory := ⟨bytes "ab" ++ List.replicate 6 0, []⟩

theorem sampleBuffer_holds : sampleBuffer.Holds (bytes "ab") := ⟨by decide, List.replicate 5 0, rfl⟩

theorem klStrins_size_start :
    Inserted sampleBuffer (klStrinsReq sampleBuffer (bytes "x") 0 8).1 (bytes "ab") (bytes "x") 0 8 ∧
      (klStrinsReq sampleBuffer (bytes "x") 0 8).2 = (bytes "ab").length + (bytes "x").length + 1 :=
  (klStrins_size_iff sampleBuffer_holds (by decide) (by decide) (bytes "x") (Nat.zero_le _)
    (by simp [Memory.Within, sampleBuffer]) (by decide)).mpr rfl

/-- In the middle of the text the bytes in front are not counted. -/
theorem klStrins_size_middle : sampleBuffer.Holds (bytes "ab") ∧
    (klStrinsReq sampleBuffer (bytes "x") 1 8).1.Holds (bytes "axb") ∧
    (klStrinsReq sampleBuffer (bytes "x") 1 8).2 ≠ (bytes "ab").length + (bytes "x").length + 1 := by
  refine ⟨sampleBuffer_holds, ⟨by decide, List.replicate 4 0, by decide⟩, by decide⟩

end KexecLoader
