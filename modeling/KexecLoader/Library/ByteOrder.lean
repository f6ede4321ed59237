import KexecLoader.Library.CString
import Mathlib.Data.Nat.Digits.Defs

/-!
# Numbers in memory

A number of several bytes has its least significant byte first or last.
-/
namespace KexecLoader

inductive ByteOrder where
  | lsb
  | msb
deriving DecidableEq

namespace ByteOrder

/-- The number that bytes stand for. -/
def number : ByteOrder → Str → Nat
  | lsb, bs => Nat.ofDigits 256 (bs.map UInt8.toNat)
  | msb, bs => Nat.ofDigits 256 (bs.reverse.map UInt8.toNat)

theorem number_reverse (bs : Str) : msb.number bs.reverse = lsb.number bs := by
  simp only [number, List.reverse_reverse]

/-- The order that is not this one. -/
def other : ByteOrder → ByteOrder
  | lsb => msb
  | msb => lsb

theorem number_other (order : ByteOrder) (bs : Str) :
    order.other.number bs = order.number bs.reverse := by
  cases order
  · rfl
  · exact (number_reverse bs).symm

theorem lsb_append (bs cs : Str) :
    lsb.number (bs ++ cs) = lsb.number bs + 256 ^ bs.length * lsb.number cs := by
  simp only [number, List.map_append, Nat.ofDigits_append, List.length_map]

theorem msb_append (bs cs : Str) :
    msb.number (bs ++ cs) = msb.number cs + 256 ^ cs.length * msb.number bs := by
  simp only [number, List.reverse_append, List.map_append, Nat.ofDigits_append, List.length_map,
    List.length_reverse]

theorem number_lt (order : ByteOrder) (bs : Str) : order.number bs < 256 ^ bs.length := by
  have digits (bs : Str) : ∀ d ∈ bs.map UInt8.toNat, d < 256 := by
    intro d member
    obtain ⟨b, -, rfl⟩ := List.mem_map.mp member
    exact b.toNat_lt
  cases order with
  | lsb => simpa [number] using Nat.ofDigits_lt_base_pow_length (by decide) (digits bs)
  | msb => simpa [number] using Nat.ofDigits_lt_base_pow_length (by decide) (digits bs.reverse)

/-- The first bytes of a number are its lower half, or its upper one. -/
theorem lsb_take (bs : Str) (n : Nat) (inside : n ≤ bs.length) :
    lsb.number (bs.take n) = lsb.number bs % 256 ^ n := by
  have split := lsb_append (bs.take n) (bs.drop n)
  have small := number_lt lsb (bs.take n)
  rw [List.take_append_drop, List.length_take, Nat.min_eq_left inside] at split
  rw [List.length_take, Nat.min_eq_left inside] at small
  rw [split, Nat.add_mul_mod_self_left, Nat.mod_eq_of_lt small]

theorem msb_take (bs : Str) (n : Nat) :
    msb.number (bs.take n) = msb.number bs / 256 ^ (bs.length - n) := by
  have split := msb_append (bs.take n) (bs.drop n)
  have small := number_lt msb (bs.drop n)
  rw [List.take_append_drop, List.length_drop] at split
  rw [List.length_drop] at small
  rw [split, Nat.add_mul_div_left _ _ (Nat.pow_pos (by decide)), Nat.div_eq_of_lt small, Nat.zero_add]

end ByteOrder

end KexecLoader
