import KexecLoader.Library.CString

/-!
# Numerals as the C library reads them

The loader is a 32-bit program, so `long` and `size_t` have 32 bits and an
out-of-range numeral saturates there.
-/
namespace KexecLoader

def digitValue (c : UInt8) : Nat := c.toNat - 48

/-- The number a digit string spells in a base of at most ten. -/
def numeral (base : Nat) (digits : Str) : Nat :=
  digits.foldl (fun n c => base * n + digitValue c) 0

def isDigitOf (base : Nat) (c : UInt8) : Bool := isdigit c && decide (digitValue c < base)

/-- Skips white space and reads an optional sign: is it minus, and the rest. -/
def readSign (s : Str) : Bool × Str :=
  match s.dropWhile isspace with
  | 45 :: rest => (true, rest)
  | 43 :: rest => (false, rest)
  | rest => (false, rest)

/-- `strtoul(s, NULL, base)`. -/
def strtoul (base : Nat) (s : Str) : Nat :=
  let magnitude := numeral base ((readSign s).2.takeWhile (isDigitOf base))
  if 2 ^ 32 ≤ magnitude then 2 ^ 32 - 1
  else if (readSign s).1 then (2 ^ 32 - magnitude) % 2 ^ 32
  else magnitude

def atoi (s : Str) : Int :=
  let magnitude := numeral 10 ((readSign s).2.takeWhile (isDigitOf 10))
  if (readSign s).1 then max (-(magnitude : Int)) (-2 ^ 31)
  else min (magnitude : Int) (2 ^ 31 - 1)

/-- The digits of a number in a base of at most ten. -/
def numeralDigits (base n : Nat) : Str := (Nat.toDigits base n).map Char.toUInt8

/-- `%d` for a number that is not negative. -/
def decimal (n : Nat) : Str := numeralDigits 10 n

/-- `%d` of `sscanf`: the number and what follows it. -/
def scanInt (s : Str) : Option (Int × Str) :=
  if (readSign s).2.head?.any isdigit then
    some (atoi s, (readSign s).2.dropWhile isdigit)
  else none

/-! ### Writing a number and reading it back -/

section
variable {base : Nat} (two_le : 1 < base) (le_ten : base ≤ 10)
include two_le le_ten

theorem digitChar_byte {d : Nat} (small : d < base) :
    (Nat.digitChar d).toUInt8.toNat = 48 + d := by
  have all : ∀ d < 10, (Nat.digitChar d).toUInt8.toNat = 48 + d := by decide
  exact all d (by omega)

omit le_ten in
theorem mem_toDigits (n : Nat) : ∀ c ∈ Nat.toDigits base n, ∃ d < base, c = Nat.digitChar d := by
  -- all digits but the last are those of the quotient
  induction n using Nat.strongRecOn with
  | _ n ih =>
    rw [Nat.toDigits_eq_if two_le]
    split
    next small => simpa using ⟨n, small, rfl⟩
    next large =>
      intro c member
      obtain member | member := List.mem_append.mp member
      · exact ih (n / base) (Nat.div_lt_self (by omega) two_le) c member
      · exact ⟨n % base, Nat.mod_lt n (by omega), by simpa using member⟩

theorem numeralDigits_isDigitOf (n : Nat) : ∀ c ∈ numeralDigits base n, isDigitOf base c = true := by
  intro c member
  obtain ⟨char, written, rfl⟩ := List.mem_map.mp member
  obtain ⟨d, small, rfl⟩ := mem_toDigits two_le n char written
  have value := digitChar_byte two_le le_ten small
  simp only [isDigitOf, isdigit, digitValue, Bool.and_eq_true, decide_eq_true_eq,
    UInt8.le_iff_toNat_le, value]
  refine ⟨⟨?_, ?_⟩, by omega⟩
  · exact Nat.le_add_right 48 d
  · show 48 + d ≤ 57
    omega

theorem numeral_numeralDigits (n : Nat) : numeral base (numeralDigits base n) = n := by
  -- the bytes are worth what the characters are, digit by digit
  have step : ∀ (chars : List Char), (∀ c ∈ chars, ∃ d < base, c = Nat.digitChar d) →
      ∀ init, (chars.map Char.toUInt8).foldl (fun n c => base * n + digitValue c) init =
        Nat.ofDigitChars base chars init := by
    intro chars
    induction chars with
    | nil => exact fun _ _ => by simp
    | cons c chars ih =>
      intro all init
      obtain ⟨d, small, rfl⟩ := all c (by simp)
      rw [List.map_cons, List.foldl_cons, ih (fun c member => all c (by simp [member])),
        Nat.ofDigitChars_cons_digitChar_of_lt_ten (by omega), digitValue,
        digitChar_byte two_le le_ten small, Nat.add_sub_cancel_left]
  rw [numeral, numeralDigits, step _ (mem_toDigits two_le n), Nat.ofDigitChars_toDigits two_le le_ten]

end

theorem numeralDigits_ne_nil (base n : Nat) : numeralDigits base n ≠ [] := by
  simp [numeralDigits]

theorem length_numeralDigits_le {base n k : Nat} (two_le : 1 < base) (pos : 0 < k) (small : n < base ^ k) :
    (numeralDigits base n).length ≤ k := by
  rw [numeralDigits, List.length_map]
  exact (Nat.length_toDigits_le_iff two_le pos).mpr small

theorem isDigitOf_isdigit {base : Nat} {c : UInt8} (digit : isDigitOf base c = true) :
    isdigit c = true := by
  simp only [isDigitOf, Bool.and_eq_true] at digit
  exact digit.1

theorem isDigitOf_ten (c : UInt8) : isDigitOf 10 c = isdigit c := by
  cases digit : isdigit c with
  | false => simp [isDigitOf, digit]
  | true =>
    have bounds := (isdigit_iff c).mp digit
    have small : c.toNat - 48 < 10 := by omega
    simp [isDigitOf, digit, digitValue, small]

/-- A numeral that starts with a digit has no white space and no sign. -/
theorem readSign_digit (c : UInt8) (s : Str) (digit : isdigit c = true) :
    readSign (c :: s) = (false, c :: s) := by
  have graphic := isspace_of_isdigit digit
  have bounds := (isdigit_iff c).mp digit
  have not_minus : c ≠ 45 := fun h => by rw [h] at bounds; exact absurd bounds (by decide)
  have not_plus : c ≠ 43 := fun h => by rw [h] at bounds; exact absurd bounds (by decide)
  rw [readSign, List.dropWhile_cons_of_neg (by simp [graphic])]
  split
  next h => exact absurd (List.cons.inj h).1 not_minus
  next h => exact absurd (List.cons.inj h).1 not_plus
  next => rfl

/-- Digits that end where the string or the digits do are read as they stand. -/
theorem readSign_digits {base : Nat} {digits rest : Str} (some_digit : digits ≠ [])
    (digit : ∀ c ∈ digits, isDigitOf base c = true)
    (stop : ∀ c ∈ rest.head?, isDigitOf base c = false) :
    readSign (digits ++ rest) = (false, digits ++ rest) ∧
      (digits ++ rest).takeWhile (isDigitOf base) = digits ∧
      (digits ++ rest).dropWhile (isDigitOf base) = rest := by
  constructor
  · obtain ⟨c, tail, rfl⟩ := List.exists_cons_of_ne_nil some_digit
    exact readSign_digit c _ (isDigitOf_isdigit (digit c (by simp)))
  · exact ⟨takeWhile_append_stop digit stop, dropWhile_append_stop digit stop⟩

/-- A field of digits, maybe with zeros in front. -/
theorem strtoul_digits {base : Nat} {digits rest : Str} (some_digit : digits ≠ [])
    (digit : ∀ c ∈ digits, isDigitOf base c = true)
    (stop : ∀ c ∈ rest.head?, isDigitOf base c = false) (small : numeral base digits < 2 ^ 32) :
    strtoul base (digits ++ rest) = numeral base digits := by
  obtain ⟨sign, taken, -⟩ := readSign_digits some_digit digit stop
  simp only [strtoul, sign, taken, Bool.false_eq_true, if_false]
  rw [if_neg (by omega)]

/-- White space in front of a number is skipped. -/
theorem strtoul_skip {base : Nat} {blank : Str} (s : Str) (space : ∀ c ∈ blank, isspace c = true) :
    strtoul base (blank ++ s) = strtoul base s := by
  have skipped : readSign (blank ++ s) = readSign s := by
    simp only [readSign, List.dropWhile_append_of_pos space]
  simp only [strtoul, skipped]

section
variable (n : Nat) (rest : Str) (stop : ∀ c ∈ rest.head?, isdigit c = false)
include stop

theorem readSign_numeral {base : Nat} (two_le : 1 < base) (le_ten : base ≤ 10) :
    readSign (numeralDigits base n ++ rest) = (false, numeralDigits base n ++ rest) ∧
      (numeralDigits base n ++ rest).takeWhile (isDigitOf base) = numeralDigits base n ∧
      (numeralDigits base n ++ rest).dropWhile (isDigitOf base) = rest :=
  readSign_digits (numeralDigits_ne_nil base n) (numeralDigits_isDigitOf two_le le_ten n)
    fun c head => by simp [isDigitOf, stop c head]

theorem atoi_decimal (small : n < 2 ^ 31) : atoi (decimal n ++ rest) = n := by
  obtain ⟨sign, taken, -⟩ := readSign_numeral n rest stop (by decide : 1 < 10) (Nat.le_refl 10)
  simp only [atoi, decimal, sign, taken, numeral_numeralDigits (by decide) (Nat.le_refl 10),
    Bool.false_eq_true, if_false]
  omega

theorem scanInt_decimal (small : n < 2 ^ 31) :
    scanInt (decimal n ++ rest) = some ((n : Int), rest) := by
  obtain ⟨sign, taken, left⟩ := readSign_numeral n rest stop (by decide : 1 < 10) (Nat.le_refl 10)
  have same : (isDigitOf 10) = isdigit := funext isDigitOf_ten
  rw [same] at left
  have starts : (numeralDigits 10 n ++ rest).head?.any isdigit = true := by
    obtain ⟨c, digits, cons⟩ := List.exists_cons_of_ne_nil (numeralDigits_ne_nil 10 n)
    have digit := numeralDigits_isDigitOf (by decide) (Nat.le_refl 10) n c (by simp [cons])
    simp [cons, isDigitOf_isdigit digit]
  have value := atoi_decimal n rest stop small
  simp only [decimal] at value ⊢
  simp only [scanInt, sign, starts, value, left, if_true]

end

end KexecLoader
