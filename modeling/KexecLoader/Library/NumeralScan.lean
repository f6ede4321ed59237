import KexecLoader.Library.Numeral
import Mathlib.Data.List.Induction
import Mathlib.Tactic.Ring

/-!
# How a numeral is scanned

White space, a sign, digits: at each byte of a string the numeral has not begun, goes on,
or is over, and what is read of the string depends on the bytes behind only as far as it
goes on.
-/
namespace KexecLoader

/-- The sign and the number in front of a string. -/
def readNumber (base : Nat) (s : Str) : Bool × Nat :=
  ((readSign s).1, numeral base ((readSign s).2.takeWhile (isDigitOf base)))

/-- A number with its sign as an unsigned long. -/
def unsignedLong (number : Bool × Nat) : Nat :=
  if 2 ^ 32 ≤ number.2 then 2 ^ 32 - 1
  else if number.1 then (2 ^ 32 - number.2) % 2 ^ 32
  else number.2

theorem strtoul_eq (base : Nat) (s : Str) : strtoul base s = unsignedLong (readNumber base s) := rfl

/-- How many bytes stand in front of the end of the numeral. -/
def numeralEnd (base : Nat) (s : Str) : Nat :=
  s.length - ((readSign s).2.dropWhile (isDigitOf base)).length

/-! ### Digits -/

theorem numeral_append (base : Nat) (xs ys : Str) :
    numeral base (xs ++ ys) = numeral base xs * base ^ ys.length + numeral base ys := by
  have start (n : Nat) : ys.foldl (fun n c => base * n + digitValue c) n =
      n * base ^ ys.length + numeral base ys := by
    unfold numeral
    induction ys generalizing n with
    | nil => simp
    | cons y ys ih =>
      rw [List.foldl_cons, List.foldl_cons, ih, ih (base * 0 + _), List.length_cons, Nat.pow_succ]
      ring
  rw [numeral, List.foldl_append, start]
  rfl

theorem numeral_singleton (base : Nat) (c : UInt8) : numeral base [c] = digitValue c := by
  simp [numeral]

theorem numeral_cons (base : Nat) (c : UInt8) (digits : Str) : numeral base (c :: digits) =
    digitValue c * base ^ digits.length + numeral base digits := by
  rw [← List.singleton_append, numeral_append, numeral_singleton]

theorem numeral_lt {base : Nat} {digits : Str} (digit : ∀ c ∈ digits, isDigitOf base c = true) :
    numeral base digits < base ^ digits.length := by
  induction digits using List.reverseRecOn with
  | nil => simp [numeral]
  | append_singleton digits c ih =>
    have front := ih fun d member => digit d (by simp [member])
    have last : digitValue c < base := by
      have := digit c (by simp)
      simp only [isDigitOf, Bool.and_eq_true, decide_eq_true_eq] at this
      exact this.2
    rw [numeral_append, numeral_singleton, List.length_append, Nat.pow_add, List.length_singleton,
      Nat.pow_one]
    calc numeral base digits * base + digitValue c
        < (numeral base digits + 1) * base := by
          rw [Nat.add_mul]
          omega
      _ ≤ base ^ digits.length * base := Nat.mul_le_mul_right base front

/-! ### One byte after another -/

/-- White space, a sign, and digits; without a sign there is at least one digit. -/
def Begins (base : Nat) (neg : Bool) (digits front : Str) : Prop :=
  ∃ blank sign, front = blank ++ (sign ++ digits) ∧ (∀ c ∈ blank, isspace c = true) ∧
    (∀ c ∈ digits, isDigitOf base c = true) ∧
    (sign = [45] ∧ neg = true ∨ sign = [43] ∧ neg = false ∨ sign = [] ∧ neg = false ∧ digits ≠ [])

theorem readSign_minus (s : Str) : readSign (45 :: s) = (true, s) := by
  rw [readSign, List.dropWhile_cons_of_neg (by decide)]
  rfl

theorem readSign_plus (s : Str) : readSign (43 :: s) = (false, s) := by
  rw [readSign, List.dropWhile_cons_of_neg (by decide)]
  rfl

theorem readSign_blank {blank : Str} (space : ∀ c ∈ blank, isspace c = true) (s : Str) :
    readSign (blank ++ s) = readSign s := by
  simp only [readSign, List.dropWhile_append_of_pos space]

/-- Any other byte ends the numeral before it has begun. -/
theorem readSign_stop {c : UInt8} (s : Str) (graphic : isspace c = false) (minus : c ≠ 45)
    (plus : c ≠ 43) : readSign (c :: s) = (false, c :: s) := by
  rw [readSign, List.dropWhile_cons_of_neg (by simp [graphic])]
  split
  next h => exact absurd (List.cons.inj h).1 minus
  next h => exact absurd (List.cons.inj h).1 plus
  next => rfl

section
variable {base : Nat} {neg : Bool} {digits front : Str}

theorem Begins.readSign (begins : Begins base neg digits front) (s : Str) :
    readSign (front ++ s) = (neg, digits ++ s) := by
  obtain ⟨blank, sign, rfl, space, digit, ⟨rfl, rfl⟩ | ⟨rfl, rfl⟩ | ⟨rfl, rfl, some_digit⟩⟩ := begins
  · rw [List.append_assoc, readSign_blank space]
    exact readSign_minus _
  · rw [List.append_assoc, readSign_blank space]
    exact readSign_plus _
  · rw [List.append_assoc, readSign_blank space, List.nil_append]
    obtain ⟨c, digits, rfl⟩ := List.exists_cons_of_ne_nil some_digit
    exact readSign_digit c _ (isDigitOf_isdigit (digit c (by simp)))

theorem Begins.digit (begins : Begins base neg digits front) : ∀ c ∈ digits, isDigitOf base c = true := by
  obtain ⟨blank, sign, rfl, space, digit, -⟩ := begins
  exact digit

/-- What is read of a numeral that has begun. -/
theorem Begins.readNumber (begins : Begins base neg digits front) (s : Str) :
    readNumber base (front ++ s) = (neg, numeral base (digits ++ s.takeWhile (isDigitOf base))) := by
  rw [KexecLoader.readNumber, begins.readSign, List.takeWhile_append_of_pos begins.digit]

theorem Begins.numeralEnd (begins : Begins base neg digits front) (s : Str) :
    numeralEnd base (front ++ s) = front.length + (s.takeWhile (isDigitOf base)).length := by
  have parts := congrArg List.length (List.takeWhile_append_dropWhile (p := isDigitOf base) (l := s))
  rw [List.length_append] at parts
  rw [KexecLoader.numeralEnd, begins.readSign, List.dropWhile_append_of_pos begins.digit,
    List.length_append]
  omega

theorem Begins.next (begins : Begins base neg digits front) {c : UInt8}
    (digit : isDigitOf base c = true) : Begins base neg (digits ++ [c]) (front ++ [c]) := by
  obtain ⟨blank, sign, rfl, space, digits_all, signs⟩ := begins
  refine ⟨blank, sign, by simp only [List.append_assoc], space, ?_,
    signs.imp_right (Or.imp_right fun ⟨unsigned, plus, _⟩ => ⟨unsigned, plus, by simp⟩)⟩
  intro d member
  obtain member | same := List.mem_append.mp member
  · exact digits_all d member
  · rwa [List.mem_singleton.mp same]

/-- What a front of a string says about the numeral: it has not begun, it has, or it is
over. -/
theorem scan_cases (base : Nat) (front : Str) :
    (∀ c ∈ front, isspace c = true) ∨ (∃ neg digits, Begins base neg digits front) ∨
      ∃ number, ∀ s, KexecLoader.readNumber base (front ++ s) = number := by
  induction front using List.reverseRecOn with
  | nil => exact .inl (by simp)
  | append_singleton front c ih =>
    obtain space | ⟨neg, digits, begins⟩ | ⟨number, ended⟩ := ih
    · by_cases blank : isspace c = true
      · refine .inl fun d member => ?_
        obtain member | same := List.mem_append.mp member
        · exact space d member
        · rwa [List.mem_singleton.mp same]
      by_cases minus : c = 45
      · exact .inr (.inl ⟨true, [], front, [45], by simp [minus], space, by simp, .inl ⟨rfl, rfl⟩⟩)
      by_cases plus : c = 43
      · exact .inr (.inl ⟨false, [], front, [43], by simp [plus], space, by simp,
          .inr (.inl ⟨rfl, rfl⟩)⟩)
      by_cases digit : isDigitOf base c = true
      · exact .inr (.inl ⟨false, [c], front, [], by simp, space, by simp [digit],
          .inr (.inr ⟨rfl, rfl, by simp⟩)⟩)
      · refine .inr (.inr ⟨(false, 0), fun s => ?_⟩)
        rw [List.append_assoc, List.singleton_append, KexecLoader.readNumber, readSign_blank space,
          readSign_stop s (by simpa using blank) minus plus,
          List.takeWhile_cons_of_neg digit]
        rfl
    · by_cases digit : isDigitOf base c = true
      · exact .inr (.inl ⟨neg, _, begins.next digit⟩)
      · refine .inr (.inr ⟨(neg, numeral base digits), fun s => ?_⟩)
        rw [List.append_assoc, List.singleton_append, begins.readNumber,
          List.takeWhile_cons_of_neg digit, List.append_nil]
    · refine .inr (.inr ⟨number, fun s => ?_⟩)
      rw [List.append_assoc]
      exact ended _

end

/-- A number that takes two digits ends in a digit behind another one. -/
theorem readNumber_last {base : Nat} {s : Str} (pos : 0 < base)
    (large : base ≤ (readNumber base s).2) :
    ∃ front digits c rest, s = front ++ c :: rest ∧ Begins base (readNumber base s).1 digits front ∧
      isDigitOf base c = true ∧ rest.takeWhile (isDigitOf base) = [] := by
  -- in front of the digits there is white space, and maybe a sign
  obtain ⟨blank, sign, split, space, signs⟩ : ∃ blank sign, s = blank ++ (sign ++ (readSign s).2) ∧
      (∀ c ∈ blank, isspace c = true) ∧ (sign = [45] ∧ (readSign s).1 = true ∨
        sign = [43] ∧ (readSign s).1 = false ∨ sign = [] ∧ (readSign s).1 = false) := by
    refine ⟨s.takeWhile isspace, ?_⟩
    have parts := (List.takeWhile_append_dropWhile (p := isspace) (l := s)).symm
    have space : ∀ c ∈ s.takeWhile isspace, isspace c = true := fun c => List.mem_takeWhile_imp
    unfold readSign
    split
    next rest behind => exact ⟨[45], by rwa [behind] at parts, space, .inl ⟨rfl, rfl⟩⟩
    next rest behind => exact ⟨[43], by rwa [behind] at parts, space, .inr (.inl ⟨rfl, rfl⟩)⟩
    next rest => exact ⟨[], parts, space, .inr (.inr ⟨rfl, rfl⟩)⟩
  have digits := List.takeWhile_append_dropWhile (p := isDigitOf base) (l := (readSign s).2)
  have digit : ∀ c ∈ (readSign s).2.takeWhile (isDigitOf base), isDigitOf base c = true :=
    fun c => List.mem_takeWhile_imp
  have stop : ((readSign s).2.dropWhile (isDigitOf base)).takeWhile (isDigitOf base) = [] := by
    cases ended : (readSign s).2.dropWhile (isDigitOf base) with
    | nil => rfl
    | cons c rest =>
      have := List.head?_dropWhile_not (isDigitOf base) (readSign s).2
      rw [ended] at this
      exact List.takeWhile_cons_of_neg (by simpa using this)
  rw [readNumber] at large ⊢
  dsimp only at large ⊢
  generalize (readSign s).2.takeWhile (isDigitOf base) = taken at *
  generalize (readSign s).2.dropWhile (isDigitOf base) = rest at *
  rw [← digits] at split
  cases taken using List.reverseRecOn with
  | nil =>
    rw [numeral, List.foldl_nil] at large
    omega
  | append_singleton taken c =>
    have last := digit c (by simp)
    have value : digitValue c < base := by
      simp only [isDigitOf, Bool.and_eq_true, decide_eq_true_eq] at last
      exact last.2
    have before : taken ≠ [] := by
      rintro rfl
      rw [List.nil_append, numeral_singleton] at large
      omega
    refine ⟨blank ++ (sign ++ taken), taken, c, rest, by simpa using split, ?_, last, stop⟩
    exact ⟨blank, sign, rfl, space, fun d member => digit d (by simp [member]),
      signs.imp_right (Or.imp_right fun plus => ⟨plus.1, plus.2, before⟩)⟩

/-- A NUL ends a numeral like the end of the string. -/
theorem readNumber_cstr (base : Nat) (s : Str) : readNumber base (cstr s) = readNumber base s := by
  by_cases nul : 0 ∈ s
  · obtain ⟨t, split⟩ := cstr_split nul
    have stop : isDigitOf base 0 = false := by simp [isDigitOf, show isdigit 0 = false by decide]
    have same : readNumber base (cstr s ++ []) = readNumber base (cstr s ++ 0 :: t) := by
      obtain space | ⟨neg, digits, begins⟩ | ⟨number, ended⟩ := scan_cases base (cstr s)
      · simp only [readNumber, readSign_blank space, readSign_stop t (by decide : isspace 0 = false)
          (by decide) (by decide), List.takeWhile_cons_of_neg (by simp [stop] : ¬ isDigitOf base 0 = true)]
        rfl
      · rw [begins.readNumber, begins.readNumber,
          List.takeWhile_cons_of_neg (by simp [stop] : ¬ isDigitOf base 0 = true)]
        rfl
      · rw [ended, ended]
    rwa [List.append_nil, ← split] at same
  · rw [cstr_of_no_nul nul]

end KexecLoader
