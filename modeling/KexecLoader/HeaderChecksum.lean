import KexecLoader.TarFormat
import KexecLoader.Library.NumeralScan

/-!
# What the checksum of a header detects

The checksum is read from a field that need not be terminated, so that digits of the next
fields can belong to it. A changed byte changes the sum; the number that is read can change
by as much only when the byte is its last digit.
-/
namespace KexecLoader

/-- The bytes from the checksum field on. -/
def checksumText (stack : Stack) (header : Str) : Str := header.drop checksumOffset ++ stack.behind

/-- The checksum has its last digit in one of the fields behind its own. -/
def RunsOn (stack : Stack) (header : Str) : Prop :=
  (readSign (checksumText stack header)).1 = false ∧
    checksumSize < numeralEnd 8 (checksumText stack header) ∧
    checksumOffset + numeralEnd 8 (checksumText stack header) ≤ headerSize

instance (stack : Stack) (header : Str) : Decidable (RunsOn stack header) :=
  inferInstanceAs (Decidable (_ ∧ _ ∧ _))

theorem testChecksum_iff (stack : Stack) (header : Str) : testChecksum stack header = true ↔
    unsignedLong (readNumber 8 (checksumText stack header)) = checksum header := by
  rw [testChecksum, decide_eq_true_eq, strtoul_eq, headerStr, readNumber_cstr]
  rfl

/-! ### Sums -/

/-- A byte outside of the field is counted once. -/
theorem checksum_byte {front : Str} (back : Str)
    (outside : front.length < checksumOffset ∨ checksumOffset + checksumSize ≤ front.length) :
    ∃ others, ∀ y, checksum (front ++ y :: back) = others + y.toNat := by
  have outside : front.length < 148 ∨ 156 ≤ front.length := outside
  obtain before | behind := outside
  · refine ⟨((front ++ (back.take (147 - front.length) ++ List.replicate checksumSize space ++
      back.drop (155 - front.length))).map UInt8.toNat).sum, fun y => ?_⟩
    have taken : (front ++ y :: back).take 148 = front ++ y :: back.take (147 - front.length) := by
      rw [List.take_append, List.take_of_length_le (by omega),
        show 148 - front.length = (147 - front.length) + 1 by omega, List.take_succ_cons]
    have dropped : (front ++ y :: back).drop 156 = back.drop (155 - front.length) := by
      rw [List.drop_append, List.drop_of_length_le (by omega),
        show 156 - front.length = (155 - front.length) + 1 by omega, List.drop_succ_cons, List.nil_append]
    simp only [checksum, checksumOffset, checksumSize, taken, dropped, List.map_append, List.map_cons,
      List.sum_append, List.sum_cons]
    omega
  · refine ⟨((front.take 148 ++ List.replicate checksumSize space ++
      (front.drop 156 ++ back)).map UInt8.toNat).sum, fun y => ?_⟩
    have taken : (front ++ y :: back).take 148 = front.take 148 :=
      List.take_append_of_le_length (by omega)
    have dropped : (front ++ y :: back).drop 156 = front.drop 156 ++ y :: back :=
      List.drop_append_of_le_length behind
    simp only [checksum, checksumOffset, checksumSize, taken, dropped, List.map_append, List.map_cons,
      List.sum_append, List.sum_cons]
    omega

/-- The blanks of the field alone are worth 256. -/
theorem checksum_ge (header : Str) : 256 ≤ checksum header := by
  simp only [checksum, List.map_append, List.sum_append, List.map_replicate]
  have field : (List.replicate checksumSize space.toNat).sum = 256 := by decide
  omega

/-! ### Numbers -/

/-- A number that is read as a small sum, by its digits. -/
theorem unsignedLong_small {number : Bool × Nat} {sum : Nat} (read : unsignedLong number = sum)
    (pos : 256 ≤ sum) (small : sum ≤ 131072) :
    (number.1 = false ∧ number.2 = sum) ∨ (number.1 = true ∧ number.2 + sum = 2 ^ 32) := by
  obtain ⟨neg, magnitude⟩ := number
  unfold unsignedLong at read
  dsimp only at read ⊢
  split at read
  · omega
  · cases neg with
    | false => exact .inl ⟨rfl, by simpa using read⟩
    | true =>
      rw [if_pos rfl] at read
      refine .inr ⟨rfl, ?_⟩
      by_cases zero : magnitude = 0
      · subst zero
        simp at read
        omega
      · rw [Nat.mod_eq_of_lt (by omega)] at read
        omega

/-- Two numbers of the same sign. -/
theorem unsignedLong_both {neg : Bool} {number number' sum sum' : Nat}
    (read : unsignedLong (neg, number) = sum) (read' : unsignedLong (neg, number') = sum')
    (pos : 256 ≤ sum) (pos' : 256 ≤ sum') (small : sum ≤ 131072) (small' : sum' ≤ 131072) :
    (neg = false ∧ number = sum ∧ number' = sum') ∨
      (neg = true ∧ number + sum = 2 ^ 32 ∧ number' + sum' = 2 ^ 32) := by
  have first := unsignedLong_small read pos small
  have second := unsignedLong_small read' pos' small'
  cases neg with
  | false => exact .inl (by simpa using And.intro first second)
  | true => exact .inr (by simpa using And.intro first second)

theorem isDigitOf_eight {c : UInt8} (digit : isDigitOf 8 c = true) :
    48 ≤ c.toNat ∧ c.toNat < 56 ∧ digitValue c + 48 = c.toNat := by
  simp only [isDigitOf, Bool.and_eq_true, decide_eq_true_eq] at digit
  have bounds := (isdigit_iff c).mp digit.1
  unfold digitValue at digit ⊢
  omega

theorem isspace_bounds {c : UInt8} (blank : isspace c = true) :
    9 ≤ c.toNat ∧ c.toNat ≤ 32 := by
  simp only [isspace, Bool.or_eq_true, decide_eq_true_eq, Bool.and_eq_true,
    UInt8.le_iff_toNat_le] at blank
  obtain rfl | bounds := blank
  · decide
  · have low : (9 : UInt8).toNat = 9 := rfl
    have high : (13 : UInt8).toNat = 13 := rfl
    omega

section
variable (back : Str)

/-- The digits that stand behind a byte. -/
def behindByte : Str := back.takeWhile (isDigitOf 8)

theorem behindByte_lt : numeral 8 (behindByte back) < 8 ^ (behindByte back).length :=
  numeral_lt fun _ => List.mem_takeWhile_imp

/-- How a byte behind white space can lead to a sum: it is worth something in front of the
digits, or it is a minus sign, or it is skipped like the white space before it. -/
inductive FirstByte (y : UInt8) (sum : Nat) : Prop
  | worth (value : Nat) (read : value * 8 ^ (behindByte back).length + numeral 8 (behindByte back) = sum)
      (byte : (y.toNat = 48 + value ∧ value < 8) ∨ (value = 0 ∧ 9 ≤ y.toNat ∧ y.toNat ≤ 43))
  | minus (byte : y.toNat = 45) (read : numeral 8 (behindByte back) + sum = 2 ^ 32)
  | skipped (none_behind : behindByte back = [])
      (read : unsignedLong (readNumber 8 back) = sum)

theorem firstByte {blank : Str} (space : ∀ c ∈ blank, isspace c = true) {y : UInt8} {sum : Nat}
    (read : unsignedLong (readNumber 8 (blank ++ y :: back)) = sum) (pos : 256 ≤ sum)
    (small : sum ≤ 131072) : FirstByte back y sum := by
  rw [readNumber, readSign_blank space, ← readNumber] at read
  by_cases blank_too : isspace y = true
  · have skip : readNumber 8 (y :: back) = readNumber 8 back := by
      rw [readNumber, ← List.singleton_append, readSign_blank (by simpa using blank_too), readNumber]
    rw [skip] at read
    by_cases digits : behindByte back = []
    · exact .skipped digits read
    · -- the digits follow at once, and the byte is worth nothing
      have number : readNumber 8 back = (false, numeral 8 (behindByte back)) := by
        cases back with
        | nil => exact absurd rfl digits
        | cons d rest =>
          have digit : isDigitOf 8 d = true := by
            by_contra other
            exact digits (List.takeWhile_cons_of_neg other)
          rw [readNumber, readSign_digit d rest (isDigitOf_isdigit digit)]
          rfl
      rw [number] at read
      obtain ⟨-, same⟩ | ⟨minus, -⟩ := unsignedLong_small read pos small
      · refine .worth 0 (by rw [Nat.zero_mul, Nat.zero_add]; exact same) (.inr ⟨rfl, ?_⟩)
        have := isspace_bounds blank_too
        omega
      · cases minus
  by_cases minus : y = 45
  · subst minus
    rw [readNumber, readSign_minus] at read
    obtain ⟨plus, -⟩ | ⟨-, same⟩ := unsignedLong_small read pos small
    · cases plus
    · exact .minus rfl same
  by_cases plus : y = 43
  · subst plus
    rw [readNumber, readSign_plus] at read
    obtain ⟨-, same⟩ | ⟨minus, -⟩ := unsignedLong_small read pos small
    · exact .worth 0 (by rw [Nat.zero_mul, Nat.zero_add]; exact same) (.inr ⟨rfl, by decide, by decide⟩)
    · cases minus
  by_cases digit : isDigitOf 8 y = true
  · -- a digit is worth its value at the place in front of those behind it
    rw [readNumber, readSign_digit y back (isDigitOf_isdigit digit), List.takeWhile_cons_of_pos digit,
      numeral_cons] at read
    have bounds := isDigitOf_eight digit
    obtain ⟨-, same⟩ | ⟨minus, -⟩ := unsignedLong_small read pos small
    · exact .worth (digitValue y) same (.inl (by omega))
    · cases minus
  · -- any other byte ends the number before it has begun, and the sum is not that small
    rw [readNumber, readSign_stop back (by simpa using blank_too) minus plus,
      List.takeWhile_cons_of_neg digit] at read
    have zero : (0 : Nat) = sum := read
    omega

/-- Behind a byte that leads to a sum there are two digits at least. -/
theorem digits_worth {value sum : Nat} (bound : value < 8) (pos : 256 ≤ sum)
    (read : value * 8 ^ (behindByte back).length + numeral 8 (behindByte back) = sum) :
    64 ≤ 8 ^ (behindByte back).length := by
  have less := behindByte_lt back
  have few := Nat.mul_le_mul_right (8 ^ (behindByte back).length) (Nat.le_of_lt_succ bound)
  generalize (behindByte back).length = count at *
  rcases count with _ | _ | count
  · omega
  · omega
  · calc 64 = 8 ^ 2 := rfl
      _ ≤ 8 ^ (count + 2) := Nat.pow_le_pow_right (by decide) (by omega)

/-- Two bytes behind white space that lead to sums which differ as they do are the
same. -/
theorem firstByte_same {old new : UInt8} {sum sum' : Nat} (first : FirstByte back old sum)
    (second : FirstByte back new sum') (pos : 256 ≤ sum) (pos' : 256 ≤ sum') (small : sum ≤ 131072)
    (small' : sum' ≤ 131072) (balance : sum' + old.toNat = sum + new.toNat) : old = new := by
  -- bytes are as far apart as their sums
  have apart {old new : UInt8} {sum sum' : Nat} (first : FirstByte back old sum)
      (second : FirstByte back new sum') (pos : 256 ≤ sum) (small : sum ≤ 131072)
      (small' : sum' ≤ 131072) (balance : sum' + old.toNat = sum + new.toNat) : sum' ≤ sum := by
    cases first with
    | worth value read byte =>
      cases second with
      | worth value' read' byte' =>
        have step := digits_worth back (by omega) pos read
        by_contra more
        have larger : value < value' := by
          by_contra less
          have := Nat.mul_le_mul_right (8 ^ (behindByte back).length) (Nat.not_lt.mp less)
          omega
        have := Nat.mul_le_mul_right (8 ^ (behindByte back).length) larger
        rw [Nat.succ_mul] at this
        omega
      | minus byte' read' => omega
      | skipped none_behind read' =>
        rw [none_behind] at read
        simp [numeral] at read
        omega
    | minus byte read =>
      cases second with
      | worth value' read' byte' => omega
      | minus byte' read' => omega
      | skipped none_behind read' =>
        rw [none_behind] at read
        simp [numeral] at read
        omega
    | skipped none_behind read =>
      cases second with
      | worth value' read' byte' =>
        rw [none_behind] at read'
        simp [numeral] at read'
        omega
      | minus byte' read' =>
        rw [none_behind] at read'
        simp [numeral] at read'
        omega
      | skipped none_behind' read' => omega
  have := apart first second pos small small' balance
  have := apart second first pos' small' small balance.symm
  exact UInt8.toNat_inj.mp (by omega)

section
variable {neg : Bool} {digits front : Str} (begins : Begins 8 neg digits front) {y : UInt8}
include begins

theorem readNumber_digit (digit : isDigitOf 8 y = true) : readNumber 8 (front ++ y :: back) =
    (neg, (numeral 8 digits * 8 + digitValue y) * 8 ^ (behindByte back).length +
      numeral 8 (behindByte back)) := by
  rw [begins.readNumber, List.takeWhile_cons_of_pos digit, numeral_append, numeral_cons,
    List.length_cons, Nat.pow_succ, behindByte]
  ring_nf

theorem readNumber_stop (stop : ¬ isDigitOf 8 y = true) :
    readNumber 8 (front ++ y :: back) = (neg, numeral 8 digits) := by
  rw [begins.readNumber, List.takeWhile_cons_of_neg stop, List.append_nil]

/-- A byte that is no digit in the place of one that is takes too much away. -/
theorem digit_stop {old new : UInt8} {sum sum' : Nat} (digit : isDigitOf 8 old = true)
    (stop : ¬ isDigitOf 8 new = true) (read : unsignedLong (readNumber 8 (front ++ old :: back)) = sum)
    (read' : unsignedLong (readNumber 8 (front ++ new :: back)) = sum') (pos : 256 ≤ sum)
    (pos' : 256 ≤ sum') (small : sum ≤ 131072) (small' : sum' ≤ 131072) :
    sum' + old.toNat ≠ sum + new.toNat := by
  rw [readNumber_digit back begins digit] at read
  rw [readNumber_stop back begins stop] at read'
  have long : numeral 8 digits * 8 ≤ (numeral 8 digits * 8 + digitValue old) *
      8 ^ (behindByte back).length :=
    (Nat.le_add_right _ _).trans (Nat.le_mul_of_pos_right _ (Nat.pow_pos (by decide)))
  generalize (numeral 8 digits * 8 + digitValue old) * 8 ^ (behindByte back).length = front at *
  have bounds := isDigitOf_eight digit
  obtain ⟨-, same, same'⟩ | ⟨-, same, same'⟩ := unsignedLong_both read read' pos pos' small small'
  · have := new.toNat_lt
    omega
  · omega

/-- A digit in the place of another one changes the number by more than itself, unless it
is the last and there is no minus sign. -/
theorem digit_digit {old new : UInt8} {sum sum' : Nat} (digit : isDigitOf 8 old = true)
    (digit' : isDigitOf 8 new = true) (read : unsignedLong (readNumber 8 (front ++ old :: back)) = sum)
    (read' : unsignedLong (readNumber 8 (front ++ new :: back)) = sum') (pos : 256 ≤ sum)
    (pos' : 256 ≤ sum') (small : sum ≤ 131072) (small' : sum' ≤ 131072) (other : old ≠ new)
    (balance : sum' + old.toNat = sum + new.toNat) : neg = false ∧ behindByte back = [] := by
  rw [readNumber_digit back begins digit] at read
  rw [readNumber_digit back begins digit'] at read'
  have bounds := isDigitOf_eight digit
  have bounds' := isDigitOf_eight digit'
  have differ : digitValue old ≠ digitValue new := fun same => other (UInt8.toNat_inj.mp (by omega))
  have power : 0 < 8 ^ (behindByte back).length := Nat.pow_pos (by decide)
  rw [Nat.add_mul] at read read'
  generalize numeral 8 digits * 8 * 8 ^ (behindByte back).length = front at *
  -- the larger digit is worth more by at least the power of its place
  have step {d d' : Nat} (less : d < d') : d * 8 ^ (behindByte back).length +
      8 ^ (behindByte back).length * (d' - d) = d' * 8 ^ (behindByte back).length := by
    rw [Nat.mul_comm d, ← Nat.mul_add, Nat.add_sub_cancel' (Nat.le_of_lt less), Nat.mul_comm]
  have last {gap : Nat} (some_gap : 0 < gap) (same : 8 ^ (behindByte back).length * gap = gap) :
      behindByte back = [] := by
    have one : 8 ^ (behindByte back).length = 1 :=
      Nat.eq_of_mul_eq_mul_right some_gap (same.trans (Nat.one_mul _).symm)
    refine List.eq_nil_of_length_eq_zero ?_
    simpa using one
  obtain less | less := Nat.lt_or_gt_of_ne differ
  · have more := step less
    obtain ⟨plus, same, same'⟩ | ⟨-, same, same'⟩ := unsignedLong_both read read' pos pos' small small'
    · exact ⟨plus, last (Nat.sub_pos_of_lt less) (by omega)⟩
    · omega
  · have more := step less
    obtain ⟨plus, same, same'⟩ | ⟨-, same, same'⟩ := unsignedLong_both read read' pos pos' small small'
    · exact ⟨plus, last (Nat.sub_pos_of_lt less) (by omega)⟩
    · omega

end

/-- A byte that can be changed with its sum is the last digit of a number without a minus
sign. -/
theorem changed_byte {front : Str} {old new : UInt8} {sum sum' : Nat}
    (read : unsignedLong (readNumber 8 (front ++ old :: back)) = sum)
    (read' : unsignedLong (readNumber 8 (front ++ new :: back)) = sum') (pos : 256 ≤ sum)
    (pos' : 256 ≤ sum') (small : sum ≤ 131072) (small' : sum' ≤ 131072) (other : old ≠ new)
    (balance : sum' + old.toNat = sum + new.toNat) :
    (readSign (front ++ old :: back)).1 = false ∧
      numeralEnd 8 (front ++ old :: back) = front.length + 1 := by
  have sums : sum ≠ sum' := fun same => other (UInt8.toNat_inj.mp (by omega))
  obtain space | ⟨neg, digits, begins⟩ | ⟨number, ended⟩ := scan_cases 8 front
  · exact absurd (firstByte_same back (firstByte back space read pos small)
      (firstByte back space read' pos' small') pos pos' small small' balance) other
  · by_cases digit : isDigitOf 8 old = true
    · by_cases digit' : isDigitOf 8 new = true
      · obtain ⟨rfl, last⟩ := digit_digit back begins digit digit' read read' pos pos' small small'
          other balance
        rw [begins.readSign, begins.numeralEnd, List.takeWhile_cons_of_pos digit, List.length_cons]
        refine ⟨rfl, ?_⟩
        rw [show back.takeWhile (isDigitOf 8) = [] from last, List.length_nil]
      · exact absurd balance (digit_stop back begins digit digit' read read' pos pos' small small')
    · by_cases digit' : isDigitOf 8 new = true
      · exact absurd balance.symm
          (digit_stop back begins digit' digit read' read pos' pos small' small)
      · rw [readNumber_stop back begins digit] at read
        rw [readNumber_stop back begins digit'] at read'
        exact absurd (read.symm.trans read') sums
  · rw [ended] at read read'
    exact absurd (read.symm.trans read') sums

end

/-! ### Headers -/

/-- The byte of a header at a place behind the field, in the text that is read. -/
theorem checksumText_byte (stack : Stack) {front : Str} (y : UInt8) (tail : Str)
    (behind : checksumOffset ≤ front.length) : checksumText stack (front ++ y :: tail) =
      front.drop checksumOffset ++ y :: (tail ++ stack.behind) := by
  rw [checksumText, List.drop_append_of_le_length behind, List.append_assoc, List.cons_append]

/-- The text in front of the field is not read. -/
theorem checksumText_front (stack : Stack) {front : Str} (y z : UInt8) (tail : Str)
    (before : front.length < checksumOffset) :
    checksumText stack (front ++ y :: tail) = checksumText stack (front ++ z :: tail) := by
  have dropped (y : UInt8) : (front ++ y :: tail).drop checksumOffset =
      tail.drop (checksumOffset - front.length - 1) := by
    rw [List.drop_append, List.drop_of_length_le (Nat.le_of_lt before), List.nil_append,
      show checksumOffset - front.length = (checksumOffset - front.length - 1) + 1 by omega,
      List.drop_succ_cons]
    rfl
  rw [checksumText, checksumText, dropped, dropped]

/-- Any digit will do in the place of the last. -/
theorem last_digit_accepted (stack : Stack) {front digits tail : Str} {c d : UInt8}
    (place : checksumOffset + checksumSize ≤ front.length)
    (begins : Begins 8 false digits (front.drop checksumOffset))
    (last : behindByte (tail ++ stack.behind) = []) (digit : isDigitOf 8 c = true)
    (digit' : isDigitOf 8 d = true) (small : checksum (front ++ c :: tail) ≤ 131072)
    (accepted : testChecksum stack (front ++ c :: tail) = true) :
    testChecksum stack (front ++ d :: tail) = true := by
  obtain ⟨others, counted⟩ := checksum_byte tail (.inr place)
  have ge := checksum_ge (front ++ c :: tail)
  have behind : checksumOffset ≤ front.length := by omega
  have bounds := isDigitOf_eight digit
  have bounds' := isDigitOf_eight digit'
  rw [testChecksum_iff, checksumText_byte stack _ tail behind,
    readNumber_digit _ begins digit, last] at accepted
  rw [testChecksum_iff, checksumText_byte stack _ tail behind, readNumber_digit _ begins digit', last]
  rw [counted] at accepted small ge ⊢
  simp only [List.length_nil, Nat.pow_zero, Nat.mul_one, numeral, List.foldl_nil, Nat.add_zero]
    at accepted ⊢
  obtain ⟨-, value⟩ | ⟨minus, -⟩ := unsignedLong_small accepted ge small
  · dsimp only at value
    rw [unsignedLong]
    dsimp only
    rw [if_neg (by omega), if_neg (by decide)]
    omega
  · cases minus

section
variable (stack : Stack) {header : Str} (length : header.length = headerSize)
  (accepted : testChecksum stack header = true)
include length accepted

/-- A header with another byte that is accepted too runs on. -/
theorem runsOn_of_accepted {i : Nat} {c : UInt8} (inside : i < headerSize)
    (outside : i < checksumOffset ∨ checksumOffset + checksumSize ≤ i) (other : header[i]? ≠ some c)
    (accepted' : testChecksum stack (header.set i c) = true) : RunsOn stack header := by
  obtain ⟨front, old, tail, rfl, rfl⟩ : ∃ front old tail, header = front ++ old :: tail ∧
      front.length = i := by
    refine ⟨header.take i, header[i], header.drop (i + 1), ?_, ?_⟩
    · rw [← List.drop_eq_getElem_cons, List.take_append_drop]
    · rw [List.length_take]
      omega
  rw [List.set_append_right _ _ (Nat.le_refl _), Nat.sub_self, List.set_cons_zero] at accepted'
  have changed : old ≠ c := by
    rintro rfl
    exact other (by simp)
  obtain ⟨others, counted⟩ := checksum_byte tail outside
  have length' : (front ++ c :: tail).length = headerSize := by
    simpa only [List.length_append, List.length_cons] using length
  have le := checksum_le length
  have le' := checksum_le length'
  have ge := checksum_ge (front ++ old :: tail)
  have ge' := checksum_ge (front ++ c :: tail)
  rw [testChecksum_iff] at accepted accepted'
  rw [counted] at accepted accepted' le le' ge ge'
  obtain before | behind := outside
  · rw [checksumText_front stack c old tail before] at accepted'
    have same := accepted.symm.trans accepted'
    exact absurd (UInt8.toNat_inj.mp (by omega)) changed
  · have after : checksumOffset ≤ front.length := by omega
    rw [checksumText_byte stack _ tail after] at accepted accepted'
    obtain ⟨plus, last⟩ := changed_byte (tail ++ stack.behind) accepted accepted' ge ge' le le' changed
      (by omega)
    rw [RunsOn, checksumText_byte stack _ tail after]
    rw [List.length_drop] at last
    refine ⟨plus, ?_, ?_⟩
    · omega
    · omega

/-- The last digit of a number that runs on can be changed. -/
theorem accepted_of_runsOn (runs : RunsOn stack header) : ∃ i c, i < headerSize ∧
    checksumOffset + checksumSize ≤ i ∧ header[i]? ≠ some c ∧
      testChecksum stack (header.set i c) = true := by
  obtain ⟨plus, outside, inside⟩ := runs
  have ge := checksum_ge header
  have le := checksum_le length
  rw [testChecksum_iff] at accepted
  obtain ⟨-, number⟩ | ⟨minus, -⟩ := unsignedLong_small accepted ge le
  swap
  · exact absurd (plus.symm.trans minus) (by decide)
  have value : (readNumber 8 (checksumText stack header)).2 = checksum header := number
  obtain ⟨front, digits, c, rest, split, begins, digit, ended⟩ :=
    readNumber_last (by decide : 0 < 8) (by omega : 8 ≤ (readNumber 8 (checksumText stack header)).2)
  have unsigned : (readNumber 8 (checksumText stack header)).1 = false := plus
  rw [unsigned] at begins
  have none_behind : behindByte rest = [] := ended
  have last := begins.numeralEnd (c :: rest)
  rw [← split, List.takeWhile_cons_of_pos digit, ended, List.length_singleton] at last
  have outside : 8 < numeralEnd 8 (checksumText stack header) := outside
  have inside : 148 + numeralEnd 8 (checksumText stack header) ≤ 512 := inside
  -- the digit stands in the header
  obtain ⟨tail, whole⟩ : ∃ tail, header.drop checksumOffset = front ++ c :: tail := by
    obtain ⟨middle, drop, -⟩ | ⟨middle, drop, behind⟩ := List.append_eq_append_iff.mp split
    · have := congrArg List.length drop
      rw [List.length_append, List.length_drop, length] at this
      simp only [headerSize, checksumOffset] at this
      omega
    · cases middle with
      | nil =>
        have := congrArg List.length drop
        rw [List.append_nil, List.length_drop, length] at this
        simp only [headerSize, checksumOffset] at this
        omega
      | cons d tail =>
        obtain ⟨rfl, -⟩ := List.cons.inj behind
        exact ⟨tail, drop⟩
  have header_eq : header = (header.take checksumOffset ++ front) ++ c :: tail := by
    rw [List.append_assoc, ← whole, List.take_append_drop]
  have at_front : (header.take checksumOffset ++ front).length = checksumOffset + front.length := by
    rw [List.length_append, List.length_take, length]
    rfl
  obtain ⟨d, digit', other⟩ : ∃ d, isDigitOf 8 d = true ∧ d ≠ c := by
    by_cases zero : c = 48
    · exact ⟨49, by decide, by simp [zero]⟩
    · exact ⟨48, by decide, Ne.symm zero⟩
  have place : checksumOffset + checksumSize ≤ (header.take checksumOffset ++ front).length := by
    rw [at_front]
    exact Nat.add_le_add_left (by omega : 8 ≤ front.length) _
  have behind : (header.take checksumOffset ++ front).drop checksumOffset = front :=
    List.drop_left' (by rw [List.length_take, length]; rfl)
  have rest_eq : rest = tail ++ stack.behind := by
    rw [checksumText, whole, List.append_assoc, List.cons_append] at split
    exact ((List.cons.inj (List.append_cancel_left split)).2).symm
  rw [← behind] at begins
  rw [rest_eq] at none_behind
  rw [header_eq, ← testChecksum_iff] at accepted
  rw [header_eq] at le
  refine ⟨(header.take checksumOffset ++ front).length, d, ?_, place, ?_, ?_⟩
  · rw [at_front]
    simp only [headerSize, checksumOffset]
    omega
  · rw [header_eq, List.getElem?_append_right (by rw [← header_eq]), ← header_eq, Nat.sub_self]
    simpa using Ne.symm other
  · have accepted' := last_digit_accepted stack place begins none_behind digit digit' le accepted
    rw [header_eq, List.set_append_right _ _ (by rw [← header_eq]), ← header_eq, Nat.sub_self]
    exact accepted'

/-- Every change of a byte outside of the field is detected exactly if the number does
not run on. -/
theorem testChecksum_detects_iff :
    (∀ i c, i < headerSize → (i < checksumOffset ∨ checksumOffset + checksumSize ≤ i) →
      header[i]? ≠ some c → testChecksum stack (header.set i c) = false) ↔ ¬ RunsOn stack header := by
  constructor
  · intro detects runs
    obtain ⟨i, c, inside, outside, other, accepted'⟩ := accepted_of_runsOn stack length accepted runs
    rw [detects i c inside (.inr outside) other] at accepted'
    cases accepted'
  · intro ends i c inside outside other
    by_contra accepted'
    exact ends (runsOn_of_accepted stack length accepted inside outside other (by simpa using accepted'))

end

theorem testChecksum_detects_sample : ¬ ∃ i c, i < checksumOffset ∧
    (writeHeader (bytes "x") 48 5)[i]? ≠ some c ∧
    testChecksum ⟨0, []⟩ ((writeHeader (bytes "x") 48 5).set i c) = true := by
  rintro ⟨i, c, before, other, accepted⟩
  have length : (writeHeader (bytes "x") 48 5).length = headerSize := by decide +kernel
  have detects := (testChecksum_detects_iff ⟨0, []⟩ length (by decide +kernel)).mpr (by decide +kernel) i c
    (Nat.lt_trans before (by decide)) (.inl before) other
  rw [detects] at accepted
  cases accepted

/-- A checksum that fills its field with the link flag as its last digit: the file is
taken for a hard link. -/
theorem testChecksum_undetected : ∃ header : Str, header.length = headerSize ∧
    testChecksum ⟨0, []⟩ header = true ∧ header[linkflagOffset]? = some 48 ∧
    testChecksum ⟨0, []⟩ (header.set linkflagOffset 49) = true :=
  ⟨headerWith (bytes "x") 48 0 (bytes "00000073"), by decide +kernel, by decide +kernel,
    by decide +kernel, by decide +kernel⟩

end KexecLoader
