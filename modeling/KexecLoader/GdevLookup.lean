import KexecLoader.GdevGrammar
import KexecLoader.Library.NumeralScan

/-!
# Which device answers for a GRUB name

The device due for a name is that of the entry that is the same, then a partition of
the disk by its number, then the floppy of that number. The first search also takes an
entry for something more special than the name; fifteen digits of a number are stored,
and they are read as an `int`.
-/
namespace KexecLoader

/-- A part as it is written, without a prefix; empty where the name has none. -/
def GdevName.part (n : GdevName) (i : Nat) : Str := (n.parts[i]?.map GdevPart.value).getD []

/-- The entry is for the very disk and parts of the name. -/
def GdevName.same (n : GdevName) (entry : KlGdev) : Bool :=
  entry.type.str == kindText n.floppy && entry.p1.str == n.disk.digits && entry.p2.str == n.part 0 &&
    entry.p3.str == n.part 1

def GdevName.whole (n : GdevName) (entry : KlGdev) : Bool :=
  entry.type.str == kindText n.floppy && entry.p1.str == n.disk.digits && entry.p2.str.isEmpty

/-- The number of a partition that has one, and no part of its own. -/
def GdevName.partition? (n : GdevName) : Option Nat :=
  match n.parts with
  | [.number p] => some (numeral 10 p.digits)
  | _ => none

def derivedDevice (devmap : List KlGdev) (n : GdevName) : Option Str :=
  n.partition?.bind fun p => (devmap.find? n.whole).map fun disk => disk.device.str ++ decimal (p + 1)

def floppyDevice (n : GdevName) : Option Str :=
  if n.floppy = true ∧ n.parts = [] then some (bytes "fd" ++ decimal (numeral 10 n.disk.digits)) else none

/-- The device a name stands for under a device map. -/
def dueDevice (devmap : List KlGdev) (n : GdevName) : Option Str :=
  match devmap.find? n.same with
  | some entry => some entry.device.str
  | none => (derivedDevice devmap n).or (floppyDevice n)

/-- An entry that is not the one for the name, but has a device that reads like it: like
that of the entry for the name, like a partition made from the entry for the disk, or
like a floppy. -/
inductive ReadsAlike (devmap : List KlGdev) (n : GdevName) (entry : KlGdev) : Prop where
  | own (later : KlGdev) (found : devmap.find? n.same = some later)
      (alike : entry.device.str = later.device.str)
  | partition (p : Nat) (disk : KlGdev) (none : devmap.find? n.same = none) (number : n.partition? = some p)
      (found : devmap.find? n.whole = some disk) (alike : entry.device.str = disk.device.str ++ decimal (p + 1))
  | floppy (none : devmap.find? n.same = none) (floppy : n.floppy = true) (disk : n.parts = [])
      (alike : entry.device.str = bytes "fd" ++ decimal (numeral 10 n.disk.digits))

/-- The number fits, and is that of the digits that are stored. -/
structure GdevNumber.Fits (m : GdevNumber) (bound : Nat) : Prop where
  stored : numeral 10 (m.digits.take 15) = numeral 10 m.digits
  small : numeral 10 m.digits < bound

/-- No entry for a part of what is named, or for other digits, answers in front of the entry
for the name, unless its device reads alike; and where no entry answers, the numbers that
come into it are small. -/
structure LookupExact (devmap : List KlGdev) (n : GdevName) : Prop where
  first : ∀ entry, devmap.find? (absoluteMatch n.record) = some entry →
    n.same entry = true ∨ ReadsAlike devmap n entry
  partition : ∀ p disk, devmap.find? (absoluteMatch n.record) = none → n.parts = [.number p] →
    devmap.find? (wholeDiskMatch n.record) = some disk → n.disk.digits.length ≤ 15 ∧ p.Fits (2 ^ 31 - 1)
  floppy : devmap.find? (absoluteMatch n.record) = none → n.floppy = true → n.parts = [] →
    n.disk.Fits (2 ^ 31)

/-! ### Numbers -/

theorem decimal_injective {m n : Nat} (same : decimal m = decimal n) : m = n := by
  have values := congrArg (numeral 10) same
  rwa [decimal, decimal, numeral_numeralDigits (by decide) (Nat.le_refl 10),
    numeral_numeralDigits (by decide) (Nat.le_refl 10)] at values

/-- A number too large is read as the largest there is. -/
theorem atoi_digits {digits : Str} (nonempty : digits ≠ []) (numeric : ∀ c ∈ digits, isdigit c = true) :
    atoi digits = min (numeral 10 digits : Int) (2 ^ 31 - 1) := by
  have all : ∀ c ∈ digits, isDigitOf 10 c = true := fun c member => by
    rw [isDigitOf_ten]
    exact numeric c member
  obtain ⟨sign, taken, -⟩ := @readSign_digits 10 digits [] nonempty all (by simp)
  rw [List.append_nil] at sign taken
  simp only [atoi, sign, taken, Bool.false_eq_true, if_false]

theorem decimalInt_nat (n : Nat) : decimalInt n = decimal n := by
  rw [decimalInt, if_neg (by omega), Int.natAbs_natCast]

theorem numeral_take_le (digits : Str) : numeral 10 (digits.take 15) ≤ numeral 10 digits := by
  have split := numeral_append 10 (digits.take 15) (digits.drop 15)
  rw [List.take_append_drop] at split
  rw [split]
  exact Nat.le_add_right_of_le (Nat.le_mul_of_pos_right _ (Nat.pow_pos (by decide)))

/-- The digits that are stored of a number. -/
theorem stored_digits (m : GdevNumber) :
    m.digits.take 15 ≠ [] ∧ ∀ c ∈ m.digits.take 15, isdigit c = true :=
  ⟨by simpa using m.nonempty, fun c member => m.numeric c (List.mem_of_mem_take member)⟩

/-- The next number is right below the largest. -/
theorem decimalInt_next (m : GdevNumber) :
    decimalInt (nextInt (atoi (m.digits.take 15))) = decimal (numeral 10 m.digits + 1) ↔
      m.Fits (2 ^ 31 - 1) := by
  obtain ⟨nonempty, numeric⟩ := stored_digits m
  rw [atoi_digits nonempty numeric]
  constructor
  · intro same
    by_cases large : 2 ^ 31 - 1 ≤ numeral 10 (m.digits.take 15)
    · have largest : min (numeral 10 (m.digits.take 15) : Int) (2 ^ 31 - 1) = 2 ^ 31 - 1 := by omega
      rw [largest] at same
      -- the sum is negative
      have minus : (decimalInt (nextInt (2 ^ 31 - 1))).head? = some 45 := rfl
      rw [same] at minus
      obtain ⟨tail, cons⟩ := List.head?_eq_some_iff.mp minus
      have digit := numeralDigits_isDigitOf (by decide) (Nat.le_refl 10) _ 45 (by
        rw [← decimal, cons]
        exact List.mem_cons_self)
      exact absurd digit (by decide)
    · have exact_value : min (numeral 10 (m.digits.take 15) : Int) (2 ^ 31 - 1) =
          numeral 10 (m.digits.take 15) := by omega
      rw [exact_value, nextInt, if_neg (by omega)] at same
      have value := decimal_injective ((decimalInt_nat (numeral 10 (m.digits.take 15) + 1)).symm.trans same)
      exact ⟨by omega, by omega⟩
  · rintro ⟨stored, small⟩
    rw [stored]
    have exact_value : min (numeral 10 m.digits : Int) (2 ^ 31 - 1) = numeral 10 m.digits := by omega
    rw [exact_value, nextInt, if_neg (by omega)]
    exact decimalInt_nat (numeral 10 m.digits + 1)

theorem decimalInt_atoi (m : GdevNumber) :
    decimalInt (atoi (m.digits.take 15)) = decimal (numeral 10 m.digits) ↔ m.Fits (2 ^ 31) := by
  obtain ⟨nonempty, numeric⟩ := stored_digits m
  rw [atoi_digits nonempty numeric]
  constructor
  · intro same
    have smaller := numeral_take_le m.digits
    by_cases large : 2 ^ 31 ≤ numeral 10 (m.digits.take 15)
    · have largest : min (numeral 10 (m.digits.take 15) : Int) (2 ^ 31 - 1) = ((2 ^ 31 - 1 : Nat) : Int) := by
        omega
      rw [largest, decimalInt_nat] at same
      have value := decimal_injective same
      omega
    · have exact_value : min (numeral 10 (m.digits.take 15) : Int) (2 ^ 31 - 1) =
          numeral 10 (m.digits.take 15) := by omega
      rw [exact_value, decimalInt_nat] at same
      have value := decimal_injective same
      exact ⟨value, by omega⟩
  · rintro ⟨stored, small⟩
    rw [stored]
    have exact_value : min (numeral 10 m.digits : Int) (2 ^ 31 - 1) = numeral 10 m.digits := by omega
    rw [exact_value, decimalInt_nat]

/-! ### The record of a name -/

theorem GdevPart.value_ne_nil (p : GdevPart) : p.value ≠ [] := by
  cases p with
  | letter c lower => exact List.cons_ne_nil c []
  | number m => exact m.nonempty

theorem GdevName.part_eq_nil (n : GdevName) (i : Nat) : n.part i = [] ↔ n.parts.length ≤ i := by
  rw [GdevName.part, ← List.getElem?_eq_none_iff]
  cases n.parts[i]? with
  | none => simp
  | some p => simp [p.value_ne_nil]

theorem GdevName.record_type (n : GdevName) : n.record.type.str = kindText n.floppy := by
  rw [GdevName.record]
  cases n.floppy <;> rfl

theorem GdevName.record_p1 (n : GdevName) : n.record.p1.str = n.disk.digits.take 15 := rfl

theorem partField_str (n : GdevName) (i : Nat) : (partField n.parts[i]?).str = (n.part i).take 15 := by
  rw [GdevName.part]
  cases n.parts[i]? with
  | none => rfl
  | some p => rfl

theorem GdevName.record_p2 (n : GdevName) : n.record.p2.str = (n.part 0).take 15 := partField_str n 0

theorem GdevName.record_p3 (n : GdevName) : n.record.p3.str = (n.part 1).take 15 := partField_str n 1

theorem take_eq_nil (text : Str) : text.take 15 = [] ↔ text = [] := by
  rw [List.take_eq_nil_iff, or_iff_right (by decide)]

/-- What the first search asks of an entry. -/
theorem absoluteMatch_record (n : GdevName) (entry : KlGdev) : absoluteMatch n.record entry = true ↔
    entry.type.str = kindText n.floppy ∧ entry.p1.str = n.disk.digits.take 15 ∧
      (n.part 0 = [] ∨ entry.p2.str = (n.part 0).take 15) ∧
      (n.part 1 = [] ∨ entry.p3.str = (n.part 1).take 15) := by
  simp only [absoluteMatch, n.record_type, n.record_p1, n.record_p2, n.record_p3, Bool.and_eq_true,
    Bool.or_eq_true, klStreq_iff, List.isEmpty_iff, take_eq_nil, and_assoc, eq_comm (b := entry.type.str),
    eq_comm (b := entry.p1.str), eq_comm (b := entry.p2.str), eq_comm (b := entry.p3.str)]

theorem wholeDiskMatch_record (n : GdevName) (entry : KlGdev) : wholeDiskMatch n.record entry = true ↔
    entry.type.str = kindText n.floppy ∧ entry.p1.str = n.disk.digits.take 15 ∧ entry.p2.str = [] := by
  simp only [wholeDiskMatch, n.record_type, n.record_p1, Bool.and_eq_true, klStreq_iff, List.isEmpty_iff]
  constructor
  · rintro ⟨⟨whole, type⟩, disk⟩
    exact ⟨type.symm, disk.symm, whole⟩
  · rintro ⟨type, disk, whole⟩
    exact ⟨⟨whole, type.symm⟩, disk.symm⟩

/-! ### The first search -/

theorem take_of_field {field : Buf 16} {text : Str} (same : field.str = text) : text.take 15 = text := by
  have fits := field.fits
  rw [same] at fits
  exact List.take_of_length_le (by omega)

theorem GdevName.same_absolute {n : GdevName} {entry : KlGdev} (same : n.same entry = true) :
    absoluteMatch n.record entry = true := by
  simp only [GdevName.same, Bool.and_eq_true, beq_iff_eq] at same
  obtain ⟨⟨⟨type, p1⟩, p2⟩, p3⟩ := same
  rw [absoluteMatch_record, take_of_field p1, take_of_field p2, take_of_field p3]
  exact ⟨type, p1, .inr p2, .inr p3⟩

theorem find?_narrow {α : Type*} {p q : α → Bool} {xs : List α} {x : α} (first : xs.find? q = some x)
    (narrow : ∀ y, p y = true → q y = true) (fits : p x = true) : xs.find? p = some x := by
  induction xs with
  | nil => cases first
  | cons y ys ih =>
    by_cases here : q y = true
    · rw [List.find?_cons_of_pos here] at first
      obtain rfl := Option.some.inj first
      exact List.find?_cons_of_pos fits
    · rw [List.find?_cons_of_neg here] at first
      rw [List.find?_cons_of_neg fun fit => here (narrow y fit)]
      exact ih first

/-- An entry for the disk has all the digits of the name. -/
theorem GdevName.find?_whole (n : GdevName) (devmap : List KlGdev) :
    devmap.find? n.whole =
      if n.disk.digits.length ≤ 15 then devmap.find? (wholeDiskMatch n.record) else none := by
  by_cases short : n.disk.digits.length ≤ 15
  · rw [if_pos short]
    congr 1
    funext entry
    rw [Bool.eq_iff_iff, wholeDiskMatch_record, List.take_of_length_le short]
    simp [GdevName.whole, and_assoc]
  · rw [if_neg short, List.find?_eq_none]
    intro entry _ whole
    simp only [GdevName.whole, Bool.and_eq_true, beq_iff_eq] at whole
    have fits := entry.p1.fits
    rw [whole.1.2] at fits
    omega

/-! ### No entry answers -/

theorem lookupFloppy_disk {n : GdevName} (disk : n.parts = []) : lookupFloppy n.record =
    if n.floppy = true then some (bytes "fd" ++ decimalInt (atoi (n.disk.digits.take 15))) else none := by
  have digit : isDigitHead (n.disk.digits.take 15) = true := by
    obtain ⟨nonempty, numeric⟩ := stored_digits n.disk
    obtain ⟨c, rest, cons⟩ := List.exists_cons_of_ne_nil nonempty
    rw [cons] at numeric ⊢
    exact numeric c List.mem_cons_self
  have kind : klStreq (kindText n.floppy) (bytes "fd") = n.floppy := by
    cases n.floppy <;> decide
  have no_part : (n.part 0).take 15 = [] := by
    rw [take_eq_nil, GdevName.part_eq_nil, disk]
    exact Nat.zero_le 0
  simp [lookupFloppy, n.record_type, n.record_p1, n.record_p2, kind, digit, no_part]

theorem lookupFloppy_part {n : GdevName} (part : n.parts ≠ []) : lookupFloppy n.record = none := by
  have stored : n.record.p2.str ≠ [] := by
    rw [n.record_p2, ne_eq, take_eq_nil, GdevName.part_eq_nil, Nat.le_zero, List.length_eq_zero_iff]
    exact part
  rw [lookupFloppy, if_neg]
  simp [stored]

/-- Only a partition with a number, and without a part of its own, gets to the second search. -/
theorem derives_iff (n : GdevName) :
    (!isDigitHead n.record.p2.str || !n.record.p3.str.isEmpty) = false ↔ ∃ p, n.parts = [.number p] := by
  have letter (c : UInt8) (lower : islower c = true) : isdigit c = false := by
    by_contra digit
    rw [isdigit_not_islower (by simpa using digit)] at lower
    cases lower
  rw [n.record_p2, n.record_p3, Bool.or_eq_false_iff, Bool.not_eq_false', Bool.not_eq_false', List.isEmpty_iff,
    take_eq_nil, GdevName.part_eq_nil, GdevName.part]
  obtain ⟨floppy, disk, parts, few, behind⟩ := n
  rcases parts with _ | ⟨a, _ | ⟨b, rest⟩⟩
  · simp [isDigitHead]
  · cases a with
    | letter c lower => simp [isDigitHead, GdevPart.value, letter c lower]
    | number m =>
      obtain ⟨nonempty, numeric⟩ := stored_digits m
      obtain ⟨c, rest, cons⟩ := List.exists_cons_of_ne_nil nonempty
      rw [cons] at numeric
      have digit := numeric c List.mem_cons_self
      simp [isDigitHead, GdevPart.value, cons, digit]
  · simp

section
variable {devmap : List KlGdev} {n : GdevName} (unmapped : devmap.find? (absoluteMatch n.record) = none)
include unmapped

theorem lookupParsed_partition {p : GdevNumber} (partition : n.parts = [.number p]) :
    lookupParsed devmap n.record = (devmap.find? (wholeDiskMatch n.record)).map fun disk =>
      disk.device.str ++ decimalInt (nextInt (atoi (p.digits.take 15))) := by
  have derives := (derives_iff n).mpr ⟨p, partition⟩
  have number : n.record.p2.str = p.digits.take 15 := by
    rw [n.record_p2, GdevName.part, partition]
    rfl
  have no_floppy : lookupFloppy n.record = none := lookupFloppy_part (by simp [partition])
  rw [lookupParsed, unmapped]
  dsimp only
  rw [derives, if_neg Bool.false_ne_true]
  cases devmap.find? (wholeDiskMatch n.record) with
  | none => exact no_floppy
  | some disk =>
    rw [← number]
    rfl

theorem lookupParsed_other (other : ¬ ∃ p, n.parts = [.number p]) :
    lookupParsed devmap n.record = lookupFloppy n.record := by
  have stays := (Bool.eq_false_iff.not_left).mp (mt (derives_iff n).mp other)
  simp only [lookupParsed, unmapped, stays, if_true]

theorem find?_same_none : devmap.find? n.same = none := by
  rw [List.find?_eq_none] at unmapped ⊢
  exact fun entry member same => unmapped entry member (GdevName.same_absolute same)

theorem dueDevice_unmapped : dueDevice devmap n = (derivedDevice devmap n).or (floppyDevice n) := by
  rw [dueDevice, find?_same_none unmapped]

theorem lookupExact_unmapped : LookupExact devmap n ↔
    (∀ p disk, n.parts = [.number p] → devmap.find? (wholeDiskMatch n.record) = some disk →
      n.disk.digits.length ≤ 15 ∧ p.Fits (2 ^ 31 - 1)) ∧
    (n.floppy = true → n.parts = [] → n.disk.Fits (2 ^ 31)) := by
  constructor
  · exact fun small => ⟨fun p disk => small.partition p disk unmapped, small.floppy unmapped⟩
  · rintro ⟨partition, floppy⟩
    refine ⟨fun entry found => ?_, fun p disk _ => partition p disk, fun _ => floppy⟩
    rw [unmapped] at found
    cases found

/-- No entry goes with the name: its number decides. -/
theorem lookupParsed_unmapped : lookupParsed devmap n.record = dueDevice devmap n ↔ LookupExact devmap n := by
  rw [lookupExact_unmapped unmapped, dueDevice_unmapped unmapped]
  by_cases numbered : ∃ p, n.parts = [.number p]
  · obtain ⟨p, partition⟩ := numbered
    have number : n.partition? = some (numeral 10 p.digits) := by rw [GdevName.partition?, partition]
    have no_floppy : floppyDevice n = none := if_neg (by simp [partition])
    -- the device of the disk with p + 1 behind it
    rw [lookupParsed_partition unmapped partition, derivedDevice, number, Option.bind_some, n.find?_whole,
      no_floppy, Option.or_none]
    cases whole : devmap.find? (wholeDiskMatch n.record) with
    | none => simp [partition]
    | some disk =>
      have value := decimalInt_next p
      by_cases short : n.disk.digits.length ≤ 15 <;>
        simp [partition, short, value]
  · have no_number : n.partition? = none := by
      rw [GdevName.partition?]
      split
      · exact absurd ⟨_, ‹_›⟩ numbered
      · rfl
    have none_derived : derivedDevice devmap n = none := by rw [derivedDevice, no_number, Option.bind_none]
    have no_partition : ∀ p, n.parts ≠ [.number p] := fun p partition => numbered ⟨p, partition⟩
    rw [lookupParsed_other unmapped numbered, none_derived, Option.none_or]
    by_cases disk : n.parts = []
    · -- a whole disk has a device of its own only if it is a floppy
      have value := decimalInt_atoi n.disk
      rw [lookupFloppy_disk disk, floppyDevice]
      cases n.floppy with
      | true => simp [disk, value]
      | false => simp [disk]
    · have no_floppy : floppyDevice n = none := if_neg (by simp [disk])
      rw [lookupFloppy_part disk, no_floppy]
      simp [no_partition, disk]

end

/-- An entry with a device that reads like the one due. -/
theorem readsAlike_iff {devmap : List KlGdev} {n : GdevName} {entry : KlGdev} :
    dueDevice devmap n = some entry.device.str ↔ ReadsAlike devmap n entry := by
  constructor
  · intro due
    cases same : devmap.find? n.same with
    | some own =>
      rw [dueDevice, same] at due
      exact .own own same (Option.some.inj due).symm
    | none =>
      rw [dueDevice, same] at due
      dsimp only at due
      obtain derived | ⟨-, floppy⟩ := Option.or_eq_some_iff.mp due
      · rw [derivedDevice, Option.bind_eq_some_iff] at derived
        obtain ⟨p, number, derived⟩ := derived
        obtain ⟨disk, found, reads⟩ := Option.map_eq_some_iff.mp derived
        exact .partition p disk same number found reads.symm
      · rw [floppyDevice] at floppy
        split at floppy
        next kind => exact .floppy same kind.1 kind.2 (Option.some.inj floppy).symm
        next => cases floppy
  · intro alike
    cases alike with
    | own own found alike => rw [dueDevice, found, alike]
    | partition p disk none number found alike =>
      rw [dueDevice, none, derivedDevice, number, Option.bind_some, found, alike]
      rfl
    | floppy none floppy disk alike =>
      have no_number : n.partition? = Option.none := by rw [GdevName.partition?, disk]
      rw [dueDevice, none, derivedDevice, no_number, floppyDevice, if_pos ⟨floppy, disk⟩, alike]
      rfl

/-- The device due for a name is returned exactly when the map and the numbers allow it. -/
theorem lookupGdev_due_iff (devmap : List KlGdev) (name : Str) (gdev : KlGdev)
    (accepted : parseGdev name = some gdev) :
    (∃ n : GdevName, n.text = name) ∧ ∀ n : GdevName, n.text = name →
      (lookupGdev devmap name = dueDevice devmap n ↔ LookupExact devmap n) := by
  refine ⟨?_, ?_⟩
  · obtain ⟨n, text, -, -⟩ := parseGdev_sound accepted
    exact ⟨n, text⟩
  · rintro n rfl
    have plain : ¬ n.Prefixed := by
      intro marked
      rw [parseGdev_prefixed n marked] at accepted
      cases accepted
    rw [lookupGdev, parseGdev_complete n plain, Option.bind_some]
    cases mapped : devmap.find? (absoluteMatch n.record) with
    | none => exact lookupParsed_unmapped mapped
    | some entry =>
      have answer : lookupParsed devmap n.record = some entry.device.str := by simp only [lookupParsed, mapped]
      rw [answer, eq_comm]
      constructor
      · intro due
        refine ⟨fun other found => ?_, fun p disk none => ?_, fun none => ?_⟩
        · obtain rfl := Option.some.inj (mapped.symm.trans found)
          exact .inr (readsAlike_iff.mp due)
        · rw [mapped] at none
          cases none
        · rw [mapped] at none
          cases none
      · intro exact_map
        rcases exact_map.first entry mapped with same | alike
        · have first := find?_narrow mapped (fun other => GdevName.same_absolute) same
          rw [dueDevice, first]
        · exact readsAlike_iff.mpr alike

/-- The first partition of a disk that has an entry. -/
def firstPartition : GdevName :=
  ⟨false, ⟨false, [48], by decide, by decide⟩, [.number ⟨false, [48], by decide, by decide⟩], by decide, some []⟩

theorem lookupGdev_due_first_partition :
    let disk : KlGdev := ⟨strlcpy (bytes "hd"), strlcpy (bytes "0"), default, default, strlcpy (bytes "sda")⟩
    lookupGdev [disk] (bytes "(hd0,0)") = some (bytes "sda1") ∧
      (lookupGdev [disk] (bytes "(hd0,0)") = dueDevice [disk] firstPartition ↔
        LookupExact [disk] firstPartition) := by
  intro disk
  have accepted : parseGdev (bytes "(hd0,0)") = some firstPartition.record := by decide
  exact ⟨by decide, (lookupGdev_due_iff [disk] (bytes "(hd0,0)") _ accepted).2 firstPartition (by decide)⟩

/-- Of sixteen digits fifteen are stored, and they are those of the first partition. -/
example :
    let disk : KlGdev := ⟨strlcpy (bytes "hd"), strlcpy (bytes "0"), default, default, strlcpy (bytes "sda")⟩
    let sixth : GdevName := ⟨false, ⟨false, [48], by decide, by decide⟩,
      [.number ⟨false, bytes "0000000000000005", by decide, by decide⟩], by decide, none⟩
    sixth.text = bytes "hd0,0000000000000005" ∧ dueDevice [disk] sixth = some (bytes "sda6") ∧
      lookupGdev [disk] sixth.text = some (bytes "sda1") := by
  decide

/-- A whole disk is answered with its second partition. -/
theorem lookupGdev_shadowed :
    let second : KlGdev := ⟨strlcpy (bytes "hd"), strlcpy (bytes "0"), strlcpy (bytes "1"), default,
      strlcpy (bytes "sda2")⟩
    let disk : GdevName := ⟨false, ⟨false, [48], by decide, by decide⟩, [], by decide, some []⟩
    parseGdev (bytes "(hd0,1)") = some { second with device := default } ∧ disk.text = bytes "(hd0)" ∧
      parseGdev (bytes "(hd0)") = some disk.record ∧ dueDevice [second] disk = none ∧
      lookupGdev [second] (bytes "(hd0)") = some (bytes "sda2") := by
  decide

end KexecLoader
