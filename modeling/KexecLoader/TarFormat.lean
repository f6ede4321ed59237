import KexecLoader.Tar
import Mathlib.Data.List.Forall2

/-!
# Archives and what they stand for

An archive is a sequence of headers, each file's followed by its contents in
whole blocks, closed by a zero record. The numbers are octal digits in a field
of their own, and all other fields are free.
-/
namespace KexecLoader

open FileTree

/-- Where an absolute path leads by its text. -/
def location (path : Str) : List Str := lexical dot dotdot (pathComponents path)

def modulesDir : Str := bytes "/modules/"

/-- Where the file of an entry goes. -/
def entryLocation (name : Str) : List Str := location (entryPath modulesDir name)

/-! ### Items -/

inductive Item where
  | file (name content : Str)
  | directory (name : Str)
  | hardLink
deriving DecidableEq

def Item.entry : Item → Option (Str × Str)
  | .file name content => some (name, content)
  | _ => none

/-- The files of an archive: their names and contents. -/
def entries (items : List Item) : List (Str × Str) := items.filterMap Item.entry

/-- Spaces, octal digits, and a space or NUL behind them. -/
def OctalField (field : Str) (n : Nat) : Prop :=
  ∃ spaces digits stop rest, field = spaces ++ (digits ++ stop :: rest) ∧
    (∀ c ∈ spaces, c = space) ∧ digits ≠ [] ∧ (∀ c ∈ digits, isDigitOf 8 c = true) ∧
    numeral 8 digits = n ∧ (stop = 0 ∨ stop = space)

structure HeaderRecord (header : Str) : Prop where
  length : header.length = headerSize
  checksum : OctalField ((header.drop checksumOffset).take checksumSize) (checksum header)

/-- The name stands in its field with a terminator. -/
def NameField (header name : Str) : Prop := ∃ junk, header.take nameSize = name ++ 0 :: junk

/-- The padding fills the last block. -/
structure Padded (content padding : Str) : Prop where
  short : padding.length < 512
  whole : 512 ∣ content.length + padding.length

/-- How an item is written. A file may have any link flag but that of a hard
link, whose name is not looked at. -/
inductive Item.Encodes : Item → Str → Prop
  | file {name content header padding : Str} (record : HeaderRecord header)
      (named : NameField header name) (flag : header[linkflagOffset]? ≠ some 49)
      (size : OctalField ((header.drop sizeOffset).take 12) content.length)
      (padded : Padded content padding) :
      Encodes (.file name content) (header ++ (content ++ padding))
  | directory {name header : Str} (record : HeaderRecord header) (named : NameField header name) :
      Encodes (.directory name) header
  | hardLink {header : Str} (record : HeaderRecord header)
      (flag : header[linkflagOffset]? = some 49) : Encodes .hardLink header

/-- The items, a zero record, and whatever follows it. -/
def Encodes (items : List Item) (archive rest : Str) : Prop :=
  ∃ parts, List.Forall₂ Item.Encodes items parts ∧
    archive = parts.flatten ++ (List.replicate headerSize 0 ++ rest)

/-! ### A writer -/

/-- A field with zeros behind the value. -/
def fill (width : Nat) (value : Str) : Str := value ++ List.replicate (width - value.length) 0

/-- The fields in front of the checksum: name, mode, uid and gid, size, mtime. -/
def headerFront (name : Str) (size : Nat) : Str :=
  fill nameSize name ++ (List.replicate 24 0 ++ (fill 12 (numeralDigits 8 size) ++
    List.replicate 12 0))

def headerWith (name : Str) (flag : UInt8) (size : Nat) (sum : Str) : Str :=
  headerFront name size ++ (fill checksumSize sum ++ flag :: List.replicate 355 0)

def writeHeader (name : Str) (flag : UInt8) (size : Nat) : Str :=
  headerWith name flag size (numeralDigits 8 (checksum (headerWith name flag size [])))

def writeItem : Item → Str
  | .file name content => writeHeader name 48 content.length ++
      (content ++ List.replicate ((512 - content.length % 512) % 512) 0)
  | .directory name => writeHeader name 53 0
  | .hardLink => writeHeader [] 49 0

theorem checksum_le {header : Str} (length : header.length = headerSize) :
    checksum header ≤ 256 * headerSize := by
  -- every byte is less than 256
  have bound : ∀ s : Str, (s.map UInt8.toNat).sum ≤ 256 * s.length := by
    intro s
    induction s with
    | nil => simp
    | cons c s ih =>
      have small := c.toNat_lt
      simp only [List.map_cons, List.sum_cons, List.length_cons]
      omega
  apply Nat.le_trans (bound _)
  simp [length, headerSize, checksumOffset, checksumSize]

theorem length_fill {width : Nat} {value : Str} (fits : value.length ≤ width) :
    (fill width value).length = width := by
  rw [fill, List.length_append, List.length_replicate]
  omega

theorem fill_octalField {width n : Nat} (small : n < 8 ^ (width - 1))
    (room : 1 < width) : OctalField (fill width (numeralDigits 8 n)) n := by
  have short := length_numeralDigits_le (by decide : 1 < 8) (by omega : 0 < width - 1) small
  refine ⟨[], numeralDigits 8 n, 0, List.replicate (width - 1 - (numeralDigits 8 n).length) 0, ?_,
    by simp, numeralDigits_ne_nil 8 n, numeralDigits_isDigitOf (by decide) (by decide) n,
    numeral_numeralDigits (by decide) (by decide) n, .inl rfl⟩
  rw [fill, List.nil_append, ← List.replicate_succ]
  congr 2
  omega

theorem field_middle {front value rest : Str} {offset width : Nat} (before : front.length = offset)
    (length : value.length = width) :
    ((front ++ (value ++ rest)).drop offset).take width = value := by
  rw [List.drop_left' before, List.take_left' length]

section
variable {name : Str} {flag : UInt8} {size : Nat} (fits : name.length < nameSize)
  (small : size < 2 ^ 31)
include fits small

theorem length_headerFront : (headerFront name size).length = checksumOffset := by
  have digits := length_numeralDigits_le (k := 11) (by decide : 1 < 8) (by decide)
    (Nat.lt_trans small (by decide))
  simp only [headerFront, List.length_append, List.length_replicate,
    length_fill (Nat.le_of_lt fits), length_fill (Nat.le_succ_of_le digits)]
  rfl

theorem checksum_headerWith {sum : Str} (short : sum.length ≤ checksumSize) :
    checksum (headerWith name flag size sum) = checksum (headerWith name flag size []) := by
  have front := length_headerFront fits small
  -- whatever the field holds is summed up as blanks
  have field : ∀ {value : Str}, value.length ≤ checksumSize →
      checksum (headerWith name flag size value) = ((headerFront name size ++
        List.replicate checksumSize space ++ flag :: List.replicate 355 0).map UInt8.toNat).sum := by
    intro value short
    rw [checksum, headerWith, ← front, List.take_left, List.drop_append, List.drop_of_length_le (by omega),
      Nat.add_sub_cancel_left, List.nil_append, List.drop_left' (length_fill short)]
  rw [field short, field (Nat.zero_le _)]

theorem length_headerWith {sum : Str} (short : sum.length ≤ checksumSize) :
    (headerWith name flag size sum).length = headerSize := by
  simp only [headerWith, List.length_append, List.length_cons, List.length_replicate,
    length_headerFront fits small, length_fill short]
  rfl

variable (flag) in
theorem checksum_blank_lt : checksum (headerWith name flag size []) < 8 ^ 6 :=
  Nat.lt_of_le_of_lt (checksum_le (length_headerWith fits small (by simp))) (by decide)

variable (flag) in
theorem length_checksum_le :
    (numeralDigits 8 (checksum (headerWith name flag size []))).length ≤ checksumSize :=
  length_numeralDigits_le (by decide) (by decide)
    (Nat.lt_trans (checksum_blank_lt flag fits small) (by decide))

theorem writeHeader_record : HeaderRecord (writeHeader name flag size) := by
  have short := length_checksum_le flag fits small
  constructor
  · exact length_headerWith fits small short
  · -- the sum does not depend on the field it is written to
    rw [writeHeader, checksum_headerWith fits small short, headerWith,
      field_middle (length_headerFront fits small) (length_fill short)]
    exact fill_octalField (Nat.lt_trans (checksum_blank_lt flag fits small) (by decide)) (by decide)

omit small in
theorem writeHeader_named : NameField (writeHeader name flag size) name := by
  refine ⟨List.replicate (nameSize - name.length - 1) 0, ?_⟩
  rw [writeHeader, headerWith, headerFront, List.append_assoc,
    List.take_left' (length_fill (Nat.le_of_lt fits)), fill, ← List.replicate_succ]
  congr 2
  omega

theorem writeHeader_flag : (writeHeader name flag size)[linkflagOffset]? = some flag := by
  have front : (headerFront name size ++ fill checksumSize (numeralDigits 8
      (checksum (headerWith name flag size [])))).length = linkflagOffset := by
    rw [List.length_append, length_headerFront fits small,
      length_fill (length_checksum_le flag fits small)]
    rfl
  rw [writeHeader, headerWith, ← List.append_assoc, ← front,
    List.getElem?_append_right (Nat.le_refl _), Nat.sub_self, List.getElem?_cons_zero]

theorem writeHeader_size :
    OctalField (((writeHeader name flag size).drop sizeOffset).take 12) size := by
  have digits := length_numeralDigits_le (k := 11) (by decide : 1 < 8) (by decide)
    (Nat.lt_trans small (by decide))
  have before : (fill nameSize name ++ List.replicate 24 0).length = sizeOffset := by
    rw [List.length_append, length_fill (Nat.le_of_lt fits), List.length_replicate]
    rfl
  have assoc : ∀ a b c d rest : Str, (a ++ (b ++ (c ++ d))) ++ rest = (a ++ b) ++ (c ++ (d ++ rest)) := by
    simp
  rw [writeHeader, headerWith, headerFront, assoc, field_middle before
    (length_fill (Nat.le_succ_of_le digits))]
  exact fill_octalField (Nat.lt_trans small (by decide)) (by decide)

end

/-- Name and contents fit in their fields. -/
def Item.Fits : Item → Prop
  | .file name content => name.length < nameSize ∧ content.length < 2 ^ 31
  | .directory name => name.length < nameSize
  | .hardLink => True

instance : (item : Item) → Decidable item.Fits
  | .file _ _ => inferInstanceAs (Decidable (_ ∧ _))
  | .directory _ => inferInstanceAs (Decidable (_ < _))
  | .hardLink => .isTrue trivial

theorem writeItem_encodes (item : Item) (fits : item.Fits) : item.Encodes (writeItem item) := by
  cases item with
  | file name content =>
    refine .file (writeHeader_record fits.1 fits.2) (writeHeader_named fits.1) ?_
      (writeHeader_size fits.1 fits.2) ⟨?_, ?_⟩
    · rw [writeHeader_flag fits.1 fits.2]
      decide
    · rw [List.length_replicate]
      exact Nat.mod_lt _ (by decide)
    · rw [List.length_replicate]
      omega
  | directory name => exact .directory (writeHeader_record fits (by decide)) (writeHeader_named fits)
  | hardLink =>
    exact .hardLink (writeHeader_record (by decide) (by decide))
      (writeHeader_flag (by decide) (by decide))

def writeArchive (items : List Item) (rest : Str) : Str :=
  (items.map writeItem).flatten ++ (List.replicate headerSize 0 ++ rest)

theorem writeArchive_encodes (items : List Item) (rest : Str) (fits : ∀ item ∈ items, item.Fits) :
    Encodes items (writeArchive items rest) rest := by
  refine ⟨items.map writeItem, ?_, rfl⟩
  rw [List.forall₂_map_right_iff, List.forall₂_same]
  exact fun item member => writeItem_encodes item (fits item member)

/-! ### Names and the tree they are extracted to -/

/-- A relative name of a file in the archive. -/
structure EntryName (name : Str) : Prop where
  nonempty : name ≠ []
  fits : name.length ≤ 99
  no_nul : 0 ∉ name
  relative : name.head? ≠ some slash
  no_slash_last : name.getLast? ≠ some slash
  no_dotdot : dotdot ∉ pathComponents name

instance (name : Str) : Decidable (EntryName name) :=
  decidable_of_iff (name ≠ [] ∧ name.length ≤ 99 ∧ 0 ∉ name ∧ name.head? ≠ some slash ∧
      name.getLast? ≠ some slash ∧ dotdot ∉ pathComponents name)
    ⟨fun ⟨h₁, h₂, h₃, h₄, h₅, h₆⟩ => ⟨h₁, h₂, h₃, h₄, h₅, h₆⟩,
      fun ⟨h₁, h₂, h₃, h₄, h₅, h₆⟩ => ⟨h₁, h₂, h₃, h₄, h₅, h₆⟩⟩

/-- The last component is not the dot, which would denote a directory. -/
def NamesFile (name : Str) : Prop := (pathComponents name).getLast? ≠ some dot

instance (name : Str) : Decidable (NamesFile name) := inferInstanceAs (Decidable (_ ≠ _))

structure DirectoryName (name : Str) : Prop where
  no_nul : 0 ∉ name
  slash_last : name.getLast? = some slash

def tmpLocation : List Str := [bytes "tarfile.tmp"]

/-- The names of an archive and the tree before the extraction: none of the files
exists, and no call will fail, so that no file stands where a directory has to be. -/
structure Extractable (items : List Item) (os : Os) : Prop where
  names : ∀ e ∈ entries items, EntryName e.1
  sizes : ∀ e ∈ entries items, e.2.length < 2 ^ 31
  directories : ∀ name, .directory name ∈ items → DirectoryName name
  prefix_free : ∀ e ∈ entries items, ∀ f ∈ entries items,
    entryLocation e.1 <+: entryLocation f.1 → entryLocation e.1 = entryLocation f.1
  distinct : ∀ e ∈ entries items, ∀ f ∈ entries items,
    entryLocation e.1 = entryLocation f.1 → e.1 = f.1
  fresh : ∀ e ∈ entries items, os.tree (entryLocation e.1) = none
  destination : DirsTo os.tree (location modulesDir)
  unobstructed : ∀ e ∈ entries items, Unobstructed os.tree (entryLocation e.1).dropLast
  tmp : os.tree tmpLocation ≠ some .dir
  quiet : os.Quiet

/-- Each entry is a file with its bytes, the first of that name, in directories
that exist; nothing else has changed but for the temporary file, which is gone. -/
structure Extracted (items : List Item) (os os' : Os) : Prop where
  files : ∀ name content, (entries items).lookup name = some content →
    os'.tree (entryLocation name) = some (.file content)
  parents : ∀ e ∈ entries items, DirsTo os'.tree (entryLocation e.1).dropLast
  others : ∀ l, (∀ e ∈ entries items, ¬ l <+: entryLocation e.1) → l ≠ tmpLocation →
    os'.tree l = os.tree l
  tmp : os'.tree tmpLocation = if entries items = [] then os.tree tmpLocation else none
  shown : os'.shown = os.shown

end KexecLoader
