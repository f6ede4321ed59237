import KexecLoader.Elf

/-!
# ELF images and their section tables

A section table is a list of names, places and sizes; an image of either class and
either byte order holds it. From 0xff00 sections on, header 0 holds their number
and the index of the one with the names.
-/
namespace KexecLoader

inductive ElfClass where
  | class32
  | class64
deriving DecidableEq

/-- `EI_CLASS` of an image. -/
def ElfClass.byte : ElfClass → UInt8
  | class32 => ELFCLASS32
  | class64 => ELFCLASS64

/-- The places of the fields that are read, in their full width. -/
def ElfClass.format : ElfClass → ElfLayout
  | class32 => elf32
  | class64 => { elf64 with shSize := ⟨32, 8⟩ }

def ElfClass.shLink : ElfClass → ElfField
  | class32 => ⟨24, 4⟩
  | class64 => ⟨40, 4⟩

def ElfClass.ehsize : ElfClass → Nat
  | class32 => 52
  | class64 => 64

def ElfClass.shentsize : ElfClass → Nat
  | class32 => 40
  | class64 => 64

def SHN_LORESERVE : Nat := 0xff00

def SHN_XINDEX : Nat := 0xffff

structure Section where
  name : Str
  offset : Nat
  size : Nat
deriving DecidableEq

/-- The value of a field in bytes. -/
def ElfField.value (field : ElfField) (enc : ByteOrder) (bytes : Str) : Nat :=
  enc.number ((bytes.drop field.offset).take field.size)

section
variable (cls : ElfClass) (enc : ByteOrder) (image : Str)

def imageShoff : Nat := cls.format.eShoff.value enc image

def imageShentsize : Nat := cls.format.eShentsize.value enc image

/-- The bytes from a section header on. -/
def shdrBytes (i : Nat) : Str :=
  image.drop (imageShoff cls enc image + i * imageShentsize cls enc image)

/-- A section is where its header says, and has the name its header points to. -/
structure HeaderEncodes (strings : Str) (header : Str) (s : Section) : Prop where
  name : cstr (strings.drop (cls.format.shName.value enc header)) = s.name
  named : cls.format.shName.value enc header < strings.length
  offset : cls.format.shOffset.value enc header = s.offset
  size : cls.format.shSize.value enc header = s.size
  placed : s.offset ≤ image.length

instance (strings header : Str) (s : Section) :
    Decidable (HeaderEncodes cls enc image strings header s) :=
  decidable_of_iff (cstr (strings.drop (cls.format.shName.value enc header)) = s.name ∧
      cls.format.shName.value enc header < strings.length ∧
      cls.format.shOffset.value enc header = s.offset ∧
      cls.format.shSize.value enc header = s.size ∧ s.offset ≤ image.length)
    ⟨fun ⟨h₁, h₂, h₃, h₄, h₅⟩ => ⟨h₁, h₂, h₃, h₄, h₅⟩, fun ⟨h₁, h₂, h₃, h₄, h₅⟩ => ⟨h₁, h₂, h₃, h₄, h₅⟩⟩

/-- The section with the names, which end in its last byte at the latest. -/
structure StringTable (sections : List Section) (strndx : Nat) (strtab : Section) : Prop where
  listed : sections[strndx]? = some strtab
  index : cls.format.eShstrndx.value enc image = if strndx < SHN_LORESERVE then strndx else SHN_XINDEX
  extended : SHN_LORESERVE ≤ strndx → cls.shLink.value enc (shdrBytes cls enc image 0) = strndx
  inside : strtab.offset + strtab.size ≤ image.length
  terminated : ((image.drop strtab.offset).take strtab.size).getLast? = some 0
  headers : ∀ i (listed : i < sections.length), HeaderEncodes cls enc image
    ((image.drop strtab.offset).take strtab.size) (shdrBytes cls enc image i) sections[i]

/-- A well-formed image with this section table. -/
structure ElfEncodes (sections : List Section) : Prop where
  magic : image.take 4 = ELFMAG
  eiclass : image[EI_CLASS]? = some cls.byte
  eidata : image[EI_DATA]? = some (ELF_ORDER enc)
  header : cls.ehsize ≤ image.length
  entry : sections ≠ [] → cls.shentsize ≤ imageShentsize cls enc image
  inside : imageShoff cls enc image + sections.length * imageShentsize cls enc image ≤ image.length
  counted : cls.format.eShnum.value enc image =
    if sections.length < SHN_LORESERVE then sections.length else 0
  extended : SHN_LORESERVE ≤ sections.length →
    cls.format.shSize.value enc (shdrBytes cls enc image 0) = sections.length
  empty : sections = [] → imageShoff cls enc image = 0 ∧ cls.format.eShstrndx.value enc image = 0
  strings : sections ≠ [] → ∃ strndx strtab, StringTable cls enc image sections strndx strtab

end

/-- What `elf_getsection` is to return for a file at this address. -/
def sectionDue (base : Nat) (sections : List Section) (name : Str) : Option (Nat × Nat) :=
  (sections.find? (·.name = name)).map fun s => (base + s.offset, s.size)

/-! ### Reading fields -/

theorem Mapping.rest_inside (m : Mapping) {x : Nat} (inside : x ≤ m.content.length) :
    m.rest (m.base + x) = m.content.drop x := by
  have fits := m.fits
  have small : (m.base + x) % 2 ^ 32 = m.base + x := Nat.mod_eq_of_lt (by omega)
  rw [Mapping.rest, small, if_pos (Nat.le_add_right _ _), Nat.add_sub_cancel_left]

theorem Mapping.rest_mod (m : Mapping) (addr : Nat) : m.rest (addr % 2 ^ 32) = m.rest addr := by
  rw [Mapping.rest, Nat.mod_mod, Mapping.rest]

theorem Mapping.rest_length_le (m : Mapping) (addr : Nat) :
    (m.rest addr).length ≤ m.content.length := by
  rw [Mapping.rest]
  split
  · simp
  · simp

/-- The bytes from an address in the file on end where the file does. -/
theorem Mapping.rest_end (m : Mapping) {addr : Nat} (some_byte : m.rest addr ≠ []) :
    m.base ≤ addr % 2 ^ 32 ∧ addr % 2 ^ 32 + (m.rest addr).length = m.base + m.content.length := by
  rw [Mapping.rest] at some_byte ⊢
  split at some_byte
  next above =>
    rw [ne_eq, List.drop_eq_nil_iff] at some_byte
    rw [if_pos above, List.length_drop]
    omega
  next => exact absurd rfl some_byte

/-- An address in the file does not wrap around. -/
theorem Mapping.rest_add (m : Mapping) {addr n : Nat} (some_byte : m.rest addr ≠ [])
    (inside : n ≤ (m.rest addr).length) : m.rest (addr + n) = (m.rest addr).drop n := by
  have fits := m.fits
  obtain ⟨above, whole⟩ := m.rest_end some_byte
  have sum : (addr + n) % 2 ^ 32 = addr % 2 ^ 32 + n := by omega
  rw [Mapping.rest, sum, if_pos (by omega), Mapping.rest, if_pos above, List.drop_drop]
  congr 1
  omega

/-- The bytes are turned around exactly if file and host differ. -/
theorem number_elfOrder (host enc : ByteOrder) (bytes : Str) :
    host.number (if ELF_ORDER enc ≠ ELF_ORDER host then bytes.reverse else bytes) =
      enc.number bytes := by
  cases host <;> cases enc
  · rfl
  · rw [if_pos (by decide), ← ByteOrder.number_reverse, List.reverse_reverse]
  · rw [if_pos (by decide), ByteOrder.number_reverse]
  · rfl

section
variable {cls : ElfClass} {enc : ByteOrder} {m : Mapping} {sections : List Section}
  (host : ByteOrder)

theorem elf2host_inside (eidata : m.content[EI_DATA]? = some (ELF_ORDER enc)) {x size : Nat}
    (inside : x + size ≤ m.content.length) :
    elf2host host m (m.base + x) size = some (enc.number ((m.content.drop x).take size)) := by
  have full : ¬ ((m.content.drop x).take size).length < size := by
    rw [List.length_take, List.length_drop]
    omega
  rw [elf2host, eidata, m.rest_inside (by omega)]
  simp only [Option.bind_eq_bind, Option.bind_some, if_neg full, number_elfOrder]

theorem readField_inside (eidata : m.content[EI_DATA]? = some (ELF_ORDER enc)) {x : Nat}
    {field : ElfField} (inside : x + field.offset + field.size ≤ m.content.length) :
    readField host m (m.base + x) field = some (field.value enc (m.content.drop x)) := by
  rw [readField, Nat.add_assoc, elf2host_inside host eidata inside, ElfField.value, List.drop_drop]

end

end KexecLoader
