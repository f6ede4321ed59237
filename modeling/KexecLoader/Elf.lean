import KexecLoader.Library.ByteOrder
import KexecLoader.Misc

/-!
# The sections of a module file

`elf_getsection` and the scan of `.modinfo` work on a file in memory. Every read is
checked here: one outside of the file gives none. The two functions for the classes
are one definition, with the place of each field and the size of the variable it is
read into.
-/
namespace KexecLoader

/-- A file that `mmap` has put into the 32-bit address space; there is an address
behind its last byte. -/
structure Mapping where
  base : Nat
  content : Str
  base_pos : 0 < base
  fits : base + content.length < 2 ^ 32

/-- The bytes of the file from an address on. Sums of addresses wrap around. -/
def Mapping.rest (m : Mapping) (addr : Nat) : Str :=
  if m.base ≤ addr % 2 ^ 32 then m.content.drop (addr % 2 ^ 32 - m.base) else []

/-! ### Strings in the file -/

/-- `kl_streq(name, s)` for a string in the file. -/
def streqIn : Str → Str → Option Bool
  | _, [] => none
  | [], c :: _ => some (c == 0)
  | a :: name, c :: s => if a = c then streqIn name s else some false

/-- `kl_strneq(s, text, max)` for a string in the file. The bytes are compared
before it is seen that there were enough of them. -/
def strneqIn : Str → Str → Nat → Option Bool
  | [], _, _ => none
  | c :: s, text, max =>
    if c = text.head?.getD 0 ∧ 0 < max then
      if c = 0 then some true else strneqIn s text.tail (max - 1)
    else some (max == 0)

/-- `strlen(s)` for a string in the file. -/
def strlenIn (s : Str) : Option Nat := if 0 ∈ s then some (cstr s).length else none

theorem streqIn_terminated {name s : Str} (no_nul : 0 ∉ name) (nul : 0 ∈ s) :
    streqIn name s = some (decide (name = cstr s)) := by
  induction s generalizing name with
  | nil => simp at nul
  | cons c s ih =>
    cases name with
    | nil => by_cases zero : c = 0 <;> simp [streqIn, cstr, zero]
    | cons a name =>
      have not_zero : a ≠ 0 := fun zero => no_nul (zero ▸ List.mem_cons_self)
      by_cases same : a = c
      · -- the terminator is still to come
        subst same
        have later : 0 ∈ s := (List.mem_cons.mp nul).resolve_left (Ne.symm not_zero)
        have rest : 0 ∉ name := fun member => no_nul (List.mem_cons_of_mem _ member)
        simp [streqIn, ih rest later, cstr, not_zero]
      · by_cases zero : c = 0 <;> simp [streqIn, same, cstr, zero, not_zero]

/-- The comparison leaves the file exactly if the file ends within the string. -/
theorem streqIn_eq_none {name s : Str} : streqIn name s = none ↔ s <+: name := by
  induction s generalizing name with
  | nil => cases name <;> simp [streqIn]
  | cons c s ih =>
    cases name with
    | nil => simp [streqIn]
    | cons a name =>
      by_cases same : a = c
      · simp [streqIn, same, ih]
      · simp [streqIn, same, Ne.symm same]

theorem streqIn_eq_true {name s : Str} : streqIn name s = some true ↔ name ++ [0] <+: s := by
  induction s generalizing name with
  | nil => cases name <;> simp [streqIn]
  | cons c s ih =>
    cases name with
    | nil => by_cases zero : c = 0 <;> simp [streqIn, zero, Ne.symm]
    | cons a name =>
      by_cases same : a = c
      · simp [streqIn, same, ih]
      · simp [streqIn, same]

theorem streqIn_eq_some {name s : Str} {same : Bool} :
    streqIn name s = some same ↔ ¬ s <+: name ∧ (same = true ↔ name ++ [0] <+: s) := by
  rw [← streqIn_eq_none, ← streqIn_eq_true]
  cases streqIn name s with
  | none => simp
  | some found => cases found <;> cases same <;> simp

theorem strneqIn_eq {s text : Str} (no_nul : 0 ∉ text) : strneqIn s text text.length =
    if s <+: text then none else some (decide (text <+: s)) := by
  induction s generalizing text with
  | nil => simp [strneqIn]
  | cons c s ih =>
    cases text with
    | nil => simp [strneqIn]
    | cons a text =>
      have not_zero : a ≠ 0 := fun zero => no_nul (zero ▸ List.mem_cons_self)
      have rest : 0 ∉ text := fun member => no_nul (List.mem_cons_of_mem _ member)
      by_cases same : c = a
      · subst same
        simp [strneqIn, not_zero, ih rest]
      · simp [strneqIn, same, Ne.symm same]

/-! ### Fields -/

def ELFMAG : Str := 0x7F :: bytes "ELF"

def EI_CLASS : Nat := 4

def EI_DATA : Nat := 5

def ELFCLASS32 : UInt8 := 1

def ELFCLASS64 : UInt8 := 2

def ELFDATA2LSB : UInt8 := 1

def ELFDATA2MSB : UInt8 := 2

/-- `ELF_ORDER` on a host. -/
def ELF_ORDER : ByteOrder → UInt8
  | .lsb => ELFDATA2LSB
  | .msb => ELFDATA2MSB

/-- Where a field is, and the size of the variable for it. -/
structure ElfField where
  offset : Nat
  size : Nat

structure ElfLayout where
  eShoff : ElfField
  eShentsize : ElfField
  eShnum : ElfField
  eShstrndx : ElfField
  shName : ElfField
  shOffset : ElfField
  shSize : ElfField

def elf32 : ElfLayout where
  eShoff := ⟨32, 4⟩
  eShentsize := ⟨46, 2⟩
  eShnum := ⟨48, 2⟩
  eShstrndx := ⟨50, 2⟩
  shName := ⟨0, 4⟩
  shOffset := ⟨16, 4⟩
  shSize := ⟨20, 4⟩

def elf64 : ElfLayout where
  eShoff := ⟨40, 8⟩
  eShentsize := ⟨58, 2⟩
  eShnum := ⟨60, 2⟩
  eShstrndx := ⟨62, 2⟩
  shName := ⟨0, 4⟩
  shOffset := ⟨24, 8⟩
  -- an Elf64_Word, for an Elf64_Xword in the file
  shSize := ⟨32, 4⟩

section
variable (host : ByteOrder) (m : Mapping)

/-- `elf2host`. -/
def elf2host (src size : Nat) : Option Nat := do
  let eidata ← m.content[EI_DATA]?
  let bytes := (m.rest src).take size
  if bytes.length < size then none
  else some (host.number (if eidata ≠ ELF_ORDER host then bytes.reverse else bytes))

/-- The field of a structure at an address. -/
def readField (addr : Nat) (field : ElfField) : Option Nat :=
  elf2host host m (addr + field.offset) field.size

/-- What the header says of the sections, and where their names are. -/
structure SectionTable where
  eShoff : Nat
  eShentsize : Nat
  eShnum : Nat
  shStrings : Nat

structure SectionHeader where
  shName : Nat
  shOffset : Nat
  shSize : Nat

variable (layout : ElfLayout)

/-- `ELF_SHDR(i)`. -/
def elfShdr (eShoff eShentsize i : Nat) : Nat := m.base + eShoff + i * eShentsize

def readTable : Option SectionTable := do
  let eShoff ← readField host m m.base layout.eShoff
  let eShentsize ← readField host m m.base layout.eShentsize
  let eShnum ← readField host m m.base layout.eShnum
  let eShstrndx ← readField host m m.base layout.eShstrndx
  let shOffset ← readField host m (elfShdr m eShoff eShentsize eShstrndx) layout.shOffset
  some ⟨eShoff, eShentsize, eShnum, m.base + shOffset⟩

def readHeader (table : SectionTable) (shnum : Nat) : Option SectionHeader := do
  let shdr := elfShdr m table.eShoff table.eShentsize shnum
  let shName ← readField host m shdr layout.shName
  let shOffset ← readField host m shdr layout.shOffset
  let shSize ← readField host m shdr layout.shSize
  some ⟨shName, shOffset, shSize⟩

/-- The bytes from the name of a section on. -/
def nameOf (table : SectionTable) (shdr : SectionHeader) : Str :=
  m.rest (table.shStrings + shdr.shName)

/-- The loop over the headers, `left` of which are still to come. -/
def sectionLoop (table : SectionTable) (name : Str) : Nat → Nat → Option (Option SectionHeader)
  | 0, _ => some none
  | left + 1, shnum => do
    let shdr ← readHeader host m layout table shnum
    let found ← streqIn name (nameOf m table shdr)
    if found then some (some shdr) else sectionLoop table name left (shnum + 1)

/-- The body of `elf32_getsection` and `elf64_getsection`: the address and the size
of the section; the inner none is NULL. -/
def getsection (name : Str) : Option (Option (Nat × Nat)) := do
  let table ← readTable host m layout
  let shdr ← sectionLoop host m layout table name table.eShnum 0
  some (shdr.map fun shdr => ((m.base + shdr.shOffset) % 2 ^ 32, shdr.shSize))

def elf32Getsection (name : Str) : Option (Option (Nat × Nat)) := getsection host m elf32 name

def elf64Getsection (name : Str) : Option (Option (Nat × Nat)) := getsection host m elf64 name

/-- The two conditions in front of the class. -/
def isElf : Option Bool := do
  let first ← m.content.head?
  if first ≠ 0x7F then strneqIn (m.content.drop 1) (bytes "ELF") 3 else some true

def elfGetsection (name : Str) : Option (Option (Nat × Nat)) := do
  let elf ← isElf m
  if !elf then some none
  else
    let eiclass ← m.content[EI_CLASS]?
    if eiclass = ELFCLASS32 then elf32Getsection host m name
    else if eiclass = ELFCLASS64 then elf64Getsection host m name
    else some none

/-! ### The scan of modprobe -/

/-- A read outside of the file, a write outside of `dep`, or no end after the rounds
that were given. -/
inductive ScanFault where
  | outside
  | overflow
  | endless
deriving DecidableEq

/-- How the scan ends: the names that `load_kmod` was called with, and whether they
were all loaded. -/
abbrev ScanEnd := Except ScanFault (List Str × Bool)

/-- The loop over the dependencies; `loads n` is what call number n of `load_kmod`
returns. `strlcpy` goes on to the end of the string it copies from. -/
def scanDeps (loads : Nat → Bool) : Nat → Nat → Str → ScanEnd
  | 0, _, _ => .error .endless
  | fuel + 1, n, sec =>
    match sec with
    | [] => .error .outside
    | c :: _ =>
      if c = 0 then .ok ([], true)
      else if 0 ∉ sec then .error .outside
      else
        let comma := strcspn (cstr sec) [44]
        if 256 ≤ comma then .error .overflow
        else
          let dep := sec.take comma
          if loads n then
            let sec := sec.drop comma
            (scanDeps loads fuel (n + 1) (if sec.head? = some 0 then sec else sec.drop 1)).map
              fun (deps, loaded) => (dep :: deps, loaded)
          else .ok ([dep], false)

/-- The loop over the entries of the section, up to the first with dependencies. -/
def scanModinfo (loads : Nat → Bool) (stop : Nat) : Nat → Nat → ScanEnd
  | 0, _ => .error .endless
  | fuel + 1, sec =>
    if sec = 0 ∨ stop ≤ sec then .ok ([], true)
    else
      match strneqIn (m.rest sec) (bytes "depends=") 8, strlenIn (m.rest sec) with
      | none, _ => .error .outside
      | some true, _ => scanDeps loads (m.content.length + 1) 0 (m.rest (sec + 8))
      | some false, none => .error .outside
      | some false, some len => scanModinfo loads stop fuel ((sec + len + 1) % 2 ^ 32)

/-- The beginning of `modprobe`, up to the call of the kernel. -/
def modprobeScan (loads : Nat → Bool) : ScanEnd :=
  match elfGetsection host m (bytes ".modinfo") with
  | none => .error .outside
  | some none => .ok ([], true)
  | some (some (sec, size)) =>
    scanModinfo m loads ((sec + size) % 2 ^ 32) (m.content.length + 1) sec

end

end KexecLoader
