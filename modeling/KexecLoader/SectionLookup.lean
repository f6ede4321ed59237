import KexecLoader.ElfFormat

/-!
# Finding a section

The section that is found is the right one for both classes and byte orders, and so
is its place; the size of a section of a 64-bit image is read into a variable of 32
bits, which takes the lower half of the number from one byte order and the upper
half from the other.
-/
namespace KexecLoader

/-- The variables of the function for a class. -/
def ElfClass.code : ElfClass → ElfLayout
  | class32 => elf32
  | class64 => elf64

/-- The size as it is read. -/
def readSize : ElfClass → ByteOrder → Nat → Nat
  | .class32, _, size => size
  | .class64, .lsb, size => size % 2 ^ 32
  | .class64, .msb, size => size / 2 ^ 32

/-- The field for the place of the names is in the file, which it need not be when
the index does not stand in the header. -/
def StringHeaderRead (cls : ElfClass) (enc : ByteOrder) (m : Mapping) : Prop :=
  cls.format.shOffset.size ≤ (m.rest (elfShdr m (imageShoff cls enc m.content)
    (imageShentsize cls enc m.content) (cls.format.eShstrndx.value enc m.content) +
      cls.format.shOffset.offset)).length

/-- The header counts the sections, and the size of the section is read whole. -/
def LookupSound (cls : ElfClass) (enc : ByteOrder) (m : Mapping) (sections : List Section)
    (name : Str) : Prop :=
  match sections.find? (·.name = name) with
  | none => sections.length < SHN_LORESERVE ∨ StringHeaderRead cls enc m
  | some s => sections.length < SHN_LORESERVE ∧
      (cls = .class32 ∨ if enc = .lsb then s.size < 2 ^ 32 else s.size = 0)

section
variable {cls : ElfClass} {enc : ByteOrder} {m : Mapping} {sections : List Section}
  (host : ByteOrder)

theorem elfGetsection_class (magic : m.content.take 4 = ELFMAG)
    (eiclass : m.content[EI_CLASS]? = some cls.byte) (name : Str) :
    elfGetsection host m name = getsection host m cls.code name := by
  obtain ⟨rest, content⟩ : ∃ rest, m.content = ELFMAG ++ rest :=
    ⟨m.content.drop 4, by rw [← magic, List.take_append_drop]⟩
  have elf : isElf m = some true := by
    rw [isElf, content]
    rfl
  rw [elfGetsection, elf, eiclass]
  cases cls <;> rfl

theorem headerField_inside (header : cls.ehsize ≤ m.content.length) {field : ElfField}
    (listed : field ∈ [cls.code.eShoff, cls.code.eShentsize, cls.code.eShnum, cls.code.eShstrndx,
      cls.code.shOffset]) : field.offset + field.size ≤ m.content.length := by
  refine Nat.le_trans ?_ header
  cases cls <;> simp only [List.mem_cons, List.not_mem_nil, or_false] at listed <;>
    obtain rfl | rfl | rfl | rfl | rfl := listed <;> decide

variable (encoded : ElfEncodes cls enc m.content sections)
include encoded

/-- A field of the header. -/
theorem readField_header {field : ElfField} (listed : field ∈ [cls.code.eShoff,
      cls.code.eShentsize, cls.code.eShnum, cls.code.eShstrndx, cls.code.shOffset]) :
    readField host m m.base field = some (field.value enc m.content) := by
  have inside := headerField_inside encoded.header listed
  have read := @readField_inside enc m host encoded.eidata 0 field (by omega)
  rwa [Nat.add_zero, List.drop_zero] at read

theorem section_inside {i : Nat} (inside : i < sections.length) :
    imageShoff cls enc m.content + i * imageShentsize cls enc m.content + cls.shentsize ≤
      m.content.length := by
  have entry := encoded.entry (List.ne_nil_of_length_pos (by omega))
  have table := encoded.inside
  have upto : (i + 1) * imageShentsize cls enc m.content ≤
      sections.length * imageShentsize cls enc m.content := Nat.mul_le_mul_right _ inside
  rw [Nat.add_one_mul] at upto
  omega

/-- A field of a section header. -/
theorem readField_section {field : ElfField} (listed : field ∈ [cls.code.shName,
      cls.code.shOffset, cls.code.shSize]) {i : Nat} (inside : i < sections.length) :
    readField host m (elfShdr m (imageShoff cls enc m.content)
        (imageShentsize cls enc m.content) i) field =
      some (field.value enc (shdrBytes cls enc m.content i)) := by
  have fits : field.offset + field.size ≤ cls.shentsize := by
    cases cls <;> simp only [List.mem_cons, List.not_mem_nil, or_false] at listed <;>
      obtain rfl | rfl | rfl := listed <;> decide
  have whole := section_inside encoded inside
  rw [elfShdr, Nat.add_assoc, readField_inside host encoded.eidata (by omega), shdrBytes]

/-- The variable for the size holds a part of it. -/
theorem shSize_value {i : Nat} (inside : i < sections.length) {size : Nat}
    (stated : cls.format.shSize.value enc (shdrBytes cls enc m.content i) = size) :
    cls.code.shSize.value enc (shdrBytes cls enc m.content i) = readSize cls enc size := by
  cases cls with
  | class32 => exact stated
  | class64 =>
    have whole : (((shdrBytes .class64 enc m.content i).drop 32).take 8).length = 8 := by
      have inside := section_inside encoded inside
      simp only [shdrBytes, List.length_take, List.length_drop, ElfClass.shentsize] at inside ⊢
      omega
    have part : ((shdrBytes .class64 enc m.content i).drop 32).take 4 =
        (((shdrBytes .class64 enc m.content i).drop 32).take 8).take 4 := by
      rw [List.take_take]
      rfl
    have word : 256 ^ 4 = 2 ^ 32 := by decide
    simp only [ElfClass.format, ElfField.value] at stated
    simp only [ElfClass.code, elf64, ElfField.value, part]
    cases enc with
    | lsb => rw [ByteOrder.lsb_take _ 4 (by omega), stated, word, readSize]
    | msb => rw [ByteOrder.msb_take _ 4, whole, stated, word, readSize]

/-- The fields of the header as they are read. -/
theorem readTable_eq : readTable host m cls.code =
    (readField host m (elfShdr m (imageShoff cls enc m.content) (imageShentsize cls enc m.content)
      (cls.format.eShstrndx.value enc m.content)) cls.code.shOffset).map fun shOffset =>
        ⟨imageShoff cls enc m.content, imageShentsize cls enc m.content,
          cls.format.eShnum.value enc m.content, m.base + shOffset⟩ := by
  have same : cls.code.eShoff = cls.format.eShoff ∧ cls.code.eShentsize = cls.format.eShentsize ∧
      cls.code.eShnum = cls.format.eShnum ∧ cls.code.eShstrndx = cls.format.eShstrndx := by
    cases cls <;> exact ⟨rfl, rfl, rfl, rfl⟩
  obtain ⟨shoff, shentsize, shnum, shstrndx⟩ := same
  have reads : ∀ field ∈ [cls.code.eShoff, cls.code.eShentsize, cls.code.eShnum,
      cls.code.eShstrndx], readField host m m.base field = some (field.value enc m.content) :=
    fun field listed => readField_header host encoded (List.mem_append_left [_] listed)
  simp only [List.forall_mem_cons] at reads
  rw [readTable, reads.1, reads.2.1, reads.2.2.1, reads.2.2.2.1, shoff, shentsize, shnum, shstrndx]
  simp only [Option.bind_eq_bind, Option.bind_some, Option.map_eq_bind]
  rfl

/-- What the loop knows of the table when the header counts the sections. -/
theorem readTable_counted (normal : sections.length < SHN_LORESERVE) :
    ∃ shStrings, readTable host m cls.code = some ⟨imageShoff cls enc m.content,
        imageShentsize cls enc m.content, sections.length, shStrings⟩ ∧
      ∀ strndx strtab, StringTable cls enc m.content sections strndx strtab →
        shStrings = m.base + strtab.offset := by
  have counted := encoded.counted
  rw [if_pos normal] at counted
  rw [readTable_eq host encoded, counted]
  by_cases empty : sections = []
  · -- the header itself is taken for the one of the names
    obtain ⟨shoff, shstrndx⟩ := encoded.empty empty
    have read : readField host m m.base cls.code.shOffset = _ :=
      readField_header host encoded (by simp)
    rw [shoff, shstrndx, elfShdr, Nat.zero_mul, Nat.add_zero, read]
    refine ⟨_, rfl, fun strndx strtab strings => ?_⟩
    have listed := strings.listed
    simp [empty] at listed
  · obtain ⟨strndx, strtab, strings⟩ := encoded.strings empty
    obtain ⟨inside, here⟩ := List.getElem?_eq_some_iff.mp strings.listed
    have index := strings.index
    rw [if_pos (by omega)] at index
    rw [index, readField_section host encoded (by simp) inside]
    refine ⟨_, rfl, fun strndx' strtab' strings' => ?_⟩
    -- the names are where the header of their section says
    obtain ⟨inside', here'⟩ := List.getElem?_eq_some_iff.mp strings'.listed
    have index' := strings'.index
    rw [if_pos (by omega), index] at index'
    subst index'
    rw [← here', ← (strings'.headers strndx inside').offset]
    cases cls <;> rfl

theorem readHeader_inside {shStrings eShnum i : Nat} {strndx : Nat} {strtab : Section}
    (strings : StringTable cls enc m.content sections strndx strtab) (inside : i < sections.length) :
    readHeader host m cls.code ⟨imageShoff cls enc m.content, imageShentsize cls enc m.content,
        eShnum, shStrings⟩ i =
      some ⟨cls.format.shName.value enc (shdrBytes cls enc m.content i), sections[i].offset,
        readSize cls enc sections[i].size⟩ := by
  have header := strings.headers i inside
  have same : cls.code.shName = cls.format.shName ∧ cls.code.shOffset = cls.format.shOffset := by
    cases cls <;> exact ⟨rfl, rfl⟩
  rw [readHeader]
  dsimp only
  rw [readField_section host encoded (by simp) inside, readField_section host encoded (by simp) inside,
    readField_section host encoded (by simp) inside, shSize_value encoded inside header.size, same.1,
    same.2, header.offset]
  rfl

omit encoded in
/-- The name of a section ends in the table of names. -/
theorem streqIn_name {strndx i : Nat} {strtab : Section} {name : Str} (no_nul : 0 ∉ name)
    (strings : StringTable cls enc m.content sections strndx strtab) (inside : i < sections.length) :
    streqIn name (m.rest (m.base + strtab.offset +
        cls.format.shName.value enc (shdrBytes cls enc m.content i))) =
      some (decide (name = sections[i].name)) := by
  have header := strings.headers i inside
  generalize shName_eq : cls.format.shName.value enc (shdrBytes cls enc m.content i) = shName
  have named := header.named
  have stated := header.name
  rw [shName_eq] at named stated
  have whole := strings.inside
  generalize strtab_eq : (m.content.drop strtab.offset).take strtab.size = table
    at named stated
  have size : table.length = strtab.size := by
    rw [← strtab_eq, List.length_take, List.length_drop]
    omega
  have split : m.content.drop (strtab.offset + shName) =
      table.drop shName ++ m.content.drop (strtab.offset + strtab.size) := by
    rw [← List.drop_drop, ← List.take_append_drop strtab.size (m.content.drop strtab.offset),
      strtab_eq, List.drop_append_of_le_length named.le, List.drop_drop]
  have nul : 0 ∈ table.drop shName := by
    have last := strings.terminated
    rw [strtab_eq] at last
    apply List.mem_of_getLast?
    rw [List.getLast?_drop, if_neg (Nat.not_le.mpr named), last]
  rw [Nat.add_assoc, m.rest_inside (by omega), split,
    streqIn_terminated no_nul (List.mem_append_left _ nul), cstr_terminated _ nul, stated]

/-- From any header on, the loop finds the next section with the name. -/
theorem sectionLoop_eq {eShnum strndx : Nat} {strtab : Section} {name : Str} (no_nul : 0 ∉ name)
    (strings : StringTable cls enc m.content sections strndx strtab) {front rest : List Section}
    (split : sections = front ++ rest) :
    ∃ found, sectionLoop host m cls.code ⟨imageShoff cls enc m.content,
        imageShentsize cls enc m.content, eShnum, m.base + strtab.offset⟩ name rest.length
        front.length = some found ∧
      found.map (fun shdr => (shdr.shOffset, shdr.shSize)) =
        (rest.find? (·.name = name)).map fun s => (s.offset, readSize cls enc s.size) := by
  induction rest generalizing front with
  | nil => exact ⟨none, rfl, rfl⟩
  | cons s rest ih =>
    have inside : front.length < sections.length := by simp [split]
    have here : sections[front.length] = s := by simp [split]
    obtain ⟨found, later, same⟩ := @ih (front ++ [s]) (by simp [split])
    rw [List.length_append, List.length_singleton] at later
    simp only [List.length_cons, sectionLoop, nameOf, Option.bind_eq_bind, Option.bind_some,
      readHeader_inside host encoded strings inside, streqIn_name no_nul strings inside, here]
    by_cases named : s.name = name
    · exact ⟨_, by rw [if_pos (decide_eq_true named.symm)], by simp [named]⟩
    · refine ⟨found, ?_, by rw [same, List.find?_cons_of_neg (by simp [named])]⟩
      rw [if_neg (by simpa using Ne.symm named), later]

/-- With the number of the sections in the header, all but the size is right. -/
theorem getsection_counted (normal : sections.length < SHN_LORESERVE) {name : Str}
    (no_nul : 0 ∉ name) : getsection host m cls.code name =
      some ((sections.find? (·.name = name)).map fun s =>
        (m.base + s.offset, readSize cls enc s.size)) := by
  obtain ⟨shStrings, table, place⟩ := readTable_counted host encoded normal
  rw [getsection, table]
  simp only [Option.bind_eq_bind, Option.bind_some]
  by_cases empty : sections = []
  · simp [empty, sectionLoop]
  · obtain ⟨strndx, strtab, strings⟩ := encoded.strings empty
    obtain ⟨found, loop, same⟩ := @sectionLoop_eq cls enc m sections host encoded sections.length
      strndx strtab name no_nul strings [] sections rfl
    rw [List.length_nil] at loop
    rw [place strndx strtab strings, loop, Option.bind_some]
    have address : found.map (fun shdr => ((m.base + shdr.shOffset) % 2 ^ 32, shdr.shSize)) =
        (found.map fun shdr => (shdr.shOffset, shdr.shSize)).map
          fun (offset, size) => ((m.base + offset) % 2 ^ 32, size) := by rw [Option.map_map]; rfl
    rw [address, same, Option.map_map]
    refine congrArg some (Option.map_congr fun s found => ?_)
    -- a section is in the file, so its address does not wrap around
    obtain ⟨i, inside, here⟩ := List.mem_iff_getElem.mp (List.mem_of_find?_eq_some found)
    have placed := (strings.headers i inside).placed
    have fits := m.fits
    rw [here] at placed
    simp only [Function.comp_apply, Nat.mod_eq_of_lt (show m.base + s.offset < 2 ^ 32 by omega)]

/-- With 0 for the number of the sections none is looked at. -/
theorem getsection_extended (many : SHN_LORESERVE ≤ sections.length) (name : Str) :
    getsection host m cls.code name = some none ↔ StringHeaderRead cls enc m := by
  have counted := encoded.counted
  rw [if_neg (Nat.not_lt.mpr many)] at counted
  have same : cls.code.shOffset = cls.format.shOffset := by cases cls <;> rfl
  rw [getsection, readTable_eq host encoded, counted, same, readField, elf2host, encoded.eidata]
  simp only [Option.bind_eq_bind, Option.bind_some, StringHeaderRead, List.length_take]
  split
  next short => simp; omega
  next whole => simp [sectionLoop]; omega

theorem getsection_extended_ne (many : SHN_LORESERVE ≤ sections.length) (name : Str)
    (found : Nat × Nat) : getsection host m cls.code name ≠ some (some found) := by
  have counted := encoded.counted
  rw [if_neg (Nat.not_lt.mpr many)] at counted
  rw [getsection, readTable_eq host encoded, counted]
  cases readField host m _ cls.code.shOffset <;> simp [sectionLoop]

omit encoded in
theorem readSize_eq_iff (size : Nat) : readSize cls enc size = size ↔
    cls = .class32 ∨ if enc = .lsb then size < 2 ^ 32 else size = 0 := by
  cases cls with
  | class32 => simp [readSize]
  | class64 =>
    cases enc with
    | lsb => simp [readSize]
    | msb =>
      simp only [readSize, reduceCtorEq, false_or, if_false]
      omega

end

/-- A section is found with its place and its size exactly if `LookupSound` says so. -/
theorem elfGetsection_iff (host : ByteOrder) (m : Mapping) (cls : ElfClass) (enc : ByteOrder)
    (sections : List Section) (encoded : ElfEncodes cls enc m.content sections) (name : Str)
    (no_nul : 0 ∉ name) :
    elfGetsection host m name = some (sectionDue m.base sections name) ↔
      LookupSound cls enc m sections name := by
  rw [elfGetsection_class host encoded.magic encoded.eiclass, sectionDue, LookupSound]
  by_cases normal : sections.length < SHN_LORESERVE
  · rw [getsection_counted host encoded normal no_nul]
    cases sections.find? (·.name = name) with
    | none => simp [normal]
    | some s => simp [normal, readSize_eq_iff]
  · have many := Nat.not_lt.mp normal
    cases sections.find? (·.name = name) with
    | none => simp [normal, getsection_extended host encoded many]
    | some s => simp [normal, getsection_extended_ne host encoded many]

/-! ### An image of each class and byte order -/

def fieldBytes (enc : ByteOrder) (size value : Nat) : Str :=
  let digits := (List.range size).map fun i => UInt8.ofNat (value / 256 ^ i)
  if enc = .lsb then digits else digits.reverse

def withField (enc : ByteOrder) (bytes : Str) (entry : ElfField × Nat) : Str :=
  bytes.take entry.1.offset ++ fieldBytes enc entry.1.size entry.2 ++
    bytes.drop (entry.1.offset + entry.1.size)

def sampleSections (cls : ElfClass) (modinfo : Str) : List Section :=
  [⟨[], 0, 0⟩, ⟨bytes ".modinfo", cls.ehsize + 20, modinfo.length⟩,
    ⟨bytes ".shstrtab", cls.ehsize, 20⟩]

/-- Header, names, module information and section table. -/
def sampleImage (cls : ElfClass) (enc : ByteOrder) (modinfo : Str) : Str :=
  [(cls.format.eShoff, cls.ehsize + 20 + modinfo.length), (cls.format.eShentsize, cls.shentsize),
    (cls.format.eShnum, 3), (cls.format.eShstrndx, 2)].foldl (withField enc)
    (ELFMAG ++ cls.byte :: ELF_ORDER enc :: List.replicate (cls.ehsize - 6) 0) ++
  (0 :: bytes ".modinfo" ++ 0 :: bytes ".shstrtab" ++ [0]) ++ modinfo ++
  ((sampleSections cls modinfo).zip [0, 1, 10]).flatMap fun (s, shName) =>
    [(cls.format.shName, shName), (cls.format.shOffset, s.offset),
      (cls.format.shSize, s.size)].foldl (withField enc) (List.replicate cls.shentsize 0)

/-- A file far from both ends of the memory. -/
def sampleMapping (content : Str) (short : content.length < 2 ^ 16) : Mapping where
  base := 0x8000000
  content := content
  base_pos := by decide
  fits := by omega

def twoDependencies : Str := bytes "depends=b,c" ++ [0]

theorem sampleImage_encodes (cls : ElfClass) (enc : ByteOrder) :
    ElfEncodes cls enc (sampleImage cls enc twoDependencies)
      (sampleSections cls twoDependencies) where
  magic := by cases cls <;> cases enc <;> decide +kernel
  eiclass := by cases cls <;> cases enc <;> decide +kernel
  eidata := by cases cls <;> cases enc <;> decide +kernel
  header := by cases cls <;> cases enc <;> decide +kernel
  entry := by cases cls <;> cases enc <;> decide +kernel
  inside := by cases cls <;> cases enc <;> decide +kernel
  counted := by cases cls <;> cases enc <;> decide +kernel
  extended := by cases cls <;> cases enc <;> decide +kernel
  empty := by cases cls <;> cases enc <;> decide +kernel
  strings := fun _ => by
    refine ⟨2, ⟨bytes ".shstrtab", cls.ehsize, 20⟩, ?_⟩
    constructor <;> cases cls <;> cases enc <;> decide +kernel

theorem elfGetsection_sample :
    elfGetsection .lsb (sampleMapping (sampleImage .class32 .msb twoDependencies) (by decide +kernel))
      (bytes ".modinfo") = some (some (0x8000048, 12)) :=
  (elfGetsection_iff .lsb (sampleMapping _ (by decide +kernel)) .class32 .msb _
    (sampleImage_encodes .class32 .msb) (bytes ".modinfo") (by decide)).mpr ⟨by decide, .inl rfl⟩

/-- Of a 64-bit image with the most significant byte first the upper half of the size
is read. -/
theorem section_size_lost :
    ElfEncodes .class64 .msb (sampleImage .class64 .msb twoDependencies)
      (sampleSections .class64 twoDependencies) ∧
    sectionDue 0x8000000 (sampleSections .class64 twoDependencies) (bytes ".modinfo") =
      some (0x8000054, 12) ∧
    elfGetsection .lsb (sampleMapping (sampleImage .class64 .msb twoDependencies)
      (by decide +kernel)) (bytes ".modinfo") = some (some (0x8000054, 0)) :=
  ⟨sampleImage_encodes .class64 .msb, by decide +kernel, by decide +kernel⟩

end KexecLoader
