import KexecLoader.SectionLookup

/-!
# What a section table makes the code read

No field of a module file is checked before it is followed. The conditions here name
the places a table leads to, header by header up to the first one with the name, and
say that each of them is in the file.
-/
namespace KexecLoader

/-- The order numbers are taken to be in: any `EI_DATA` but that of the host has the
bytes turned around. -/
def numberOrder (host : ByteOrder) (m : Mapping) : ByteOrder :=
  if m.content[EI_DATA]? = some (ELF_ORDER host) then host else host.other

def FieldInside (m : Mapping) (addr : Nat) (field : ElfField) : Prop :=
  field.size ≤ (m.rest (addr + field.offset)).length

section
variable (host : ByteOrder) (m : Mapping) (layout : ElfLayout) (name : Str)

def fieldAt (addr : Nat) (field : ElfField) : Nat :=
  (numberOrder host m).number ((m.rest (addr + field.offset)).take field.size)

/-- The address of a header by the fields of the file. -/
def headerAddr (i : Nat) : Nat :=
  elfShdr m (fieldAt host m m.base layout.eShoff) (fieldAt host m m.base layout.eShentsize) i

/-- The address of the header of the section with the names. -/
def namesHeaderAddr : Nat := headerAddr host m layout (fieldAt host m m.base layout.eShstrndx)

def tableStated : SectionTable where
  eShoff := fieldAt host m m.base layout.eShoff
  eShentsize := fieldAt host m m.base layout.eShentsize
  eShnum := fieldAt host m m.base layout.eShnum
  shStrings := m.base + fieldAt host m (namesHeaderAddr host m layout) layout.shOffset

def headerStated (i : Nat) : SectionHeader where
  shName := fieldAt host m (headerAddr host m layout i) layout.shName
  shOffset := fieldAt host m (headerAddr host m layout i) layout.shOffset
  shSize := fieldAt host m (headerAddr host m layout i) layout.shSize

/-- The bytes from the name of a section on. -/
def nameBytes (i : Nat) : Str :=
  nameOf m (tableStated host m layout) (headerStated host m layout i)

/-- The string at the name of a section is the name. -/
def Named (i : Nat) : Prop := name ++ [0] <+: nameBytes host m layout i

/-- The fields of a header are in the file, and so is its name as far as it is
compared. -/
structure HeaderReads (i : Nat) : Prop where
  fields : ∀ field ∈ [layout.shName, layout.shOffset, layout.shSize],
    FieldInside m (headerAddr host m layout i) field
  name : ¬ nameBytes host m layout i <+: name

structure TableReads : Prop where
  header : ∀ field ∈ [layout.eShoff, layout.eShentsize, layout.eShnum, layout.eShstrndx],
    FieldInside m m.base field
  names : FieldInside m (namesHeaderAddr host m layout) layout.shOffset
  visited : ∀ i < (tableStated host m layout).eShnum, (∀ j < i, ¬ Named host m layout name j) →
    HeaderReads host m layout name i

/-- The first header with the name. -/
structure FirstNamed (i : Nat) : Prop where
  counted : i < (tableStated host m layout).eShnum
  named : Named host m layout name i
  first : ∀ j < i, ¬ Named host m layout name j

end

/-! ### The reads of the code -/

section
variable {host : ByteOrder} {m : Mapping} {layout : ElfLayout} {name : Str}

theorem readField_eq (ident : EI_DATA < m.content.length) (addr : Nat) (field : ElfField) :
    readField host m addr field =
      if (m.rest (addr + field.offset)).length < field.size then none
      else some (fieldAt host m addr field) := by
  have eidata : m.content[EI_DATA]? = some m.content[EI_DATA] := List.getElem?_eq_getElem ident
  rw [readField, elf2host, eidata, fieldAt, numberOrder, eidata]
  simp only [Option.bind_eq_bind, Option.bind_some, List.length_take, Option.some.injEq]
  by_cases short : (m.rest (addr + field.offset)).length < field.size
  · rw [if_pos short, if_pos (by omega)]
  · rw [if_neg short, if_neg (by omega)]
    by_cases same : m.content[EI_DATA] = ELF_ORDER host
    · simp [same]
    · simp [same, ByteOrder.number_other]

variable (ident : EI_DATA < m.content.length)
include ident

theorem readField_eq_some {addr : Nat} {field : ElfField} {value : Nat} :
    readField host m addr field = some value ↔
      FieldInside m addr field ∧ fieldAt host m addr field = value := by
  rw [readField_eq ident, FieldInside]
  split
  next short => simp [short]
  next whole => simp [Nat.not_lt.mp whole]

theorem readTable_eq_some {table : SectionTable} : readTable host m layout = some table ↔
    (∀ field ∈ [layout.eShoff, layout.eShentsize, layout.eShnum, layout.eShstrndx],
      FieldInside m m.base field) ∧ FieldInside m (namesHeaderAddr host m layout) layout.shOffset ∧
    tableStated host m layout = table := by
  simp only [readTable, Option.bind_eq_bind, Option.bind_eq_some_iff, readField_eq_some ident,
    Option.some.injEq, List.forall_mem_cons]
  constructor
  · rintro ⟨_, ⟨shoff, rfl⟩, _, ⟨shentsize, rfl⟩, _, ⟨shnum, rfl⟩, _, ⟨shstrndx, rfl⟩, _,
      ⟨names, rfl⟩, rfl⟩
    exact ⟨⟨shoff, shentsize, shnum, shstrndx, by simp⟩, names, rfl⟩
  · rintro ⟨⟨shoff, shentsize, shnum, shstrndx, -⟩, names, rfl⟩
    exact ⟨_, ⟨shoff, rfl⟩, _, ⟨shentsize, rfl⟩, _, ⟨shnum, rfl⟩, _, ⟨shstrndx, rfl⟩, _,
      ⟨names, rfl⟩, rfl⟩

theorem readHeader_eq_some {i : Nat} {shdr : SectionHeader} :
    readHeader host m layout (tableStated host m layout) i = some shdr ↔
      (∀ field ∈ [layout.shName, layout.shOffset, layout.shSize],
        FieldInside m (headerAddr host m layout i) field) ∧ headerStated host m layout i = shdr := by
  simp only [readHeader, Option.bind_eq_bind, Option.bind_eq_some_iff, readField_eq_some ident,
    Option.some.injEq, List.forall_mem_cons]
  constructor
  · rintro ⟨_, ⟨shName, rfl⟩, _, ⟨shOffset, rfl⟩, _, ⟨shSize, rfl⟩, rfl⟩
    exact ⟨⟨shName, shOffset, shSize, by simp⟩, rfl⟩
  · rintro ⟨⟨shName, shOffset, shSize, -⟩, rfl⟩
    exact ⟨_, ⟨shName, rfl⟩, _, ⟨shOffset, rfl⟩, _, ⟨shSize, rfl⟩, rfl⟩

/-- One round of the loop. -/
theorem sectionLoop_succ {left i : Nat} {found : Option SectionHeader} :
    sectionLoop host m layout (tableStated host m layout) name (left + 1) i = some found ↔
      HeaderReads host m layout name i ∧
      (Named host m layout name i ∧ found = some (headerStated host m layout i) ∨
        ¬ Named host m layout name i ∧
          sectionLoop host m layout (tableStated host m layout) name left (i + 1) = some found) := by
  simp only [sectionLoop, Option.bind_eq_bind, Option.bind_eq_some_iff, readHeader_eq_some ident,
    streqIn_eq_some]
  constructor
  · rintro ⟨_, ⟨fields, rfl⟩, same, ⟨inside, compared⟩, rest⟩
    refine ⟨⟨fields, inside⟩, ?_⟩
    cases same with
    | true => exact .inl ⟨compared.mp rfl, (Option.some.inj rest).symm⟩
    | false => exact .inr ⟨fun named => Bool.noConfusion (compared.mpr named), rest⟩
  · rintro ⟨⟨fields, inside⟩, ⟨named, rfl⟩ | ⟨unnamed, rest⟩⟩
    · exact ⟨_, ⟨fields, rfl⟩, true, ⟨inside, iff_of_true rfl named⟩, rfl⟩
    · exact ⟨_, ⟨fields, rfl⟩, false, ⟨inside, iff_of_false Bool.false_ne_true unnamed⟩, rest⟩

/-- With all reads in the file the loop finds the next header with the name. -/
theorem sectionLoop_reads {left i : Nat} (reads : ∀ j, i ≤ j → j < i + left →
      (∀ k, i ≤ k → k < j → ¬ Named host m layout name k) → HeaderReads host m layout name j) :
    (∃ j, i ≤ j ∧ j < i + left ∧ Named host m layout name j ∧
      (∀ k, i ≤ k → k < j → ¬ Named host m layout name k) ∧
      sectionLoop host m layout (tableStated host m layout) name left i =
        some (some (headerStated host m layout j))) ∨
    (∀ j, i ≤ j → j < i + left → ¬ Named host m layout name j) ∧
      sectionLoop host m layout (tableStated host m layout) name left i = some none := by
  induction left generalizing i with
  | zero => exact .inr ⟨fun j above below => by omega, rfl⟩
  | succ left ih =>
    have here := reads i (Nat.le_refl i) (by omega) (fun k above below => by omega)
    by_cases named : Named host m layout name i
    · exact .inl ⟨i, Nat.le_refl i, by omega, named, fun k above below => by omega,
        (sectionLoop_succ ident).mpr ⟨here, .inl ⟨named, rfl⟩⟩⟩
    · have before {j : Nat} (unnamed : ∀ k, i + 1 ≤ k → k < j → ¬ Named host m layout name k) :
          ∀ k, i ≤ k → k < j → ¬ Named host m layout name k := fun k above below => by
        obtain rfl | later := Nat.eq_or_lt_of_le above
        · exact named
        · exact unnamed k later below
      obtain ⟨j, above, below, found, unnamed, rest⟩ | ⟨unnamed, rest⟩ :=
        ih fun j above below unnamed => reads j (by omega) (by omega) (before unnamed)
      · exact .inl ⟨j, by omega, by omega, found, before unnamed,
          (sectionLoop_succ ident).mpr ⟨here, .inr ⟨named, rest⟩⟩⟩
      · exact .inr ⟨fun j above below => before unnamed j above (by omega),
          (sectionLoop_succ ident).mpr ⟨here, .inr ⟨named, rest⟩⟩⟩

/-- A loop that ends has read the headers up to the first with the name. -/
theorem sectionLoop_visited {left i : Nat} {found : Option SectionHeader}
    (ends : sectionLoop host m layout (tableStated host m layout) name left i = some found) :
    ∀ j, i ≤ j → j < i + left → (∀ k, i ≤ k → k < j → ¬ Named host m layout name k) →
      HeaderReads host m layout name j := by
  induction left generalizing i with
  | zero => exact fun j above below => by omega
  | succ left ih =>
    intro j above below unnamed
    obtain ⟨here, ⟨named, -⟩ | ⟨-, rest⟩⟩ := (sectionLoop_succ ident).mp ends
    all_goals obtain rfl | later := Nat.eq_or_lt_of_le above
    · exact here
    · exact absurd named (unnamed i (Nat.le_refl i) later)
    · exact here
    · exact ih rest j later (by omega) fun k above below => unnamed k (by omega) below

/-- What a function for a class returns when everything it reads is in the file. -/
theorem getsection_reads (reads : TableReads host m layout name) :
    (∃ i, FirstNamed host m layout name i ∧ getsection host m layout name =
      some (some ((m.base + (headerStated host m layout i).shOffset) % 2 ^ 32,
        (headerStated host m layout i).shSize))) ∨
    (∀ i, ¬ FirstNamed host m layout name i) ∧ getsection host m layout name = some none := by
  have table := (readTable_eq_some ident).mpr ⟨reads.header, reads.names, rfl⟩
  obtain ⟨i, -, below, named, first, loop⟩ | ⟨unnamed, loop⟩ := @sectionLoop_reads host m layout name
    ident (tableStated host m layout).eShnum 0 fun j _ below unnamed =>
      reads.visited j (by omega) fun k before => unnamed k (Nat.zero_le k) before
  · refine .inl ⟨i, ⟨by omega, named, fun k before => first k (Nat.zero_le k) before⟩, ?_⟩
    rw [getsection, table]
    simp only [Option.bind_eq_bind, Option.bind_some, loop]
    rfl
  · refine .inr ⟨fun i first => unnamed i (Nat.zero_le i) (by simpa using first.counted) first.named, ?_⟩
    rw [getsection, table]
    simp only [Option.bind_eq_bind, Option.bind_some, loop]
    rfl

theorem tableReads_of_getsection {found : Option (Nat × Nat)}
    (ends : getsection host m layout name = some found) : TableReads host m layout name := by
  simp only [getsection, Option.bind_eq_bind, Option.bind_eq_some_iff, readTable_eq_some ident] at ends
  obtain ⟨_, ⟨header, names, rfl⟩, _, loop, -⟩ := ends
  exact ⟨header, names, fun i below unnamed => sectionLoop_visited ident loop i (Nat.zero_le i)
    (by omega) fun k _ before => unnamed k before⟩

end

end KexecLoader
