import KexecLoader.DiskFilter

/-!
# Addressing a disk by its tags

Every disk of the table is asked for by its label, its UUID and its name. A colon in
the tag is taken for the end of a file system type, which leaves only what is behind
it to look for.
-/
namespace KexecLoader

/-- The ways to write down which disk is meant. -/
inductive DiskTag where
  | label | uuid | name | device
deriving DecidableEq

def DiskTag.mark : DiskTag → Str
  | label => bytes "LABEL="
  | uuid => bytes "UUID="
  | name => []
  | device => bytes "/dev/"

def DiskTag.value (disk : KlDisk) : DiskTag → Str
  | label => disk.label.str
  | uuid => disk.uuid.str
  | name => disk.name.str
  | device => disk.name.str

/-- Labels and UUIDs are the same in any case. -/
def DiskTag.Same (a b : Str) : DiskTag → Prop
  | label => a.map tolower = b.map tolower
  | uuid => a.map tolower = b.map tolower
  | name => a = b
  | device => a = b

def DiskTag.Has (tag : DiskTag) (value : Str) (disk : KlDisk) : Prop :=
  tag.Same (tag.value disk) value

/-- A disk is returned, and it has the tag. -/
def Addressable (os : DiskOs) (tag : DiskTag) (disk : KlDisk) : Prop :=
  ∃ found, getDisks os (some (tag.mark ++ tag.value disk)) = [found] ∧
    tag.Has (tag.value disk) found

/-- A disk that the text fits for another reason than its tag: a name that starts like
a label or UUID, or a name that is the whole text. -/
def DiskTag.Mistaken (value : Str) (disk : KlDisk) : DiskTag → Prop
  | label => disk.name.str = bytes "LABEL=" ++ value
  | uuid => disk.name.str = bytes "UUID=" ++ value
  | name =>
    (klStrnceq value (bytes "LABEL=") 6 = true ∧ disk.label.str ≠ [] ∧
        klStrceq disk.label.str (value.drop 6) = true) ∨
      (klStrnceq value (bytes "UUID=") 5 = true ∧ disk.uuid.str ≠ [] ∧
        klStrceq disk.uuid.str (value.drop 5) = true)
  | device => False

/-- Without a colon no disk may be mistaken for one with the tag before there was one
in the table, and a name may not start with `/dev/`. With one, the first disk that the
text behind it fits needs to have the tag. -/
inductive DiskTag.Reached (table : List KlDisk) (tag : DiskTag) (value : Str) : Prop
  | whole (no_colon : 58 ∉ value) (bare : tag = name → ¬ bytes "/dev/" <+: value)
      (clear : ∀ front e back, table = front ++ e :: back → tag.Mistaken value e →
        ∃ x ∈ front ++ [e], tag.Has value x)
  | cut (rest : Str) (colon : strchr value 58 = some (58 :: rest))
      (found : ∃ e, table.find? (compareDiskId · rest) = some e ∧ tag.Has value e)

/-! ### Which disks a text fits -/

theorem compareDiskId_iff (disk : KlDisk) (id : Str) :
    compareDiskId disk id = true ↔
      (klStrnceq id (bytes "LABEL=") 6 = true ∧ disk.label.str ≠ [] ∧
          klStrceq disk.label.str (id.drop 6) = true) ∨
        (klStrnceq id (bytes "UUID=") 5 = true ∧ disk.uuid.str ≠ [] ∧
          klStrceq disk.uuid.str (id.drop 5) = true) ∨
        disk.name.str = if klStrneq id (bytes "/dev/") 5 then id.drop 5 else id := by
  simp only [compareDiskId, Bool.if_true_left, Bool.or_eq_true, Bool.and_eq_true, decide_eq_true_eq,
    klStreq_iff, and_assoc]

/-- A text in front of a value is compared on its own. -/
theorem klStrnceq_append (mark value : Str) : klStrnceq (mark ++ value) mark mark.length = true := by
  induction mark with
  | nil => cases value <;> rfl
  | cons c mark ih => simpa [klStrnceq] using ih

theorem klStrceq_nonempty {a b : Str} (given : b ≠ []) :
    a ≠ [] ∧ klStrceq a b = true ↔ a.map tolower = b.map tolower := by
  rw [klStrceq_iff, and_iff_right_iff_imp]
  rintro same rfl
  exact given (List.map_eq_nil_iff.mp same.symm)

/-- A text without a colon that is no device path in the place of a name. -/
theorem DiskTag.fits_iff (tag : DiskTag) {value : Str} (disk : KlDisk) (given : value ≠ [])
    (bare : tag = name → ¬ bytes "/dev/" <+: value) :
    compareDiskId disk (tag.mark ++ value) = true ↔
      tag.Has value disk ∨ tag.Mistaken value disk := by
  rw [compareDiskId_iff]
  cases tag with
  | label =>
    have by_label : klStrnceq (bytes "LABEL=" ++ value) (bytes "LABEL=") 6 = true :=
      klStrnceq_append (bytes "LABEL=") value
    have no_uuid : klStrnceq (bytes "LABEL=" ++ value) (bytes "UUID=") 5 = false := rfl
    have no_device : klStrneq (bytes "LABEL=" ++ value) (bytes "/dev/") 5 = false := rfl
    have rest : (bytes "LABEL=" ++ value).drop 6 = value := rfl
    simp only [mark, by_label, no_uuid, no_device, rest, true_and, Bool.false_eq_true, false_and,
      false_or, if_false, klStrceq_nonempty given]
    rfl
  | uuid =>
    have no_label : klStrnceq (bytes "UUID=" ++ value) (bytes "LABEL=") 6 = false := rfl
    have by_uuid : klStrnceq (bytes "UUID=" ++ value) (bytes "UUID=") 5 = true :=
      klStrnceq_append (bytes "UUID=") value
    have no_device : klStrneq (bytes "UUID=" ++ value) (bytes "/dev/") 5 = false := rfl
    have rest : (bytes "UUID=" ++ value).drop 5 = value := rfl
    simp only [mark, no_label, by_uuid, no_device, rest, true_and, Bool.false_eq_true, false_and,
      false_or, if_false, klStrceq_nonempty given]
    rfl
  | name =>
    -- without a mark the value itself must not look like one
    have no_device : ¬ klStrneq value (bytes "/dev/") 5 = true := fun device =>
      bare rfl ((klStrneq_iff value (bytes "/dev/")).mp device)
    have mark : mark name ++ value = value := rfl
    rw [mark, if_neg no_device, ← or_assoc, or_comm]
    rfl
  | device =>
    have no_label : klStrnceq (bytes "/dev/" ++ value) (bytes "LABEL=") 6 = false := rfl
    have no_uuid : klStrnceq (bytes "/dev/" ++ value) (bytes "UUID=") 5 = false := rfl
    have by_device : klStrneq (bytes "/dev/" ++ value) (bytes "/dev/") 5 = true :=
      (klStrneq_iff _ (bytes "/dev/")).mpr (List.prefix_append _ _)
    have rest : (bytes "/dev/" ++ value).drop 5 = value := rfl
    simp only [mark, no_label, no_uuid, by_device, rest, Bool.false_eq_true, false_and, false_or,
      if_true]
    exact (iff_of_eq (or_false _)).symm

/-- A device path in the place of a name is taken for the name behind it. -/
theorem name_device_fits {value : Str} (disk : KlDisk) (device : bytes "/dev/" <+: value) :
    compareDiskId disk value = true ↔ disk.name.str = value.drop 5 := by
  obtain ⟨rest, rfl⟩ := device
  have no_label : klStrnceq (bytes "/dev/" ++ rest) (bytes "LABEL=") 6 = false := rfl
  have no_uuid : klStrnceq (bytes "/dev/" ++ rest) (bytes "UUID=") 5 = false := rfl
  have by_device : klStrneq (bytes "/dev/" ++ rest) (bytes "/dev/") 5 = true :=
    (klStrneq_iff _ (bytes "/dev/")).mpr (List.prefix_append _ _)
  simp only [compareDiskId_iff, no_label, no_uuid, by_device, Bool.false_eq_true, false_and, false_or,
    if_true]

/-! ### The first disk that fits -/

/-- Where what fits has the property or is mistaken, the first that fits has it unless
one is mistaken first. -/
theorem find?_clear {α : Type*} {fits : α → Bool} {has mistaken : α → Prop} {table : List α}
    (split : ∀ x ∈ table, fits x = true ↔ has x ∨ mistaken x) (some_has : ∃ x ∈ table, has x) :
    (∃ e, table.find? fits = some e ∧ has e) ↔
      ∀ front e back, table = front ++ e :: back → mistaken e → ∃ x ∈ front ++ [e], has x := by
  induction table with
  | nil => simp at some_has
  | cons y table ih =>
    have here := split y List.mem_cons_self
    cases fit : fits y with
    | true =>
      rw [List.find?_cons_of_pos fit]
      constructor
      · rintro ⟨e, found, good⟩ front e' back cut -
        obtain rfl := Option.some.inj found
        cases front with
        | nil =>
          obtain ⟨rfl, -⟩ := List.cons.inj cut
          exact ⟨y, by simp, good⟩
        | cons z front =>
          obtain ⟨rfl, -⟩ := List.cons.inj cut
          exact ⟨y, by simp, good⟩
      · -- if it is mistaken, it has the property too, as nothing stands in front of it
        intro clear
        refine ⟨y, rfl, ?_⟩
        obtain good | bad := here.mp fit
        · exact good
        · obtain ⟨x, member, good⟩ := clear [] y table rfl bad
          obtain rfl := List.mem_singleton.mp member
          exact good
    | false =>
      -- what does not fit can be left out on both sides
      have neither : ¬ (has y ∨ mistaken y) := by rw [← here, fit]; simp
      obtain ⟨no_has, no_mistaken⟩ := not_or.mp neither
      rw [List.find?_cons_of_neg (by simp [fit]), ih]
      · constructor
        · intro clear front e back cut bad
          cases front with
          | nil =>
            obtain ⟨rfl, -⟩ := List.cons.inj cut
            exact absurd bad no_mistaken
          | cons z front =>
            obtain ⟨rfl, tail⟩ := List.cons.inj cut
            obtain ⟨x, member, good⟩ := clear front e back tail bad
            exact ⟨x, List.mem_cons_of_mem _ member, good⟩
        · intro clear front e back tail bad
          obtain ⟨x, member, good⟩ := clear (y :: front) e back (by rw [tail]; rfl) bad
          obtain rfl | later := List.mem_cons.mp member
          · exact absurd good no_has
          · exact ⟨x, later, good⟩
      · exact fun x member => split x (List.mem_cons_of_mem _ member)
      · obtain ⟨x, member, good⟩ := some_has
        obtain rfl | later := List.mem_cons.mp member
        · exact absurd good no_has
        · exact ⟨x, later, good⟩

theorem DiskTag.Has.typed_iff (tag : DiskTag) (value : Str) (fstype : Option Str) (disk : KlDisk) :
    tag.Has value (disk.typed fstype) ↔ tag.Has value disk := by
  rcases fstype with _ | _ | ⟨c, t⟩ <;> cases tag <;> rfl

/-- What a request finds is the first disk that fits the text behind its colon. -/
theorem addressable_split (os : DiskOs) (tag : DiskTag) (disk : KlDisk) {fstype : Option Str} {id : Str}
    (split : splitFilter (some (tag.mark ++ tag.value disk)) = (fstype, some id)) :
    Addressable os tag disk ↔
      ∃ e, (getDisks os none).find? (compareDiskId · id) = some e ∧ tag.Has (tag.value disk) e := by
  rw [Addressable, getDisks_first os split]
  cases (getDisks os none).find? (compareDiskId · id) with
  | none => simp
  | some e => simp [DiskTag.Has.typed_iff]

theorem DiskTag.mark_no_colon (tag : DiskTag) : 58 ∉ tag.mark := by cases tag <;> decide

/-- A value with a colon is cut off there, and what is behind it is looked for. -/
theorem addressable_colon (os : DiskOs) (tag : DiskTag) (disk : KlDisk)
    (colon : 58 ∈ tag.value disk) :
    Addressable os tag disk ↔ tag.Reached (getDisks os none) (tag.value disk) := by
  obtain ⟨front, rest, value, first⟩ := List.eq_append_cons_of_mem colon
  have whole : 58 ∉ tag.mark ++ front := fun member =>
    (List.mem_append.mp member).elim tag.mark_no_colon first
  have split : splitFilter (some (tag.mark ++ tag.value disk)) =
      (some (tag.mark ++ front), some rest) := by
    rw [value, ← List.append_assoc]
    have text := @splitFilter_text (some (tag.mark ++ front)) rest
    exact text (fun t here => Option.some.inj here ▸ whole) fun none => by cases none
  have behind : strchr (tag.value disk) 58 = some (58 :: rest) := by
    have pass : ∀ c ∈ front, decide (c ≠ 58) = true := fun c member => by
      simpa using fun colon : c = 58 => first (colon ▸ member)
    rw [value, strchr, dropWhile_append_stop pass (by simp)]
  rw [addressable_split os tag disk split]
  constructor
  · exact .cut rest behind
  · rintro (⟨no_colon, -, -⟩ | ⟨rest', behind', found⟩)
    · exact absurd colon no_colon
    · rw [behind] at behind'
      obtain rfl := (List.cons.inj (Option.some.inj behind')).2
      exact found

/-- Without a colon the whole value is looked for. -/
theorem addressable_whole (os : DiskOs) (tag : DiskTag) (disk : KlDisk)
    (plain : 58 ∉ tag.value disk) : Addressable os tag disk ↔
      ∃ e, (getDisks os none).find? (compareDiskId · (tag.mark ++ tag.value disk)) = some e ∧
        tag.Has (tag.value disk) e := by
  have text := @splitFilter_text none (tag.mark ++ tag.value disk)
  exact addressable_split os tag disk
    (text (by simp) fun _ member => (List.mem_append.mp member).elim tag.mark_no_colon plain)

/-- A name that starts with `/dev/` does not fit the disk that has it, since the name
that is found is shorter than the one that is asked for. -/
theorem not_addressable_device (os : DiskOs) (disk : KlDisk)
    (plain : 58 ∉ DiskTag.value disk .name) (device : bytes "/dev/" <+: DiskTag.value disk .name) :
    ¬ Addressable os .name disk := by
  rw [addressable_whole os .name disk plain]
  rintro ⟨e, found, has⟩
  have fitted := List.find?_some found
  have fits := (name_device_fits e device).mp fitted
  have same : e.name.str = DiskTag.value disk .name := has
  have shorter := congrArg List.length (fits.symm.trans same)
  have long := device.length_le
  have five : (bytes "/dev/").length = 5 := rfl
  rw [List.length_drop] at shorter
  omega

/-- Exactly the disks that are reached can be addressed. -/
theorem addressable_iff (os : DiskOs) (tag : DiskTag) (disk : KlDisk) (listed : disk ∈ getDisks os none)
    (given : tag.value disk ≠ []) :
    Addressable os tag disk ↔ tag.Reached (getDisks os none) (tag.value disk) := by
  have self : tag.Has (tag.value disk) disk := by cases tag <;> rfl
  by_cases colon : 58 ∈ tag.value disk
  · exact addressable_colon os tag disk colon
  · have no_rest (rest : Str) : strchr (tag.value disk) 58 ≠ some (58 :: rest) := fun found =>
      colon ((strchr_isSome _ _).mp (by rw [found]; rfl))
    by_cases bare : tag = .name → ¬ bytes "/dev/" <+: tag.value disk
    · rw [addressable_whole os tag disk colon,
        find?_clear (fun x _ => tag.fits_iff x given bare) ⟨disk, listed, self⟩]
      constructor
      · exact .whole colon bare
      · rintro (⟨-, -, clear⟩ | ⟨rest, behind, -⟩)
        · exact clear
        · exact absurd behind (no_rest rest)
    · obtain ⟨rfl, device⟩ := Classical.not_imp.mp bare
      rw [not_not] at device
      refine iff_of_false (not_addressable_device os disk colon device) ?_
      rintro (⟨-, bare, -⟩ | ⟨rest, behind, -⟩)
      · exact bare rfl device
      · exact no_rest rest behind

/-- The disk of the last line. -/
def samplePartition : KlDisk :=
  fillTags sampleDisks none (bytes "/dev/sda1") (lineDisk (bytes "8 1 sda1 0\n"))

theorem addressable_iff_label :
    Addressable sampleDisks .label samplePartition ↔
      DiskTag.label.Reached (getDisks sampleDisks none) (bytes "Root") :=
  addressable_iff sampleDisks .label samplePartition (by decide) (by decide)

/-- The same table with a colon in the label. -/
def colonDisks : DiskOs :=
  { sampleDisks with tag := fun tag _ => if tag = bytes "LABEL" then some (bytes "a:b") else none }

/-- A label with a colon finds no disk. -/
theorem colon_label_unreachable :
    ¬ ∀ disk ∈ getDisks colonDisks none, DiskTag.value disk .label ≠ [] →
      Addressable colonDisks .label disk := by
  intro all
  let disk := fillTags colonDisks none (bytes "/dev/sda1") (lineDisk (bytes "8 1 sda1 0\n"))
  have listed : disk ∈ getDisks colonDisks none := by decide
  obtain ⟨found, reached, -⟩ := all disk listed (by decide)
  have none : getDisks colonDisks (some (bytes "LABEL=a:b")) = [] := by decide
  have request : DiskTag.label.mark ++ DiskTag.value disk .label = bytes "LABEL=a:b" := by decide
  rw [request, none] at reached
  cases reached

end KexecLoader
