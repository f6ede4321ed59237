import KexecLoader.Disk

/-!
# The filtered disk scan

`get_disks` with a filter fetches the one tag the comparison looks at, and the others
when the disk is accepted. What it returns is the first disk of the whole scan that
fits.
-/
namespace KexecLoader

/-- `[fstype ':'] ID`. -/
def filterText (fstype : Option Str) (id : Str) : Str :=
  match fstype with
  | none => id
  | some t => t ++ 58 :: id

/-- The disk with the file system type of a filter, if it has one. -/
def KlDisk.typed (fstype : Option Str) (disk : KlDisk) : KlDisk :=
  match fstype with
  | some (c :: t) => { disk with fstype := strlcpy (c :: t) }
  | _ => disk

/-- Behind the first colon there may be others. -/
theorem splitFilter_text {fstype : Option Str} {id : Str} (whole : ∀ t ∈ fstype, 58 ∉ t)
    (plain : fstype = none → 58 ∉ id) :
    splitFilter (some (filterText fstype id)) = (fstype, some id) := by
  cases fstype with
  | none =>
    have none : strchr id 58 = none := by
      rw [← Option.not_isSome_iff_eq_none, strchr_isSome]
      exact plain rfl
    simp only [splitFilter, filterText, none]
  | some t =>
    have pass : ∀ c ∈ t, decide (c ≠ 58) = true := fun c member => by
      simpa using fun colon : c = 58 => whole t rfl (colon ▸ member)
    have found : strchr (t ++ 58 :: id) 58 = some (58 :: id) := by
      rw [strchr, dropWhile_append_stop pass (by simp)]
    have cut : (t ++ 58 :: id).take (strcspn (t ++ 58 :: id) (bytes ":")) = t := by
      refine take_strcspn_stop (fun c member colon => ?_) (by simp; decide)
      obtain rfl : c = 58 := List.mem_singleton.mp colon
      exact whole t rfl member
    simp only [splitFilter, filterText, found, cut, List.drop_one, List.tail_cons]

/-! ### The tags of one disk -/

section
variable (os : DiskOs) (path : Str)

/-- A tag that was fetched before is the same when it is fetched again. -/
theorem blkidTag_again {n : Nat} [NeZero n] (dest : Buf n) (tag : Str) :
    blkidTag os (blkidTag os dest tag path) tag path = blkidTag os dest tag path := by
  unfold blkidTag
  by_cases unset : dest.str = []
  · rw [if_pos unset]
    cases os.tag tag path with
    | none => rw [if_pos unset]
    | some s => exact ite_self _
  · rw [if_neg unset, if_neg unset]

theorem fillTags_filterTags (fstype : Option Str) (filter : Str) (disk : KlDisk) :
    fillTags os fstype path (filterTags os filter path disk) = fillTags os fstype path disk := by
  unfold filterTags
  split_ifs
  · simp only [fillTags, blkidTag_again]
  · simp only [fillTags, blkidTag_again]
  · simp only [fillTags, blkidTag_again]
  · rfl

/-- The comparison looks at no tag but the one its id names. -/
theorem compareDiskId_congr {a b : KlDisk} {id : Str} (name : a.name = b.name)
    (label : klStrnceq id (bytes "LABEL=") 6 = true → a.label = b.label)
    (uuid : klStrnceq id (bytes "UUID=") 5 = true → a.uuid = b.uuid) :
    compareDiskId a id = compareDiskId b id := by
  unfold compareDiskId
  cases by_label : klStrnceq id (bytes "LABEL=") 6 <;>
    cases by_uuid : klStrnceq id (bytes "UUID=") 5
  · simp only [Bool.false_and, name]
  · simp only [Bool.false_and, name, uuid by_uuid]
  · simp only [Bool.false_and, name, label by_label]
  · simp only [name, label by_label, uuid by_uuid]

theorem compareDiskId_filterTags (fstype : Option Str) (id : Str) (disk : KlDisk) :
    compareDiskId (filterTags os id path disk) id =
      compareDiskId (fillTags os fstype path disk) id := by
  apply compareDiskId_congr
  · unfold filterTags
    split_ifs <;> rfl
  · intro by_label
    unfold filterTags
    split_ifs <;> rfl
  · intro by_uuid
    simp only [filterTags, if_pos by_uuid]
    split_ifs <;> rfl

/-- A type that was given is set, so that it is not fetched. -/
theorem fillTags_typed (fstype : Option Str) (disk : KlDisk) (unset : disk.fstype = default) :
    fillTags os fstype path disk = (fillTags os none path disk).typed fstype := by
  rcases fstype with _ | _ | ⟨c, t⟩
  · rfl
  · have empty : (strlcpy [] : Buf 32) = default := rfl
    simp only [fillTags, KlDisk.typed, empty, unset]
  · have given : (strlcpy (c :: t) : Buf 32).str ≠ [] := by simp
    simp only [fillTags, KlDisk.typed, blkidTag, if_neg given]

end

/-! ### The scan -/

section
variable (os : DiskOs) (fstype : Option Str) (id : Str)

theorem diskOfLine_filter (line : Str) :
    diskOfLine os (some id) fstype line =
      ((diskOfLine os none none line).filter (compareDiskId · id)).map (KlDisk.typed fstype) := by
  have unset : (lineDisk line).fstype = default := rfl
  simp only [diskOfLine]
  split
  next => rfl
  next =>
    split
    next => rfl
    next =>
      rw [compareDiskId_filterTags os _ none, fillTags_filterTags, fillTags_typed os _ fstype _ unset]
      split
      next fits => simp [Option.filter_some, fits]
      next other => simp [Option.filter_some, other]

/-- Without a filter every disk is added. -/
theorem getDisksLoop_all (lines : List Str) (list : List KlDisk) :
    getDisksLoop os none none lines list = list ++ lines.filterMap (diskOfLine os none none) := by
  induction lines generalizing list with
  | nil => simp [getDisksLoop]
  | cons line rest ih =>
    rw [getDisksLoop, List.filterMap_cons]
    cases diskOfLine os none none line with
    | none => exact ih list
    | some disk =>
      simp only [Option.isSome_none, Bool.false_eq_true, if_false]
      rw [ih, List.append_assoc]
      rfl

/-- With a filter the first one that fits is. -/
theorem getDisksLoop_first (lines : List Str) :
    getDisksLoop os (some id) fstype lines [] =
      (((lines.filterMap (diskOfLine os none none)).find? (compareDiskId · id)).map
        (KlDisk.typed fstype)).toList := by
  induction lines with
  | nil => rfl
  | cons line rest ih =>
    rw [getDisksLoop, diskOfLine_filter, List.filterMap_cons]
    cases diskOfLine os none none line with
    | none => exact ih
    | some disk =>
      cases fits : compareDiskId disk id with
      | true => simp [Option.filter_some, fits]
      | false =>
        simp only [Option.filter_some, fits, Bool.false_eq_true, if_false, Option.map_none]
        rw [ih, List.find?_cons_of_neg (by simp [fits])]

end

/-- What any filter finds: the first disk that what stands behind its first colon
fits. -/
theorem getDisks_first (os : DiskOs) {filter id : Str} {fstype : Option Str}
    (split : splitFilter (some filter) = (fstype, some id)) :
    getDisks os (some filter) =
      (((getDisks os none).find? (compareDiskId · id)).map (KlDisk.typed fstype)).toList := by
  unfold getDisks
  cases os.diskstats with
  | none => rfl
  | some content =>
    have unfiltered : splitFilter none = (none, none) := rfl
    simp only [split, unfiltered]
    rw [getDisksLoop_first, getDisksLoop_all, List.nil_append]

/-- The filtered scan is the first disk of the plain scan that fits the id. -/
theorem getDisks_filter (os : DiskOs) (fstype : Option Str) (id : Str) (whole : ∀ t ∈ fstype, 58 ∉ t)
    (plain : 58 ∉ id) :
    getDisks os (some (filterText fstype id)) =
      (((getDisks os none).find? (compareDiskId · id)).map (KlDisk.typed fstype)).toList :=
  getDisks_first os (splitFilter_text whole fun _ => plain)

/-- A table of three lines, of which one is no disk. -/
def sampleDisks : DiskOs where
  diskstats := some (bytes "1 0 ram0 0\n8 0 sda 0\n8 1 sda1 0\n")
  node _ := true
  tag tag path :=
    if path = bytes "/dev/sda1" then
      if tag = bytes "LABEL" then some (bytes "Root")
      else if tag = bytes "TYPE" then some (bytes "ext2")
      else none
    else none
  devSize _ := bytes "???"

theorem getDisks_filter_label :
    getDisks sampleDisks (some (filterText (some (bytes "ext3")) (bytes "LABEL=root"))) =
      (((getDisks sampleDisks none).find? (compareDiskId · (bytes "LABEL=root"))).map
        (KlDisk.typed (some (bytes "ext3")))).toList :=
  getDisks_filter sampleDisks (some (bytes "ext3")) (bytes "LABEL=root") (by decide) (by decide)

end KexecLoader
