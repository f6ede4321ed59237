import KexecLoader.Disk

/-!
# What mount_by_id promises, and when it keeps the promise

The last loop of `mount_by_id` compares the id as its caller wrote it, while
`get_disks` looked for the id without its file system prefix and `mount_disk`
accepted any disk whose name is already mounted. The three agree exactly under
`Settled`.
-/
namespace KexecLoader

/-- The disk has the name, label or UUID the id gives, after an optional file
system type and colon. For a disk that is mounted these are the ones recorded when it
was mounted. -/
def Denotes (disk : KlDisk) (id : Str) : Prop :=
  compareDiskId disk id = true ∨
    ∃ rest, strchr id 58 = some (58 :: rest) ∧ compareDiskId disk rest = true

/-- The error a failed call has to leave in `errno`. -/
def ErrnoFits (mount : MountCall) (found : Option KlDisk) (errno : Nat) : Prop :=
  match found with
  | none => errno = ENODEV
  | some disk =>
    if disk.fstype.str = [] then errno = EBADFS
    else mount (devPath disk.name.str) (mountPoint disk.name.str) disk.fstype.str = some errno

/-- Either an entry of the list that is the disk asked for, or a truthful error
and the list as it was. -/
def MountTruthful (os : DiskOs) (later : List DiskOs) (mount : MountCall) (mounts : List KlDisk)
    (id : Str) (timeout : Int) : Prop :=
  match mountById os later mount mounts id timeout with
  | (.ok disk, after) => disk ∈ after ∧ Denotes disk id
  | (.fail errno, after) => after = mounts ∧ ErrnoFits mount (seekDisk os later id timeout) errno
  | (.crash, _) => False

/-- The id matches a mounted disk, or there is no such disk, or the disk found is
not mounted yet and either mounting it fails with its file system type known, or
it succeeds and the disk matches the id as written. -/
def Settled (os : DiskOs) (later : List DiskOs) (mount : MountCall) (mounts : List KlDisk)
    (id : Str) (timeout : Int) : Prop :=
  (∃ disk ∈ mounts, compareDiskId disk id = true) ∨
  match seekDisk os later id timeout with
  | none => True
  | some disk =>
    (¬∃ m ∈ mounts, m.name = disk.name) ∧
    match mount (devPath disk.name.str) (mountPoint disk.name.str) disk.fstype.str with
    | none => compareDiskId disk id = true
    | some errno =>
      if errno = EBUSY then compareDiskId disk id = true
      else disk.fstype.str ≠ [] ∨ errno = EBADFS

theorem seekMounted_none (id : Str) (mounts : List KlDisk)
    (absent : ∀ disk ∈ mounts, compareDiskId disk id = false) :
    seekMounted id mounts = .crash := by
  induction mounts with
  | nil => rfl
  | cons disk rest ih =>
    simp only [seekMounted, absent disk (by simp), Bool.false_eq_true, if_false]
    exact ih fun d hd => absent d (by simp [hd])

theorem seekMounted_last (id : Str) (mounts : List KlDisk) (disk : KlDisk)
    (absent : ∀ d ∈ mounts, compareDiskId d id = false) :
    seekMounted id (mounts ++ [disk]) = if compareDiskId disk id then .ok disk else .crash := by
  induction mounts with
  | nil => rfl
  | cons d rest ih =>
    simp only [List.cons_append, seekMounted, absent d (by simp), Bool.false_eq_true, if_false]
    exact ih fun m hm => absent m (by simp [hm])

theorem mounted_iff (mounts : List KlDisk) (disk : KlDisk) :
    (mounts.any fun m => klStreq disk.name.str m.name.str) = true ↔
      ∃ m ∈ mounts, m.name = disk.name := by
  simp only [List.any_eq_true, klStreq_iff]
  exact exists_congr fun m => and_congr_right fun _ =>
    ⟨fun h => Buf.eq_of_str h.symm, fun h => by rw [h]⟩

/-- What `mount_by_id` does with a disk it found while no entry matches the id. -/
theorem mountById_found (os : DiskOs) (later : List DiskOs) (mount : MountCall)
    (mounts : List KlDisk) (id : Str) (timeout : Int) (disk : KlDisk)
    (absent : ∀ d ∈ mounts, compareDiskId d id = false)
    (found : seekDisk os later id timeout = some disk) :
    mountById os later mount mounts id timeout =
      if ∃ m ∈ mounts, m.name = disk.name then (.crash, mounts)
      else
        match mount (devPath disk.name.str) (mountPoint disk.name.str) disk.fstype.str with
        | none => (if compareDiskId disk id then .ok disk else .crash, mounts ++ [disk])
        | some errno =>
          if errno = EBUSY then
            (if compareDiskId disk id then .ok disk else .crash, mounts ++ [disk])
          else (.fail errno, mounts) := by
  have no_entry : mounts.find? (fun d => compareDiskId d id) = none := by
    simpa [List.find?_eq_none] using absent
  simp only [mountById, no_entry, found, mountDisk]
  by_cases mounted : ∃ m ∈ mounts, m.name = disk.name
  · -- mount_disk returns success and adds nothing, so that no entry matches still
    simp only [(mounted_iff mounts disk).mpr mounted, if_true, mounted,
      seekMounted_none id mounts absent]
  · have fresh : (mounts.any fun m => klStreq disk.name.str m.name.str) = false := by
      rw [← Bool.not_eq_true, mounted_iff]
      exact mounted
    simp only [fresh, Bool.false_eq_true, if_false, mounted]
    -- the new entry is the only one that can match
    cases mount (devPath disk.name.str) (mountPoint disk.name.str) disk.fstype.str with
    | none => simp only [seekMounted_last id mounts disk absent]
    | some errno =>
      by_cases busy : errno = EBUSY
      · simp only [busy, ne_eq, not_true_eq_false, if_false, if_true,
          seekMounted_last id mounts disk absent]
      · simp only [busy, ne_eq, not_false_eq_true, if_true, if_false]

/-- `mount_by_id` is truthful in exactly the settled situations. -/
theorem mountById_truthful_iff (os : DiskOs) (later : List DiskOs) (mount : MountCall)
    (mounts : List KlDisk) (id : Str) (timeout : Int) :
    MountTruthful os later mount mounts id timeout ↔
      Settled os later mount mounts id timeout := by
  by_cases matched : ∃ disk ∈ mounts, compareDiskId disk id = true
  · -- the first loop returns the first entry that matches
    have settled : Settled os later mount mounts id timeout := Or.inl matched
    refine iff_of_true ?_ settled
    cases entry : mounts.find? (fun d => compareDiskId d id) with
    | none =>
      obtain ⟨disk, member, same⟩ := matched
      have differs := List.find?_eq_none.mp entry disk member
      contradiction
    | some disk =>
      have same : compareDiskId disk id = true := by simpa using List.find?_some entry
      simp only [MountTruthful, mountById, entry]
      exact ⟨List.mem_of_find?_eq_some entry, Or.inl same⟩
  · -- the disk has to be found and mounted, and the last loop to find it again
    have absent : ∀ d ∈ mounts, compareDiskId d id = false := by simpa using matched
    have no_entry : mounts.find? (fun d => compareDiskId d id) = none := by
      simpa [List.find?_eq_none] using absent
    simp only [Settled, matched, false_or]
    cases found : seekDisk os later id timeout with
    | none => simp [MountTruthful, mountById, no_entry, found, ErrnoFits]
    | some disk =>
      simp only [MountTruthful, mountById_found os later mount mounts id timeout disk absent found,
        found]
      by_cases mounted : ∃ m ∈ mounts, m.name = disk.name
      · simp only [mounted, if_true, not_true_eq_false, false_and]
      · simp only [mounted, if_false, not_false_eq_true, true_and]
        -- success and EBUSY record the disk, anything else is returned as it is
        cases answer : mount (devPath disk.name.str) (mountPoint disk.name.str)
            disk.fstype.str with
        | none => by_cases same : compareDiskId disk id = true <;> simp [same, Denotes]
        | some errno =>
          by_cases busy : errno = EBUSY
          · by_cases same : compareDiskId disk id = true <;> simp [busy, same, Denotes]
          · by_cases known : disk.fstype.str = [] <;> simp [busy, known, answer, ErrnoFits]

theorem not_truthful_of_crash (os : DiskOs) (later : List DiskOs) (mount : MountCall)
    (mounts : List KlDisk) (id : Str) (timeout : Int)
    (crashed : (mountById os later mount mounts id timeout).1 = .crash) :
    ¬MountTruthful os later mount mounts id timeout := by
  intro truthful
  unfold MountTruthful at truthful
  cases call : mountById os later mount mounts id timeout with
  | mk result after =>
    rw [call] at crashed truthful
    subst crashed
    exact truthful

/-- A machine with one FAT partition. -/
def fatPartition : DiskOs where
  diskstats := some (bytes "   8       1 sda1 12 0 34\n")
  node _ := true
  tag name _ := if name = bytes "TYPE" then some (bytes "vfat") else none
  devSize _ := bytes "1.00GB"

/-- Naming the file system type of an unmounted disk mounts it and then runs off
the end of the list. -/
theorem mountById_prefixed_untruthful :
    ¬MountTruthful fatPartition [] (fun _ _ _ => none) [] (bytes "vfat:sda1") 0 :=
  not_truthful_of_crash _ _ _ _ _ _ (by decide)

/-! ### Which ids settle -/

/-- A tag that is set stays set while the remaining ones are filled in, so the
comparison keeps its verdict. -/
theorem compareDiskId_mono (disk full : KlDisk) (id : Str) (name : full.name = disk.name)
    (label : disk.label.str ≠ [] → full.label = disk.label)
    (uuid : disk.uuid.str ≠ [] → full.uuid = disk.uuid)
    (same : compareDiskId disk id = true) : compareDiskId full id = true := by
  by_cases by_label : klStrnceq id (bytes "LABEL=") 6 = true ∧ disk.label.str ≠ [] ∧
      klStrceq disk.label.str (id.drop 6) = true
  · have kept := label by_label.2.1
    simp [compareDiskId, by_label, kept]
  · by_cases by_uuid : klStrnceq id (bytes "UUID=") 5 = true ∧ disk.uuid.str ≠ [] ∧
        klStrceq disk.uuid.str (id.drop 5) = true
    · have kept := uuid by_uuid.2.1
      simp [compareDiskId, by_uuid, kept]
    · have by_name : klStreq disk.name.str
          (if klStrneq id (bytes "/dev/") 5 then id.drop 5 else id) = true := by
        -- neither tag decides, so that the name does
        simpa [compareDiskId, and_assoc, by_label, by_uuid] using same
      simp [compareDiskId, name, by_name]

theorem blkidTag_set {n : Nat} [NeZero n] (os : DiskOs) (dest : Buf n) (tag path : Str)
    (h : dest.str ≠ []) : blkidTag os dest tag path = dest := by
  simp [blkidTag, h]

theorem fillTags_matches (os : DiskOs) (fstype : Option Str) (path : Str) (disk : KlDisk)
    (id : Str) (same : compareDiskId disk id = true) :
    compareDiskId (fillTags os fstype path disk) id = true :=
  compareDiskId_mono disk _ id rfl (blkidTag_set os _ _ _) (blkidTag_set os _ _ _) same

/-- A disk that passes the loop of `get_disks` matches the filter. -/
theorem diskOfLine_matches (os : DiskOs) (id : Str) (fstype : Option Str) (line : Str)
    (disk : KlDisk) (returned : diskOfLine os (some id) fstype line = some disk) :
    compareDiskId disk id = true := by
  simp only [diskOfLine] at returned
  split at returned
  · cases returned
  · split at returned
    · cases returned
    · split at returned
      next same =>
        cases returned
        exact fillTags_matches os fstype _ _ id same
      · cases returned

theorem getDisksLoop_matches (os : DiskOs) (id : Str) (fstype : Option Str) (lines : List Str)
    (disk : KlDisk) (member : disk ∈ getDisksLoop os (some id) fstype lines []) :
    compareDiskId disk id = true := by
  induction lines with
  | nil => simp [getDisksLoop] at member
  | cons line rest ih =>
    -- with a filter the loop ends at the first disk it adds
    cases step : diskOfLine os (some id) fstype line with
    | none =>
      simp only [getDisksLoop, step] at member
      exact ih member
    | some d =>
      simp only [getDisksLoop, step, Option.isSome_some, if_true, List.nil_append,
        List.mem_singleton] at member
      subst member
      exact diskOfLine_matches os id fstype line disk step

/-- Without a colon in the id, the disk found is compared with the id as written. -/
theorem getDisks_matches (os : DiskOs) (id : Str) (plain : 58 ∉ id) (disk : KlDisk)
    (member : disk ∈ getDisks os (some id)) : compareDiskId disk id = true := by
  have no_colon : strchr id 58 = none := by
    rw [← Option.not_isSome_iff_eq_none, strchr_isSome]
    exact plain
  unfold getDisks at member
  cases read : os.diskstats with
  | none => simp [read] at member
  | some content =>
    simp only [read, splitFilter, no_colon] at member
    exact getDisksLoop_matches os id none _ disk member

theorem awaitDisk_matches (later : List DiskOs) (id : Str) (plain : 58 ∉ id) (timeout : Int)
    (disk : KlDisk) (found : awaitDisk id timeout later = some disk) :
    compareDiskId disk id = true := by
  induction later generalizing timeout with
  | nil => cases found
  | cons os later ih =>
    simp only [awaitDisk] at found
    split at found
    · cases found
    · cases scanned : getDisks os (some id) with
      | nil =>
        simp only [scanned] at found
        exact ih _ found
      | cons d rest =>
        simp only [scanned, Option.some.injEq] at found
        subst found
        exact getDisks_matches os id plain d (by simp [scanned])

/-- Ids without a colon settle unless the disk found is mounted under other tags
or has an unknown file system that fails to mount. -/
theorem settled_of_no_colon (os : DiskOs) (later : List DiskOs) (mount : MountCall)
    (mounts : List KlDisk) (id : Str) (timeout : Int) (plain : 58 ∉ id)
    (fresh : ∀ disk, seekDisk os later id timeout = some disk →
      (¬∃ m ∈ mounts, m.name = disk.name) ∧ disk.fstype.str ≠ []) :
    Settled os later mount mounts id timeout := by
  right
  cases found : seekDisk os later id timeout with
  | none => trivial
  | some disk =>
    have same : compareDiskId disk id = true := by
      unfold seekDisk at found
      cases scanned : getDisks os (some id) with
      | nil =>
        simp only [scanned] at found
        exact awaitDisk_matches later id plain timeout disk found
      | cons d rest =>
        simp only [scanned, Option.some.injEq] at found
        subst found
        exact getDisks_matches os id plain d (by simp [scanned])
    refine ⟨(fresh disk found).1, ?_⟩
    cases mount (devPath disk.name.str) (mountPoint disk.name.str) disk.fstype.str with
    | none => exact same
    | some errno =>
      by_cases busy : errno = EBUSY
      · simp [busy, same]
      · simp [busy, (fresh disk found).2]

end KexecLoader
