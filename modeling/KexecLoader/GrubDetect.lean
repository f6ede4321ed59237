import KexecLoader.BracketDevice
import KexecLoader.DiskTags
import KexecLoader.MountById

/-!
# Searching for a GRUB directory

`grub_detect` looks at all disks of the table, second after second, until one of them has
a GRUB directory or a key is pressed. Looking at a disk mounts it. Disks that come and go
are no matter: the directory that is loaded is the first one in the order of the tables.
-/
namespace KexecLoader

section
variable (host : GrubHost)

/-- One round of the loop over the disks: the directory that is there, if any. -/
def detectDisk (st : GrubFiles) (disk : KlDisk) : Option (Option Str × GrubFiles) := do
  let path1 := 40 :: (disk.name.str ++ bytes ")/boot/grub/")
  let path2 := 40 :: (disk.name.str ++ bytes ")/grub/")
  let (found, st) ← vfsExists host st path1
  if found then some (some path1, st)
  else
    let (found, st) ← vfsExists host st path2
    if found then some (some path2, st) else some (none, st)

/-- The loop over the disks ends at the first directory. -/
def detectDisks : List KlDisk → GrubFiles → Option (Option Str × GrubFiles)
  | [], st => some (none, st)
  | disk :: disks, st => do
    let (path, st) ← detectDisk host st disk
    if path.isSome then some (path, st) else detectDisks disks st

/-- `grub_load` goes on with the translations where the search has got to. -/
def GrubHost.onward (n : Nat) : GrubHost := { host with access := fun i => host.access (n + i) }

end

/-- `grub_detect`: the system of each second that passes without a key; then a key is
pressed. -/
def grubDetect : List GrubHost → Vfs → Settings → Option GrubFiles
  | [], vfs, s => some ⟨vfs, s, 0, []⟩
  | host :: later, vfs, s => do
    let (path, st) ← detectDisks host (getDisks host.os none) ⟨vfs, s, 0, []⟩
    match path with
    | some path => grubLoad (host.onward st.translations) st.vfs st.settings path
    | none => grubDetect later st.vfs st.settings

/-! ### A machine that is looked at -/

/-- A name that stands for its disk between brackets. -/
structure DiskName (name : Str) : Prop where
  nonempty : name ≠ []
  no_close : 41 ∉ name
  no_nul : 0 ∉ name
  no_colon : 58 ∉ name
  no_label : klStrnceq name (bytes "LABEL=") 6 = false
  no_uuid : klStrnceq name (bytes "UUID=") 5 = false
  bare : ¬ bytes "/dev/" <+: name
  plain : ¬ nojail <+: name
  not_rootfs : name ≠ bytes "rootfs"
  not_debug : name ≠ bytes "debug"

instance (name : Str) : Decidable (DiskName name) :=
  decidable_of_iff ((name ≠ [] ∧ 41 ∉ name ∧ 0 ∉ name ∧ 58 ∉ name ∧ klStrnceq name (bytes "LABEL=") 6 = false) ∧
      klStrnceq name (bytes "UUID=") 5 = false ∧ ¬ bytes "/dev/" <+: name ∧ ¬ nojail <+: name ∧
      name ≠ bytes "rootfs" ∧ name ≠ bytes "debug")
    ⟨fun ⟨⟨a, b, c, d, e⟩, f, g, h, i, j⟩ => ⟨a, b, c, d, e, f, g, h, i, j⟩,
      fun ⟨a, b, c, d, e, f, g, h, i, j⟩ => ⟨⟨a, b, c, d, e⟩, f, g, h, i, j⟩⟩

/-- What does not change while the search runs: which disks can be mounted, and what is
on them. The table may. -/
structure Machine where
  mount : MountCall
  mountable : Str → Bool
  present : Str → Bool

/-- The machine at one second. -/
structure Machine.At (m : Machine) (host : GrubHost) : Prop where
  access : ∀ n, host.access n = (host.os, m.mount)
  mount : host.mount = m.mount
  present : host.present = m.present
  named : ∀ disk ∈ getDisks host.os none, DiskName disk.name.str
  answers : ∀ disk ∈ getDisks host.os none,
    m.mount (devPath disk.name.str) (mountPoint disk.name.str) disk.fstype.str = none ∨
      m.mount (devPath disk.name.str) (mountPoint disk.name.str) disk.fstype.str = some EBUSY ↔
      m.mountable disk.name.str = true

/-- The GRUB directory of a disk. -/
def Machine.grubDir (m : Machine) (disk : KlDisk) : Option Str :=
  if m.mountable disk.name.str && m.present (mountPoint disk.name.str ++ bytes "/boot/grub") then
    some (40 :: (disk.name.str ++ bytes ")/boot/grub/"))
  else if m.mountable disk.name.str && m.present (mountPoint disk.name.str ++ bytes "/grub") then
    some (40 :: (disk.name.str ++ bytes ")/grub/"))
  else none

/-- The disks that are mounted are ones that can be. -/
def Machine.Mounted (m : Machine) (vfs : Vfs) : Prop :=
  vfs.jail = none ∧ ∀ disk ∈ vfs.mounts, m.mountable disk.name.str = true

/-! ### One disk -/

theorem compareDiskId_name {name : Str} (ok : DiskName name) (disk : KlDisk) :
    compareDiskId disk name = true ↔ disk.name.str = name := by
  have no_device : ¬ klStrneq name (bytes "/dev/") 5 = true := fun device =>
    ok.bare ((klStrneq_iff name (bytes "/dev/")).mp device)
  simp only [compareDiskId_iff, ok.no_label, ok.no_uuid, no_device, Bool.false_eq_true, false_and, false_or,
    if_false]

section
variable {m : Machine} {host : GrubHost} {disk : KlDisk}

/-- A disk of the table is mounted by its name, or stays unmounted with an error. -/
theorem mountById_name (at_host : m.At host) (listed : disk ∈ getDisks host.os none) {mounts : List KlDisk}
    (able : ∀ d ∈ mounts, m.mountable d.name.str = true) :
    (m.mountable disk.name.str = true ∧ ∃ d after, d.name.str = disk.name.str ∧
        mountById host.os [] m.mount mounts disk.name.str 0 = (.ok d, after) ∧
        ∀ d ∈ after, m.mountable d.name.str = true) ∨
      m.mountable disk.name.str = false ∧ ∃ errno,
        mountById host.os [] m.mount mounts disk.name.str 0 = (.fail errno, mounts) := by
  have ok := at_host.named disk listed
  have fits := compareDiskId_name ok
  cases entry : mounts.find? (fun d => compareDiskId d disk.name.str) with
  | some d =>
    have same : d.name.str = disk.name.str := (fits d).mp (by simpa using List.find?_some entry)
    have member := List.mem_of_find?_eq_some entry
    exact .inl ⟨same ▸ able d member, d, mounts, same, by simp only [mountById, entry], able⟩
  | none =>
    have absent : ∀ d ∈ mounts, compareDiskId d disk.name.str = false := by
      simpa [List.find?_eq_none] using entry
    -- the scan with the name as filter finds a record of this name
    obtain ⟨d, first⟩ : ∃ d, (getDisks host.os none).find? (compareDiskId · disk.name.str) = some d := by
      rw [← Option.isSome_iff_exists, List.find?_isSome]
      exact ⟨disk, listed, (fits disk).mpr rfl⟩
    have same : d.name.str = disk.name.str := (fits d).mp (by simpa using List.find?_some first)
    have from_table := List.mem_of_find?_eq_some first
    have scan : getDisks host.os (some disk.name.str) = [d] := by
      have split : splitFilter (some disk.name.str) = (none, some disk.name.str) :=
        @splitFilter_text none _ (fun t given => by simp at given) fun _ => ok.no_colon
      rw [getDisks_first host.os split, first]
      rfl
    have found : seekDisk host.os [] disk.name.str 0 = some d := by rw [seekDisk, scan]
    have fresh : ¬ ∃ e ∈ mounts, e.name = d.name := by
      rintro ⟨e, member, name⟩
      have differs := absent e member
      rw [(fits e).mpr (name ▸ same)] at differs
      cases differs
    have answer := at_host.answers d from_table
    rw [same] at answer
    have matched : compareDiskId d disk.name.str = true := (fits d).mpr same
    rw [mountById_found host.os [] m.mount mounts disk.name.str 0 d absent found, if_neg fresh, same]
    have longer : m.mountable disk.name.str = true →
        ∀ e ∈ mounts ++ [d], m.mountable e.name.str = true := by
      intro able_now e member
      rcases List.mem_append.mp member with old | new
      · exact able e old
      · rw [List.mem_singleton.mp new, same]
        exact able_now
    cases result : m.mount (devPath disk.name.str) (mountPoint disk.name.str) d.fstype.str with
    | none =>
      have able_now := answer.mp (.inl result)
      exact .inl ⟨able_now, d, mounts ++ [d], same, by simp only [matched, if_true], longer able_now⟩
    | some errno =>
      by_cases busy : errno = EBUSY
      · have able_now := answer.mp (.inr (busy ▸ result))
        exact .inl ⟨able_now, d, mounts ++ [d], same, by simp only [busy, matched, if_true], longer able_now⟩
      · refine .inr ⟨?_, errno, by simp only [busy, if_false]⟩
        rw [← Bool.not_eq_true, ← answer, result]
        simpa using busy

/-- A translation goes on to the disk of its device, or ends with the error of that. -/
theorem vfsTranslatePath_device (os : DiskOs) (mount : MountCall) {vfs : Vfs} {stack path device rest : Str}
    (chosen : splitDevice vfs stack path = .ok (some device, rest)) (nonempty : device ≠ [])
    (not_debug : deviceName device ≠ bytes "debug") (mounts : List KlDisk) :
    (∀ diskR real, diskRoot os mount vfs.mounts (deviceName device) = (.ok diskR, mounts) →
      buildPath diskR (jailFor vfs device) rest = some real →
      vfsTranslatePath os mount vfs stack path = (.ok real, { vfs with mounts := mounts })) ∧
    ∀ errno, diskRoot os mount vfs.mounts (deviceName device) = (.fail errno, mounts) →
      vfsTranslatePath os mount vfs stack path = (.fail errno, { vfs with mounts := mounts }) := by
  have name_differs : klStreq (deviceName device) (bytes "debug") = false :=
    (klStreq_eq_false _ _).mpr not_debug
  obtain ⟨c, more, rfl⟩ := List.exists_cons_of_ne_nil nonempty
  constructor
  · intro diskR real root built
    simp only [vfsTranslatePath, chosen, name_differs, root, built, Bool.false_eq_true, if_false]
  · intro errno root
    simp only [vfsTranslatePath, chosen, name_differs, root, Bool.false_eq_true, if_false]

/-- What the search has to keep: nothing is read, and only such disks are mounted. -/
structure Untouched (m : Machine) (st st' : GrubFiles) : Prop where
  settings : st'.settings = st.settings
  opened : st'.opened = st.opened
  mounted : m.Mounted st'.vfs

theorem Untouched.trans {st st' st'' : GrubFiles} (first : Untouched m st st') (second : Untouched m st' st'') :
    Untouched m st st'' :=
  ⟨second.settings.trans first.settings, second.opened.trans first.opened, second.mounted⟩

/-- A path on a disk of the table is there when the disk can be mounted and has it. -/
theorem vfsExists_disk (at_host : m.At host) (listed : disk ∈ getDisks host.os none) {st : GrubFiles}
    (mounted : m.Mounted st.vfs) (rest : Str) :
    ∃ st', vfsExists host st (40 :: (disk.name.str ++ 41 :: rest)) =
        some (m.mountable disk.name.str && m.present (mountPoint disk.name.str ++ render (remaining rest)), st') ∧
      Untouched m st st' ∧
      (m.mountable disk.name.str = true →
        ∃ d, d.name.str = disk.name.str ∧
          (st'.vfs.mounts.find? fun e => compareDiskId e disk.name.str) = some d) := by
  have ok := at_host.named disk listed
  let b : BracketPath := ⟨disk.name.str, rest, ok.nonempty, ok.no_close, ok.no_nul⟩
  have chosen : splitDevice st.vfs host.stack (40 :: (disk.name.str ++ 41 :: rest)) = _ :=
    splitDevice_bracket b disk.name.fits st.vfs host.stack
  have name := deviceName_plain ok.plain
  have no_rootfs : klStreq disk.name.str (bytes "rootfs") = false := (klStreq_eq_false _ _).mpr ok.not_rootfs
  have jail : jailFor st.vfs disk.name.str = [] := by
    rw [jailFor, mounted.1]
    exact ite_self _
  have translated := vfsTranslatePath_device host.os m.mount chosen ok.nonempty
    (show deviceName disk.name.str ≠ bytes "debug" from name.symm ▸ ok.not_debug)
  rw [name, jail] at translated
  unfold vfsExists grubTranslate
  rw [at_host.access]
  rcases mountById_name at_host listed mounted.2 with
    ⟨able, d, after, same, run, able'⟩ | ⟨unable, errno, run⟩
  · -- mounted now, if not before; the path is beneath its mount point
    have root : diskRoot host.os m.mount st.vfs.mounts disk.name.str =
        (.ok (mountPoint disk.name.str), after) := by
      simp only [diskRoot, no_rootfs, run, same, Bool.false_eq_true, if_false]
    obtain ⟨real, built, -, str, -⟩ := buildPath_spec (mountPoint disk.name.str) [] rest
    have there : real.str = mountPoint disk.name.str ++ render (remaining rest) := by
      have empty : render (remaining []) = [] := rfl
      rw [str, empty, List.append_nil]
    refine ⟨{ st with vfs := { st.vfs with mounts := after }, translations := st.translations + 1 }, ?_,
      ⟨rfl, rfl, mounted.1, able'⟩, fun _ => ⟨d, same, mountById_finds run⟩⟩
    simp [(translated after).1 _ real root built, able, at_host.present, there]
  · have root : diskRoot host.os m.mount st.vfs.mounts disk.name.str = (.fail errno, st.vfs.mounts) := by
      simp only [diskRoot, no_rootfs, run, Bool.false_eq_true, if_false]
    refine ⟨{ st with translations := st.translations + 1 }, ?_, ⟨rfl, rfl, mounted⟩, ?_⟩
    · simp [(translated st.vfs.mounts).2 errno root, unable]
    · rw [unable]
      exact fun able => absurd able Bool.false_ne_true

/-- The disk is looked at in both places, and mounted before its directory is loaded. -/
theorem detectDisk_finds (at_host : m.At host) (listed : disk ∈ getDisks host.os none) {st : GrubFiles}
    (mounted : m.Mounted st.vfs) :
    ∃ st', detectDisk host st disk = some (m.grubDir disk, st') ∧ Untouched m st st' ∧
      (m.mountable disk.name.str = true →
        ∃ d, d.name.str = disk.name.str ∧
          (st'.vfs.mounts.find? fun e => compareDiskId e disk.name.str) = some d) := by
  have boot : render (remaining (bytes "/boot/grub/")) = bytes "/boot/grub" := by decide
  have grub : render (remaining (bytes "/grub/")) = bytes "/grub" := by decide
  obtain ⟨st₁, first, untouched₁, found₁⟩ := vfsExists_disk at_host listed mounted (bytes "/boot/grub/")
  obtain ⟨st₂, second, untouched₂, found₂⟩ :=
    vfsExists_disk at_host listed untouched₁.mounted (bytes "/grub/")
  rw [boot] at first
  rw [grub] at second
  have path₁ : bytes ")/boot/grub/" = 41 :: bytes "/boot/grub/" := rfl
  have path₂ : bytes ")/grub/" = 41 :: bytes "/grub/" := rfl
  unfold detectDisk Machine.grubDir
  simp only [path₁, path₂, first, Option.bind_eq_bind, Option.bind_some]
  split
  · exact ⟨st₁, rfl, untouched₁, found₁⟩
  · rw [second]
    refine ⟨st₂, ?_, untouched₁.trans untouched₂, found₂⟩
    simp only [Option.bind_some]
    split <;> rfl

/-- The loop over the disks ends at the first one with a directory, which is mounted then. -/
theorem detectDisks_finds (at_host : m.At host) (disks : List KlDisk)
    (listed : ∀ disk ∈ disks, disk ∈ getDisks host.os none) {st : GrubFiles} (mounted : m.Mounted st.vfs) :
    ∃ st', detectDisks host disks st = some (disks.findSome? m.grubDir, st') ∧ Untouched m st st' ∧
      ∀ path, disks.findSome? m.grubDir = some path →
        ∃ disk ∈ disks, m.grubDir disk = some path ∧
          ∃ d, d.name.str = disk.name.str ∧
            (st'.vfs.mounts.find? fun e => compareDiskId e disk.name.str) = some d := by
  induction disks generalizing st with
  | nil => exact ⟨st, rfl, ⟨rfl, rfl, mounted⟩, fun path found => by simp at found⟩
  | cons disk disks ih =>
    rw [List.forall_mem_cons] at listed
    obtain ⟨st₁, looked, untouched, held⟩ := detectDisk_finds at_host listed.1 mounted
    simp only [detectDisks, looked, Option.bind_eq_bind, Option.bind_some]
    cases here : m.grubDir disk with
    | some path =>
      rw [List.findSome?_cons_of_isSome (by rw [here]; rfl), here]
      refine ⟨st₁, rfl, untouched, fun other same => ⟨disk, List.mem_cons_self, here.trans same, held ?_⟩⟩
      -- a directory is found on a disk that can be mounted only
      by_contra unable
      simp [Machine.grubDir, unable] at here
    | none =>
      obtain ⟨st', rest, untouched', found⟩ := ih listed.2 untouched.mounted
      rw [List.findSome?_cons_of_isNone (by rw [here]; rfl)]
      refine ⟨st', rest, untouched.trans untouched', fun path first => ?_⟩
      obtain ⟨disk', member, rest⟩ := found path first
      exact ⟨disk', List.mem_cons_of_mem _ member, rest⟩

/-- The directory of a disk, as a path with its device. -/
theorem Machine.grubDir_bracket (m : Machine) {disk : KlDisk} (ok : DiskName disk.name.str) {path : Str}
    (found : m.grubDir disk = some path) :
    ∃ b : BracketPath, b.device = disk.name.str ∧ b.path = path := by
  unfold Machine.grubDir at found
  split at found
  · obtain rfl := Option.some.inj found
    exact ⟨⟨disk.name.str, bytes "/boot/grub/", ok.nonempty, ok.no_close, ok.no_nul⟩, rfl, rfl⟩
  · split at found
    · obtain rfl := Option.some.inj found
      exact ⟨⟨disk.name.str, bytes "/grub/", ok.nonempty, ok.no_close, ok.no_nul⟩, rfl, rfl⟩
    · cases found

/-- `grub_load` of the directory found does not wait for its disk, and reads files of that
disk only. -/
theorem grubLoad_detected (at_host : m.At host) (listed : disk ∈ getDisks host.os none) {path : Str}
    (found : m.grubDir disk = some path) {vfs : Vfs} {d : KlDisk} (same : d.name.str = disk.name.str)
    (held : (vfs.mounts.find? fun e => compareDiskId e disk.name.str) = some d) (n : Nat) (s : Settings) :
    ∃ st, grubLoad (host.onward n) vfs s path = some st ∧ st.vfs = vfs ∧
      ∀ real ∈ st.opened, Beneath (mountPoint disk.name.str) real := by
  have ok := at_host.named disk listed
  obtain ⟨b, device, rfl⟩ := m.grubDir_bracket ok found
  rw [← device] at held ok
  have mounted : mountById (host.onward n).os (host.onward n).later (host.onward n).mount vfs.mounts
      (getDiskid [] b.path) (-1) = (.ok d, vfs.mounts) := by
    simp only [getDiskid_bracket, mountById, held]
  have on : OnDisk b vfs d :=
    ⟨device ▸ disk.name.fits, ok.plain, ok.not_rootfs, ok.not_debug, held⟩
  obtain ⟨st, run, there⟩ := grubLoad_on (host.onward n) s mounted on
  exact ⟨st, run, there.vfs, same ▸ there.opened⟩

end

/-- All disks of all tables the search goes through, until a key ends it. -/
def disksSeen (seconds : List GrubHost) : List KlDisk := seconds.flatMap fun host => getDisks host.os none

/-- The search has ended with this directory: it is that of the first disk that has one, in
the first second in which there is one; that disk was mounted, with no jail set, when the
directory was loaded, and the files that were read are beneath its mount point. -/
def Machine.Detects (m : Machine) (seconds : List GrubHost) (s : Settings) (path : Str) (st : GrubFiles) : Prop :=
  ∃ before host later, seconds = before ++ host :: later ∧
    (∀ earlier ∈ before, (getDisks earlier.os none).findSome? m.grubDir = none) ∧
    (getDisks host.os none).findSome? m.grubDir = some path ∧
    ∃ disk ∈ getDisks host.os none, m.grubDir disk = some path ∧
      ∃ vfs n, m.Mounted vfs ∧ (∃ d ∈ vfs.mounts, d.name.str = disk.name.str) ∧
        grubLoad (host.onward n) vfs s path = some st ∧
        ∀ real ∈ st.opened, Beneath (mountPoint disk.name.str) real

/-- A second without a directory changes nothing for the ones behind it. -/
theorem Machine.Detects.later {m : Machine} {seconds : List GrubHost} {s : Settings} {path : Str} {st : GrubFiles}
    (detects : m.Detects seconds s path st) {host : GrubHost}
    (none_yet : (getDisks host.os none).findSome? m.grubDir = none) : m.Detects (host :: seconds) s path st := by
  obtain ⟨before, found, later, rfl, none_before, rest⟩ := detects
  exact ⟨host :: before, found, later, rfl, List.forall_mem_cons.mpr ⟨none_yet, none_before⟩, rest⟩

/-- The search loads the directory of the first disk that has one, in the order of the
seconds and of their tables, and nothing else; it reads files of that disk only. When a key
comes first it has read nothing. -/
theorem grubDetect_first (m : Machine) (seconds : List GrubHost) (vfs : Vfs) (s : Settings)
    (machine : ∀ host ∈ seconds, m.At host) (mounted : m.Mounted vfs) :
    ∃ st, grubDetect seconds vfs s = some st ∧
      match (disksSeen seconds).findSome? m.grubDir with
      | none => st.settings = s ∧ st.opened = []
      | some path => m.Detects seconds s path st := by
  induction seconds generalizing vfs with
  | nil => exact ⟨_, rfl, rfl, rfl⟩
  | cons host later ih =>
    rw [List.forall_mem_cons] at machine
    obtain ⟨at_host, machine⟩ := machine
    obtain ⟨st₁, looked, untouched, held⟩ :=
      detectDisks_finds at_host (getDisks host.os none) (fun _ => id)
        (show m.Mounted (GrubFiles.mk vfs s 0 []).vfs from mounted)
    simp only [grubDetect, looked, Option.bind_eq_bind, Option.bind_some, disksSeen, List.flatMap_cons,
      List.findSome?_append]
    rw [untouched.settings]
    cases here : (getDisks host.os none).findSome? m.grubDir with
    | some path =>
      obtain ⟨disk, listed, found, d, same, mounted'⟩ := held path here
      obtain ⟨st, run, -, below⟩ :=
        grubLoad_detected at_host listed found same mounted' st₁.translations s
      exact ⟨st, run, [], host, later, rfl, List.forall_mem_nil _, here, disk, listed, found, st₁.vfs,
        st₁.translations, untouched.mounted, ⟨d, List.mem_of_find?_eq_some mounted', same⟩, run, below⟩
    | none =>
      -- one second later, with the mounts this one leaves
      obtain ⟨st, run, ends⟩ := ih st₁.vfs machine untouched.mounted
      refine ⟨st, run, ?_⟩
      rw [Option.none_or]
      unfold disksSeen at ends
      revert ends
      cases (later.flatMap fun host => getDisks host.os none).findSome? m.grubDir with
      | none => exact id
      | some path => exact fun detects => detects.later here

/-- One partition can be mounted, and has a directory /grub. -/
def grubPartition : Machine where
  mount dev _ _ := if dev = bytes "/dev/sda1" then none else some 22
  mountable name := name = bytes "sda1"
  present real := real = bytes "/mnt/sda1/grub"

/-- A second of this machine with the table given. -/
def grubPartition.second (os : DiskOs) : GrubHost where
  os := os
  later := []
  mount := grubPartition.mount
  access _ := (os, grubPartition.mount)
  present := grubPartition.present
  file _ := .error []
  strerror _ := []
  stack := []
  tskip := false

/-- The partition turns up in the second after the one with an empty table. -/
theorem grubDetect_late :
    (disksSeen [grubPartition.second { sampleDisks with diskstats := none },
        grubPartition.second sampleDisks]).findSome? grubPartition.grubDir = some (bytes "(sda1)/grub/") ∧
      ∃ st, grubDetect [grubPartition.second { sampleDisks with diskstats := none },
          grubPartition.second sampleDisks] ⟨none, none, []⟩ initSettings = some st ∧
        match (disksSeen [grubPartition.second { sampleDisks with diskstats := none },
            grubPartition.second sampleDisks]).findSome? grubPartition.grubDir with
        | none => st.settings = initSettings ∧ st.opened = []
        | some path => grubPartition.Detects [grubPartition.second { sampleDisks with diskstats := none },
            grubPartition.second sampleDisks] initSettings path st := by
  refine ⟨by decide +kernel, grubDetect_first grubPartition _ ⟨none, none, []⟩ initSettings ?_
    ⟨rfl, fun disk member => absurd member List.not_mem_nil⟩⟩
  refine List.forall_mem_cons.mpr ⟨⟨fun _ => rfl, rfl, rfl, ?_, ?_⟩, List.forall_mem_singleton.mpr
    ⟨fun _ => rfl, rfl, rfl, ?_, ?_⟩⟩
  all_goals decide +kernel

end KexecLoader
