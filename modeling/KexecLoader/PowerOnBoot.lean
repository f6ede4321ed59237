import KexecLoader.ConfView
import KexecLoader.PowerOn

/-!
# From power on to kexec

The configuration file that counts is the one on the disk of the command line, below the
jail; the targets are those it describes and those of the GRUB directory it names. Behind
the jail every target leads to its own disk, in every session of the menu.
-/
namespace KexecLoader

/-! ### Files below the jail -/

/-- While the boot disk is the root. -/
structure DiskBay.Rooted (bay : DiskBay) (id : Str) (jail : Option Str) (vfs : Vfs) : Prop where
  root : vfs.root = some id
  jail : vfs.jail = jail
  mounted : vfs.mounts ⊆ bay.disks

/-- A file is loaded when it is there, if its path always leads to the same place. -/
theorem grubLoadFile_found (Inv : Vfs → Prop) {host : GrubHost} {path real : Str}
    (translates : ∀ st : GrubFiles, Inv st.vfs → ∃ st', grubTranslate host st path = some (.ok real, st') ∧
      Inv st'.vfs ∧ st'.settings = st.settings)
    (st : GrubFiles) (here : Inv st.vfs) (load : Settings → Except Str Str → Settings) :
    ∃ st', grubLoadFile host st path load = some (host.present real, st') ∧ Inv st'.vfs ∧
      st'.settings = if host.present real then load st.settings (host.file real) else st.settings := by
  obtain ⟨found, translated, here₁, same₁⟩ := translates st here
  by_cases present : host.present real = true
  · obtain ⟨opened, again, here₂, same₂⟩ := translates found here₁
    refine ⟨{ opened with
      settings := load opened.settings (host.file real)
      opened := opened.opened ++ [real] }, ?_, here₂, ?_⟩
    · simp [grubLoadFile, vfsExists, grubOpen, translated, again, present]
    · rw [if_pos present, same₂, same₁]
  · refine ⟨found, ?_, here₁, by rw [if_neg present, same₁]⟩
    simp [grubLoadFile, vfsExists, translated, present]

/-- The directory that the jail leaves of a disk. -/
def jailDir (disk : KlDisk) (jail : Option Str) : Str := mountPoint disk.name.str ++ render (remaining (jail.getD []))

/-- Paths of the boot disk, and those of the initramfs, which leave the jail. -/
def Touchable (path : Str) : Prop := path.head? = some 40 → bytes "(nojail,rootfs)" <+: path

instance (path : Str) : Decidable (Touchable path) :=
  inferInstanceAs (Decidable (path.head? = some 40 → bytes "(nojail,rootfs)" <+: path))

/-- Nothing is mounted for the initramfs. -/
theorem vfsTranslatePath_initramfs (os : DiskOs) (mount : MountCall) (vfs : Vfs) (stack rest : Str) :
    ∃ real, vfsTranslatePath os mount vfs stack (bytes "(nojail,rootfs)" ++ rest) = (.ok real, vfs) := by
  let b : BracketPath := ⟨bytes "nojail,rootfs", rest, by decide, by decide, by decide⟩
  have short : b.device.length < 32 := show (bytes "nojail,rootfs").length < 32 by decide
  have split : splitDevice vfs stack (bytes "(nojail,rootfs)" ++ rest) =
      .ok (some (110 :: bytes "ojail,rootfs"), rest) := splitDevice_bracket b short vfs stack
  have name : deviceName (110 :: bytes "ojail,rootfs") = bytes "rootfs" := rfl
  have no_debug : klStreq (bytes "rootfs") (bytes "debug") = false := rfl
  have root : diskRoot os mount vfs.mounts (bytes "rootfs") = (.ok (bytes "/"), vfs.mounts) := rfl
  obtain ⟨real, built, -⟩ := buildPath_spec (bytes "/") (jailFor vfs (110 :: bytes "ojail,rootfs")) rest
  refine ⟨real, ?_⟩
  simp only [vfsTranslatePath, split, name, no_debug, root, built, Bool.false_eq_true, if_false]

section
variable {bay : DiskBay} {host : GrubHost} (sees : ∀ n, bay.Sees (host.access n)) {id : Str} {disk : KlDisk}
  (names : bay.Names id disk) {jail : Option Str} {st : GrubFiles} (rooted : bay.Rooted id jail st.vfs)
include sees names rooted

theorem grubTranslate_rooted {path : Str} (bare : path.head? ≠ some 40) :
    ∃ st', grubTranslate host st path = some (.ok (jailDir disk jail ++ render (remaining path)), st') ∧
      bay.Rooted id jail st'.vfs ∧ st'.settings = st.settings := by
  have split : splitDevice st.vfs host.stack path = .ok (st.vfs.root, path) :=
    DiskBay.splitDevice_bare host.stack bare
  rw [rooted.root] at split
  obtain ⟨real, after, mounted, run, str⟩ :=
    DiskBay.vfsTranslatePath_split (sees st.translations) names rooted.mounted split
  rw [rooted.jail] at str
  refine ⟨{ st with vfs := { st.vfs with mounts := after }, translations := st.translations + 1 }, ?_,
    ⟨rooted.root, rooted.jail, mounted⟩, rfl⟩
  simp only [grubTranslate, run, str, jailDir]

/-- A path that is touched leaves the settings alone. -/
theorem grubTranslate_touched {path : Str} (touchable : Touchable path) :
    ∃ real st', grubTranslate host st path = some (real, st') ∧ bay.Rooted id jail st'.vfs ∧
      st'.settings = st.settings := by
  by_cases bracket : path.head? = some 40
  · obtain ⟨rest, rfl⟩ := touchable bracket
    obtain ⟨real, run⟩ := vfsTranslatePath_initramfs (host.access st.translations).1 (host.access st.translations).2
      st.vfs host.stack rest
    refine ⟨.ok real.str, { st with translations := st.translations + 1 }, ?_,
      ⟨rooted.root, rooted.jail, rooted.mounted⟩, rfl⟩
    simp only [grubTranslate, run]
  · obtain ⟨st', translated, rooted', same⟩ := grubTranslate_rooted sees names rooted bracket
    exact ⟨_, st', translated, rooted', same⟩

theorem touched_rooted (paths : List Str) (touchable : ∀ path ∈ paths, Touchable path) :
    ∃ st', paths.foldlM (fun st path => (grubTranslate host st path).map Prod.snd) st = some st' ∧
      bay.Rooted id jail st'.vfs ∧ st'.settings = st.settings := by
  induction paths generalizing st with
  | nil => exact ⟨st, rfl, rooted, rfl⟩
  | cons path paths ih =>
    obtain ⟨real, next, translated, rooted₁, same₁⟩ :=
      grubTranslate_touched sees names rooted (touchable path List.mem_cons_self)
    obtain ⟨st', run, rooted', same⟩ := ih rooted₁ fun p member => touchable p (List.mem_cons_of_mem _ member)
    refine ⟨st', ?_, rooted', same.trans same₁⟩
    rw [List.foldlM_cons, translated]
    exact run

end

/-! ### The configuration file -/

/-- What the configuration file in a directory says. -/
def confSettings (host : GrubHost) (dir : Str) : Settings :=
  if host.present (dir ++ kexecLoaderConf) then
    loadConf kexecLoaderConf initSettings (host.file (dir ++ kexecLoaderConf))
  else if host.present (dir ++ kxloaderCfg) then
    loadConf kxloaderCfg initSettings (host.file (dir ++ kxloaderCfg))
  else initSettings

theorem configure_rooted {bay : DiskBay} {h : PowerOn} (sees : ∀ n, bay.Sees (h.conf.access n))
    (touchable : ∀ path ∈ h.touched, Touchable path) {id : Str} {disk : KlDisk} (names : bay.Names id disk)
    (jail : Option Str) {mounts : List KlDisk} (mounted : mounts ⊆ bay.disks) :
    ∃ st, h.configure ⟨some id, jail, mounts⟩ = some st ∧ bay.Rooted id jail st.vfs ∧
      st.settings = confSettings h.conf (jailDir disk jail) := by
  have first_bare : kexecLoaderConf.head? ≠ some 40 := by decide
  have second_bare : kxloaderCfg.head? ≠ some 40 := by decide
  have first_path : render (remaining kexecLoaderConf) = kexecLoaderConf := by decide
  have second_path : render (remaining kxloaderCfg) = kxloaderCfg := by decide
  have start : bay.Rooted id jail ⟨some id, jail, mounts⟩ := ⟨rfl, rfl, mounted⟩
  obtain ⟨st₁, first, rooted₁, same₁⟩ :=
    grubLoadFile_found (bay.Rooted id jail) (fun st rooted => grubTranslate_rooted sees names rooted first_bare)
      ⟨⟨some id, jail, mounts⟩, initSettings, 0, []⟩ start (loadConf kexecLoaderConf)
  rw [first_path] at first same₁
  -- the second name counts if there is no file of the first one
  obtain ⟨loaded, st₂, second, rooted₂, same₂⟩ : ∃ loaded st₂,
      (if h.conf.present (jailDir disk jail ++ kexecLoaderConf) then some (true, st₁)
        else grubLoadFile h.conf st₁ kxloaderCfg (loadConf kxloaderCfg)) = some (loaded, st₂) ∧
      bay.Rooted id jail st₂.vfs ∧ st₂.settings = confSettings h.conf (jailDir disk jail) := by
    unfold confSettings
    by_cases found : h.conf.present (jailDir disk jail ++ kexecLoaderConf) = true
    · exact ⟨true, st₁, if_pos found, rooted₁, by rw [same₁, if_pos found, if_pos found]⟩
    · obtain ⟨st₂, second, rooted₂, same₂⟩ :=
        grubLoadFile_found (bay.Rooted id jail) (fun st rooted => grubTranslate_rooted sees names rooted second_bare)
          st₁ rooted₁ (loadConf kxloaderCfg)
      rw [second_path] at second same₂
      exact ⟨_, st₂, (if_neg found).trans second, rooted₂, by rw [same₂, same₁, if_neg found, if_neg found]⟩
  obtain ⟨st, touched, rooted, same⟩ := touched_rooted sees names rooted₂ h.touched touchable
  refine ⟨st, ?_, rooted, same.trans same₂⟩
  simp only [PowerOn.configure, first, Option.bind_eq_bind, Option.bind_some]
  split at second
  next found =>
    obtain rfl : st₁ = st₂ := congrArg Prod.snd (Option.some.inj second)
    exact (if_pos found).trans touched
  next missing =>
    rw [if_neg missing, second]
    exact touched

/-! ### The GRUB directory -/

/-- What the files of a GRUB directory say, given the real path of each. -/
def grubSettings (host : GrubHost) (real : Str → Str) (s : Settings) : Settings :=
  let map := real (bytes "device.map")
  let cfg := real (bytes "grub.cfg")
  let menu := real (bytes "menu.lst")
  let s := if host.present map then loadDevmap s (host.file map) else s
  if host.present cfg then loadGrub2Cfg s (host.file cfg)
  else if host.present menu then loadMenu host.tskip s (host.file menu)
  else s.printD (bytes "Neither grub.cfg or menu.lst found in GRUB directory")

/-- A file of a directory has the device of the directory. -/
theorem DiskBay.Reaches.file {bay : DiskBay} {path : Str} (on : bay.Reaches path) (name : Str) :
    bay.Reaches (grubFile path name) := by
  obtain ⟨b, rfl, short, disk, names⟩ := on
  obtain ⟨room, size⟩ : ∃ room, 1023 = b.device.length + 2 + room := ⟨1021 - b.device.length, by omega⟩
  refine ⟨{ b with rest := (b.rest ++ bytes "/" ++ name).take room }, ?_, short, disk, names⟩
  have whole : b.path ++ bytes "/" ++ name = (40 :: b.device ++ [41]) ++ (b.rest ++ bytes "/" ++ name) := by
    simp [BracketPath.path]
  have front : (40 :: b.device ++ [41]).length = b.device.length + 2 := by simp
  rw [grubFile, size, whole, ← front, List.take_length_add_append]
  simp [BracketPath.path]

theorem grubTranslate_reaches {bay : DiskBay} {host : GrubHost} (sees : ∀ n, bay.Sees (host.access n)) {path : Str}
    (reaches : bay.Reaches path) (root : Str) {st : GrubFiles} (steady : bay.Steady st.vfs) :
    ∃ st', grubTranslate host st path = some (.ok (bay.real root path), st') ∧ bay.Steady st'.vfs ∧
      st'.settings = st.settings := by
  obtain ⟨b, rfl, short, disk, names⟩ := reaches
  obtain ⟨real, vfs', run, str, steady', -⟩ := DiskBay.vfsTranslatePath_names (sees st.translations) steady names
    (splitDevice_bracket b short st.vfs host.stack)
  refine ⟨{ st with vfs := vfs', translations := st.translations + 1 }, ?_, steady', rfl⟩
  simp only [grubTranslate, run, str, DiskBay.real_bracket]

/-- Outside of the jail a GRUB directory is read from its disk. -/
theorem grubLoad_reaches {bay : DiskBay} {host : GrubHost} (sees : ∀ n, bay.Sees (host.access n))
    (scans : bay.Sees (host.os, host.mount)) {path : Str} (reaches : bay.Reaches path) (root : Str) {vfs : Vfs}
    (steady : bay.Steady vfs) (s : Settings) :
    ∃ st, grubLoad host vfs s path = some st ∧ bay.Steady st.vfs ∧
      st.settings = grubSettings host (fun name => bay.real root (grubFile path name)) s := by
  have load := fun name => grubLoadFile_found bay.Steady fun st steady =>
    grubTranslate_reaches sees (reaches.file name) root steady
  obtain ⟨b, rfl, short, disk, names⟩ := reaches
  obtain ⟨after, mounted, run⟩ := DiskBay.mountById_names scans names steady.mounted host.later (-1)
  rw [← getDiskid_bracket b []] at run
  obtain ⟨st₁, mapped, steady₁, same₁⟩ := load (bytes "device.map")
    ⟨{ vfs with mounts := after }, s, 0, []⟩ ⟨steady.jail, mounted⟩ loadDevmap
  obtain ⟨st₂, configured, steady₂, same₂⟩ := load (bytes "grub.cfg") st₁ steady₁ loadGrub2Cfg
  obtain ⟨st₃, listed, steady₃, same₃⟩ := load (bytes "menu.lst") st₂ steady₂ (loadMenu host.tskip)
  simp only [grubLoad, run, mapped, configured, listed, Option.bind_eq_bind, Option.bind_some, grubSettings]
  -- menu.lst counts if there is no grub.cfg, which then has changed nothing
  have cfg_absent : host.present (bay.real root (grubFile b.path (bytes "grub.cfg"))) ≠ true →
      st₂.settings = st₁.settings := fun absent => same₂.trans (if_neg absent)
  by_cases cfg : host.present (bay.real root (grubFile b.path (bytes "grub.cfg"))) = true
  · rw [if_pos cfg] at same₂
    exact ⟨st₂, if_pos cfg, steady₂, by rw [same₂, if_pos cfg, same₁]⟩
  · rw [cfg_absent cfg] at same₃
    by_cases menu : host.present (bay.real root (grubFile b.path (bytes "menu.lst"))) = true
    · rw [if_pos menu] at same₃
      exact ⟨st₃, by rw [if_neg cfg, if_pos menu], steady₃, by rw [same₃, if_neg cfg, if_pos menu, same₁]⟩
    · rw [if_neg menu] at same₃
      let message := bytes "Neither grub.cfg or menu.lst found in GRUB directory"
      refine ⟨{ st₃ with settings := st₃.settings.printD message }, ?_, steady₃, ?_⟩
      · rw [if_neg cfg, if_neg menu]
      · rw [if_neg cfg, if_neg menu, ← same₁, ← same₃]

/-! ### The start -/

/-- The targets do not matter for the disk, the root and the jail. -/
theorem main_targets {st : Startup} {selected : Selected} (run : main st = some selected) (targets : List KlTarget) :
    ∃ selected', main { st with targets := targets } = some selected' ∧ selected'.bootDisk = selected.bootDisk ∧
      selected'.mounts = selected.mounts ∧ selected'.vfsRoot = selected.vfsRoot ∧
      selected'.vfsJail = selected.vfsJail := by
  have same : ({ st with targets := targets } : Startup).mounted = st.mounted := rfl
  rw [main_eq] at run ⊢
  rw [same]
  split at run
  · cases run
  next fine =>
    rw [if_neg fine]
    obtain rfl := Option.some.inj run
    exact ⟨_, rfl, rfl, rfl, rfl, rfl⟩

/-- A GRUB directory is on a disk, or there is none and none is searched for. -/
def GrubKnown (bay : DiskBay) (s : Settings) : Prop :=
  match s.grubPath with
  | some path => bay.Reaches path
  | none => ¬ (s.grubAutodetect = 2 ∨ s.targets = [] ∧ s.grubAutodetect ≠ 0)

/-- What the files of the machine say, given the disk the command line names. -/
def PowerOn.settings (h : PowerOn) (bay : DiskBay) (disk : KlDisk) : Settings :=
  let s := confSettings h.conf (jailDir disk (optionValue h.start.cmdline (bytes "rootdir")))
  match s.grubPath with
  | some path => grubSettings h.grub (fun name => bay.real [] (grubFile path name)) s
  | none => s

/-- The system answers from these disks, and a disk is looked for. -/
structure PowerOn.On (h : PowerOn) (bay : DiskBay) : Prop where
  no_noboot : h.noboot = false
  scan : bay.Sees (h.start.scan.os, h.start.mount)
  conf : ∀ n, bay.Sees (h.conf.access n)
  touchable : ∀ path ∈ h.touched, Touchable path
  grub_scan : bay.Sees (h.grub.os, h.grub.mount)
  grub : ∀ n, bay.Sees (h.grub.access n)

section
variable {bay : DiskBay} {h : PowerOn} (on : h.On bay)
include on

theorem findTargets_known {st : GrubFiles} (steady : bay.Steady st.vfs) (known : GrubKnown bay st.settings) :
    ∃ st', h.findTargets st = some st' ∧ bay.Steady st'.vfs ∧ st'.settings = match st.settings.grubPath with
      | some path => grubSettings h.grub (fun name => bay.real [] (grubFile path name)) st.settings
      | none => st.settings := by
  cases given : st.settings.grubPath with
  | some path =>
    have reaches : bay.Reaches path := by
      rw [GrubKnown, given] at known
      exact known
    obtain ⟨st', run, steady', same⟩ := grubLoad_reaches on.grub on.grub_scan reaches [] steady st.settings
    refine ⟨st', ?_, steady', same⟩
    rw [PowerOn.findTargets, given]
    exact run
  | none =>
    have idle : ¬ (st.settings.grubAutodetect = 2 ∨ st.settings.targets = [] ∧ st.settings.grubAutodetect ≠ 0) := by
      rw [GrubKnown, given] at known
      exact known
    refine ⟨st, ?_, steady, rfl⟩
    rw [PowerOn.findTargets, given]
    exact if_neg idle

/-- The files that count are read, and the target that is asked for is chosen from theirs. -/
theorem run_ready {disk : KlDisk} (boot : bay.Names (rootId h.start.cmdline) disk)
    (known : GrubKnown bay (confSettings h.conf (jailDir disk (optionValue h.start.cmdline (bytes "rootdir")))))
    (survive : SelectionsSurvive { h.start with targets := (h.settings bay disk).targets }) :
    ∃ ready, h.run = some ready ∧ bay.Steady ready.files.vfs ∧
      ready.files.settings.silent = (h.settings bay disk).silent ∧
      ready.booted = requested h.start.cmdline (h.settings bay disk).targets := by
  obtain ⟨late, late_run, mounted, root, jail, booted, -⟩ := survive
  obtain ⟨after, inside, disk_found⟩ :=
    DiskBay.mountById_names on.scan boot (List.nil_subset _) (h.start.later.map Scan.os) (-1)
  obtain ⟨found, mounts⟩ := Prod.mk.inj (mounted.trans disk_found)
  -- `main` reads the command line twice here, before the targets are known and after
  obtain ⟨early, early_run, same_disk, same_mounts, same_root, same_jail⟩ := main_targets late_run []
  have selects : ∀ targets, h.selected targets = main { h.start with targets := targets } := fun targets => by
    simp only [PowerOn.selected, on.no_noboot, Bool.false_eq_true, if_false]
  obtain ⟨st₁, configured, rooted, read⟩ :=
    configure_rooted on.conf on.touchable boot (optionValue h.start.cmdline (bytes "rootdir")) inside
  -- the jail is left before GRUB is looked at, and the boot disk stays mounted
  let left : GrubFiles := { st₁ with vfs := vfsSetJail st₁.vfs none }
  have left_settings : left.settings = _ := read
  have left_steady : bay.Steady left.vfs := ⟨rfl, rooted.mounted⟩
  obtain ⟨st₂, loaded, steady₂, same⟩ := findTargets_known on left_steady (left_settings ▸ known)
  rw [left_settings] at same
  have targets : st₂.settings = h.settings bay disk := same
  have vfs : (⟨some early.vfsRoot, early.vfsJail, early.mounts⟩ : Vfs) =
      ⟨some (rootId h.start.cmdline), optionValue h.start.cmdline (bytes "rootdir"), after⟩ := by
    rw [same_root, same_jail, same_mounts, root, jail, mounts]
  unfold PowerOn.run
  rw [selects, early_run]
  simp only [Option.bind_eq_bind, Option.bind_some, same_disk, found, Bool.true_or, if_true, vfs, configured]
  rw [show h.findTargets _ = _ from loaded, Option.bind_some, selects, targets, late_run, Option.bind_some]
  refine ⟨_, rfl, ?_, ?_, booted⟩
  · split <;> exact steady₂
  · split
    · exact Settings.silent_printD _ _
    · exact congrArg Settings.silent targets

omit on in
theorem requested_mem {cmdline : Str} {targets : List KlTarget} {t : KlTarget}
    (asked : requested cmdline targets = some t) : t ∈ targets := by
  unfold requested at asked
  split at asked
  · split at asked
    · exact List.mem_of_getElem? asked
    · cases asked
  · obtain ⟨title, -, found⟩ := Option.bind_eq_some_iff.mp asked
    exact List.mem_of_find?_eq_some found

end

/-- The command line names the partition by its label, a directory on it, and a target. -/
def labelStart : Startup where
  cmdline := bytes "root=LABEL=Root rootdir=/boot/kl boot_target=Linux\n"
  opens := fun _ _ => true
  early := 1
  scan := ⟨0, sampleDisks, false⟩
  later := []
  mount := sampleBay.mount
  between := 2
  targets := []

/-- The partition has one file. -/
def labelHost : GrubHost where
  os := sampleDisks
  later := []
  mount := sampleBay.mount
  access := fun _ => (sampleDisks, sampleBay.mount)
  present := fun real => real = bytes "/mnt/sda1/boot/kl/kexec-loader.conf"
  file := fun _ => .ok diskFile.content
  strerror := fun _ => []
  stack := []
  tskip := false

def labelPowerOn : PowerOn := ⟨labelStart, false, labelHost, [bytes "(nojail,rootfs)/modules/", bytes "/modules/"],
  labelHost, []⟩

def labelAttempt : BootHost := ⟨labelHost.access, [], fun _ => [], none, .exited 1, 0⟩

theorem labelPowerOn_on : labelPowerOn.On sampleBay where
  no_noboot := rfl
  scan := ⟨rfl, rfl⟩
  conf _ := ⟨rfl, rfl⟩
  touchable := by decide
  grub_scan := ⟨rfl, rfl⟩
  grub _ := ⟨rfl, rfl⟩

theorem label_names (id : Str) (fits : ∀ d ∈ sampleBay.disks, compareDiskId d id = true ↔ d = samplePartition)
    (plain : id ≠ [] ∧ 58 ∉ id ∧ ¬ nojail <+: id ∧ id ≠ bytes "rootfs" ∧ id ≠ bytes "debug") :
    sampleBay.Names id samplePartition :=
  ⟨by decide +kernel, fits, .inl (by decide +kernel), plain.1, plain.2.1, plain.2.2.1, plain.2.2.2.1, plain.2.2.2.2⟩

/-- What is typed in a shell that boots the partition. -/
def labelShell : List ShellLine :=
  [bytes "root LABEL=Root", bytes "kernel /vmlinuz", bytes "append ro", bytes "boot", bytes "exit"].map
    (⟨·, fun _ => .ok (), labelAttempt, id⟩)

/-- The target that it configures is on the partition. -/
example : (⟨.key 99, labelAttempt, labelShell⟩ : SessionInput).On sampleBay := by
  have calls : shellMain labelShell = [.other (vfsSetRoot · none), .other id, .other id, .other id,
      .boot labelAttempt { initTarget with
        root := strlcpy (bytes "LABEL=Root")
        kernel := strlcpy (bytes "/vmlinuz")
        append := strlcpy (bytes "ro") }] := rfl
  refine ⟨fun _ => ⟨rfl, rfl⟩, ?_⟩
  have steady : ∀ vfs, sampleBay.Steady vfs → sampleBay.Steady (vfsSetRoot vfs none) := fun vfs steady =>
    ⟨steady.jail, steady.mounted⟩
  have root := label_names (bytes "LABEL=Root") (by decide +kernel) (by decide)
  have bare : (bytes "/vmlinuz").head? ≠ some 40 := by decide
  rw [calls]
  simp only [List.forall_mem_cons, SessionCall.On]
  refine ⟨steady, fun _ => id, fun _ => id, fun _ => id, ⟨fun _ => ⟨rfl, rfl⟩, ⟨_, root⟩, ?_, by decide +kernel⟩,
    List.forall_mem_nil _⟩
  exact List.forall_mem_cons.mpr ⟨trivial, List.forall_mem_cons.mpr ⟨trivial, List.forall_mem_cons.mpr ⟨
    fun bracket => absurd bracket bare, List.forall_mem_cons.mpr ⟨trivial, List.forall_mem_nil _⟩⟩⟩⟩

/-- An attempt from the menu, and one from that shell. -/
example : bootedAlong sampleBay [] [[bytes "kexec", bytes "-l", bytes "/mnt/sda1/vmlinuz"]] 0
    [⟨.key 10, labelAttempt, []⟩, ⟨.key 99, labelAttempt, labelShell⟩] =
    [.kexec [bytes "kexec", bytes "-l", bytes "/mnt/sda1/vmlinuz"],
      .kexec [bytes "kexec", bytes "-l", bytes "/mnt/sda1/vmlinuz", bytes "--append=ro"]] := by decide +kernel

end KexecLoader
