import KexecLoader.BootSession
import KexecLoader.BracketDevice
import KexecLoader.DiskTags
import KexecLoader.MountById

/-!
# A machine whose disks stay

As long as the table of disks does not change, an id that fits one disk, which can be
mounted, leads to that disk for good, whatever was mounted before. Every attempt to boot a
target whose ids are such ones ends in the same call of kexec.
-/
namespace KexecLoader

/-- The disks of a machine, each under a name of its own, and what `mount` does with them. -/
structure DiskBay where
  disks : List KlDisk
  mount : MountCall
  distinct : ∀ d ∈ disks, ∀ e ∈ disks, d.name = e.name → d = e

namespace DiskBay

variable (bay : DiskBay)

/-- What the system answers comes from these disks. -/
def Sees (access : DiskOs × MountCall) : Prop := getDisks access.1 none = bay.disks ∧ access.2 = bay.mount

/-- Nothing else has been mounted, and no jail is set. -/
structure Steady (vfs : Vfs) : Prop where
  jail : vfs.jail = none
  mounted : vfs.mounts ⊆ bay.disks

/-- The id stands for this disk and no other, and it can be mounted. -/
structure Names (id : Str) (disk : KlDisk) : Prop where
  listed : disk ∈ bay.disks
  fits : ∀ d ∈ bay.disks, compareDiskId d id = true ↔ d = disk
  mountable :
    bay.mount (devPath disk.name.str) (mountPoint disk.name.str) disk.fstype.str = none ∨
      bay.mount (devPath disk.name.str) (mountPoint disk.name.str) disk.fstype.str = some EBUSY
  nonempty : id ≠ []
  no_colon : 58 ∉ id
  plain : ¬ nojail <+: id
  not_rootfs : id ≠ bytes "rootfs"
  not_debug : id ≠ bytes "debug"

/-- The real path of a file on the disk that an id stands for. -/
def file (id path : Str) : Str :=
  ((bay.disks.find? (compareDiskId · id)).elim [] fun disk => mountPoint disk.name.str) ++
    render (remaining path)

variable {bay} {id : Str} {disk : KlDisk}

theorem Names.find (names : bay.Names id disk) : bay.disks.find? (compareDiskId · id) = some disk := by
  obtain ⟨d, first⟩ : ∃ d, bay.disks.find? (compareDiskId · id) = some d := by
    rw [← Option.isSome_iff_exists, List.find?_isSome]
    exact ⟨disk, names.listed, (names.fits disk names.listed).mpr rfl⟩
  have fits := List.find?_some first
  obtain rfl := (names.fits d (List.mem_of_find?_eq_some first)).mp fits
  exact first

theorem Names.file_eq (names : bay.Names id disk) (path : Str) :
    bay.file id path = mountPoint disk.name.str ++ render (remaining path) := by
  rw [file, names.find, Option.elim_some]

/-! ### Mounting -/

section
variable {access : DiskOs × MountCall} (sees : bay.Sees access) (names : bay.Names id disk)
include sees names

/-- The disk is the one that is mounted already, or it is mounted now, without waiting. -/
theorem mountById_names {mounts : List KlDisk} (steady : mounts ⊆ bay.disks) (later : List DiskOs) (timeout : Int) :
    ∃ after ⊆ bay.disks, mountById access.1 later access.2 mounts id timeout = (.ok disk, after) := by
  obtain ⟨table, mount⟩ := sees
  cases entry : mounts.find? (fun d => compareDiskId d id) with
  | some d =>
    have fits : compareDiskId d id = true := by simpa using List.find?_some entry
    obtain rfl := (names.fits d (steady (List.mem_of_find?_eq_some entry))).mp fits
    exact ⟨mounts, steady, by simp only [mountById, entry]⟩
  | none =>
    have absent : ∀ d ∈ mounts, compareDiskId d id = false := by
      simpa [List.find?_eq_none] using entry
    have fits := (names.fits disk names.listed).mpr rfl
    have scan : getDisks access.1 (some id) = [disk] := by
      have split : splitFilter (some id) = (none, some id) :=
        @splitFilter_text none _ (fun t given => by simp at given) fun _ => names.no_colon
      rw [getDisks_first access.1 split, table, names.find]
      rfl
    have found : seekDisk access.1 later id timeout = some disk := by rw [seekDisk, scan]
    -- a record of the same name would be this disk, and fit
    have fresh : ¬ ∃ m ∈ mounts, m.name = disk.name := by
      rintro ⟨m, member, name⟩
      obtain rfl := bay.distinct m (steady member) disk names.listed name
      rw [absent m member] at fits
      cases fits
    have longer : mounts ++ [disk] ⊆ bay.disks :=
      List.append_subset.mpr ⟨steady, List.cons_subset.mpr ⟨names.listed, List.nil_subset _⟩⟩
    refine ⟨mounts ++ [disk], longer, ?_⟩
    rw [mountById_found access.1 later access.2 mounts id timeout disk absent found, if_neg fresh, mount]
    rcases names.mountable with fine | busy
    · simp only [fine, fits, if_true]
    · simp only [busy, fits, if_true]

/-- A path leads to its disk, below the jail. -/
theorem vfsTranslatePath_split {vfs : Vfs} (steady : vfs.mounts ⊆ bay.disks) {stack path rest : Str}
    (split : splitDevice vfs stack path = .ok (some id, rest)) :
    ∃ real, ∃ after ⊆ bay.disks,
      vfsTranslatePath access.1 access.2 vfs stack path = (.ok real, { vfs with mounts := after }) ∧
        real.str = mountPoint disk.name.str ++ render (remaining (vfs.jail.getD [])) ++ render (remaining rest) := by
  obtain ⟨after, steady', mounted⟩ := mountById_names sees names steady [] 0
  have name := deviceName_plain names.plain
  have no_debug : klStreq (deviceName id) (bytes "debug") = false := by
    rw [name]
    exact (klStreq_eq_false _ _).mpr names.not_debug
  have no_rootfs : klStreq id (bytes "rootfs") = false := (klStreq_eq_false _ _).mpr names.not_rootfs
  have directory : diskRoot access.1 access.2 vfs.mounts (deviceName id) = (.ok (mountPoint disk.name.str), after) := by
    rw [name]
    simp only [diskRoot, no_rootfs, mounted, Bool.false_eq_true, if_false]
  have jail : jailFor vfs id = vfs.jail.getD [] :=
    if_neg fun jailed => names.plain ((klStrneq_iff id nojail).mp jailed)
  obtain ⟨real, built, -, str, -⟩ := buildPath_spec (mountPoint disk.name.str) (jailFor vfs id) rest
  refine ⟨real, after, steady', ?_, jail ▸ str⟩
  obtain ⟨c, more, rfl⟩ := List.exists_cons_of_ne_nil names.nonempty
  simp only [vfsTranslatePath, split, no_debug, directory, built, Bool.false_eq_true, if_false]

end

/-- A path without a device leads to the root. -/
theorem splitDevice_bare {vfs : Vfs} (stack : Str) {path : Str} (bare : path.head? ≠ some 40) :
    splitDevice vfs stack path = .ok (vfs.root, path) := by
  unfold splitDevice
  split
  · exact absurd rfl bare
  · rfl

/-- Without a jail, a device leads to the file on its disk. -/
theorem vfsTranslatePath_names {access : DiskOs × MountCall} (sees : bay.Sees access) {vfs : Vfs}
    (steady : bay.Steady vfs) (names : bay.Names id disk) {stack path rest : Str}
    (split : splitDevice vfs stack path = .ok (some id, rest)) :
    ∃ real vfs', vfsTranslatePath access.1 access.2 vfs stack path = (.ok real, vfs') ∧
      real.str = bay.file id rest ∧ bay.Steady vfs' ∧ vfs'.root = vfs.root := by
  obtain ⟨real, after, mounted, run, str⟩ := vfsTranslatePath_split sees names steady.mounted split
  have no_jail : render (remaining (vfs.jail.getD [])) = [] := by
    rw [steady.jail]
    rfl
  refine ⟨real, _, run, ?_, ⟨steady.jail, mounted⟩, rfl⟩
  rw [str, no_jail, List.append_nil, names.file_eq]

/-- The real path of a path for a target with this root. -/
def real (bay : DiskBay) (root path : Str) : Str :=
  if path.head? = some 40 then bay.file (getDiskid root path) (((strchr path 41).getD []).drop 1)
  else bay.file root path

/-- The device in front of a path is a disk. -/
def Reaches (bay : DiskBay) (path : Str) : Prop :=
  ∃ b : BracketPath, b.path = path ∧ b.device.length < 32 ∧ ∃ disk, bay.Names b.device disk

theorem real_bare {root path : Str} (bare : path.head? ≠ some 40) : bay.real root path = bay.file root path :=
  if_neg bare

theorem real_bracket (root : Str) (b : BracketPath) : bay.real root b.path = bay.file b.device b.rest := by
  rw [real, if_pos (show b.path.head? = some 40 from rfl), getDiskid_bracket, strchr_bracket, Option.getD_some, List.drop_one, List.tail_cons]

end DiskBay

/-! ### Booting -/

/-- An argument with its path filled in. -/
def BootArg.filled (file : Str → Str) : BootArg → Str
  | .plain text => text
  | .path at_disk arg => arg (file at_disk)

/-- The device of a path, if it has one, is a disk. -/
def BootArg.Located (bay : DiskBay) : BootArg → Prop
  | .plain _ => True
  | .path at_disk _ => at_disk.head? = some 40 → bay.Reaches at_disk

/-- What becomes of an attempt whose arguments are complete. -/
def BootHost.outcome (host : BootHost) (args : List Str) : List BootEvent :=
  if host.forkError = none then .kexec args :: if host.status = .exited 0 then [.reboot] else []
  else []

namespace DiskBay

variable {bay : DiskBay} {host : BootHost} (sees : ∀ n, bay.Sees (host.access n))
include sees

/-- A plan whose paths lie on disks is carried out. -/
theorem argvPlan_names {id : Str} {disk : KlDisk} (names : bay.Names id disk) (plan : List BootArg)
    (located : ∀ arg ∈ plan, arg.Located bay) {s : BootState} (steady : bay.Steady s.vfs) (root : s.vfs.root = some id)
    (room : s.argv.length + plan.length ≤ 255) :
    ∃ s', argvPlan host plan s = .ok s' ∧ s'.argv = s.argv ++ plan.map (BootArg.filled (bay.real id)) ∧
      bay.Steady s'.vfs := by
  induction plan generalizing s with
  | nil => exact ⟨s, rfl, (List.append_nil _).symm, steady⟩
  | cons arg plan ih =>
    have here := located arg List.mem_cons_self
    have later := fun a member => located a (List.mem_cons_of_mem _ member)
    rw [List.length_cons] at room
    have added : ∀ (text : Str) (s : BootState), s.argv.length + (plan.length + 1) ≤ 255 →
        argvAdd text s = .ok { s with
          argv := s.argv ++ [text]
          slots := s.slots ++ [s.argv.length, s.argv.length + 1] } := by
      intro text s room
      refine if_neg ?_
      simp only [MAX_ARGV]
      omega
    -- the rest of the plan starts one argument further
    have next : ∀ (text : Str) (s : BootState), bay.Steady s.vfs → s.vfs.root = some id →
        s.argv.length + (plan.length + 1) ≤ 255 →
        ∃ s', (argvAdd text s >>= argvPlan host plan) = .ok s' ∧
          s'.argv = s.argv ++ text :: plan.map (BootArg.filled (bay.real id)) ∧ bay.Steady s'.vfs := by
      intro text s steady root room
      rw [added text s room]
      obtain ⟨s', run, argv, steady'⟩ := ih later (s := { s with
        argv := s.argv ++ [text]
        slots := s.slots ++ [s.argv.length, s.argv.length + 1] }) steady root (by
          rw [List.length_append, List.length_singleton]
          omega)
      exact ⟨s', run, by rw [argv, List.append_assoc]; rfl, steady'⟩
    cases arg with
    | plain text => exact next text s steady root room
    | path path arg =>
      obtain ⟨real, vfs', translated, str, steady', root'⟩ : ∃ real vfs',
          vfsTranslatePath (host.access s.translations).1 (host.access s.translations).2 s.vfs host.stack path =
              (.ok real, vfs') ∧
            real.str = bay.real id path ∧ bay.Steady vfs' ∧ vfs'.root = some id := by
        by_cases bracket : path.head? = some 40
        · obtain ⟨b, rfl, short, other, names'⟩ := here bracket
          rw [real_bracket, ← root]
          exact vfsTranslatePath_names (sees s.translations) steady names' (splitDevice_bracket b short s.vfs host.stack)
        · rw [real_bare bracket, ← root]
          exact vfsTranslatePath_names (sees s.translations) steady names (root ▸ splitDevice_bare host.stack bracket)
      have mounted : mountVpath host path s =
          .ok (real.str, { s with vfs := vfs', translations := s.translations + 1 }) := by
        simp only [mountVpath, translated]
      obtain ⟨s', run, argv, last⟩ := next (arg real.str)
        { s with vfs := vfs', translations := s.translations + 1 } steady' root' room
      refine ⟨s', ?_, by rw [argv, str]; rfl, last⟩
      rw [argvPlan, mounted]
      exact run

/-- A target that can be booted: its root names a disk, and so do the devices of its paths. -/
structure Boots (bay : DiskBay) (target : KlTarget) : Prop where
  root : ∃ disk, bay.Names target.root.str disk
  located : ∀ arg ∈ bootPlan target, arg.Located bay
  fits : (bootPlan target).length ≤ 255

/-- The arguments of kexec for a target. -/
def args (bay : DiskBay) (target : KlTarget) : List Str :=
  (bootPlan target).map (BootArg.filled (bay.real target.root.str))

/-- Nothing but the child and the reboot can fail. -/
theorem bootTarget_outcome {target : KlTarget} (boots : bay.Boots target) {vfs : Vfs} (steady : bay.Steady vfs) :
    (bootTarget host vfs target).events = host.outcome (bay.args target) ∧
      bay.Steady (bootTarget host vfs target).state.vfs := by
  obtain ⟨disk, names⟩ := boots.root
  let start : BootState := ⟨vfsSetRoot vfs (some target.root.str), 0, [], [], [], false⟩
  have vfs' : (showTarget target start).vfs = start.vfs := showTarget_vfs target start
  have no_args : (showTarget target start).argv = [] := showTarget_argv target start
  obtain ⟨s, done, argv, last⟩ := argvPlan_names sees names (bootPlan target) boots.located
    (s := showTarget target start) (by rw [vfs']; exact ⟨steady.jail, steady.mounted⟩) (by rw [vfs']; rfl)
    (by rw [no_args, List.length_nil, Nat.zero_add]; exact boots.fits)
  rw [no_args, List.nil_append] at argv
  rw [← argvTarget_plan] at done
  have same : bay.args target = s.argv := argv.symm
  rw [bootTarget, BootHost.outcome, same]
  dsimp only
  rw [show argvTarget host target (showTarget target _) = _ from done]
  dsimp only
  cases host.forkError with
  | some errno => exact ⟨rfl, last⟩
  | none =>
    by_cases well : host.status = .exited 0
    · simp only [well, if_true]
      exact ⟨rfl, last⟩
    · simp only [well, if_false, if_true]
      exact ⟨rfl, last⟩

end DiskBay

/-! ### A session on these disks -/

/-- The system answers from these disks, what is booted lies on them, and nothing else is
mounted. -/
def SessionCall.On (bay : DiskBay) : SessionCall → Prop
  | .boot host target => (∀ n, bay.Sees (host.access n)) ∧ bay.Boots target
  | .other change => ∀ vfs, bay.Steady vfs → bay.Steady (change vfs)

/-- What a call leaves. -/
def SessionCall.outcome (bay : DiskBay) : SessionCall → List BootEvent
  | .boot host target => host.outcome (bay.args target)
  | .other _ => []

/-- The calls of a shell are such ones. -/
def SessionInput.On (bay : DiskBay) (e : SessionInput) : Prop :=
  (∀ n, bay.Sees (e.host.access n)) ∧ ∀ c ∈ shellMain e.shell, c.On bay

/-- Whatever has been called before, a target comes to the same call of kexec. -/
theorem Accounts.outcome {bay : DiskBay} {vfs now : Vfs} {called : List SessionCall} {events : List BootEvent}
    (accounts : Accounts vfs called events now) (steady : bay.Steady vfs) (on : ∀ c ∈ called, c.On bay) :
    events = called.flatMap (SessionCall.outcome bay) ∧ bay.Steady now := by
  induction accounts with
  | start => exact ⟨rfl, steady⟩
  | boot _ attempt ih =>
    obtain ⟨before, steady'⟩ := ih fun c member => on c (List.mem_append_left _ member)
    obtain ⟨sees, boots⟩ := on _ (List.mem_append_right _ (List.mem_singleton_self _))
    obtain ⟨made, last⟩ := DiskBay.bootTarget_outcome sees boots steady'
    refine ⟨?_, last⟩
    rw [List.flatMap_append, ← before, List.flatMap_singleton, attempt.unique _ _ _ (bootTarget_attempt _ _ _), made]
    rfl
  | other _ ih =>
    obtain ⟨before, steady'⟩ := ih fun c member => on c (List.mem_append_left _ member)
    refine ⟨?_, on _ (List.mem_append_right _ (List.mem_singleton_self _)) _ steady'⟩
    rw [List.flatMap_append, ← before]
    exact (List.append_nil _).symm

section
variable {targets : List KlTarget} {bay : DiskBay}

theorem callsAlong_on (boots : ∀ t ∈ targets, bay.Boots t) (entry : Nat) {trace : List SessionInput}
    (on : ∀ e ∈ trace, e.On bay) : ∀ c ∈ callsAlong targets entry trace, c.On bay := by
  induction trace generalizing entry with
  | nil => exact List.forall_mem_nil _
  | cons e trace ih =>
    obtain ⟨sees, shell⟩ := on e List.mem_cons_self
    refine List.forall_mem_append.mpr ⟨?_, ih _ fun d member => on d (List.mem_cons_of_mem _ member)⟩
    unfold SessionInput.calls
    split_ifs
    · intro c member
      obtain ⟨target, chosen, rfl⟩ := List.mem_map.mp member
      exact ⟨sees, boots target (List.mem_of_getElem? (Option.mem_toList.mp chosen))⟩
    · exact shell
    · exact List.forall_mem_nil _

/-- What the inputs leave: an attempt for the target under the cursor, given the arguments
of kexec for each, or those of a shell for the targets it boots. -/
def bootedAlong (bay : DiskBay) (targets : List KlTarget) (commands : List (List Str)) (entry : Nat) :
    List SessionInput → List BootEvent
  | [] => []
  | e :: trace =>
    (if e.input.Boots then commands[entry]?.elim [] e.host.outcome
      else if e.input.OpensShell then (shellMain e.shell).flatMap (SessionCall.outcome bay)
      else []) ++
      bootedAlong bay targets commands (cursorStep targets entry e) trace

theorem callsAlong_outcome (entry : Nat) (trace : List SessionInput) :
    (callsAlong targets entry trace).flatMap (SessionCall.outcome bay) =
      bootedAlong bay targets (targets.map bay.args) entry trace := by
  induction trace generalizing entry with
  | nil => rfl
  | cons e trace ih =>
    rw [callsAlong, List.flatMap_append, ih, bootedAlong, SessionInput.calls]
    congr 1
    split_ifs
    · rw [List.getElem?_map]
      cases targets[entry]? with
      | none => rfl
      | some target => exact List.append_nil _
    · rfl
    · rfl

/-- The attempts of a whole session, which does not get stuck. -/
theorem session_boots {rows : Nat} (boots : ∀ t ∈ targets, bay.Boots t) (tall : 10 ≤ rows) {init : MenuSession}
    {start first : Nat} (inv : MenuInv rows targets init.menu first start) (drawn : init.menu.Drawn rows targets)
    (steady : bay.Steady init.vfs) {trace : List SessionInput} {s : MenuSession}
    (run : Run init (SessionStep rows targets) trace s) (on : ∀ e ∈ trace, e.On bay) :
    s.events = init.events ++ bootedAlong bay targets (targets.map bay.args) start trace ∧
      ∀ e, (sessionStep rows targets s e).isSome := by
  obtain ⟨first', after⟩ := session_run_inv inv drawn tall run
  obtain ⟨events, same, accounts⟩ := after.since
  obtain ⟨made, -⟩ := accounts.outcome steady (callsAlong_on boots start on)
  refine ⟨by rw [same, made, callsAlong_outcome], fun e => ?_⟩
  obtain ⟨s', _, stepped, -⟩ := sessionStep_inv after tall e
  rw [stepped]
  rfl

end

/-- The disks of the sample table, of which only the partition can be mounted. -/
def sampleBay : DiskBay where
  disks := getDisks sampleDisks none
  mount dev _ _ := if dev = bytes "/dev/sda1" then none else some 22
  distinct := by decide +kernel

end KexecLoader
