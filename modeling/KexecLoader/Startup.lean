import KexecLoader.Cmdline
import KexecLoader.MountById
import KexecLoader.Settings
import KexecLoader.VolatileId

/-!
# What main makes of the command line

The disk id goes to `mount_by_id` and `vfs_set_root`, the jail to `vfs_set_jail`, and
the title to the loop over the targets. The theorem at the end says exactly when the
calls of `debug` in between leave them as they were.
-/
namespace KexecLoader

/-- What a start without /noboot meets, apart from the selections: the calls of
`debug` before the boot disk is looked for, and those from there until all targets
are known. -/
structure Startup where
  cmdline : Str
  opens : Nat → Str → Bool
  early : Nat
  scan : Scan
  later : List Scan
  mount : MountCall
  between : Nat
  targets : List KlTarget

/-- What main has passed on: the disk id to `vfs_set_root`, the jail, the title as the
loop compares it, and the target to boot. -/
structure Selected where
  bootDisk : Outcome KlDisk
  mounts : List KlDisk
  vfsRoot : Str
  vfsJail : Option Str
  title : Option Str
  booted : Option KlTarget
deriving DecidableEq

/-- The loop over the targets. -/
def bootLoop (bootIndex : Int) (bootArg : Option Str) : Int → List KlTarget → Option KlTarget
  | _, [] => none
  | index, target :: rest =>
    if index = bootIndex ∨ bootArg.any (klStreq target.title.str ·) = true then some target
    else bootLoop bootIndex bootArg (index + 1) rest

section
variable (st : Startup)

/-- What stands behind `device`, or some bytes behind that, after some calls of
`debug`. -/
def deviceAt (kdevice : Bool) (s : DebugState) (n k : Nat) : Str :=
  if kdevice then ((debug st.cmdline st.opens)^[n] s).val.strFrom k
  else (bytes "LABEL=kexecloader").drop k

/-- The end of main: the title and the target requested. -/
def requestBoot (s : DebugState) : Option Str × Option KlTarget :=
  match getCmdline st.cmdline (bytes "boot_index") s with
  | (true, s) =>
    let bootIndex := atoi (s.val.strFrom 0)
    -- a position needs the buffer no more
    (none, if 0 ≤ bootIndex then bootLoop bootIndex none 0 st.targets else none)
  | (false, s) =>
    match getCmdline st.cmdline (bytes "boot_target") s with
    | (false, _) => (none, none)
    | (true, s) =>
      -- the message with the title comes first
      let bootArg := (debug st.cmdline st.opens s).val.strFrom 0
      (some bootArg, bootLoop (-1) (some bootArg) 0 st.targets)

/-- `main`, without /noboot; none when `mount_by_id` leaves its list. -/
def main : Option Selected :=
  match getCmdline st.cmdline (bytes "root") ((debug st.cmdline st.opens)^[st.early] initDebug) with
  | (kdevice, s) =>
    let device := deviceAt st kdevice s
    match mountScanned device st.scan st.later st.mount [] (-1) 0 with
    -- past the end of the list of mounted disks
    | ((.crash, _), _) => none
    | ((bootDisk, mounts), n) =>
      match getCmdline st.cmdline (bytes "rootdir") ((debug st.cmdline st.opens)^[n] s) with
      | (jail, s) =>
        match requestBoot st ((debug st.cmdline st.opens)^[st.between] s) with
        | (title, booted) =>
          some { bootDisk := bootDisk
                 mounts := mounts
                 vfsRoot := device n 0
                 vfsJail := if jail then some (s.val.strFrom 0) else none
                 title := title
                 booted := booted }

end

/-! ### The selections and what keeps them -/

/-- The disk id main is to mount and to set as root. -/
def rootId (cmdline : Str) : Str :=
  (optionValue cmdline (bytes "root")).getD (bytes "LABEL=kexecloader")

/-- The title that is asked for, unless a position is. -/
def requestedTitle (cmdline : Str) : Option Str :=
  match optionValue cmdline (bytes "boot_index") with
  | some _ => none
  | none => optionValue cmdline (bytes "boot_target")

/-- The target that is asked for. -/
def requested (cmdline : Str) (targets : List KlTarget) : Option KlTarget :=
  match optionValue cmdline (bytes "boot_index") with
  | some index => if 0 ≤ atoi index then targets[(atoi index).toNat]? else none
  | none => (optionValue cmdline (bytes "boot_target")).bind fun title =>
      targets.find? fun target => target.title.str = title

/-- Every selection is what main passes on; a title is compared with each target,
if there are any. -/
def SelectionsSurvive (st : Startup) : Prop :=
  ∃ selected, main st = some selected ∧
    (selected.bootDisk, selected.mounts) =
      mountById st.scan.os (st.later.map Scan.os) st.mount [] (rootId st.cmdline) (-1) ∧
    selected.vfsRoot = rootId st.cmdline ∧
    selected.vfsJail = optionValue st.cmdline (bytes "rootdir") ∧
    selected.booted = requested st.cmdline st.targets ∧
    (st.targets ≠ [] → selected.title = requestedTitle st.cmdline)

namespace Startup

variable (st : Startup)

/-- The calls of `debug` in `mount_by_id`, for the id main gives it. -/
def mountCalls : Nat :=
  (mountScanned (fun _ k => (rootId st.cmdline).drop k) st.scan st.later st.mount [] (-1) 0).2

/-- The disk id is kept: it is not an option, or the calls of `debug` do it no harm, or
there are none. -/
def RootKept : Prop :=
  ∀ root ∈ optionValue st.cmdline (bytes "root"),
    Harmless st.cmdline st.opens st.early root ∨ st.mountCalls = 0

/-- The title is kept, or there is no target to compare it with. -/
def TitleKept : Prop :=
  ∀ title ∈ requestedTitle st.cmdline,
    Harmless st.cmdline st.opens (st.early + st.mountCalls + st.between) title ∨ st.targets = []

/-- The buffer with the disk id. -/
def rooted : DebugState :=
  (getCmdline st.cmdline (bytes "root") ((debug st.cmdline st.opens)^[st.early] initDebug)).2

def device : Nat → Nat → Str :=
  deviceAt st (optionValue st.cmdline (bytes "root")).isSome st.rooted

def mounted : (Outcome KlDisk × List KlDisk) × Nat :=
  mountScanned st.device st.scan st.later st.mount [] (-1) 0

/-- The state when the targets are known. -/
def ready : DebugState :=
  (debug st.cmdline st.opens)^[st.between]
    (getCmdline st.cmdline (bytes "rootdir")
      ((debug st.cmdline st.opens)^[st.mounted.2] st.rooted)).2

end Startup

/-- The steps of main. -/
theorem main_eq (st : Startup) :
    main st = if st.mounted.1.1 = .crash then none else
      some { bootDisk := st.mounted.1.1
             mounts := st.mounted.1.2
             vfsRoot := st.device st.mounted.2 0
             vfsJail := optionValue st.cmdline (bytes "rootdir")
             title := (requestBoot st st.ready).1
             booted := (requestBoot st st.ready).2 } := by
  have root : getCmdline st.cmdline (bytes "root") ((debug st.cmdline st.opens)^[st.early] initDebug) =
      ((optionValue st.cmdline (bytes "root")).isSome, st.rooted) :=
    Prod.ext (getCmdline_fst _ _ _) rfl
  have run : mountScanned (deviceAt st (optionValue st.cmdline (bytes "root")).isSome st.rooted)
      st.scan st.later st.mount [] (-1) 0 = st.mounted := rfl
  have jail := getCmdline_read st.cmdline (bytes "rootdir")
    ((debug st.cmdline st.opens)^[st.mounted.2] st.rooted)
  unfold Startup.ready
  simp only [main, root, run]
  rw [← jail]
  obtain ⟨⟨bootDisk, mounts⟩, n⟩ := st.mounted
  cases bootDisk <;> rfl

section
variable {st : Startup}

theorem rooted_tracks : st.rooted.Tracks st.cmdline st.opens :=
  getCmdline_tracks _ (iterate_debug_tracks initDebug_tracks _)

theorem rooted_calls : st.rooted.calls = st.early := by
  rw [Startup.rooted, (getCmdline_frame _ _ _).2, iterate_debug_calls]
  exact Nat.zero_add _

/-- An id that is no option stays. -/
theorem device_literal (absent : optionValue st.cmdline (bytes "root") = none) (n k : Nat) :
    st.device n k = (rootId st.cmdline).drop k := by
  simp [Startup.device, deviceAt, rootId, absent]

section
variable {root : Str} (given : optionValue st.cmdline (bytes "root") = some root)
include given

theorem rooted_holds : st.rooted.val.Holds root := (getCmdline_some given _).2

theorem device_start {k : Nat} (inside : k ≤ root.length) : st.device 0 k = root.drop k := by
  simp only [Startup.device, deviceAt, given, Option.isSome_some, if_true]
  exact (rooted_holds given).strFrom_drop inside

/-- An id that calls of `debug` do no harm to stays. -/
theorem device_kept (harmless : Harmless st.cmdline st.opens st.early root) (n : Nat) {k : Nat}
    (inside : k ≤ root.length) : st.device n k = root.drop k := by
  simp only [Startup.device, deviceAt, given, Option.isSome_some, if_true]
  rw [← rooted_calls] at harmless
  exact (iterate_debug_harmless rooted_tracks harmless (rooted_holds given) n).strFrom_drop inside

/-- Another id is replaced by the first call. -/
theorem device_lost (harmful : ¬ Harmless st.cmdline st.opens st.early root) (n : Nat) :
    st.device (n + 1) 0 ≠ root := by
  obtain ⟨named, closed⟩ := not_or.mp harmful
  push Not at named
  obtain ⟨tty, option, other⟩ := named
  rw [← rooted_calls] at closed
  simp only [Startup.device, deviceAt, given, Option.isSome_some, if_true]
  have holds := iterate_debug_overwrites rooted_tracks closed option n
  rw [holds.strFrom_drop (Nat.zero_le _), List.drop_zero]
  exact other

end

/-- The id main was given, at first. -/
theorem device_sameAt_start : SameAt st.device (fun _ k => (rootId st.cmdline).drop k)
    (rootId st.cmdline).length 0 := by
  cases given : optionValue st.cmdline (bytes "root") with
  | none => exact ⟨by simp [device_literal given], fun k _ => device_literal given 0 k⟩
  | some root =>
    have id : rootId st.cmdline = root := by simp [rootId, given]
    rw [id]
    exact ⟨by simp [device_start given (Nat.zero_le _)], fun k inside => device_start given inside⟩

theorem mounted_kept (kept : st.RootKept) :
    st.mounted.1 = mountById st.scan.os (st.later.map Scan.os) st.mount [] (rootId st.cmdline) (-1) ∧
      st.mounted.2 = st.mountCalls ∧ st.device st.mounted.2 0 = rootId st.cmdline := by
  have same : SameFor (fun _ k => (rootId st.cmdline).drop k) st.device (rootId st.cmdline).length 0
      st.mountCalls := by
    intro n _ upto
    refine SameAt.symm ?_
    cases given : optionValue st.cmdline (bytes "root") with
    | none => exact ⟨by simp [device_literal given], fun k _ => device_literal given n k⟩
    | some root =>
      have id : rootId st.cmdline = root := by simp [rootId, given]
      -- either no call changes the id, or there is no call
      obtain harmless | silent := kept root given
      · rw [id]
        exact ⟨by simp [device_kept given harmless n (Nat.zero_le _)],
          fun k inside => device_kept given harmless n inside⟩
      · obtain rfl : n = 0 := by omega
        exact device_sameAt_start
  have run : st.mounted =
      mountScanned (fun _ k => (rootId st.cmdline).drop k) st.scan st.later st.mount [] (-1) 0 :=
    (mountScanned_same _ _ _ st.scan st.later st.mount [] (-1) 0 same).symm
  refine ⟨?_, by rw [run]; rfl, ?_⟩
  · rw [run, mountScanned_constant]
  · rw [run]
    exact ((same _ (Nat.zero_le _) (Nat.le_refl _)).2 0 (Nat.zero_le _)).symm

theorem device_overwritten (lost : ¬ st.RootKept) :
    st.device st.mounted.2 0 ≠ rootId st.cmdline := by
  simp only [Startup.RootKept, not_forall] at lost
  obtain ⟨root, given, lost⟩ := lost
  obtain ⟨harmful, calls⟩ := not_or.mp lost
  have id : rootId st.cmdline = root := by
    rw [Option.mem_def] at given
    simp [rootId, given]
  cases count : st.mounted.2 with
  | zero =>
    -- without a call the run would be the one with an id that stays
    have run := mountScanned_same st.device _ _ st.scan st.later st.mount [] (-1) 0
      fun n _ upto => by
        obtain rfl : n = 0 := Nat.le_zero.mp (count ▸ upto)
        exact device_sameAt_start
    have none_there : st.mounted.2 = st.mountCalls := congrArg Prod.snd run
    exact absurd (none_there.symm.trans count) calls
  | succ n =>
    rw [id]
    exact device_lost given harmful n

/-! ### The target -/

theorem bootLoop_index (bootIndex index : Int) (from_here : index ≤ bootIndex)
    (targets : List KlTarget) :
    bootLoop bootIndex none index targets = targets[(bootIndex - index).toNat]? := by
  induction targets generalizing index with
  | nil => rfl
  | cons target rest ih =>
    unfold bootLoop
    by_cases here : index = bootIndex
    · rw [if_pos (.inl here), here, Int.sub_self]
      rfl
    -- the position from the next target on
    · have step : (bootIndex - index).toNat = (bootIndex - (index + 1)).toNat + 1 := by omega
      rw [if_neg (by simp [here]), ih (index + 1) (by omega), step, List.getElem?_cons_succ]

theorem bootLoop_title (title : Str) (index : Int) (nonneg : 0 ≤ index) (targets : List KlTarget) :
    bootLoop (-1) (some title) index targets =
      targets.find? fun target => target.title.str = title := by
  induction targets generalizing index with
  | nil => rfl
  | cons target rest ih =>
    unfold bootLoop
    -- no position is -1
    have apart : index ≠ -1 := by omega
    rw [ih (index + 1) (by omega), List.find?_cons]
    by_cases same : target.title.str = title <;> simp [apart, same, klStreq_iff]

theorem requestBoot_index {index : Str}
    (given : optionValue st.cmdline (bytes "boot_index") = some index) (s : DebugState) :
    requestBoot st s = (requestedTitle st.cmdline, requested st.cmdline st.targets) := by
  obtain ⟨found, holds⟩ := getCmdline_some given s
  unfold requestBoot requestedTitle requested
  generalize getCmdline st.cmdline (bytes "boot_index") s = fetched at found holds
  obtain ⟨boot, after⟩ := fetched
  obtain rfl : boot = true := found
  have string := holds.strFrom_drop (Nat.zero_le _)
  rw [List.drop_zero] at string
  simp only [given, string]
  split_ifs with nonneg
  · rw [bootLoop_index _ 0 nonneg, Int.sub_zero]
  · rfl

theorem requestBoot_none (index : optionValue st.cmdline (bytes "boot_index") = none)
    (title : optionValue st.cmdline (bytes "boot_target") = none) (s : DebugState) :
    requestBoot st s = (requestedTitle st.cmdline, requested st.cmdline st.targets) := by
  simp [requestBoot, requestedTitle, requested, getCmdline_none index, getCmdline_none title, index, title]

/-- The title the loop compares, and the target it finds. -/
theorem requestBoot_title {title : Str}
    (index : optionValue st.cmdline (bytes "boot_index") = none)
    (given : optionValue st.cmdline (bytes "boot_target") = some title) {s : DebugState}
    (tracks : s.Tracks st.cmdline st.opens) :
    ∃ bootArg, requestBoot st s =
        (some bootArg, st.targets.find? fun target => target.title.str = bootArg) ∧
      (Harmless st.cmdline st.opens s.calls title → bootArg = title) ∧
      (¬ Harmless st.cmdline st.opens s.calls title → bootArg ≠ title) := by
  obtain ⟨found, holds⟩ := getCmdline_some given s
  obtain ⟨-, calls⟩ := getCmdline_frame st.cmdline (bytes "boot_target") s
  have after := getCmdline_tracks (bytes "boot_target") tracks
  simp only [requestBoot, getCmdline_none index]
  generalize getCmdline st.cmdline (bytes "boot_target") s = fetched at found holds calls after
  obtain ⟨boot, s'⟩ := fetched
  obtain rfl : boot = true := found
  refine ⟨_, Prod.ext rfl (bootLoop_title _ 0 (Int.le_refl 0) _), fun harmless => ?_, fun harmful => ?_⟩
  · rw [← calls] at harmless
    exact (debug_harmless after harmless holds).strFrom_drop (Nat.zero_le _)
  · obtain ⟨named, closed⟩ := not_or.mp harmful
    push Not at named
    obtain ⟨tty, option, other⟩ := named
    rw [← calls] at closed
    have overwritten := (iterate_debug_overwrites after closed option 0).strFrom_drop (Nat.zero_le _)
    rw [Function.iterate_one, List.drop_zero] at overwritten
    rwa [overwritten]

theorem ready_tracks : st.ready.Tracks st.cmdline st.opens :=
  iterate_debug_tracks (getCmdline_tracks _ (iterate_debug_tracks rooted_tracks _)) _

theorem ready_calls (st : Startup) : st.ready.calls = st.early + st.mounted.2 + st.between := by
  rw [Startup.ready, iterate_debug_calls, (getCmdline_frame _ _ _).2, iterate_debug_calls,
    rooted_calls]

/-- The title and the target are those asked for if and only if the title is kept. -/
theorem requestBoot_kept (kept : st.RootKept) :
    ((requestBoot st st.ready).2 = requested st.cmdline st.targets ∧
      (st.targets ≠ [] → (requestBoot st st.ready).1 = requestedTitle st.cmdline)) ↔ st.TitleKept := by
  have calls := ready_calls st
  rw [(mounted_kept kept).2.1] at calls
  unfold Startup.TitleKept
  cases index : optionValue st.cmdline (bytes "boot_index") with
  | some i => simp [requestBoot_index index, requestedTitle, index]
  | none =>
    cases title : optionValue st.cmdline (bytes "boot_target") with
    | none => simp [requestBoot_none index title, requestedTitle, index, title]
    | some t =>
      obtain ⟨bootArg, request, harmless, harmful⟩ := requestBoot_title index title ready_tracks
      have asked : requestedTitle st.cmdline = some t := by simp [requestedTitle, index, title]
      have target : requested st.cmdline st.targets =
          st.targets.find? fun target => target.title.str = t := by simp [requested, index, title]
      -- the message with the title is the only call between the option and the loop
      rw [calls] at harmless harmful
      simp only [request, asked, target, Option.mem_def, Option.some.injEq, forall_eq']
      constructor
      · rintro ⟨-, same⟩
        by_cases none_there : st.targets = []
        · exact .inr none_there
        · exact .inl (by_contra fun bad => harmful bad (same none_there))
      · rintro (good | none_there)
        · rw [harmless good]
          exact ⟨rfl, fun _ => rfl⟩
        · simp [none_there]

end

/-- A disk that is found and mounted matches the id as it is written. -/
def Startup.Refound (st : Startup) : Prop :=
  ∀ disk ∈ seekDisk st.scan.os (st.later.map Scan.os) (rootId st.cmdline) (-1),
    (∀ errno ∈ st.mount (devPath disk.name.str) (mountPoint disk.name.str) disk.fstype.str,
      errno = EBUSY) → compareDiskId disk (rootId st.cmdline) = true

theorem mountById_crash_iff (st : Startup) :
    (mountById st.scan.os (st.later.map Scan.os) st.mount [] (rootId st.cmdline) (-1)).1 ≠ .crash ↔
      st.Refound := by
  unfold Startup.Refound
  cases sought : seekDisk st.scan.os (st.later.map Scan.os) (rootId st.cmdline) (-1) with
  | none => simp [mountById, sought]
  | some disk =>
    -- nothing is mounted yet, so that the disk is new
    rw [mountById_found _ _ _ [] _ _ disk (by simp) sought]
    simp only [List.not_mem_nil, false_and, exists_false, if_false, Option.mem_def,
      Option.some.injEq, forall_eq']
    cases st.mount (devPath disk.name.str) (mountPoint disk.name.str) disk.fstype.str with
    | none => simp
    | some errno => by_cases busy : errno = EBUSY <;> simp [busy]

/-- The selections survive if and only if `mount_by_id` finds its disk again, and the
disk id and the title are kept. -/
theorem selections_survive_iff (st : Startup) :
    SelectionsSurvive st ↔ st.Refound ∧ st.RootKept ∧ st.TitleKept := by
  rw [← mountById_crash_iff]
  unfold SelectionsSurvive
  rw [main_eq]
  constructor
  · rintro ⟨selected, run, disk, root, -, booted, title⟩
    split_ifs at run with crashed
    cases run
    -- the root that was set shows whether the id was kept
    have kept : st.RootKept := by_contra fun lost => device_overwritten lost root
    refine ⟨?_, kept, (requestBoot_kept kept).mp ⟨booted, title⟩⟩
    rwa [← disk]
  · rintro ⟨settled, kept, title⟩
    obtain ⟨disk, -, root⟩ := mounted_kept kept
    rw [← disk] at settled
    rw [if_neg settled]
    obtain ⟨booted, compared⟩ := (requestBoot_kept kept).mpr title
    exact ⟨_, rfl, disk, root, rfl, booted, compared⟩

/-- A system without disks, on which the terminal that is asked for has the name of
the first target and cannot be opened. -/
def deafStartup : Startup where
  cmdline := bytes "boot_target=b debug_tty=a\n"
  opens := fun _ _ => false
  early := 1
  scan := ⟨0, ⟨some [], fun _ => false, fun _ _ => none, fun _ => []⟩, false⟩
  later := []
  mount := fun _ _ _ => none
  between := 0
  targets := [{ initTarget with title := strlcpy (bytes "a") },
    { initTarget with title := strlcpy (bytes "b") }]

/-- The second target is asked for, and the first is booted. -/
theorem title_overwritten : ¬ SelectionsSurvive deafStartup := by
  have first : (main deafStartup).map Selected.booted =
      some (some { initTarget with title := strlcpy (bytes "a") }) := by
    decide +kernel
  have second : requested deafStartup.cmdline deafStartup.targets =
      some { initTarget with title := strlcpy (bytes "b") } := by
    decide +kernel
  rintro ⟨selected, run, -, -, -, booted, -⟩
  rw [run, Option.map_some, booted, second] at first
  exact absurd first (by decide)

end KexecLoader
