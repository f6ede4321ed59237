import KexecLoader.GrubLoad
import KexecLoader.VfsContainment

/-!
# The device in the brackets of a path

`get_diskid` copies what stands between the brackets; `vfs_translate_path` copies 32
bytes and looks for the bracket there. A device of 32 bytes or more has no terminator
in the buffer, and only one of the two knows the prefix `nojail,`.
-/
namespace KexecLoader

/-- The path of a directory, or one that leads down from it. -/
def Beneath (dir real : Str) : Prop := ∃ names, dotdot ∉ names ∧ real = dir ++ render names

namespace Beneath

variable {dir real : Str}

theorem refl (dir : Str) : Beneath dir dir := ⟨[], List.not_mem_nil, (List.append_nil dir).symm⟩

theorem trans {deeper : Str} (first : Beneath dir real) (second : Beneath real deeper) : Beneath dir deeper := by
  obtain ⟨names, no_up, rfl⟩ := first
  obtain ⟨more, no_up', rfl⟩ := second
  refine ⟨names ++ more, fun up => (List.mem_append.mp up).elim no_up no_up', ?_⟩
  rw [render_append, List.append_assoc]

theorem name {name : Str} (not_up : name ≠ dotdot) : Beneath dir (dir ++ slash :: name) :=
  ⟨[name], fun up => not_up (List.mem_singleton.mp up).symm, by rw [render_singleton]⟩

theorem remaining (dir path : Str) : Beneath dir (dir ++ render (remaining path)) :=
  ⟨_, fun up => (PathStack.mem_resolve dotdot up).2 rfl, rfl⟩

end Beneath

/-- `(device)rest`. -/
structure BracketPath where
  device : Str
  rest : Str
  nonempty : device ≠ []
  no_close : 41 ∉ device
  no_nul : 0 ∉ device

def BracketPath.path (b : BracketPath) : Str := 40 :: (b.device ++ 41 :: b.rest)

/-- The path leads to its device and to the rest of it there, inside the buffer, and
the disk `grub_load` mounts for it is the one it reads. -/
structure DeviceWhole (b : BracketPath) : Prop where
  taken : ∀ vfs stack, splitDevice vfs stack b.path = .ok (some b.device, b.rest)
  inside : ∀ stack, (bracketDevice stack b.path).length < 32
  same : getDiskid [] b.path = deviceName b.device
  reads : ∀ host vfs s disk after st, deviceName b.device ≠ bytes "rootfs" →
    deviceName b.device ≠ bytes "debug" →
    mountById host.os host.later host.mount vfs.mounts (getDiskid [] b.path) (-1) = (.ok disk, after) →
    grubLoad host vfs s b.path = some st → ∀ real ∈ st.opened, Beneath (mountPoint disk.name.str) real

theorem getDiskid_bracket (b : BracketPath) (root : Str) : getDiskid root b.path = b.device := by
  have pass : ∀ c ∈ b.device, c ∉ [41] := by
    intro c member close
    exact b.no_close (List.mem_singleton.mp close ▸ member)
  exact take_strcspn_stop pass (by simp)

theorem strchr_bracket (b : BracketPath) : strchr b.path 41 = some (41 :: b.rest) := by
  have pass : ∀ c ∈ 40 :: b.device, decide (c ≠ 41) = true := by
    intro c member
    rcases List.mem_cons.mp member with rfl | inside
    · rfl
    · simpa using fun close : c = 41 => b.no_close (close ▸ inside)
  have dropped := dropWhile_append_stop (t := 41 :: b.rest) pass (by simp)
  rw [List.cons_append] at dropped
  simp only [strchr, BracketPath.path, dropped]

/-- The scan of the buffer stops at the bracket, or behind the buffer. -/
theorem bracketDevice_cases (b : BracketPath) (stack : Str) :
    b.device.length < 32 ∧ bracketDevice stack b.path = b.device ∨
      32 ≤ b.device.length ∧ 32 ≤ (bracketDevice stack b.path).length := by
  have pass : ∀ c ∈ b.device, decide (c ≠ 41 ∧ c ≠ 0) = true := by
    intro c member
    have close : c ≠ 41 := fun same => b.no_close (same ▸ member)
    have nul : c ≠ 0 := fun same => b.no_nul (same ▸ member)
    simp [close, nul]
  by_cases short : b.device.length < 32
  · left
    obtain ⟨room, size⟩ : ∃ room, 32 - b.device.length = room + 1 := ⟨31 - b.device.length, by omega⟩
    refine ⟨short, ?_⟩
    have front : (b.device ++ 41 :: b.rest).take 32 = b.device ++ 41 :: b.rest.take room := by
      rw [List.take_append, List.take_of_length_le (by omega), size, List.take_succ_cons]
    simp only [bracketDevice, BracketPath.path, List.drop_one, List.tail_cons]
    rw [front, List.append_assoc, List.append_assoc]
    exact takeWhile_append_stop pass (by simp)
  · right
    refine ⟨by omega, ?_⟩
    have front : (b.device ++ 41 :: b.rest).take 32 = b.device.take 32 :=
      List.take_append_of_le_length (by omega)
    simp only [bracketDevice, BracketPath.path, List.drop_one, List.tail_cons]
    rw [front, List.append_assoc,
      List.takeWhile_append_of_pos fun c member => pass c (List.mem_of_mem_take member),
      List.length_append, List.length_take]
    omega

theorem splitDevice_bracket (b : BracketPath) (short : b.device.length < 32) (vfs : Vfs) (stack : Str) :
    splitDevice vfs stack b.path = .ok (some b.device, b.rest) := by
  rcases bracketDevice_cases b stack with ⟨-, whole⟩ | ⟨long, -⟩
  · have found := strchr_bracket b
    simp only [BracketPath.path] at found whole ⊢
    simp only [splitDevice, found, whole, List.drop_one, List.tail_cons]
  · omega

theorem deviceName_plain {device : Str} (plain : ¬ nojail <+: device) : deviceName device = device :=
  if_neg fun jailed => plain ((klStrneq_iff device nojail).mp jailed)

theorem seekMounted_find (id : Str) (mounts : List KlDisk) : seekMounted id mounts =
    match mounts.find? fun disk => compareDiskId disk id with
    | some disk => .ok disk
    | none => .crash := by
  induction mounts with
  | nil => rfl
  | cons disk rest ih =>
    by_cases same : compareDiskId disk id = true
    · simp only [seekMounted, same, if_true, List.find?_cons_of_pos]
    · rw [seekMounted, if_neg same, ih, List.find?_cons_of_neg (by simpa using same)]

/-- A disk that `mount_by_id` returns is the one it finds from then on. -/
theorem mountById_finds {os : DiskOs} {later : List DiskOs} {mount : MountCall} {mounts after : List KlDisk}
    {id : Str} {timeout : Int} {disk : KlDisk}
    (mounted : mountById os later mount mounts id timeout = (.ok disk, after)) :
    (after.find? fun disk => compareDiskId disk id) = some disk := by
  unfold mountById at mounted
  cases entry : mounts.find? (fun disk => compareDiskId disk id) with
  | some found =>
    simp only [entry, Prod.mk.injEq, Outcome.ok.injEq] at mounted
    rw [← mounted.2, entry, mounted.1]
  | none =>
    cases found : seekDisk os later id timeout with
    | none => simp [entry, found] at mounted
    | some new =>
      cases call : mountDisk mount mounts new with
      | mk result list =>
        cases result with
        | fail errno => simp [entry, found, call] at mounted
        | crash => simp [entry, found, call] at mounted
        | ok _ =>
          simp only [entry, found, call, Prod.mk.injEq] at mounted
          obtain ⟨sought, rfl⟩ := mounted
          rw [seekMounted_find] at sought
          cases last : list.find? (fun disk => compareDiskId disk id) with
          | none => simp [last] at sought
          | some found =>
            simp only [last, Outcome.ok.injEq] at sought
            rw [sought]

/-! ### The files of a GRUB directory -/

/-- The device is a disk that is mounted, and both functions take it whole. -/
structure OnDisk (b : BracketPath) (vfs : Vfs) (disk : KlDisk) : Prop where
  short : b.device.length < 32
  plain : ¬ nojail <+: b.device
  not_rootfs : b.device ≠ bytes "rootfs"
  not_debug : b.device ≠ bytes "debug"
  mounted : (vfs.mounts.find? fun disk => compareDiskId disk b.device) = some disk

theorem OnDisk.translate {b : BracketPath} {vfs : Vfs} {disk : KlDisk} (on : OnDisk b vfs disk) (os : DiskOs)
    (mount : MountCall) (stack : Str) :
    ∃ real, vfsTranslatePath os mount vfs stack b.path = (.ok real, vfs) ∧
      Beneath (mountPoint disk.name.str) real.str := by
  have chosen := splitDevice_bracket b on.short vfs stack
  have name := deviceName_plain on.plain
  have no_debug : klStreq b.device (bytes "debug") = false := (klStreq_eq_false _ _).mpr on.not_debug
  have no_rootfs : klStreq b.device (bytes "rootfs") = false := (klStreq_eq_false _ _).mpr on.not_rootfs
  obtain ⟨c, more, device⟩ := List.exists_cons_of_ne_nil b.nonempty
  have root : diskRoot os mount vfs.mounts b.device = (.ok (mountPoint disk.name.str), vfs.mounts) := by
    simp only [diskRoot, no_rootfs, mountById, on.mounted, Bool.false_eq_true, if_false]
  obtain ⟨real, built, -, str, -⟩ := buildPath_spec (mountPoint disk.name.str) (jailFor vfs b.device) b.rest
  refine ⟨real, ?_, by rw [str]; exact (Beneath.remaining _ _).trans (Beneath.remaining _ _)⟩
  rw [device] at chosen name no_debug root built
  simp only [vfsTranslatePath, chosen, name, no_debug, root, built, Bool.false_eq_true, if_false]

/-- A file in the directory has the same device. -/
theorem OnDisk.file {b : BracketPath} {vfs : Vfs} {disk : KlDisk} (on : OnDisk b vfs disk) (name : Str) :
    ∃ file : BracketPath, file.path = grubFile b.path name ∧ OnDisk file vfs disk := by
  have short := on.short
  obtain ⟨room, size⟩ : ∃ room, 1023 = b.device.length + 2 + room := ⟨1021 - b.device.length, by omega⟩
  refine ⟨{ b with rest := (b.rest ++ bytes "/" ++ name).take room },
    ?_, on.short, on.plain, on.not_rootfs, on.not_debug, on.mounted⟩
  have whole : b.path ++ bytes "/" ++ name = (40 :: b.device ++ [41]) ++ (b.rest ++ bytes "/" ++ name) := by
    simp [BracketPath.path]
  have front : (40 :: b.device ++ [41]).length = b.device.length + 2 := by simp
  rw [grubFile, size, whole, ← front, List.take_length_add_append]
  simp [BracketPath.path]

/-- Of the files opened so far. -/
structure GrubFiles.On (st : GrubFiles) (vfs : Vfs) (disk : KlDisk) : Prop where
  vfs : st.vfs = vfs
  opened : ∀ real ∈ st.opened, Beneath (mountPoint disk.name.str) real

section
variable {b : BracketPath} {vfs : Vfs} {disk : KlDisk} {st : GrubFiles}

theorem grubTranslate_on (on : OnDisk b vfs disk) (host : GrubHost) (here : st.On vfs disk) (name : Str) :
    ∃ real after, grubTranslate host st (grubFile b.path name) = some (.ok real, after) ∧
      Beneath (mountPoint disk.name.str) real ∧ after.On vfs disk := by
  obtain ⟨file, path, there⟩ := on.file name
  obtain ⟨real, run, below⟩ :=
    there.translate (host.access st.translations).1 (host.access st.translations).2 host.stack
  refine ⟨real.str, { st with vfs := vfs, translations := st.translations + 1 }, ?_, below, rfl, here.opened⟩
  simp only [grubTranslate, ← path, here.vfs, run]

theorem grubLoadFile_on (on : OnDisk b vfs disk) (host : GrubHost) (here : st.On vfs disk) (name : Str)
    (load : Settings → Except Str Str → Settings) :
    ∃ loaded after, grubLoadFile host st (grubFile b.path name) load = some (loaded, after) ∧
      after.On vfs disk := by
  obtain ⟨real, found, exists_run, -, on_found⟩ := grubTranslate_on on host here name
  by_cases there : host.present real = true
  · obtain ⟨path, opened, open_run, below, on_opened⟩ := grubTranslate_on on host on_found name
    refine ⟨true, { opened with
      settings := load opened.settings (host.file path), opened := opened.opened ++ [path] },
      ?_, on_opened.vfs, fun file member => ?_⟩
    · simp [grubLoadFile, vfsExists, grubOpen, exists_run, there, open_run]
    · rcases List.mem_append.mp member with old | new
      · exact on_opened.opened file old
      · rwa [List.mem_singleton.mp new]
  · exact ⟨false, found, by simp [grubLoadFile, vfsExists, exists_run, there], on_found⟩

end

theorem grubLoad_on {b : BracketPath} {vfs : Vfs} {disk : KlDisk} {after : List KlDisk} (host : GrubHost)
    (s : Settings)
    (mounted : mountById host.os host.later host.mount vfs.mounts (getDiskid [] b.path) (-1) =
      (.ok disk, after))
    (on : OnDisk b { vfs with mounts := after } disk) :
    ∃ st, grubLoad host vfs s b.path = some st ∧ st.On { vfs with mounts := after } disk := by
  have start : GrubFiles.On ⟨{ vfs with mounts := after }, s, 0, []⟩ { vfs with mounts := after } disk :=
    ⟨rfl, fun real member => absurd member List.not_mem_nil⟩
  obtain ⟨mapped, first, map_run, on_first⟩ := grubLoadFile_on on host start (bytes "device.map") loadDevmap
  obtain ⟨has_cfg, second, cfg_run, on_second⟩ :=
    grubLoadFile_on on host on_first (bytes "grub.cfg") loadGrub2Cfg
  obtain ⟨has_menu, third, menu_run, on_third⟩ :=
    grubLoadFile_on on host on_second (bytes "menu.lst") (loadMenu host.tskip)
  simp only [grubLoad, mounted, map_run, cfg_run, menu_run, Option.bind_eq_bind, Option.bind_some]
  cases has_cfg with
  | true => exact ⟨second, rfl, on_second⟩
  | false =>
    cases has_menu with
    | true => exact ⟨third, rfl, on_third⟩
    | false => exact ⟨_, rfl, on_third.vfs, on_third.opened⟩

/-- The device is taken whole exactly when the buffer has room for it and its end,
and it does not ask for the jail to be left. -/
theorem deviceWhole_iff (b : BracketPath) :
    DeviceWhole b ↔ b.device.length < 32 ∧ ¬ nojail <+: b.device := by
  constructor
  · intro whole
    constructor
    · rcases bracketDevice_cases b [] with ⟨short, -⟩ | ⟨-, beyond⟩
      · exact short
      · have inside := whole.inside []
        omega
    · rintro ⟨more, prefixed⟩
      -- `get_diskid` leaves the prefix
      have same := whole.same
      have jailed : klStrneq b.device nojail 7 = true := (klStrneq_iff b.device nojail).mpr ⟨more, prefixed⟩
      rw [getDiskid_bracket, deviceName, if_pos jailed, ← prefixed] at same
      have lengths := congrArg List.length same
      simp only [List.length_append, List.length_drop, nojail] at lengths
      have seven : (bytes "nojail,").length = 7 := rfl
      omega
  · rintro ⟨short, plain⟩
    have name := deviceName_plain plain
    refine ⟨splitDevice_bracket b short, fun stack => ?_, by rw [getDiskid_bracket, name], ?_⟩
    · rcases bracketDevice_cases b stack with ⟨-, whole⟩ | ⟨long, -⟩
      · rwa [whole]
      · omega
    · intro host vfs s disk after st not_rootfs not_debug mounted loaded
      rw [name] at not_rootfs not_debug
      have found := mountById_finds mounted
      rw [getDiskid_bracket] at found
      obtain ⟨final, run, on⟩ := grubLoad_on host s mounted ⟨short, plain, not_rootfs, not_debug, found⟩
      obtain rfl : final = st := Option.some.inj (run.symm.trans loaded)
      exact on.opened

/-- A file system UUID does not fit. -/
theorem uuid_not_whole :
    let b : BracketPath := ⟨bytes "UUID=75ac0d6c-5dc0-402f-9f0f-9ab313816439", bytes "/boot/initrd.img-2.6.21",
      by decide, by decide, by decide⟩
    ¬ DeviceWhole b ∧ splitDevice ⟨none, none, []⟩ [0] b.path =
      .ok (some (bytes "UUID=75ac0d6c-5dc0-402f-9f0f-9ab"), bytes "/boot/initrd.img-2.6.21") := by
  refine ⟨fun whole => ?_, by decide⟩
  have inside := whole.inside [0]
  revert inside
  decide

end KexecLoader
