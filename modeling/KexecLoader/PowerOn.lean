import KexecLoader.DiskBay
import KexecLoader.GrubDetect
import KexecLoader.Startup

/-!
# The program from its start to the menu

`main` mounts the boot disk, reads the configuration file below the jail, loads modules and
the keymap, leaves the jail, loads a GRUB directory and boots the target that the command
line asks for. Then the menu starts. The steps are those of the other modules; here they
are put together.
-/
namespace KexecLoader

/-- What the program meets until the menu starts. -/
structure PowerOn where
  /-- The command line, the tables of disks, and the calls of `debug`. -/
  start : Startup
  /-- `/noboot` is there. -/
  noboot : Bool
  /-- While the boot disk is in use. -/
  conf : GrubHost
  /-- The paths that the modules and the keymap need, one after the other. -/
  touched : List Str
  /-- While the GRUB directory is loaded. -/
  grub : GrubHost
  /-- Each second that a GRUB directory is searched for. -/
  seconds : List GrubHost

/-- The files are read, and a target is asked for or not. -/
structure Ready where
  files : GrubFiles
  booted : Option KlTarget

/-- `boot_index >= 0 || boot_arg`. -/
def asksTarget (cmdline : Str) : Bool :=
  match optionValue cmdline (bytes "boot_index") with
  | some index => 0 ≤ atoi index
  | none => (optionValue cmdline (bytes "boot_target")).isSome

def kexecLoaderConf : Str := bytes "/kexec-loader.conf"

def kxloaderCfg : Str := bytes "/kxloader.cfg"

namespace PowerOn

variable (h : PowerOn)

/-- What comes of the command line, given the targets. With `/noboot` no disk is looked
for, and `boot_disk` stays NULL. -/
def selected (targets : List KlTarget) : Option Selected :=
  let start := { h.start with targets := targets }
  if h.noboot then
    match requestBoot start ((debug start.cmdline start.opens)^[start.early + start.between] initDebug) with
    | (title, booted) => some ⟨.fail 0, [], bytes "rootfs", none, title, booted⟩
  else main start

/-- The configuration file under its first name, or else under its second one. -/
def configure (vfs : Vfs) : Option GrubFiles := do
  let (found, st) ← grubLoadFile h.conf ⟨vfs, initSettings, 0, []⟩ kexecLoaderConf (loadConf kexecLoaderConf)
  let (_, st) ← if found then some (true, st) else grubLoadFile h.conf st kxloaderCfg (loadConf kxloaderCfg)
  h.touched.foldlM (fun st path => (grubTranslate h.conf st path).map Prod.snd) st

def findTargets (st : GrubFiles) : Option GrubFiles :=
  match st.settings.grubPath with
  | some path => grubLoad h.grub st.vfs st.settings path
  | none =>
    if st.settings.grubAutodetect = 2 ∨ st.settings.targets = [] ∧ st.settings.grubAutodetect ≠ 0 then
      grubDetect h.seconds st.vfs st.settings
    else some st

/-- `main` up to the targets that are there and the one asked for; none is a crash. -/
def run : Option Ready := do
  let early ← h.selected []
  let vfs : Vfs := ⟨some early.vfsRoot, early.vfsJail, early.mounts⟩
  let boot_disk := match early.bootDisk with
    | .ok _ => true
    | _ => false
  let st ← if boot_disk || h.noboot then h.configure vfs else some ⟨vfs, initSettings, 0, []⟩
  let st ← h.findTargets { st with vfs := vfsSetJail st.vfs none }
  let late ← h.selected st.settings.targets
  let message := bytes "Requested boot target not found"
  let missing := asksTarget h.start.cmdline && late.booted.isNone
  some ⟨if missing then { st with settings := st.settings.printD message } else st, late.booted⟩

end PowerOn

/-- The target that is asked for is booted before the menu starts. -/
def Ready.session (rows : Nat) (attempt : BootHost) (r : Ready) : Option MenuSession :=
  let (vfs, events) := match r.booted with
    | some target =>
      let done := bootTarget attempt r.files.vfs target
      (done.state.vfs, done.events)
    | none => (r.files.vfs, [])
  (menuInit rows r.files.settings.targets r.files.settings.timeout).map fun menu => ⟨menu, vfs, events⟩

end KexecLoader
