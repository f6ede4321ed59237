import KexecLoader.Vfs
import KexecLoader.Grub
import KexecLoader.GrubCfg
import KexecLoader.MenuLst

/-!
# Loading the files of a GRUB directory

Every access of a file translates its path once more. The state keeps the real paths
of the files that were opened.
-/
namespace KexecLoader

def klStrerror (strerror : Nat → Str) (errnum : Nat) : Str :=
  if errnum = EINFILE then bytes "Invalid filename"
  else if errnum = EBADFS then bytes "Unknown filesystem format"
  else if errnum = ENDISK then bytes "No disk specified"
  else strerror errnum

/-- What the system answers while `grub_load` runs. -/
structure GrubHost where
  os : DiskOs
  /-- The seconds `grub_load` waits for its disk. -/
  later : List DiskOs
  mount : MountCall
  /-- At the n-th translation of a path. -/
  access : Nat → DiskOs × MountCall
  /-- `access(path, F_OK)` finds the real path. -/
  present : Str → Bool
  /-- `fopen` of a real path. -/
  file : Str → Except Str Str
  strerror : Nat → Str
  /-- What lies behind `disk_buf`. -/
  stack : Str
  /-- `tskip` of `load_menu` before it is set. -/
  tskip : Bool

structure GrubFiles where
  vfs : Vfs
  settings : Settings
  translations : Nat
  opened : List Str

/-- The path of a file in a buffer of 1024 bytes. -/
def grubFile (grubRoot name : Str) : Str := (grubRoot ++ bytes "/" ++ name).take 1023

section
variable (host : GrubHost)

/-- A path is translated; none is a crash. -/
def grubTranslate (st : GrubFiles) (path : Str) : Option (Except Nat Str × GrubFiles) :=
  let (os, mount) := host.access st.translations
  match vfsTranslatePath os mount st.vfs host.stack path with
  | (.ok real, vfs) => some (.ok real.str, { st with vfs := vfs, translations := st.translations + 1 })
  | (.fail errno, vfs) => some (.error errno, { st with vfs := vfs, translations := st.translations + 1 })
  | (.crash, _) => none

def vfsExists (st : GrubFiles) (path : Str) : Option (Bool × GrubFiles) := do
  let (real, st) ← grubTranslate host st path
  match real with
  | .error _ => some (false, st)
  | .ok real => some (host.present real, st)

/-- A loader opens its file and reads it. -/
def grubOpen (st : GrubFiles) (path : Str) (load : Settings → Except Str Str → Settings) :
    Option GrubFiles := do
  let (real, st) ← grubTranslate host st path
  match real with
  | .error errno =>
    some { st with settings := load st.settings (.error (klStrerror host.strerror errno)) }
  | .ok real =>
    some { st with settings := load st.settings (host.file real), opened := st.opened ++ [real] }

/-- A file of the directory is loaded when it is there. -/
def grubLoadFile (st : GrubFiles) (path : Str) (load : Settings → Except Str Str → Settings) :
    Option (Bool × GrubFiles) := do
  let (found, st) ← vfsExists host st path
  if found then
    let st ← grubOpen host st path load
    some (true, st)
  else some (false, st)

def grubLoad (vfs : Vfs) (s : Settings) (grubRoot : Str) : Option GrubFiles :=
  let device := getDiskid [] grubRoot
  match mountById host.os host.later host.mount vfs.mounts device (-1) with
  | (.crash, _) => none
  | (.fail _, mounts) => some ⟨{ vfs with mounts := mounts }, s, 0, []⟩
  | (.ok _, mounts) => do
    let st := ⟨{ vfs with mounts := mounts }, s, 0, []⟩
    let (_, st) ← grubLoadFile host st (grubFile grubRoot (bytes "device.map")) loadDevmap
    let (loaded, st) ← grubLoadFile host st (grubFile grubRoot (bytes "grub.cfg")) loadGrub2Cfg
    if loaded then some st
    else
      let (loaded, st) ← grubLoadFile host st (grubFile grubRoot (bytes "menu.lst")) (loadMenu host.tskip)
      if loaded then some st
      else
        let message := bytes "Neither grub.cfg or menu.lst found in GRUB directory"
        some { st with settings := st.settings.printD message }

end

end KexecLoader
