import KexecLoader.Misc
import KexecLoader.Settings

/-!
# Loading kernel modules

`load_kmod` searches two directories, `modprobe_dir` goes through the entries of
one, and `modprobe` loads the dependencies of a module with `load_kmod` before
the module itself. What the kernel and the user get to see is logged, oldest
first. The recursion has no bound in the source, so that it carries fuel here.
-/
namespace KexecLoader

def S_IFREG : Nat := 0x8000

def S_IFLNK : Nat := 0xA000

/-- A mapped module file, and what `elf_getsection` finds of its `.modinfo`: the
bytes from the section to the end of the mapping, and the size of the section. -/
structure Image where
  path : Str
  modinfo : Option (Str × Nat)
deriving DecidableEq

/-- A directory entry with what `vfs_stat` (the mode), `vfs_open` and `mmap` (the
`.modinfo`) make of it, or the text of their error. -/
structure DirEntry where
  dName : Str
  stat : Except Str Nat
  opened : Except Str Unit
  mapped : Except Str (Option (Str × Nat))

/-- What happens in the order it happens. A refusal is the message that names a
module and the dependency it lacks. -/
inductive Event where
  | initModule (name : Str) (image : Image) (args : Str) (errno : Nat)
  | refused (name : Str) (image : Image) (dep : Str)
  | printed (text : Str)
deriving DecidableEq

/-- The text `printD` shows. -/
def Event.text : Event → Option Str
  | .initModule _ _ _ _ => none
  | .refused name _ dep =>
    some (bytes "Module '" ++ name ++ bytes "' not loaded, requires '" ++ dep ++ bytes "'")
  | .printed text => some text

/-- The two directories (their entries, or the text of the error of
`vfs_opendir`), the boot disk, the module options, and the kernel, whose answer
to `init_module` is zero or an error number and may depend on all that happened
before. -/
structure ModuleHost where
  initramfs : Except Str (List DirEntry)
  bootDisk : Bool
  modulesExists : Bool
  disk : Except Str (List DirEntry)
  kmods : List KlModule
  initModule : List Event → Image → Str → Nat
  strerror : Nat → Str

/-- How a call ends: with its result, with `dep` written past its end, or deeper
in the recursion than there is fuel for. -/
inductive Status where
  | done (loaded : Bool)
  | overflow
  | deeper
deriving DecidableEq

/-! ### modprobe -/

/-- The text after the first `depends=` of the section: `left` bytes of it are
still to come. -/
def dependsEntry : Nat → Str → Nat → Option Str
  | 0, _, _ => none
  | fuel + 1, sec, left =>
    if left = 0 then none
    else if klStrneq (cstr sec) (bytes "depends=") 8 then some (cstr (sec.drop 8))
    else
      let size := (cstr sec).length + 1
      dependsEntry fuel (sec.drop size) (left - size)

/-- The names in a comma separated list. -/
def depNames : Nat → Str → List Str
  | 0, _ => []
  | fuel + 1, sec =>
    if sec = [] then []
    else
      let comma := strcspn sec [44]
      sec.take comma :: depNames fuel (sec.drop (comma + 1))

def Image.depends (image : Image) : List Str :=
  match image.modinfo with
  | none => []
  | some (sec, size) =>
    match dependsEntry size sec size with
    | none => []
    | some names => depNames names.length names

def moduleArgs (kmods : List KlModule) (name : Str) : Str :=
  match kmods.find? fun optptr => klStreq name optptr.name.str with
  | some optptr => optptr.args.str
  | none => []

section
variable (host : ModuleHost)

def moderror (err : Nat) : Str :=
  if err = 8 then bytes "Invalid module format"
  else if err = 2 then bytes "Unknown symbol in module"
  else if err = 3 then bytes "Module has wrong symbol version"
  else if err = 22 then bytes "Invalid parameters"
  else host.strerror err

/-- `load_kmod`, as far as the fuel goes. -/
abbrev Load := Str → List Event → Status × List Event

variable (load : Load)

/-- The loop over the dependencies. `strlcpy` is given the length of a name and
not the size of `dep`. -/
def loadDeps (load : Load) (name : Str) (image : Image) : List Str → List Event →
    Status × List Event
  | [], log => (.done true, log)
  | dep :: deps, log =>
    if 256 ≤ dep.length then (.overflow, log)
    else
      match load dep log with
      | (.done true, log) => loadDeps load name image deps log
      | (.done false, log) => (.done false, log ++ [.refused name image dep])
      | stopped => stopped

def modprobe (name : Str) (image : Image) (log : List Event) : Status × List Event :=
  match loadDeps load name image image.depends log with
  | (.done true, log) =>
    let args := moduleArgs host.kmods name
    let errno := host.initModule log image args
    let log := log ++ [.initModule name image args errno]
    -- a module the kernel has already counts as loaded
    if errno = 0 ∨ errno = EEXIST then (.done true, log)
    else
      (.done false, log ++
        [.printed (bytes "Error loading '" ++ name ++ bytes "': " ++ moderror host errno)])
  | stopped => stopped

/-! ### modprobe_dir and load_kmod -/

/-- One round of the loop of `modprobe_dir`. -/
def modprobeEntry (dir : Str) (modname : Option Str) (node : DirEntry) (log : List Event) :
    Status × List Event :=
  let fpath := dir ++ bytes "/" ++ node.dName
  let failed (what reason : Str) : Status × List Event :=
    (.done false, log ++ [.printed (bytes "Failed to " ++ what ++ bytes " " ++ fpath ++
      bytes ": " ++ reason)])
  match node.stat with
  | .error reason => failed (bytes "stat") reason
  | .ok mode =>
    if mode &&& (S_IFREG ||| S_IFLNK) ≠ 0 ∧ klStreqEnd node.dName (bytes ".ko") = true then
      let fname := node.dName.take (node.dName.length - 3)
      -- another module than the one asked for
      if modname.any (fun modname => !klStreq modname fname) then (.done false, log)
      else
        match node.opened, node.mapped with
        | .error reason, _ => failed (bytes "open") reason
        | .ok (), .error reason => failed (bytes "map") reason
        | .ok (), .ok modinfo => modprobe host load fname ⟨fpath, modinfo⟩ log
    else (.done false, log)

def modprobeEntries (dir : Str) (modname : Option Str) : List DirEntry → Bool → List Event →
    Status × List Event
  | [], ret, log => (.done ret, log)
  | node :: nodes, ret, log =>
    match modprobeEntry host load dir modname node log with
    | (.done loaded, log) => modprobeEntries dir modname nodes (ret || loaded) log
    | stopped => stopped

def modprobeDir (dir : Str) (nodes : Except Str (List DirEntry)) (modname : Option Str)
    (log : List Event) : Status × List Event :=
  match nodes with
  | .error reason =>
    (.done false, log ++ [.printed (bytes "Failed to open " ++ dir ++ bytes ": " ++ reason)])
  | .ok nodes => modprobeEntries host load dir modname nodes false log

def initramfsModules : Str := bytes "(nojail,rootfs)/modules/"

def diskModules : Str := bytes "/modules/"

/-- `load_kmod`; without a name it loads every module. -/
def loadKmod : Nat → Option Str → List Event → Status × List Event
  | 0, _, log => (.deeper, log)
  | fuel + 1, module, log =>
    let load := fun dep => loadKmod fuel (some dep)
    match modprobeDir host load initramfsModules host.initramfs module log with
    -- also without a name, so that one module loaded ends the search for the others
    | (.done true, log) => (.done true, log)
    | (.done false, log) =>
      if host.bootDisk && host.modulesExists then
        modprobeDir host load diskModules host.disk module log
      else (.done false, log)
    | stopped => stopped

end

end KexecLoader
