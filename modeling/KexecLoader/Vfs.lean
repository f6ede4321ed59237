import KexecLoader.Library.PathStack
import KexecLoader.Library.PathText
import KexecLoader.Disk

/-!
# Path translation

`(device)/path` is translated to a real path under the directory where the
device is mounted. The path is built in a heap buffer whose size is computed
beforehand, so the buffer keeps a ghost record of every string it has held.
-/
namespace KexecLoader

/-- A string in a heap block of `size` bytes. -/
structure HeapStr where
  size : Nat
  str : Str
  /-- Every string the block has held, newest first. -/
  seen : List Str
deriving DecidableEq

/-- `strcpy` into a block of `size` bytes. -/
def HeapStr.create (size : Nat) (s : Str) : HeapStr := ⟨size, s, [s]⟩

def HeapStr.write (b : HeapStr) (s : Str) : HeapStr := ⟨b.size, s, s :: b.seen⟩

def HeapStr.strcat (b : HeapStr) (s : Str) : HeapStr := b.write (b.str ++ s)

@[simp] theorem HeapStr.strcat_str (b : HeapStr) (s : Str) : (b.strcat s).str = b.str ++ s := rfl

@[simp] theorem HeapStr.strcat_size (b : HeapStr) (s : Str) : (b.strcat s).size = b.size := rfl

@[simp] theorem HeapStr.strcat_seen (b : HeapStr) (s : Str) :
    (b.strcat s).seen = (b.str ++ s) :: b.seen := rfl

@[simp] theorem HeapStr.write_str (b : HeapStr) (s : Str) : (b.write s).str = s := rfl

@[simp] theorem HeapStr.write_size (b : HeapStr) (s : Str) : (b.write s).size = b.size := rfl

@[simp] theorem HeapStr.write_seen (b : HeapStr) (s : Str) : (b.write s).seen = s :: b.seen := rfl

/-- The loop of `append_path` with at most `fuel` rounds; none when the byte
`strrchr` should return is not there. -/
def appendPathLoop : Nat → HeapStr → Nat → Str → Option HeapStr
  | 0, path, _, _ => some path
  | fuel + 1, path, pathNodes, pathIn =>
    if pathIn = [] then some path
    else
      let len := strcspn pathIn [slash]
      let node := pathIn.take len
      let rest := pathIn.drop len
      let rest := rest.drop (strspn rest [slash])
      if len = 0 then appendPathLoop fuel path pathNodes rest
      else if !klStreq node dotdot then
        appendPathLoop fuel ((path.strcat [slash]).strcat node) (pathNodes + 1) rest
      -- `..` takes back a component of this call, and is dropped when there is none
      else if pathNodes ≠ 0 then
        match strrchr path.str slash with
        | none => none
        | some i => appendPathLoop fuel (path.write (path.str.take i)) (pathNodes - 1) rest
      else appendPathLoop fuel path pathNodes rest

/-- Every round takes at least one byte of `path_in`. -/
def appendPath (path : HeapStr) (pathIn : Str) : Option HeapStr :=
  appendPathLoop pathIn.length path 0 pathIn

/-- The static variables of vfs.c, and the mounts of disk.c. -/
structure Vfs where
  root : Option Str
  jail : Option Str
  mounts : List KlDisk

def vfsSetRoot (vfs : Vfs) (root : Option Str) : Vfs := { vfs with root := root }

def vfsSetJail (vfs : Vfs) (jail : Option Str) : Vfs := { vfs with jail := jail }

/-- The directory of a device, which is mounted first when it has to be. -/
def diskRoot (os : DiskOs) (mount : MountCall) (mounts : List KlDisk) (name : Str) :
    Outcome Str × List KlDisk :=
  if klStreq name (bytes "rootfs") then (.ok (bytes "/"), mounts)
  else
    match mountById os [] mount mounts name 0 with
    | (.ok disk, mounts) => (.ok (mountPoint disk.name.str), mounts)
    | (.fail errno, mounts) => (.fail errno, mounts)
    | (.crash, mounts) => (.crash, mounts)

/-- The device between the brackets, read from the 32 bytes of `disk_buf` after
`strncpy`; a longer name is not terminated there, and the scan goes on into the
bytes of `stack` that follow the array. -/
def bracketDevice (stack pathIn : Str) : Str :=
  let src := pathIn.drop 1
  (src.take 32 ++ List.replicate (32 - src.length) 0 ++ stack).takeWhile
    fun c => c ≠ 41 ∧ c ≠ 0

/-- The device and the path `vfs_translate_path` goes on with. -/
def splitDevice (vfs : Vfs) (stack pathIn : Str) : Outcome (Option Str × Str) :=
  match pathIn with
  | 40 :: _ =>
    match strchr pathIn 41 with
    | none => .fail EINFILE
    | some rest => .ok (some (bracketDevice stack pathIn), rest.drop 1)
  | _ => .ok (vfs.root, pathIn)

def nojail : Str := bytes "nojail,"

/-- The device less a leading `nojail,`. -/
def deviceName (device : Str) : Str := if klStrneq device nojail 7 then device.drop 7 else device

/-- The part of the jail in force, `jail_len` bytes of it: all or nothing. -/
def jailFor (vfs : Vfs) (device : Str) : Str :=
  if klStrneq device nojail 7 then [] else vfs.jail.getD []

/-- The path in its final buffer: the root directory, then what is left of the
jail, then what is left of the path. -/
def buildPath (diskR jail pathIn : Str) : Option HeapStr :=
  let path := HeapStr.create (diskR.length + pathIn.length + jail.length + 3) diskR
  match if jail.length ≠ 0 then appendPath path jail else some path with
  | none => none
  | some path => appendPath path pathIn

def vfsTranslatePath (os : DiskOs) (mount : MountCall) (vfs : Vfs) (stack pathIn : Str) :
    Outcome HeapStr × Vfs :=
  match splitDevice vfs stack pathIn with
  | .fail errno => (.fail errno, vfs)
  | .crash => (.crash, vfs)
  | .ok (none, _) => (.fail ENDISK, vfs)
  | .ok (some [], _) => (.fail ENDISK, vfs)
  | .ok (some device, pathIn) =>
    if klStreq (deviceName device) (bytes "debug") then
      (.ok (HeapStr.create (pathIn.length + 1) pathIn), vfs)
    else
      match diskRoot os mount vfs.mounts (deviceName device) with
      | (.fail errno, mounts) => (.fail errno, { vfs with mounts := mounts })
      | (.crash, mounts) => (.crash, { vfs with mounts := mounts })
      | (.ok diskR, mounts) =>
        match buildPath diskR (jailFor vfs device) pathIn with
        | none => (.crash, { vfs with mounts := mounts })
        | some path => (.ok path, { vfs with mounts := mounts })

end KexecLoader
