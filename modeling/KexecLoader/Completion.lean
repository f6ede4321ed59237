import KexecLoader.Disk
import KexecLoader.LineEditor

/-!
# Completion in the shell

`ac_search` and what it calls. Every entry of its list comes with the pointer that its
`append` was copied from, so that it can be said where the pointer was.
-/
namespace KexecLoader

def AC_SIZE : Nat := 1024

instance : NeZero AC_SIZE := ⟨by decide⟩

/-- `enum ac_mode`. -/
inductive AcMode where
  | none
  | cmd
  | file
  | dir
  | dev
deriving DecidableEq

/-- `commands`, names and modes. -/
def commandModes : List (Str × AcMode) :=
  [(bytes "root", .dev), (bytes "kernel", .file), (bytes "initrd", .file), (bytes "cmdline", .none),
    (bytes "append", .none), (bytes "boot", .none), (bytes "module", .file), (bytes "reset-vga", .none),
    (bytes "ls", .dir), (bytes "find", .dir), (bytes "cat", .file), (bytes "disks", .none),
    (bytes "exit", .none)]

/-- A pointer into a string, or past its end. -/
structure CharPtr where
  base : Str
  skip : Nat
deriving DecidableEq

/-- The pointer is to a character or to the terminator. -/
def CharPtr.Inside (ptr : CharPtr) : Prop := ptr.skip ≤ ptr.base.length

def CharPtr.str (ptr : CharPtr) : Str := ptr.base.drop ptr.skip

/-- `struct ac_list`. -/
structure AcEntry where
  append : Buf AC_SIZE
  display : Buf AC_SIZE
  source : CharPtr
deriving DecidableEq

/-- The name in a `struct dirent`. -/
structure Dirent where
  name : Buf 256
  no_slash : slash ∉ name.str

/-- The strings in the arrays end at their first NUL. -/
structure KlDisk.NoNul (disk : KlDisk) : Prop where
  name : 0 ∉ disk.name.str
  label : 0 ∉ disk.label.str
  uuid : 0 ∉ disk.uuid.str

/-- What the system answers. -/
structure AcHost where
  /-- `get_disks(NULL)`. -/
  disks : List KlDisk
  no_nul : ∀ disk ∈ disks, disk.NoNul
  /-- What is read from the directory that `vfs_opendir` opens. -/
  opendir : Str → Option (List Dirent)
  /-- `vfs_stat`, and if it is a directory. -/
  stat : Str → Option Bool

/-- `strlcat(field, src, sizeof(field))`. -/
def strlcat {size : Nat} [NeZero size] (dest : Buf size) (src : Str) : Buf size :=
  strlcpy (dest.str ++ src)

/-- `ac_add`; `list_add` puts the entry at the end of the list. -/
def acAdd (a1 : CharPtr) (a2 d1 d2 : Str) : AcEntry :=
  ⟨strlcat (strlcpy a1.str) a2, strlcat (strlcpy d1) d2, a1⟩

/-- `ac_add`, if a test is passed. -/
def acAddIf (test : Bool) (entry : AcEntry) : List AcEntry := if test then [entry] else []

/-- `mode`, `argx` and `len` once they are set. -/
structure AcWord where
  mode : AcMode
  argx : Str
  len : Nat
deriving DecidableEq

/-- The word in front of the cursor. -/
def acWord (argbuf : Str) : AcWord :=
  let argx := argbuf.drop (strspn argbuf [space])
  match strchr argx space with
  | none => ⟨.cmd, argx, argx.length⟩
  | some _ =>
    let (arg0, argx) := nextValue argx
    let len := argx.length
    let mode := commandModes.foldl (fun mode c => if klStreq c.1 arg0 then c.2 else mode) .none
    if klStreq arg0 (bytes "find") then
      let argx := (nextValue argx).2
      ⟨if argx = [] then .none else mode, argx, len⟩
    else ⟨mode, argx, len⟩

def acCommands (argx : Str) (len : Nat) : List AcEntry :=
  commandModes.flatMap fun c =>
    acAddIf (klStrneq c.1 argx len) (acAdd ⟨c.1, len⟩ (bytes " ") c.1 [])

/-- A prefix that stands in front of an id, until it is typed in full. -/
def acMark (mark shown argx : Str) (len : Nat) : List AcEntry :=
  acAddIf (klStrneq argx mark len && len < mark.length) (acAdd ⟨mark, len⟩ [] shown [])

/-- The branch for `ac_dev`; `len` is not below 5 or 6 where that is subtracted. -/
def acDevices (disks : List KlDisk) (argx : Str) (len : Nat) : List AcEntry :=
  acMark (bytes "UUID=") (bytes "UUID=...") argx len ++
  acMark (bytes "LABEL=") (bytes "LABEL=...") argx len ++
  disks.flatMap fun disk =>
    let uuid := disk.uuid.str
    let label := disk.label.str
    let name := disk.name.str
    if klStrneq argx (bytes "UUID=") 5 then
      acAddIf (uuid ≠ [] && klStrnceq uuid (argx.drop 5) (len - 5)) (acAdd ⟨uuid, len - 5⟩ [] uuid [])
    else if klStrneq argx (bytes "LABEL=") 6 then
      acAddIf (label ≠ [] && klStrneq label (argx.drop 6) (len - 6)) (acAdd ⟨label, len - 6⟩ [] label [])
    else acAddIf (klStrneq name argx len) (acAdd ⟨name, len⟩ [] name [])

/-- A field of a disk in brackets, as far as its array holds it. -/
def bracketField {size : Nat} (mark : Str) (field : Buf size) : Str :=
  if field.str = [] then []
  else
    let inserted :=
      (klStrins ⟨field.str ++ List.replicate (size - field.str.length) 0, []⟩ mark 0 size).strFrom 0
    (inserted ++ bytes ")").take (size - 1)

/-- The devices in the branch for `ac_file` and `ac_dir`. -/
def acBrackets (disks : List KlDisk) (argx : Str) (len : Nat) : List AcEntry :=
  acMark (bytes "(UUID=") (bytes "(UUID=...)") argx len ++
  acMark (bytes "(LABEL=") (bytes "(LABEL=...)") argx len ++
  disks.flatMap fun disk =>
    let uuid := bracketField (bytes "(UUID=") disk.uuid
    let label := bracketField (bytes "(LABEL=") disk.label
    let name := bracketField (bytes "(") disk.name
    acAddIf (uuid ≠ [] && klStrneq argx (bytes "(UUID=") 6 && klStrnceq uuid argx len)
      (acAdd ⟨uuid, len⟩ [] uuid []) ++
    acAddIf (label ≠ [] && klStrneq argx (bytes "(LABEL=") 7 && klStrneq label argx len)
      (acAdd ⟨label, len⟩ [] label []) ++
    acAddIf (klStrneq name argx len) (acAdd ⟨name, len⟩ [] name [])

/-- The device is not in brackets, or the bracket is closed. -/
def bracketClosed (argx : Str) : Bool := argx.head? ≠ some 40 || (strchr argx 41).isSome

/-- A round of the loop of `ac_path`, from the answer of `vfs_stat` on. -/
def acStated (mode : AcMode) (name : Str) (alen : Nat) : Option Bool → List AcEntry
  | none => []
  | some isdir =>
    if !isdir ∧ mode = .dir then []
    else
      let s2 := if isdir then bytes "/" else []
      [acAdd ⟨name, alen⟩ s2 name s2]

def acNode (host : AcHost) (rpath argx : Str) (mode : AcMode) (node : Dirent) : List AcEntry :=
  let name := node.name.str
  let alen := argx.length
  if !klStrneq argx name alen then []
  else if name.head? = some 46 ∧ alen = 0 then []
  else acStated mode name alen (host.stat (rpath ++ bytes "/" ++ name))

/-- The path behind the device in brackets, if there is one. -/
def devicePath (vpath : Str) : Str :=
  if vpath.head? = some 40 then ((strchr vpath 41).getD []).drop 1 else vpath

/-- The loop of `ac_path`, if the directory can be opened. -/
def acDirectory (host : AcHost) (rpath argx : Str) (mode : AcMode) : List AcEntry :=
  match host.opendir rpath with
  | none => []
  | some nodes => nodes.flatMap (acNode host rpath argx mode)

/-- `ac_path`, which is only called with a closed bracket. -/
def acPath (host : AcHost) (vpath : Str) (mode : AcMode) : List AcEntry :=
  let argx := devicePath vpath
  if argx = [] then [acAdd ⟨bytes "/", 0⟩ [] (bytes "/") []]
  else if argx.head? ≠ some slash then []
  else
    let (rpath, argx) :=
      if argx.getLast? = some slash then (vpath, argx.drop argx.length)
      else (vpath.take ((strrchr vpath slash).getD 0 + 1), argx.drop ((strrchr argx slash).getD 0 + 1))
    acDirectory host rpath argx mode

/-- The second half of `ac_search`. -/
def acContext (host : AcHost) (w : AcWord) : List AcEntry :=
  if w.mode = .cmd then acCommands w.argx w.len
  else if w.mode = .dev then acDevices host.disks w.argx w.len
  else if w.mode = .file ∨ w.mode = .dir then
    (if w.argx = [] ∨ bracketClosed w.argx = false then acBrackets host.disks w.argx w.len else []) ++
      (if bracketClosed w.argx then acPath host w.argx w.mode else [])
  else []

def acSearch (host : AcHost) (cmd : Str) (offset : Nat) : List AcEntry :=
  acContext host (acWord (cmd.take offset))

end KexecLoader
