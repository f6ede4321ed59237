import KexecLoader.Library.FileTree
import KexecLoader.Library.PathText
import KexecLoader.Misc

/-!
# The system calls of the archive extractor

The root file system is a tree without links, and relative paths start at its
root. Every call is logged, oldest first, and may be made to fail: fault `n`
strikes the call that finds `n` calls in the log.
-/
namespace KexecLoader

open FileTree

abbrev FsTree := Tree Str Str

/-- A failure: its error number, and how many bytes reach the file nonetheless. -/
structure Fault where
  errno : Nat
  kept : Nat

inductive Call where
  | access (path : Str)
  | fopen (path : Str)
  | fwrite (data : Str)
  | fclose
  | rename (source target : Str)
  | mkdir (path : Str)
deriving DecidableEq

structure Os where
  tree : FsTree
  faults : Nat → Option Fault
  strerror : Nat → Str
  calls : List Call
  /-- What `printD` has shown. -/
  shown : List Str

namespace Os

def printD (os : Os) (text : Str) : Os := { os with shown := os.shown ++ [text] }

def log (os : Os) (call : Call) : Os := { os with calls := os.calls ++ [call] }

/-- The tree after a logged call. -/
def update (os : Os) (call : Call) (tree : FsTree) : Os := { os.log call with tree := tree }

def fault (os : Os) : Option Fault := os.faults os.calls.length

@[simp] theorem update_tree (os : Os) (call : Call) (tree : FsTree) :
    (os.update call tree).tree = tree := rfl

end Os

def obstacleErrno : Obstacle → Nat
  | .missing => ENOENT
  | .notDir => ENOTDIR

/-- The location a path leads to. -/
def namei (tree : FsTree) (path : Str) : Except Obstacle (List Str) :=
  walk dot dotdot tree (pathComponents path)

/-- `access(file, F_OK) == 0`. -/
def checkFile (file : Str) (os : Os) : Bool × Os :=
  let os' := os.log (.access file)
  match os.fault, namei os.tree file with
  | none, .ok loc => ((os.tree loc).isSome, os')
  | _, _ => (false, os')

/-- `mkdir(path, 0755)`: none, or `errno`. -/
def mkdir (path : Str) (os : Os) : Option Nat × Os :=
  let os' := os.log (.mkdir path)
  match os.fault, namei os.tree path with
  | some fault, _ => (some fault.errno, os')
  | none, .error obstacle => (some (obstacleErrno obstacle), os')
  | none, .ok loc =>
    if (os.tree loc).isSome then (some EEXIST, os')
    else (none, os.update (.mkdir path) (os.tree.set loc (some .dir)))

/-- `fopen(path, "wb")`: the location of the open file, or `errno`. -/
def fopenWb (path : Str) (os : Os) : Except Nat (List Str) × Os :=
  let os' := os.log (.fopen path)
  match os.fault, namei os.tree path with
  | some fault, _ => (.error fault.errno, os')
  | none, .error obstacle => (.error (obstacleErrno obstacle), os')
  | none, .ok loc =>
    if os.tree loc = some .dir then (.error EISDIR, os')
    else (.ok loc, os.update (.fopen path) (os.tree.set loc (some (.file []))))

def contentAt (tree : FsTree) (loc : List Str) : Str :=
  match tree loc with
  | some (.file content) => content
  | _ => []

/-- `fwrite` until all is written or `ferror`, which comes with the first short
count. -/
def fwrite (loc : List Str) (data : Str) (os : Os) : Option Nat × Os :=
  let append (data : Str) : Os := os.update (.fwrite data)
    (os.tree.set loc (some (.file (contentAt os.tree loc ++ data))))
  match os.fault with
  | none => (none, append data)
  | some fault => (some fault.errno, append (data.take fault.kept))

/-- `fclose`, which can lose the end of what was written. -/
def fclose (loc : List Str) (os : Os) : Os :=
  match os.fault with
  | none => os.log .fclose
  | some fault => os.update .fclose
      (os.tree.set loc (some (.file ((contentAt os.tree loc).take fault.kept))))

/-- `rename` of a regular file. -/
def rename (source target : Str) (os : Os) : Option Nat × Os :=
  let os' := os.log (.rename source target)
  match os.fault, namei os.tree source, namei os.tree target with
  | some fault, _, _ => (some fault.errno, os')
  | none, .error obstacle, _ => (some (obstacleErrno obstacle), os')
  | none, _, .error obstacle => (some (obstacleErrno obstacle), os')
  | none, .ok old, .ok new =>
    if os.tree old = none then (some ENOENT, os')
    else if os.tree new = some .dir then (some EISDIR, os')
    else if old = new then (none, os')
    else (none, os.update (.rename source target)
      ((os.tree.set new (os.tree old)).set old none))

/-! ### Calls that do not fail -/

def Os.Quiet (os : Os) : Prop := ∀ n, os.faults n = none

theorem Os.Quiet.fault {os : Os} (quiet : os.Quiet) : os.fault = none := quiet _

/-- Apart from the log, the tree is all that has changed. -/
structure Os.Becomes (os : Os) (tree : FsTree) (os' : Os) : Prop where
  tree : os'.tree = tree
  faults : os'.faults = os.faults
  shown : os'.shown = os.shown

namespace Os.Becomes

theorem log (os : Os) (call : Call) : os.Becomes os.tree (os.log call) := ⟨rfl, rfl, rfl⟩

theorem update (os : Os) (call : Call) (tree : FsTree) : os.Becomes tree (os.update call tree) :=
  ⟨rfl, rfl, rfl⟩

theorem refl (os : Os) : os.Becomes os.tree os := ⟨rfl, rfl, rfl⟩

variable {os os₁ os₂ : Os} {tree tree₁ : FsTree}

theorem quiet (becomes : os.Becomes tree os₁) (quiet : os.Quiet) : os₁.Quiet := by
  intro n
  rw [becomes.faults]
  exact quiet n

theorem trans (first : os.Becomes tree os₁) (second : os₁.Becomes tree₁ os₂) :
    os.Becomes tree₁ os₂ :=
  ⟨second.tree, second.faults.trans first.faults, second.shown.trans first.shown⟩

end Os.Becomes

section
variable {os : Os} (quiet : os.Quiet) {path : Str} {loc : List Str}
include quiet

theorem checkFile_quiet (there : namei os.tree path = .ok loc) :
    ∃ os', checkFile path os = ((os.tree loc).isSome, os') ∧ os.Becomes os.tree os' := by
  refine ⟨_, ?_, Os.Becomes.log os (.access path)⟩
  simp only [checkFile, quiet.fault, there]

/-- Afterwards the location is a directory, whether or not it was one. -/
theorem mkdir_quiet (there : namei os.tree path = .ok loc)
    (free : os.tree loc = none ∨ os.tree loc = some .dir) :
    ∃ err os', mkdir path os = (err, os') ∧ (err = none ∨ err = some EEXIST) ∧
      os.Becomes (os.tree.set loc (some .dir)) os' := by
  obtain free | dir := free
  · refine ⟨none, _, ?_, .inl rfl, Os.Becomes.update os (.mkdir path) _⟩
    simp only [mkdir, quiet.fault, there, free, Option.isSome_none, Bool.false_eq_true, if_false]
  · refine ⟨some EEXIST, os.log (.mkdir path), ?_, .inr rfl, ?_⟩
    · simp only [mkdir, quiet.fault, there, dir, Option.isSome_some, if_true]
    · rw [← dir, Tree.set_self]
      exact Os.Becomes.log os (.mkdir path)

theorem fopenWb_quiet (there : namei os.tree path = .ok loc) (no_dir : os.tree loc ≠ some .dir) :
    ∃ os', fopenWb path os = (.ok loc, os') ∧
      os.Becomes (os.tree.set loc (some (.file []))) os' := by
  refine ⟨_, ?_, Os.Becomes.update os (.fopen path) _⟩
  simp only [fopenWb, quiet.fault, there, no_dir, if_false]

theorem fwrite_quiet (written data : Str) (there : os.tree loc = some (.file written)) :
    ∃ os', fwrite loc data os = (none, os') ∧
      os.Becomes (os.tree.set loc (some (.file (written ++ data)))) os' := by
  refine ⟨_, ?_, Os.Becomes.update os (.fwrite data) _⟩
  simp only [fwrite, quiet.fault, contentAt, there]

theorem fclose_quiet (loc : List Str) : os.Becomes os.tree (fclose loc os) := by
  simp only [fclose, quiet.fault]
  exact Os.Becomes.log os .fclose

theorem rename_quiet {target : Str} {old new : List Str} (source : namei os.tree path = .ok old)
    (there : namei os.tree target = .ok new) (other : old ≠ new)
    (exist : os.tree old ≠ none) (no_dir : os.tree new ≠ some .dir) :
    ∃ os', rename path target os = (none, os') ∧
      os.Becomes ((os.tree.set new (os.tree old)).set old none) os' := by
  refine ⟨_, ?_, Os.Becomes.update os (.rename path target) _⟩
  simp only [rename, quiet.fault, source, there, exist, no_dir, other, if_false]

end

end KexecLoader
