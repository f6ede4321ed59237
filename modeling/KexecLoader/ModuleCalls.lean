import KexecLoader.ModuleOrder
import Mathlib.Data.Finset.Card
import Mathlib.Logic.Relation

/-!
# Which modules load which

`load_kmod` calls itself for the names in the module files. A call for a name is
made when the dependencies in front of it have been loaded, and that can happen
only if there are files for them, for their dependencies and so on.
-/
namespace KexecLoader

/-- The module file an entry is, if it can be read. -/
def DirEntry.image (dir : Str) (node : DirEntry) : Option Image :=
  match node.stat, node.opened, node.mapped with
  | .ok mode, .ok (), .ok modinfo =>
    if mode &&& (S_IFREG ||| S_IFLNK) ≠ 0 ∧ klStreqEnd node.dName (bytes ".ko") = true then
      some ⟨dir ++ bytes "/" ++ node.dName, modinfo⟩
    else none
  | _, _, _ => none

/-- The name and the mapped file of an entry that `modprobe` is called for. -/
def DirEntry.module? (dir : Str) (node : DirEntry) : Option (Str × Image) :=
  (node.image dir).map fun image => (node.dName.take (node.dName.length - 3), image)

def modulesIn (dir : Str) (nodes : Except Str (List DirEntry)) : List (Str × Image) :=
  match nodes with
  | .error _ => []
  | .ok nodes => nodes.filterMap (·.module? dir)

namespace ModuleHost

variable (host : ModuleHost)

/-- The second directory is searched at all. -/
def diskSearched : Bool := host.bootDisk && host.modulesExists

/-- The module files in the directories that are searched. -/
def files : List (Str × Image) :=
  modulesIn initramfsModules host.initramfs ++
    if host.diskSearched then modulesIn diskModules host.disk else []

/-- There are files for a module and all it depends on. -/
inductive Loadable : Str → Prop
  | file {name : Str} {image : Image} (found : (name, image) ∈ host.files)
      (fits : ∀ dep ∈ image.depends, dep.length < 256)
      (deps : ∀ dep ∈ image.depends, Loadable dep) : Loadable name

/-- A file of that name comes to the dependency. -/
def Calls (name dep : Str) : Prop :=
  ∃ image before after, (name, image) ∈ host.files ∧ image.depends = before ++ dep :: after ∧
    ∀ d ∈ before, d.length < 256 ∧ host.Loadable d

/-- The names that are called for fit in their buffer, and none leads back to itself. -/
structure CallsBounded : Prop where
  fits : ∀ name dep, host.Calls name dep → dep.length < 256
  acyclic : ∀ name, ¬ Relation.TransGen host.Calls name name

/-- The same system with other answers of the kernel. -/
def answering (answers : List Event → Image → Str → Nat) : ModuleHost :=
  { host with initModule := answers }

/-- Whatever the kernel answers, every call comes to an end. -/
def Terminates : Prop :=
  ∀ answers module log, ∃ fuel loaded log',
    loadKmod (host.answering answers) fuel module log = (.done loaded, log')

end ModuleHost

/-- A call that has come to an end. -/
def Done (r : Status × List Event) : Prop := ∃ loaded log, r = (.done loaded, log)

/-! ### One entry of a directory -/

/-- The file of an entry, if it is asked for. -/
def DirEntry.wanted (dir : Str) (modname : Option Str) (node : DirEntry) : Option (Str × Image) :=
  (node.module? dir).filter fun file => modname.all (· = file.1)

/-- `modprobe` is called for the files that are asked for; for any other entry at
most some text is shown. -/
theorem modprobeEntry_eq (dir : Str) (modname : Option Str) (node : DirEntry) :
    ∃ shown : List Str, ∀ host load log, modprobeEntry host load dir modname node log =
      match node.wanted dir modname with
      | some (name, image) => modprobe host load name image log
      | none => (.done false, log ++ shown.map .printed) := by
  obtain ⟨dName, stat, opened, mapped⟩ := node
  simp only [DirEntry.wanted, DirEntry.module?, DirEntry.image, modprobeEntry]
  cases stat with
  | error reason => exact ⟨[_], fun _ _ _ => rfl⟩
  | ok mode =>
    by_cases module : mode &&& (S_IFREG ||| S_IFLNK) ≠ 0 ∧ klStreqEnd dName (bytes ".ko") = true
    · simp only [if_pos module]
      have same (fname : Str) : modname.all (fun m => decide (m = fname)) =
          !modname.any (fun m => !klStreq m fname) := by
        cases modname with
        | none => rfl
        | some m => by_cases equal : m = fname <;> simp [equal, klStreq_eq_false, klStreq_iff]
      cases other : modname.any (fun m => !klStreq m (dName.take (dName.length - 3))) with
      | true =>
        -- another module is asked for: the file is not even opened
        refine ⟨[], fun _ _ _ => ?_⟩
        cases opened <;> cases mapped <;>
          simp only [if_true, if_pos module, Option.map_some, Option.map_none, Option.filter_some,
            Option.filter_none, same, other, Bool.not_true, Bool.false_eq_true, if_false,
            List.map_nil, List.append_nil]
      | false =>
        cases opened with
        | error reason => exact ⟨[_], fun _ _ _ => rfl⟩
        | ok _ =>
          cases mapped with
          | error reason => exact ⟨[_], fun _ _ _ => rfl⟩
          | ok modinfo =>
            refine ⟨[], fun _ _ _ => ?_⟩
            simp only [Bool.false_eq_true, if_false, if_pos module, Option.map_some,
              Option.filter_some, same, other, Bool.not_false, if_true]
    · refine ⟨[], fun _ _ _ => ?_⟩
      cases opened <;> cases mapped <;>
        simp only [if_neg module, Option.map_none, Option.filter_none, List.map_nil, List.append_nil]

theorem wanted_file {dir : Str} {modname : Option Str} {node : DirEntry} {file : Str × Image}
    (wanted : node.wanted dir modname = some file) :
    node.module? dir = some file ∧ ∀ m ∈ modname, m = file.1 := by
  obtain ⟨module, asked⟩ := Option.filter_eq_some_iff.mp wanted
  refine ⟨module, ?_⟩
  rintro m ⟨rfl⟩
  simpa using asked

/-! ### What a call that ends has done -/

/-- What `modprobe` does behind the loop over the dependencies. -/
def insertModule (host : ModuleHost) (name : Str) (image : Image) (log : List Event) :
    Status × List Event :=
  let args := moduleArgs host.kmods name
  let errno := host.initModule log image args
  let log := log ++ [.initModule name image args errno]
  if errno = 0 ∨ errno = EEXIST then (.done true, log)
  else
    (.done false, log ++
      [.printed (bytes "Error loading '" ++ name ++ bytes "': " ++ moderror host errno)])

theorem insertModule_done (host : ModuleHost) (name : Str) (image : Image) (log : List Event) :
    ∃ loaded log', insertModule host name image log = (.done loaded, log') ∧
      log.length < log'.length ∧
      (loaded = true ↔ host.initModule log image (moduleArgs host.kmods name) = 0 ∨
        host.initModule log image (moduleArgs host.kmods name) = EEXIST) := by
  unfold insertModule
  dsimp only
  split
  next good => exact ⟨_, _, rfl, by simp, by simp [good]⟩
  next bad => exact ⟨_, _, rfl, by simp, by simp [bad]⟩

section
variable {host : ModuleHost} {load : Load} {name : Str} {image : Image} {dir : Str}
  {modname : Option Str} {log log' : List Event} {loaded : Bool}

theorem loadDeps_cons {dep : Str} {deps : List Str}
    (done : loadDeps load name image (dep :: deps) log = (.done loaded, log')) :
    dep.length < 256 ∧ ∃ loaded₁ log₁, load dep log = (.done loaded₁, log₁) ∧
      (if loaded₁ then loadDeps load name image deps log₁ else
        (.done false, log₁ ++ [.refused name image dep])) = (.done loaded, log') := by
  rw [loadDeps] at done
  split at done
  next => cases done
  next fits =>
    refine ⟨by omega, ?_⟩
    cases called : load dep log with
    | mk status log₁ =>
      cases status with
      | done loaded₁ =>
        cases loaded₁ with
        | true => exact ⟨true, log₁, rfl, by simpa [called] using done⟩
        | false => exact ⟨false, log₁, rfl, by simpa [called] using done⟩
      | overflow => simp [called] at done
      | deeper => simp [called] at done

theorem modprobe_eq : modprobe host load name image log =
    match loadDeps load name image image.depends log with
    | (.done true, log) => insertModule host name image log
    | stopped => stopped := by
  rw [modprobe]
  rfl

theorem modprobe_done (done : modprobe host load name image log = (.done loaded, log')) :
    ∃ loaded₁ log₁, loadDeps load name image image.depends log = (.done loaded₁, log₁) ∧
      (if loaded₁ then insertModule host name image log₁ else (.done false, log₁)) =
        (.done loaded, log') := by
  rw [modprobe_eq] at done
  match called : loadDeps load name image image.depends log with
  | (.done true, log₁) => exact ⟨true, log₁, rfl, by simpa [called] using done⟩
  | (.done false, log₁) => exact ⟨false, log₁, rfl, by simpa [called] using done⟩
  | (.overflow, log₁) => simp [called] at done
  | (.deeper, log₁) => simp [called] at done

theorem modprobeEntries_cons {node : DirEntry} {nodes : List DirEntry} {ret : Bool}
    (done : modprobeEntries host load dir modname (node :: nodes) ret log = (.done loaded, log')) :
    ∃ loaded₁ log₁, modprobeEntry host load dir modname node log = (.done loaded₁, log₁) ∧
      modprobeEntries host load dir modname nodes (ret || loaded₁) log₁ = (.done loaded, log') := by
  rw [modprobeEntries] at done
  cases called : modprobeEntry host load dir modname node log with
  | mk status log₁ =>
    cases status with
    | done loaded₁ => exact ⟨loaded₁, log₁, rfl, by simpa [called] using done⟩
    | overflow => simp [called] at done
    | deeper => simp [called] at done

theorem loadKmod_succ {fuel : Nat}
    (done : loadKmod host (fuel + 1) modname log = (.done loaded, log')) :
    ∃ loaded₁ log₁, modprobeDir host (fun dep => loadKmod host fuel (some dep)) initramfsModules
        host.initramfs modname log = (.done loaded₁, log₁) ∧
      (if !loaded₁ && host.diskSearched then
          modprobeDir host (fun dep => loadKmod host fuel (some dep)) diskModules host.disk modname log₁
        else (.done loaded₁, log₁)) = (.done loaded, log') := by
  rw [loadKmod] at done
  cases called : modprobeDir host (fun dep => loadKmod host fuel (some dep)) initramfsModules
      host.initramfs modname log with
  | mk status log₁ =>
    cases status with
    | done loaded₁ =>
      cases loaded₁ with
      | true => exact ⟨true, log₁, rfl, by simpa [called] using done⟩
      | false => exact ⟨false, log₁, rfl, by simpa [called, ModuleHost.diskSearched] using done⟩
    | overflow => simp [called] at done
    | deeper => simp [called] at done

/-! ### Success needs files -/

theorem modprobe_loaded (done : modprobe host load name image log = (.done true, log')) :
    ∃ log₁, LoadedAll load image.depends log log₁ := by
  obtain ⟨loaded₁, log₁, deps, rest⟩ := modprobe_done done
  cases loaded₁ with
  | true => exact ⟨log₁, loadedAll_of_loadDeps load name image image.depends log log₁ deps⟩
  | false => simp at rest

theorem LoadedAll.each {deps : List Str} (all : LoadedAll load deps log log') :
    ∀ dep ∈ deps, dep.length < 256 ∧ ∃ log₁ log₂, load dep log₁ = (.done true, log₂) := by
  induction all with
  | nil => simp
  | cons dep deps log log' log'' fits loaded _ ih =>
    intro d member
    obtain rfl | member := List.mem_cons.mp member
    · exact ⟨fits, log, log', loaded⟩
    · exact ih d member

theorem modprobeDir_loaded {nodes : Except Str (List DirEntry)}
    (done : modprobeDir host load dir nodes modname log = (.done true, log')) :
    ∃ name image, (name, image) ∈ modulesIn dir nodes ∧ (∀ m ∈ modname, m = name) ∧
      ∃ log₁ log₂, modprobe host load name image log₁ = (.done true, log₂) := by
  cases nodes with
  | error reason => simp [modprobeDir] at done
  | ok nodes =>
    rw [modprobeDir] at done
    -- on the entries: the result is that of one of them, or of those before
    have entries (nodes : List DirEntry) (ret : Bool) (log : List Event)
        (done : modprobeEntries host load dir modname nodes ret log = (.done true, log')) :
        ret = true ∨ ∃ node ∈ nodes, ∃ log₁ log₂,
          modprobeEntry host load dir modname node log₁ = (.done true, log₂) := by
      induction nodes generalizing ret log with
      | nil =>
        simp only [modprobeEntries, Prod.mk.injEq, Status.done.injEq] at done
        exact .inl done.1
      | cons node nodes ih =>
        obtain ⟨loaded₁, log₁, entry, rest⟩ := modprobeEntries_cons done
        obtain before | ⟨other, member, success⟩ := ih _ _ rest
        · obtain rfl | rfl := Bool.or_eq_true_iff.mp before
          · exact .inl rfl
          · exact .inr ⟨node, .head _, log, log₁, entry⟩
        · exact .inr ⟨other, .tail _ member, success⟩
    obtain before | ⟨node, member, log₁, log₂, entry⟩ := entries nodes false log done
    · cases before
    · obtain ⟨shown, same⟩ := modprobeEntry_eq dir modname node
      rw [same] at entry
      cases wanted : node.wanted dir modname with
      | none => simp [wanted] at entry
      | some file =>
        obtain ⟨name, image⟩ := file
        obtain ⟨module, asked⟩ := wanted_file wanted
        exact ⟨name, image, List.mem_filterMap.mpr ⟨node, member, module⟩, asked, log₁, log₂,
          by simpa [wanted] using entry⟩

end

theorem ModuleHost.mem_files {host : ModuleHost} {file : Str × Image} :
    file ∈ host.files ↔ file ∈ modulesIn initramfsModules host.initramfs ∨
      host.diskSearched = true ∧ file ∈ modulesIn diskModules host.disk := by
  unfold ModuleHost.files
  split <;> simp [*]

theorem loadKmod_file {host : ModuleHost} {fuel : Nat} {modname : Option Str} {log log' : List Event}
    (done : loadKmod host (fuel + 1) modname log = (.done true, log')) :
    ∃ name image, (name, image) ∈ host.files ∧ (∀ m ∈ modname, m = name) ∧
      ∃ log₁ log₂, modprobe host (fun dep => loadKmod host fuel (some dep)) name image log₁ =
        (.done true, log₂) := by
  obtain ⟨loaded₁, log₁, first, rest⟩ := loadKmod_succ done
  split at rest
  next disk =>
    obtain ⟨name, image, file, success⟩ := modprobeDir_loaded rest
    simp only [Bool.and_eq_true] at disk
    exact ⟨name, image, ModuleHost.mem_files.mpr (.inr ⟨disk.2, file⟩), success⟩
  next =>
    simp only [Prod.mk.injEq, Status.done.injEq] at rest
    obtain ⟨name, image, file, success⟩ := modprobeDir_loaded (rest.1 ▸ first)
    exact ⟨name, image, ModuleHost.mem_files.mpr (.inl file), success⟩

/-- Only a module with files for all it depends on is ever loaded. -/
theorem loadKmod_loadable {host : ModuleHost} {fuel : Nat} {name : Str} {log log' : List Event}
    (done : loadKmod host fuel (some name) log = (.done true, log')) : host.Loadable name := by
  induction fuel generalizing name log log' with
  | zero => simp [loadKmod] at done
  | succ fuel ih =>
    obtain ⟨_, image, file, asked, _, _, success⟩ := loadKmod_file done
    obtain rfl := asked name rfl
    obtain ⟨_, all⟩ := modprobe_loaded success
    have each : ∀ dep ∈ image.depends, dep.length < 256 ∧ host.Loadable dep := by
      intro dep member
      obtain ⟨fits, _, _, loaded⟩ := all.each dep member
      exact ⟨fits, ih loaded⟩
    exact .file file (fun dep member => (each dep member).1) fun dep member => (each dep member).2

/-! ### Calls that are bounded end -/

section
variable {host : ModuleHost} {load : Load} {name : Str} {image : Image}
  (sound : ∀ dep log log', load dep log = (.done true, log') → host.Loadable dep)
  (called : ∀ dep, host.Calls name dep → dep.length < 256 ∧ ∀ log, Done (load dep log))
include sound called

/-- The dependencies in front of those still to come have been loaded. -/
theorem loadDeps_ends (found : (name, image) ∈ host.files) (front deps : List Str)
    (split : image.depends = front ++ deps) (loaded : ∀ d ∈ front, d.length < 256 ∧ host.Loadable d)
    (log : List Event) : Done (loadDeps load name image deps log) := by
  induction deps generalizing front log with
  | nil => exact ⟨true, log, rfl⟩
  | cons dep deps ih =>
    obtain ⟨fits, ends⟩ := called dep ⟨image, front, deps, found, split, loaded⟩
    obtain ⟨loaded₁, log₁, result⟩ := ends log
    rw [loadDeps, if_neg (by omega), result]
    cases loaded₁ with
    | false => exact ⟨false, _, rfl⟩
    | true =>
      refine ih (front ++ [dep]) (by simp [split]) (fun d member => ?_) log₁
      obtain before | here := List.mem_append.mp member
      · exact loaded d before
      · obtain rfl := List.mem_singleton.mp here
        exact ⟨fits, sound d log log₁ result⟩

theorem modprobe_ends (found : (name, image) ∈ host.files) (log : List Event) :
    Done (modprobe host load name image log) := by
  obtain ⟨loaded, log₁, deps⟩ := loadDeps_ends sound called found [] image.depends rfl (by simp) log
  rw [modprobe_eq, deps]
  cases loaded with
  | false => exact ⟨false, log₁, rfl⟩
  | true =>
    obtain ⟨loaded, log₂, inserted, -⟩ := insertModule_done host name image log₁
    exact ⟨loaded, log₂, inserted⟩

end

theorem modprobeDir_ends {host : ModuleHost} {load : Load} {dir : Str}
    {nodes : Except Str (List DirEntry)} {modname : Option Str}
    (ends : ∀ name image, (name, image) ∈ modulesIn dir nodes → (∀ m ∈ modname, m = name) →
      ∀ log, Done (modprobe host load name image log)) (log : List Event) :
    Done (modprobeDir host load dir nodes modname log) := by
  cases nodes with
  | error reason => exact ⟨false, _, rfl⟩
  | ok nodes =>
    have entry (node : DirEntry) (member : node ∈ nodes) (log : List Event) :
        Done (modprobeEntry host load dir modname node log) := by
      obtain ⟨shown, same⟩ := modprobeEntry_eq dir modname node
      rw [same]
      cases wanted : node.wanted dir modname with
      | none => exact ⟨false, _, rfl⟩
      | some file =>
        obtain ⟨module, asked⟩ := wanted_file wanted
        exact ends file.1 file.2 (List.mem_filterMap.mpr ⟨node, member, module⟩) asked log
    have entries (rest : List DirEntry) (part : ∀ node ∈ rest, node ∈ nodes) (ret : Bool)
        (log : List Event) : Done (modprobeEntries host load dir modname rest ret log) := by
      induction rest generalizing ret log with
      | nil => exact ⟨ret, log, rfl⟩
      | cons node rest ih =>
        obtain ⟨loaded, log₁, result⟩ := entry node (part node (.head _)) log
        rw [modprobeEntries, result]
        exact ih (fun other member => part other (.tail _ member)) _ log₁
    exact entries nodes (fun _ member => member) false log

theorem loadKmod_ends {host : ModuleHost} {fuel : Nat} {module : Option Str}
    (ends : ∀ name image, (name, image) ∈ host.files → (∀ m ∈ module, m = name) → ∀ log,
      Done (modprobe host (fun dep => loadKmod host fuel (some dep)) name image log))
    (log : List Event) : Done (loadKmod host (fuel + 1) module log) := by
  obtain ⟨loaded, log₁, first⟩ := modprobeDir_ends
    (fun name image file => ends name image (ModuleHost.mem_files.mpr (.inl file))) log
  rw [loadKmod, first]
  cases loaded with
  | true => exact ⟨true, log₁, rfl⟩
  | false =>
    dsimp only
    split
    next disk =>
      exact modprobeDir_ends
        (fun name image file => ends name image (ModuleHost.mem_files.mpr (.inr ⟨disk, file⟩))) log₁
    next => exact ⟨false, log₁, rfl⟩

namespace ModuleHost

variable {host : ModuleHost}

/-- All names in the module files. -/
def depNamesOf (host : ModuleHost) : List Str := host.files.flatMap fun file => file.2.depends

theorem Calls.listed {name dep : Str} (calls : host.Calls name dep) : dep ∈ host.depNamesOf := by
  obtain ⟨image, before, after, found, split, -⟩ := calls
  exact List.mem_flatMap.mpr ⟨(name, image), found, by simp [split]⟩

open Classical in
/-- The names that a call leads to. -/
noncomputable def below (host : ModuleHost) (name : Str) : Finset Str :=
  host.depNamesOf.toFinset.filter (Relation.TransGen host.Calls name)

theorem mem_below {name dep : Str} :
    dep ∈ host.below name ↔ dep ∈ host.depNamesOf ∧ Relation.TransGen host.Calls name dep := by
  simp [below]

theorem CallsBounded.below_lt (bounded : host.CallsBounded) {name dep : Str}
    (calls : host.Calls name dep) : (host.below dep).card < (host.below name).card := by
  apply Finset.card_lt_card
  refine ⟨fun other member => ?_, fun contains => ?_⟩
  · rw [mem_below] at member ⊢
    exact ⟨member.1, .head calls member.2⟩
  · -- the dependency itself is not below it
    have here : dep ∈ host.below name := mem_below.mpr ⟨calls.listed, .single calls⟩
    exact bounded.acyclic dep (mem_below.mp (contains here)).2

/-- By induction on the fuel, which is more than the names below. -/
theorem CallsBounded.ends (bounded : host.CallsBounded) (fuel : Nat) (name : Str)
    (enough : (host.below name).card < fuel) (log : List Event) :
    Done (loadKmod host fuel (some name) log) := by
  induction fuel generalizing name log with
  | zero => omega
  | succ fuel ih =>
    refine loadKmod_ends (fun other image found asked => ?_) log
    obtain rfl := asked name rfl
    refine modprobe_ends (fun _ _ _ => loadKmod_loadable) (fun dep calls => ?_) found
    have less := bounded.below_lt calls
    exact ⟨bounded.fits name dep calls, ih dep (by omega)⟩

theorem loadable_answering (answers : List Event → Image → Str → Nat) (name : Str) :
    (host.answering answers).Loadable name ↔ host.Loadable name := by
  constructor
  · intro loadable
    induction loadable with
    | file found fits _ ih => exact .file found fits ih
  · intro loadable
    induction loadable with
    | file found fits _ ih => exact .file found fits ih

theorem calls_answering (answers : List Event → Image → Str → Nat) :
    (host.answering answers).Calls = host.Calls := by
  funext name dep
  simp only [Calls, loadable_answering]
  rfl

theorem CallsBounded.answering (bounded : host.CallsBounded)
    (answers : List Event → Image → Str → Nat) : (host.answering answers).CallsBounded := by
  constructor
  · rw [calls_answering]
    exact bounded.fits
  · rw [calls_answering]
    exact bounded.acyclic

theorem CallsBounded.terminates (bounded : host.CallsBounded) : host.Terminates := by
  intro answers module log
  have bounded := bounded.answering answers
  refine ⟨(host.answering answers).depNamesOf.toFinset.card + 2, loadKmod_ends ?_ log⟩
  intro name image found _ log
  refine modprobe_ends (fun _ _ _ => loadKmod_loadable) (fun dep calls => ?_) found log
  refine ⟨bounded.fits name dep calls, bounded.ends _ dep ?_⟩
  exact Nat.lt_succ_of_le (Finset.card_le_card fun other member =>
    List.mem_toFinset.mpr (mem_below.mp member).1)

end ModuleHost

end KexecLoader
