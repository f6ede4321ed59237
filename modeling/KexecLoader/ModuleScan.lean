import KexecLoader.ModuleCalls

/-!
# Which modules a scan gets to

`load_kmod` without a name is meant to load every module of both directories. What a
call offers to the kernel follows from the files, from the names they list, and from
what the kernel says of each; the theorem at the end says when every file gets its
chance.
-/
namespace KexecLoader

/-- An answer that counts as loaded: the module is in the kernel. -/
def Taken (errno : Nat) : Prop := errno = 0 ∨ errno = EEXIST

/-- All that a module lists was accepted. -/
def Supplied (image : Image) (log : List Event) : Prop := ∀ dep ∈ image.depends, Accepted dep log

/-- The file was given to `init_module`. -/
def GivenToKernel (file : Str × Image) (log : List Event) : Prop :=
  ∃ args errno, .initModule file.1 file.2 args errno ∈ log

namespace ModuleHost

variable (host : ModuleHost) (start : List Event)

def initramfsFiles : List (Str × Image) := modulesIn initramfsModules host.initramfs

/-- The modules on the boot disk, if there is one with a modules directory. -/
def diskFiles : List (Str × Image) :=
  if host.diskSearched then modulesIn diskModules host.disk else []

/-- `depends=` lists all that a module needs: with that, the kernel takes a file (or has
it already) or it does not, whatever else happens from `start` on. -/
def Steady : Prop :=
  ∀ image args log log', start <+: log → start <+: log' → Supplied image log → Supplied image log' →
    (Taken (host.initModule log image args) ↔ Taken (host.initModule log' image args))

/-- The kernel takes the file when it has what the file lists. -/
def Takes (file : Str × Image) : Prop :=
  ∃ log, start <+: log ∧ Supplied file.2 log ∧
    Taken (host.initModule log file.2 (moduleArgs host.kmods file.1))

/-- A module of that name can be loaded: there is a file that the kernel takes, and so it is
with all that the file lists. -/
inductive Works : Str → Prop
  | file {name : Str} {image : Image} (found : (name, image) ∈ host.files) (takes : host.Takes start (name, image))
      (fits : ∀ dep ∈ image.depends, dep.length < 256) (deps : ∀ dep ∈ image.depends, Works dep) : Works name

/-- The listed dependencies can all be loaded. -/
def Could (image : Image) : Prop := ∀ dep ∈ image.depends, dep.length < 256 ∧ host.Works start dep

def Loads (file : Str × Image) : Prop := host.Could start file.2 ∧ host.Takes start file

/-! ### The files a call comes to -/

/-- The list of the file comes to this name: those in front of it can be loaded. -/
def Brings (image : Image) (dep : Str) : Prop :=
  ∃ before after, image.depends = before ++ dep :: after ∧
    ∀ d ∈ before, d.length < 256 ∧ host.Works start d

/-- The files of a search: those of the boot disk only if the initramfs has none that
loads. -/
def Tried (modname : Option Str) (file : Str × Image) : Prop :=
  (∀ m ∈ modname, m = file.1) ∧
    (file ∈ host.initramfsFiles ∨ file ∈ host.diskFiles ∧
      ∀ other ∈ host.initramfsFiles, (∀ m ∈ modname, m = other.1) → ¬ host.Loads start other)

/-- The files the search for a name comes to, for itself or for what a file lists. -/
inductive Visits : Str → Str × Image → Prop
  | file {name : Str} {file : Str × Image} (tried : host.Tried start (some name) file) : Visits name file
  | dependency {name dep : Str} {file other : Str × Image} (tried : host.Tried start (some name) file)
      (brings : host.Brings start file.2 dep) (visits : Visits dep other) : Visits name other

/-- A file, and those it needs. -/
def From (file other : Str × Image) : Prop :=
  other = file ∨ ∃ dep, host.Brings start file.2 dep ∧ host.Visits start dep other

end ModuleHost

/-- Every module file of either directory was offered to the kernel, if what it lists can be
loaded. -/
def EveryModuleOffered (host : ModuleHost) (start log : List Event) : Prop :=
  ∀ file ∈ host.initramfsFiles ++ host.diskFiles, host.Could start file.2 → GivenToKernel file log

/-- No module of the initramfs loads, so that the boot disk is searched; or all that could
be loaded from the boot disk was offered before, or is needed by a module of the
initramfs. -/
def ScanComplete (host : ModuleHost) (start : List Event) : Prop :=
  (∀ file ∈ host.initramfsFiles, ¬ host.Loads start file) ∨
    ∀ file ∈ host.diskFiles, host.Could start file.2 →
      GivenToKernel file start ∨ ∃ first ∈ host.initramfsFiles, host.From start first file

/-! ### What a call does -/

/-- If the call returns, this is its result, and these are the files it offers. -/
def CallDoes (log : List Event) (r : Status × List Event) (success : Prop) (offered : Str × Image → Prop) :
    Prop :=
  ∀ loaded log', r = (.done loaded, log') → (loaded = true ↔ success) ∧
    ∃ new, log' = log ++ new ∧ ∀ file, GivenToKernel file new ↔ offered file

theorem given_nil (file : Str × Image) : ¬ GivenToKernel file [] := by
  rintro ⟨args, errno, member⟩
  cases member

theorem given_append (file : Str × Image) (log new : List Event) :
    GivenToKernel file (log ++ new) ↔ GivenToKernel file log ∨ GivenToKernel file new := by
  simp only [GivenToKernel, List.mem_append, exists_or]

theorem given_shown (file : Str × Image) (shown : List Str) : ¬ GivenToKernel file (shown.map .printed) := by
  rintro ⟨args, errno, member⟩
  simp at member

/-- The kernel is asked once. -/
theorem insertModule_does {host : ModuleHost} {name : Str} {image : Image} {log log' : List Event}
    {loaded : Bool} (done : insertModule host name image log = (.done loaded, log')) :
    (loaded = true ↔ Taken (host.initModule log image (moduleArgs host.kmods name))) ∧
      ∃ new, log' = log ++ new ∧ ∀ file, GivenToKernel file new ↔ file = (name, image) := by
  have event (file : Str × Image) (args : Str) (errno : Nat) (shown : List Str) :
      GivenToKernel file (.initModule name image args errno :: shown.map .printed) ↔ file = (name, image) := by
    simp only [GivenToKernel, List.mem_cons, List.mem_map, reduceCtorEq, and_false, exists_false, or_false,
      Event.initModule.injEq]
    constructor
    · rintro ⟨_, _, rfl, rfl, -⟩
      rfl
    · rintro rfl
      exact ⟨args, errno, rfl, rfl, rfl, rfl⟩
  unfold insertModule at done
  dsimp only at done
  split at done
  next good =>
    cases done
    exact ⟨by simpa [Taken] using good, _, rfl, fun file => event file _ _ []⟩
  next bad =>
    cases done
    exact ⟨by simpa [Taken] using bad, _, List.append_assoc .., fun file => event file _ _ [_]⟩

/-- The files of a directory that are asked for. -/
theorem mem_wanted {dir : Str} {modname : Option Str} {nodes : List DirEntry} {file : Str × Image} :
    file ∈ nodes.filterMap (·.wanted dir modname) ↔
      file ∈ modulesIn dir (.ok nodes) ∧ ∀ m ∈ modname, m = file.1 := by
  constructor
  · intro member
    obtain ⟨node, here, wanted⟩ := List.mem_filterMap.mp member
    obtain ⟨module, asked⟩ := wanted_file wanted
    exact ⟨List.mem_filterMap.mpr ⟨node, here, module⟩, asked⟩
  · rintro ⟨member, asked⟩
    obtain ⟨node, here, module⟩ := List.mem_filterMap.mp member
    refine List.mem_filterMap.mpr ⟨node, here, Option.filter_eq_some_iff.mpr ⟨module, ?_⟩⟩
    rw [Option.all_eq_true]
    exact fun m same => decide_eq_true (asked m same)

theorem ModuleHost.works_iff {host : ModuleHost} {start : List Event} {name : Str} :
    host.Works start name ↔ ∃ image, (name, image) ∈ host.files ∧ host.Loads start (name, image) := by
  constructor
  · rintro ⟨found, takes, fits, deps⟩
    exact ⟨_, found, fun dep member => ⟨fits dep member, deps dep member⟩, takes⟩
  · rintro ⟨image, found, could, takes⟩
    exact .file found takes (fun dep member => (could dep member).1) fun dep member => (could dep member).2

section
variable {host : ModuleHost} {start : List Event} {load : Load}
  (calls : ∀ dep log, start <+: log → CallDoes log (load dep log) (host.Works start dep)
    fun file => host.Could start file.2 ∧ host.Visits start dep file)
include calls

/-- The loop goes on as long as the names can be loaded. -/
theorem loadDeps_does (name : Str) (image : Image) (deps : List Str) (log : List Event)
    (behind : start <+: log) :
    CallDoes log (loadDeps load name image deps log) (∀ dep ∈ deps, dep.length < 256 ∧ host.Works start dep)
      fun file => host.Could start file.2 ∧ ∃ before dep after, deps = before ++ dep :: after ∧
        (∀ d ∈ before, d.length < 256 ∧ host.Works start d) ∧ host.Visits start dep file := by
  induction deps generalizing log with
  | nil =>
    rintro loaded log' ⟨⟩
    refine ⟨by simp, [], (List.append_nil log).symm, fun file => iff_of_false (given_nil file) ?_⟩
    rintro ⟨-, before, dep, after, split, -⟩
    cases before <;> cases split
  | cons dep deps ih =>
    intro loaded log' done
    obtain ⟨fits, loaded₁, log₁, called, rest⟩ := loadDeps_cons done
    obtain ⟨result, new₁, rfl, offered₁⟩ := calls dep log behind loaded₁ log₁ called
    -- the first of the names, or one behind it if the first can be loaded
    have brought (file : Str × Image) : (∃ before d after, dep :: deps = before ++ d :: after ∧
        (∀ b ∈ before, b.length < 256 ∧ host.Works start b) ∧ host.Visits start d file) ↔
        host.Visits start dep file ∨ host.Works start dep ∧ ∃ before d after, deps = before ++ d :: after ∧
          (∀ b ∈ before, b.length < 256 ∧ host.Works start b) ∧ host.Visits start d file := by
      constructor
      · rintro ⟨before, d, after, split, works, visits⟩
        cases before with
        | nil =>
          cases split
          exact .inl visits
        | cons b before =>
          cases split
          exact .inr ⟨(works _ List.mem_cons_self).2, before, d, after, rfl,
            fun b member => works b (List.mem_cons_of_mem _ member), visits⟩
      · rintro (visits | ⟨works, before, d, after, rfl, all, visits⟩)
        · exact ⟨[], dep, deps, rfl, by simp, visits⟩
        · exact ⟨dep :: before, d, after, rfl, List.forall_mem_cons.mpr ⟨⟨fits, works⟩, all⟩, visits⟩
    simp only [brought]
    cases loaded₁ with
    | true =>
      have works := result.mp rfl
      obtain ⟨all, new₂, rfl, offered₂⟩ :=
        ih (log ++ new₁) (behind.trans (List.prefix_append log new₁)) loaded log' rest
      refine ⟨by simp [all, fits, works], new₁ ++ new₂, List.append_assoc .., fun file => ?_⟩
      rw [given_append, offered₁, offered₂]
      simp only [works, true_and, and_or_left]
    | false =>
      have fails : ¬ host.Works start dep := fun works => Bool.false_ne_true (result.mpr works)
      cases rest
      refine ⟨by simp [fails], new₁ ++ [.refused name image dep], List.append_assoc .., fun file => ?_⟩
      have refused : ¬ GivenToKernel file [.refused name image dep] := by
        rintro ⟨args, errno, member⟩
        simp at member
      rw [given_append, offered₁]
      simp only [refused, fails, or_false, false_and]

variable (steady : host.Steady start) (keeps : ∀ dep log, Keeps log (load dep log) (Accepted dep))
include steady keeps

theorem modprobe_does (name : Str) (image : Image) (log : List Event) (behind : start <+: log) :
    CallDoes log (modprobe host load name image log) (host.Loads start (name, image))
      fun file => host.Could start file.2 ∧ host.From start (name, image) file := by
  intro loaded log' done
  obtain ⟨loaded₁, log₁, deps, rest⟩ := modprobe_done done
  obtain ⟨all, new, rfl, offered⟩ := loadDeps_does calls name image image.depends log behind loaded₁ _ deps
  have all : loaded₁ = true ↔ host.Could start image := all
  have needed (file : Str × Image) : (∃ before dep after, image.depends = before ++ dep :: after ∧
      (∀ d ∈ before, d.length < 256 ∧ host.Works start d) ∧ host.Visits start dep file) ↔
      ∃ dep, host.Brings start image dep ∧ host.Visits start dep file := by
    constructor
    · rintro ⟨before, dep, after, split, works, visits⟩
      exact ⟨dep, ⟨before, after, split, works⟩, visits⟩
    · rintro ⟨dep, ⟨before, after, split, works⟩, visits⟩
      exact ⟨before, dep, after, split, works, visits⟩
  simp only [needed] at offered
  cases loaded₁ with
  | true =>
    have could := all.mp rfl
    -- the kernel is asked when it has what the file lists
    have supplied : Supplied image (log ++ new) := by
      obtain ⟨new', grown, -, success⟩ := loadDeps_keeps keeps name image image.depends log
      rw [deps] at grown success
      have sub : new' ⊆ log ++ new := by
        have grown : log ++ new = log ++ new' := grown
        rw [grown]
        exact List.subset_append_right log new'
      exact fun dep member => (success rfl dep member).mono sub
    have later : start <+: log ++ new := behind.trans (List.prefix_append log new)
    have verdict : Taken (host.initModule (log ++ new) image (moduleArgs host.kmods name)) ↔
        host.Takes start (name, image) :=
      ⟨fun taken => ⟨_, later, supplied, taken⟩,
        fun ⟨_, before, had, taken⟩ => (steady image _ _ _ before later had supplied).mp taken⟩
    obtain ⟨answer, more, rfl, here⟩ := insertModule_does rest
    refine ⟨?_, new ++ more, List.append_assoc .., fun file => ?_⟩
    · rw [answer, verdict]
      exact ⟨fun takes => ⟨could, takes⟩, And.right⟩
    · rw [given_append, offered, here]
      simp only [ModuleHost.From, and_or_left]
      rw [or_comm]
      refine or_congr_left ⟨?_, And.right⟩
      rintro rfl
      exact ⟨could, rfl⟩
  | false =>
    have not_could : ¬ host.Could start image := fun could => Bool.false_ne_true (all.mpr could)
    cases rest
    refine ⟨by simp [ModuleHost.Loads, not_could], new, rfl, fun file => ?_⟩
    rw [offered]
    simp only [ModuleHost.From, and_or_left]
    refine (or_iff_right ?_).symm
    rintro ⟨could, rfl⟩
    exact not_could could

/-- Entries that are not asked for offer nothing; the files of the others are tried one after
the other, whether they load or not. -/
theorem modprobeEntries_does (dir : Str) (modname : Option Str) (nodes : List DirEntry) (ret : Bool)
    (log : List Event) (behind : start <+: log) :
    CallDoes log (modprobeEntries host load dir modname nodes ret log)
      (ret = true ∨ ∃ file ∈ nodes.filterMap (·.wanted dir modname), host.Loads start file)
      fun other => host.Could start other.2 ∧
        ∃ file ∈ nodes.filterMap (·.wanted dir modname), host.From start file other := by
  induction nodes generalizing ret log with
  | nil =>
    rintro loaded log' ⟨⟩
    exact ⟨by simp, [], (List.append_nil log).symm, fun file => by simp [given_nil]⟩
  | cons node nodes ih =>
    intro loaded log' done
    obtain ⟨loaded₁, log₁, entry, rest⟩ := modprobeEntries_cons done
    obtain ⟨shown, same⟩ := modprobeEntry_eq dir modname node
    rw [same] at entry
    cases wanted : node.wanted dir modname with
    | none =>
      -- a text at most
      rw [wanted] at entry
      cases entry
      obtain ⟨result, new, rfl, offered⟩ := ih _ _ (behind.trans (List.prefix_append log _)) loaded log' rest
      refine ⟨by simpa [wanted] using result, shown.map .printed ++ new, List.append_assoc .., fun file => ?_⟩
      rw [given_append, offered]
      simp [given_shown, wanted]
    | some file =>
      rw [wanted] at entry
      obtain ⟨result₁, new₁, rfl, offered₁⟩ := modprobe_does calls steady keeps _ _ log behind loaded₁ log₁ entry
      obtain ⟨result, new, rfl, offered⟩ := ih _ _ (behind.trans (List.prefix_append log new₁)) loaded log' rest
      refine ⟨?_, new₁ ++ new, List.append_assoc .., fun other => ?_⟩
      · rw [result, Bool.or_eq_true, result₁]
        simp [wanted, or_assoc]
      · rw [given_append, offered₁, offered]
        simp [wanted, and_or_left]

/-- A search offers what the files come to that are asked for. -/
theorem modprobeDir_does (dir : Str) (nodes : Except Str (List DirEntry)) (modname : Option Str)
    (log : List Event) (behind : start <+: log) :
    CallDoes log (modprobeDir host load dir nodes modname log)
      (∃ file ∈ modulesIn dir nodes, (∀ m ∈ modname, m = file.1) ∧ host.Loads start file)
      fun other => host.Could start other.2 ∧
        ∃ file ∈ modulesIn dir nodes, (∀ m ∈ modname, m = file.1) ∧ host.From start file other := by
  cases nodes with
  | error reason =>
    rintro loaded log' ⟨⟩
    exact ⟨by simp [modulesIn], _, rfl, fun file => iff_of_false (given_shown file [_]) (by simp [modulesIn])⟩
  | ok nodes =>
    have entries := modprobeEntries_does calls steady keeps dir modname nodes false log behind
    simp only [mem_wanted, and_assoc, Bool.false_eq_true, false_or] at entries
    exact entries

end

theorem ModuleHost.files_iff {host : ModuleHost} {file : Str × Image} :
    file ∈ host.files ↔ file ∈ host.initramfsFiles ∨ file ∈ host.diskFiles := List.mem_append

section
variable {host : ModuleHost} {start : List Event} {modname : Option Str} {file : Str × Image}

/-- A module of the initramfs that loads is the end of the search. -/
theorem ModuleHost.tried_early {first : Str × Image} (member : first ∈ host.initramfsFiles)
    (asked : ∀ m ∈ modname, m = first.1) (loads : host.Loads start first) :
    host.Tried start modname file ↔ file ∈ host.initramfsFiles ∧ ∀ m ∈ modname, m = file.1 := by
  constructor
  · rintro ⟨asked', here | ⟨-, none⟩⟩
    · exact ⟨here, asked'⟩
    · exact absurd loads (none first member asked)
  · exact fun ⟨here, asked'⟩ => ⟨asked', .inl here⟩

theorem ModuleHost.tried_both
    (none : ∀ other ∈ host.initramfsFiles, (∀ m ∈ modname, m = other.1) → ¬ host.Loads start other) :
    host.Tried start modname file ↔
      (file ∈ host.initramfsFiles ∧ ∀ m ∈ modname, m = file.1) ∨
        file ∈ host.diskFiles ∧ ∀ m ∈ modname, m = file.1 := by
  constructor
  · rintro ⟨asked, here | ⟨here, -⟩⟩
    · exact .inl ⟨here, asked⟩
    · exact .inr ⟨here, asked⟩
  · rintro (⟨here, asked⟩ | ⟨here, asked⟩)
    · exact ⟨asked, .inl here⟩
    · exact ⟨asked, .inr ⟨here, none⟩⟩

end

/-- One call, when those it makes do what they should: the initramfs is searched, and the boot
disk behind it if nothing there loads. -/
theorem loadKmod_does_succ {host : ModuleHost} {start : List Event} {fuel : Nat}
    (calls : ∀ dep log, start <+: log → CallDoes log (loadKmod host fuel (some dep) log) (host.Works start dep)
      fun file => host.Could start file.2 ∧ host.Visits start dep file) (steady : host.Steady start)
    (modname : Option Str) (log : List Event) (behind : start <+: log) :
    CallDoes log (loadKmod host (fuel + 1) modname log)
      (∃ file ∈ host.files, (∀ m ∈ modname, m = file.1) ∧ host.Loads start file)
      fun other => host.Could start other.2 ∧ ∃ file, host.Tried start modname file ∧ host.From start file other := by
  intro loaded log' done
  have keeps (dep : Str) (log : List Event) :
      Keeps log (loadKmod host fuel (some dep) log) (Accepted dep) := (loadKmod_keeps host fuel (some dep) log).named
  obtain ⟨loaded₁, log₁, first, rest⟩ := loadKmod_succ done
  obtain ⟨result₁, new₁, rfl, offered₁⟩ := modprobeDir_does calls steady keeps _ _ _ _ behind _ _ first
  cases loaded₁ with
  | true =>
    -- the early return
    cases rest
    obtain ⟨file, member, asked, loads⟩ := result₁.mp rfl
    refine ⟨iff_of_true rfl ⟨file, ModuleHost.files_iff.mpr (.inl member), asked, loads⟩, new₁, rfl, fun other => ?_⟩
    rw [offered₁]
    refine and_congr_right fun _ => exists_congr fun f => ?_
    rw [ModuleHost.tried_early member asked loads, and_assoc]
    rfl
  | false =>
    have none : ∀ other ∈ host.initramfsFiles, (∀ m ∈ modname, m = other.1) → ¬ host.Loads start other :=
      fun other member asked loads => Bool.false_ne_true (result₁.mpr ⟨other, member, asked, loads⟩)
    have success : (∃ file ∈ host.files, (∀ m ∈ modname, m = file.1) ∧ host.Loads start file) ↔
        ∃ file ∈ host.diskFiles, (∀ m ∈ modname, m = file.1) ∧ host.Loads start file := by
      refine exists_congr fun f => ?_
      rw [ModuleHost.files_iff, or_and_right, or_iff_right]
      exact fun ⟨here, asked, loads⟩ => none f here asked loads
    rw [success]
    simp only [ModuleHost.tried_both none, or_and_right, exists_or, and_or_left, and_assoc]
    by_cases searched : host.diskSearched = true
    · rw [if_pos (by simp [searched])] at rest
      obtain ⟨result, new, rfl, offered⟩ := modprobeDir_does calls steady keeps _ _ _ _
        (behind.trans (List.prefix_append log new₁)) _ _ rest
      have disk : host.diskFiles = modulesIn diskModules host.disk := if_pos searched
      rw [disk]
      refine ⟨result, new₁ ++ new, List.append_assoc .., fun other => ?_⟩
      rw [given_append, offered₁, offered]
      rfl
    · rw [if_neg (by simp [searched])] at rest
      cases rest
      have disk : host.diskFiles = [] := if_neg searched
      rw [disk]
      refine ⟨by simp, new₁, rfl, fun other => ?_⟩
      rw [offered₁]
      simp only [List.not_mem_nil, false_and, exists_false, and_false, or_false]
      rfl

/-- By induction on the fuel: a call for a name tells whether the module can be loaded, and
offers what the search for it comes to. -/
theorem loadKmod_does {host : ModuleHost} {start : List Event} (steady : host.Steady start) (fuel : Nat)
    (name : Str) (log : List Event) (behind : start <+: log) :
    CallDoes log (loadKmod host fuel (some name) log) (host.Works start name)
      fun file => host.Could start file.2 ∧ host.Visits start name file := by
  induction fuel generalizing name log with
  | zero =>
    intro loaded log' done
    cases done
  | succ fuel ih =>
    have step := loadKmod_does_succ ih steady (some name) log behind
    have works : (∃ file ∈ host.files, (∀ m ∈ some name, m = file.1) ∧ host.Loads start file) ↔
        host.Works start name := by
      rw [ModuleHost.works_iff]
      constructor
      · rintro ⟨⟨_, image⟩, found, asked, loads⟩
        obtain rfl := asked name rfl
        exact ⟨image, found, loads⟩
      · rintro ⟨image, found, loads⟩
        exact ⟨(name, image), found, by simp, loads⟩
    have visits (other : Str × Image) :
        (∃ file, host.Tried start (some name) file ∧ host.From start file other) ↔ host.Visits start name other := by
      constructor
      · rintro ⟨file, tried, rfl | ⟨dep, brings, visits⟩⟩
        · exact .file tried
        · exact .dependency tried brings visits
      · intro visits
        cases visits with
        | file tried => exact ⟨_, tried, .inl rfl⟩
        | dependency tried brings visits => exact ⟨_, tried, .inr ⟨_, brings, visits⟩⟩
    simp only [works, visits] at step
    exact step

/-- After a call of `load_kmod` without a name that returns, every module has had its chance
exactly if the directories are such that the early return leaves nothing out. -/
theorem everyModuleOffered_iff (host : ModuleHost) (start : List Event) (steady : host.Steady start)
    (fuel : Nat) (loaded : Bool) (log : List Event) (done : loadKmod host fuel none start = (.done loaded, log)) :
    EveryModuleOffered host start log ↔ ScanComplete host start := by
  cases fuel with
  | zero => cases done
  | succ fuel =>
    obtain ⟨-, new, rfl, offered⟩ :=
      loadKmod_does_succ (loadKmod_does steady fuel) steady none start List.prefix_rfl loaded log done
    have all : EveryModuleOffered host start (start ++ new) ↔ ∀ file ∈ host.initramfsFiles ++ host.diskFiles,
        host.Could start file.2 → GivenToKernel file start ∨
          ∃ first, host.Tried start none first ∧ host.From start first file := by
      refine forall₂_congr fun file _ => forall_congr' fun could => ?_
      rw [given_append, offered]
      simp only [could, true_and]
    rw [all, ScanComplete]
    by_cases none : ∀ file ∈ host.initramfsFiles, ¬ host.Loads start file
    · -- both directories are searched
      have both := fun file member (_ : ∀ m ∈ (Option.none : Option Str), m = file.1) => none file member
      refine iff_of_true (fun file member _ => .inr ⟨file, (ModuleHost.tried_both both).mpr ?_, .inl rfl⟩) (.inl none)
      exact (List.mem_append.mp member).imp (⟨·, by simp⟩) (⟨·, by simp⟩)
    · -- the early return
      obtain ⟨first, listed, loads⟩ : ∃ first ∈ host.initramfsFiles, host.Loads start first := by
        push Not at none
        exact none
      have early (file : Str × Image) : host.Tried start Option.none file ↔ file ∈ host.initramfsFiles := by
        rw [ModuleHost.tried_early listed (by simp) loads]
        exact and_iff_left (by simp)
      rw [or_iff_right none]
      simp only [early]
      constructor
      · exact fun offered file member => offered file (List.mem_append_right _ member)
      · intro disk file member could
        rcases List.mem_append.mp member with here | there
        · exact .inr ⟨file, here, .inl rfl⟩
        · exact disk file there could

/-- A module file with this `.modinfo`. -/
def moduleFile (name modinfo : Str) : DirEntry :=
  ⟨name, .ok S_IFREG, .ok (), .ok (some (modinfo, modinfo.length))⟩

/-- One module in each directory, and a kernel that takes everything. -/
def twoModules (first second : DirEntry) : ModuleHost :=
  ⟨.ok [first], true, true, .ok [second], [], fun _ _ _ => 0, fun _ => []⟩

/-- The module of the initramfs needs the one on the boot disk. -/
theorem everyModuleOffered_iff_needed :
    let host := twoModules (moduleFile (bytes "a.ko") (bytes "depends=b\x00")) (moduleFile (bytes "b.ko") [])
    EveryModuleOffered host [] (loadKmod host 3 none []).2 := by
  intro host
  refine (everyModuleOffered_iff host [] (fun _ _ _ _ _ _ _ _ => Iff.rfl) 3 true _ (Prod.ext (by decide) rfl)).mpr
    (.inr fun file member _ => .inr ?_)
  have initramfs : host.initramfsFiles =
      [(bytes "a", ⟨bytes "(nojail,rootfs)/modules//a.ko", some (bytes "depends=b\x00", 10)⟩)] := by decide
  have disk : host.diskFiles = [(bytes "b", ⟨bytes "/modules//b.ko", some ([], 0)⟩)] := by decide
  rw [disk, List.mem_singleton] at member
  subst member
  refine ⟨_, initramfs ▸ List.mem_singleton_self _, .inr ⟨bytes "b", ⟨[], [], by decide, by simp⟩, .file ?_⟩⟩
  -- the initramfs has no file of that name
  refine ⟨by simp, .inr ⟨disk ▸ List.mem_singleton_self _, fun other member asked => ?_⟩⟩
  rw [initramfs, List.mem_singleton] at member
  subst member
  exact absurd (asked _ rfl) (by decide)

/-- The kernel takes a module of the initramfs, and the one on the boot disk is never
offered to it. -/
theorem disk_module_skipped :
    ¬ ∀ (host : ModuleHost) (start : List Event) (fuel : Nat) (loaded : Bool) (log : List Event),
      host.bootDisk = true → host.Steady start → loadKmod host fuel none start = (.done loaded, log) →
      EveryModuleOffered host start log := by
  intro claim
  let host := twoModules (moduleFile (bytes "a.ko") []) (moduleFile (bytes "b.ko") [])
  have offered := claim host [] 1 true (loadKmod host 1 none []).2 rfl (fun _ _ _ _ _ _ _ _ => Iff.rfl)
    (Prod.ext (by decide) rfl) (bytes "b", ⟨bytes "/modules//b.ko", some ([], 0)⟩) (by decide)
    (by simp [ModuleHost.Could, Image.depends, dependsEntry])
  have log : (loadKmod host 1 none []).2 =
      [.initModule (bytes "a") ⟨bytes "(nojail,rootfs)/modules//a.ko", some ([], 0)⟩ [] 0] := by decide
  rw [log] at offered
  obtain ⟨args, errno, member⟩ := offered
  simp only [List.mem_singleton, Event.initModule.injEq] at member
  exact absurd member.1 (by decide)

end KexecLoader
