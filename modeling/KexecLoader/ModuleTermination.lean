import KexecLoader.ModuleCalls

/-!
# Whether module loading ends

When the calls are bounded they end, whatever the kernel answers. When they are not,
answers can be chosen that lead around the cycle: the kernel refuses the files of the
first directory where the call is made by a file of the second, and accepts what is
loaded in front of the call. The log grows, so that the answers can be chosen piece
by piece.
-/
namespace KexecLoader

/-- What the kernel answers. -/
abbrev KernelAnswers := List Event → Image → Str → Nat

/-- The same answers on the logs with this many events. -/
def AgreeOn (a b : KernelAnswers) (start stop : Nat) : Prop :=
  ∀ log, start ≤ log.length → log.length < stop → a log = b log

theorem AgreeOn.part {a b : KernelAnswers} {start stop start' stop' : Nat} (agree : AgreeOn a b start stop)
    (later : start ≤ start') (earlier : stop' ≤ stop) : AgreeOn a b start' stop' :=
  fun log from_here upto => agree log (by omega) (by omega)

/-! ### Runs that get the same answers -/

/-- Two calls that both end, and get the same answers in the first one, are the same. -/
def Twin (a b : KernelAnswers) (log : List Event) (r r' : Status × List Event) : Prop :=
  ∀ loaded₁ log₁ loaded₂ log₂, r = (.done loaded₁, log₁) → r' = (.done loaded₂, log₂) →
    AgreeOn a b log.length log₁.length → loaded₁ = loaded₂ ∧ log₁ = log₂

theorem Keeps.grown {log : List Event} {r : Status × List Event} {loaded : List Event → Prop}
    (keeps : Keeps log r loaded) : log.length ≤ r.2.length := by
  obtain ⟨new, grown, -⟩ := keeps
  rw [grown, List.length_append]
  omega

section
variable {host : ModuleHost} {a b : KernelAnswers} {load load' : Load}
  (grows : ∀ dep log, Keeps log (load dep log) (Accepted dep))
  (twins : ∀ dep log, Twin a b log (load dep log) (load' dep log))
include grows twins

theorem loadDeps_twin (name : Str) (image : Image) (deps : List Str) (log : List Event) :
    Twin a b log (loadDeps load name image deps log) (loadDeps load' name image deps log) := by
  induction deps generalizing log with
  | nil =>
    intro _ _ _ _ first second _
    rw [loadDeps] at first second
    cases first
    cases second
    exact ⟨rfl, rfl⟩
  | cons dep deps ih =>
    intro loaded₁ log₁ loaded₂ log₂ first second agree
    obtain ⟨-, here₁, mid₁, call₁, rest₁⟩ := loadDeps_cons first
    obtain ⟨-, here₂, mid₂, call₂, rest₂⟩ := loadDeps_cons second
    have start : log.length ≤ mid₁.length := by simpa [call₁] using (grows dep log).grown
    have stop : mid₁.length ≤ log₁.length := by
      cases here₁ with
      | true =>
        have grown := (loadDeps_keeps grows name image deps mid₁).grown
        simp only [if_true] at rest₁
        rwa [rest₁] at grown
      | false =>
        simp only [Bool.false_eq_true, if_false, Prod.mk.injEq] at rest₁
        rw [← rest₁.2, List.length_append]
        omega
    obtain ⟨rfl, rfl⟩ := twins dep log _ _ _ _ call₁ call₂ (agree.part (Nat.le_refl _) stop)
    cases here₁ with
    | true => exact ih mid₁ _ _ _ _ rest₁ rest₂ (agree.part start (Nat.le_refl _))
    | false =>
      simp only [Bool.false_eq_true, if_false] at rest₁ rest₂
      rw [rest₁] at rest₂
      cases rest₂
      exact ⟨rfl, rfl⟩

theorem modprobe_twin (name : Str) (image : Image) (log : List Event) :
    Twin a b log (modprobe (host.answering a) load name image log)
      (modprobe (host.answering b) load' name image log) := by
  intro loaded₁ log₁ loaded₂ log₂ first second agree
  obtain ⟨here₁, mid₁, deps₁, rest₁⟩ := modprobe_done first
  obtain ⟨here₂, mid₂, deps₂, rest₂⟩ := modprobe_done second
  have start : log.length ≤ mid₁.length := by
    simpa [deps₁] using (loadDeps_keeps grows name image image.depends log).grown
  have stop : mid₁.length ≤ log₁.length ∧ (here₁ = true → mid₁.length < log₁.length) := by
    cases here₁ with
    | true =>
      obtain ⟨loaded, log', inserted, longer, -⟩ := insertModule_done (host.answering a) name image mid₁
      simp only [if_true] at rest₁
      rw [rest₁] at inserted
      cases inserted
      exact ⟨Nat.le_of_lt longer, fun _ => longer⟩
    | false =>
      cases rest₁
      exact ⟨Nat.le_refl _, by simp⟩
  obtain ⟨rfl, rfl⟩ := loadDeps_twin grows twins name image image.depends log _ _ _ _ deps₁ deps₂
    (agree.part (Nat.le_refl _) stop.1)
  cases here₁ with
  | true =>
    -- the kernel is asked at a log on which the answers agree
    have same : insertModule (host.answering a) name image mid₁ =
        insertModule (host.answering b) name image mid₁ := by
      have answer : (host.answering a).initModule mid₁ = (host.answering b).initModule mid₁ :=
        agree mid₁ start (stop.2 rfl)
      unfold insertModule
      rw [answer]
      rfl
    simp only [if_true] at rest₁ rest₂
    rw [← same, rest₁] at rest₂
    cases rest₂
    exact ⟨rfl, rfl⟩
  | false =>
    simp only [Bool.false_eq_true, if_false] at rest₁ rest₂
    rw [rest₁] at rest₂
    cases rest₂
    exact ⟨rfl, rfl⟩

variable (dir : Str) (modname : Option Str)

theorem modprobeEntry_twin (node : DirEntry) (log : List Event) :
    Twin a b log (modprobeEntry (host.answering a) load dir modname node log)
      (modprobeEntry (host.answering b) load' dir modname node log) := by
  obtain ⟨shown, same⟩ := modprobeEntry_eq dir modname node
  rw [same, same]
  cases node.wanted dir modname with
  | some file => exact modprobe_twin grows twins file.1 file.2 log
  | none =>
    intro _ _ _ _ first second _
    cases first
    cases second
    exact ⟨rfl, rfl⟩

theorem modprobeEntries_twin (nodes : List DirEntry) (ret : Bool) (log : List Event) :
    Twin a b log (modprobeEntries (host.answering a) load dir modname nodes ret log)
      (modprobeEntries (host.answering b) load' dir modname nodes ret log) := by
  induction nodes generalizing ret log with
  | nil =>
    intro _ _ _ _ first second _
    rw [modprobeEntries] at first second
    cases first
    cases second
    exact ⟨rfl, rfl⟩
  | cons node nodes ih =>
    intro loaded₁ log₁ loaded₂ log₂ first second agree
    obtain ⟨here₁, mid₁, entry₁, rest₁⟩ := modprobeEntries_cons first
    obtain ⟨here₂, mid₂, entry₂, rest₂⟩ := modprobeEntries_cons second
    have start := (modprobeEntry_keeps (host.answering a) grows dir modname node log).grown
    have stop := (modprobeEntries_keeps (host.answering a) grows dir modname nodes (ret || here₁)
      mid₁).grown
    rw [entry₁] at start
    rw [rest₁] at stop
    obtain ⟨rfl, rfl⟩ := modprobeEntry_twin grows twins dir modname node log _ _ _ _ entry₁ entry₂
      (agree.part (Nat.le_refl _) stop)
    exact ih _ mid₁ _ _ _ _ rest₁ rest₂ (agree.part start (Nat.le_refl _))

theorem modprobeDir_twin (nodes : Except Str (List DirEntry)) (log : List Event) :
    Twin a b log (modprobeDir (host.answering a) load dir nodes modname log)
      (modprobeDir (host.answering b) load' dir nodes modname log) := by
  cases nodes with
  | error reason =>
    intro _ _ _ _ first second _
    cases first
    cases second
    exact ⟨rfl, rfl⟩
  | ok nodes => exact modprobeEntries_twin grows twins dir modname nodes false log

end

theorem load_keeps (host : ModuleHost) (fuel : Nat) (dep : Str) (log : List Event) :
    Keeps log (loadKmod host fuel (some dep) log) (Accepted dep) :=
  (loadKmod_keeps host fuel (some dep) log).named

/-- The fuel makes no difference to a call that ends, nor do answers that are not asked for. -/
theorem loadKmod_twin {host : ModuleHost} {a b : KernelAnswers} (fuel fuel' : Nat) (module : Option Str)
    (log : List Event) : Twin a b log (loadKmod (host.answering a) fuel module log)
      (loadKmod (host.answering b) fuel' module log) := by
  induction fuel generalizing fuel' module log with
  | zero =>
    intro _ _ _ _ first
    cases first
  | succ fuel ih =>
    cases fuel' with
    | zero =>
      intro _ _ _ _ _ second
      cases second
    | succ fuel' =>
      intro loaded₁ log₁ loaded₂ log₂ first second agree
      have grows := load_keeps (host.answering a) fuel
      have twins (dep : Str) (log : List Event) := ih fuel' (some dep) log
      obtain ⟨here₁, mid₁, dir₁, rest₁⟩ := loadKmod_succ first
      obtain ⟨here₂, mid₂, dir₂, rest₂⟩ := loadKmod_succ second
      have start := (modprobeDir_keeps (host.answering a) grows initramfsModules module
        host.initramfs log).grown
      -- both directories together ask no further than the whole call, where the answers agree
      have stop : mid₁.length ≤ log₁.length := by
        split at rest₁
        next =>
          have grown := (modprobeDir_keeps (host.answering a) grows diskModules module
            host.disk mid₁).grown
          rwa [show modprobeDir (host.answering a) _ diskModules host.disk module mid₁ = _ from rest₁]
            at grown
        next =>
          cases rest₁
          exact Nat.le_refl _
      rw [show modprobeDir (host.answering a) _ initramfsModules host.initramfs module log = _
        from dir₁] at start
      obtain ⟨rfl, rfl⟩ := modprobeDir_twin grows twins initramfsModules module host.initramfs log
        _ _ _ _ dir₁ dir₂ (agree.part (Nat.le_refl _) stop)
      have searched : (host.answering a).diskSearched = (host.answering b).diskSearched := rfl
      rw [← searched] at rest₂
      split at rest₁
      next disk =>
        rw [if_pos disk] at rest₂
        exact modprobeDir_twin grows twins diskModules module host.disk mid₁ _ _ _ _ rest₁ rest₂
          (agree.part start (Nat.le_refl _))
      next no_disk =>
        rw [if_neg no_disk, rest₁] at rest₂
        cases rest₂
        exact ⟨rfl, rfl⟩

/-! ### Runs in which the kernel accepts all modules -/

/-- From this many events on the kernel accepts every module. -/
def Accepts (a : KernelAnswers) (start : Nat) : Prop :=
  ∀ log, start ≤ log.length → a log = fun _ _ => 0

section
variable {host : ModuleHost} {load : Load} {start : Nat}
  (grows : ∀ dep log, Keeps log (load dep log) (Accepted dep))

/-- Every call for the module that ends is a success. -/
def Succeeds (load : Load) (start : Nat) (dep : Str) : Prop :=
  ∀ log loaded log', start ≤ log.length → load dep log = (.done loaded, log') → loaded = true

include grows in
theorem loadDeps_accepted {name : Str} {image : Image} {front : List Str} (deps : List Str)
    (succeed : ∀ dep ∈ front, Succeeds load start dep) {log log' : List Event} {loaded : Bool}
    (late : start ≤ log.length)
    (done : loadDeps load name image (front ++ deps) log = (.done loaded, log')) :
    ∃ mid, LoadedAll load front log mid ∧ log.length ≤ mid.length ∧
      loadDeps load name image deps mid = (.done loaded, log') := by
  induction front generalizing log with
  | nil => exact ⟨log, .nil log, Nat.le_refl _, done⟩
  | cons dep front ih =>
    obtain ⟨fits, here, mid, call, rest⟩ := loadDeps_cons done
    obtain rfl := succeed dep (.head _) log here mid late call
    have grown : log.length ≤ mid.length := by simpa [call] using (grows dep log).grown
    obtain ⟨mid', all, longer, rest⟩ := ih (fun other member => succeed other (.tail _ member))
      (late.trans grown) rest
    exact ⟨mid', .cons dep front log mid mid' fits call all, grown.trans longer, rest⟩

include grows in
theorem modprobe_accepted {name : Str} {image : Image}
    (accepts : Accepts host.initModule start)
    (succeed : ∀ dep ∈ image.depends, Succeeds load start dep) {log log' : List Event}
    {loaded : Bool} (late : start ≤ log.length)
    (done : modprobe host load name image log = (.done loaded, log')) : loaded = true := by
  obtain ⟨here, mid, deps, rest⟩ := modprobe_done done
  rw [← List.append_nil image.depends] at deps
  obtain ⟨mid', -, longer, last⟩ := loadDeps_accepted grows [] succeed late deps
  rw [loadDeps] at last
  cases last
  obtain ⟨loaded', log₁, inserted, -, answer⟩ := insertModule_done host name image mid
  simp only [if_true] at rest
  rw [rest] at inserted
  cases inserted
  exact answer.mpr (.inl (by rw [accepts mid (late.trans longer)]))

include grows in
theorem modprobeDir_accepted {dir : Str} {nodes : Except Str (List DirEntry)} {name : Str}
    {image : Image} (file : (name, image) ∈ modulesIn dir nodes)
    (success : ∀ log loaded log', start ≤ log.length →
      modprobe host load name image log = (.done loaded, log') → loaded = true)
    {log log' : List Event} {loaded : Bool} (late : start ≤ log.length)
    (done : modprobeDir host load dir nodes (some name) log = (.done loaded, log')) :
    loaded = true := by
  cases nodes with
  | error reason => cases file
  | ok nodes =>
    obtain ⟨node, member, module⟩ := List.mem_filterMap.mp file
    have wanted : node.wanted dir (some name) = some (name, image) := by
      simp [DirEntry.wanted, module]
    -- on the entries: the one for the file comes, or has come
    have entries (nodes : List DirEntry) (ret : Bool) (log : List Event)
        (late : start ≤ log.length) (there : ret = true ∨ node ∈ nodes)
        (done : modprobeEntries host load dir (some name) nodes ret log = (.done loaded, log')) :
        loaded = true := by
      induction nodes generalizing ret log with
      | nil =>
        cases done
        simpa using there
      | cons other nodes ih =>
        obtain ⟨here, mid, entry, rest⟩ := modprobeEntries_cons done
        have grown := (modprobeEntry_keeps host grows dir (some name) other log).grown
        rw [entry] at grown
        refine ih _ mid (late.trans grown) ?_ rest
        obtain rfl | there := there
        · exact .inl (Bool.true_or _)
        · obtain rfl | later := List.mem_cons.mp there
          · obtain ⟨shown, same⟩ := modprobeEntry_eq dir (some name) node
            rw [same, wanted] at entry
            exact .inl (by rw [success log here mid late entry, Bool.or_true])
          · exact .inr later
    exact entries nodes false log late (.inr member) done

end

/-- A module that can be loaded is loaded, if the kernel accepts what it is offered. -/
theorem loadKmod_accepted {host : ModuleHost} {start : Nat} (accepts : Accepts host.initModule start)
    {name : Str} (loadable : host.Loadable name) (fuel : Nat) :
    Succeeds (fun dep => loadKmod host fuel (some dep)) start name := by
  induction loadable generalizing fuel with
  | @file name image found fits deps ih =>
    intro log loaded log' late done
    cases fuel with
    | zero => cases done
    | succ fuel =>
      have grows := load_keeps host fuel
      obtain ⟨here, mid, first, rest⟩ := loadKmod_succ done
      have success : ∀ log loaded log', start ≤ log.length →
          modprobe host (fun dep => loadKmod host fuel (some dep)) name image log =
            (.done loaded, log') → loaded = true := fun log loaded log' late done =>
        modprobe_accepted grows accepts (fun dep member => ih dep member fuel) late done
      obtain initramfs | ⟨disk, file⟩ := ModuleHost.mem_files.mp found
      · obtain rfl := modprobeDir_accepted grows initramfs success late first
        simp only [Bool.not_true, Bool.false_and, Bool.false_eq_true, if_false] at rest
        cases rest
        rfl
      · cases here with
        | true =>
          simp only [Bool.not_true, Bool.false_and, Bool.false_eq_true, if_false] at rest
          cases rest
          rfl
        | false =>
          have grown := (modprobeDir_keeps host grows initramfsModules (some name) host.initramfs
            log).grown
          rw [first] at grown
          simp only [Bool.not_false, disk, Bool.and_true, if_true] at rest
          exact modprobeDir_accepted grows file success (late.trans grown) rest

/-- A kernel that refuses everything: nothing is loaded. -/
theorem modprobeDir_refused {host : ModuleHost} {load : Load} {dir : Str}
    {nodes : Except Str (List DirEntry)} {modname : Option Str} {log log' : List Event}
    {loaded : Bool} (done : modprobeDir (host.answering fun _ _ _ => 1) load dir nodes modname log =
      (.done loaded, log')) : loaded = false := by
  cases loaded with
  | false => rfl
  | true =>
    obtain ⟨name, image, -, -, log₁, log₂, success⟩ := modprobeDir_loaded done
    obtain ⟨here, mid, -, rest⟩ := modprobe_done success
    cases here with
    | false => cases rest
    | true =>
      obtain ⟨loaded, log', inserted, -, answer⟩ :=
        insertModule_done (host.answering fun _ _ _ => 1) name image mid
      simp only [if_true] at rest
      rw [rest] at inserted
      cases inserted
      have good : 1 = 0 ∨ 1 = EEXIST := answer.mp rfl
      exact absurd good (by decide)

/-! ### Following a call -/

theorem modprobeEntries_append {host : ModuleHost} {load : Load} {dir : Str} {modname : Option Str}
    (front back : List DirEntry) {ret loaded : Bool} {log log' : List Event}
    (done : modprobeEntries host load dir modname (front ++ back) ret log = (.done loaded, log')) :
    ∃ ret' mid, modprobeEntries host load dir modname front ret log = (.done ret', mid) ∧
      modprobeEntries host load dir modname back ret' mid = (.done loaded, log') := by
  induction front generalizing ret log with
  | nil => exact ⟨ret, log, rfl, done⟩
  | cons node front ih =>
    obtain ⟨here, mid, entry, rest⟩ := modprobeEntries_cons done
    obtain ⟨ret', mid', first, last⟩ := ih rest
    exact ⟨ret', mid', by rw [modprobeEntries, entry]; exact first, last⟩

/-- Another run with the same answers comes through the same dependencies. -/
theorem loadedAll_twin {a b : KernelAnswers} {load load' : Load} {name : Str} {image : Image}
    (grows : ∀ dep log, Keeps log (load dep log) (Accepted dep))
    (twins : ∀ dep log, Twin a b log (load dep log) (load' dep log)) {front deps : List Str}
    {log mid log' : List Event} {loaded : Bool} (all : LoadedAll load front log mid)
    (agree : AgreeOn a b log.length mid.length)
    (done : loadDeps load' name image (front ++ deps) log = (.done loaded, log')) :
    loadDeps load' name image deps mid = (.done loaded, log') := by
  have longer {front : List Str} {log mid : List Event} (all : LoadedAll load front log mid) :
      log.length ≤ mid.length := by
    induction all with
    | nil => exact Nat.le_refl _
    | cons dep front log mid log'' fits call _ ih =>
      have grown := (grows dep log).grown
      rw [call] at grown
      exact grown.trans ih
  induction all with
  | nil => exact done
  | cons dep front log mid log'' fits call later ih =>
    obtain ⟨-, here, mid', call', rest⟩ := loadDeps_cons done
    have grown := (grows dep log).grown
    rw [call] at grown
    obtain ⟨rfl, rfl⟩ := twins dep log _ _ _ _ call call'
      (agree.part (Nat.le_refl _) (longer later))
    exact ih (agree.part grown (Nat.le_refl _)) rest

section
variable {host : ModuleHost} {name dep : Str} {image : Image} {before after : List Str}
  (split : image.depends = before ++ dep :: after) (loadable : ∀ d ∈ before, host.Loadable d)
include split loadable

/-- Where the call for the dependency is made when the kernel accepts what comes
before; with the same answers up to there, it is made in every run. -/
theorem modprobeDir_calls {a : KernelAnswers} {fuel : Nat} {dir : Str}
    {nodes : Except Str (List DirEntry)} (file : (name, image) ∈ modulesIn dir nodes)
    {log : List Event} (accepts : Accepts a log.length)
    (ends : Done (modprobeDir (host.answering a)
      (fun dep => loadKmod (host.answering a) fuel (some dep)) dir nodes (some name) log)) :
    ∃ mid : List Event, log.length ≤ mid.length ∧
      ∀ b : KernelAnswers, AgreeOn a b log.length mid.length → ∀ fuel',
        Done (modprobeDir (host.answering b)
          (fun dep => loadKmod (host.answering b) fuel' (some dep)) dir nodes (some name) log) →
        dep.length < 256 ∧ Done (loadKmod (host.answering b) fuel' (some dep) mid) := by
  cases nodes with
  | error reason => cases file
  | ok nodes =>
    obtain ⟨node, member, module⟩ := List.mem_filterMap.mp file
    obtain ⟨front, back, rfl⟩ := List.append_of_mem member
    have wanted : node.wanted dir (some name) = some (name, image) := by
      simp [DirEntry.wanted, module]
    obtain ⟨shown, same⟩ := modprobeEntry_eq dir (some name) node
    have grows := load_keeps (host.answering a) fuel
    -- the run in which the kernel accepts everything, up to the call
    obtain ⟨loaded, log', run⟩ := ends
    obtain ⟨ret, here, entries, rest⟩ := modprobeEntries_append front (node :: back) run
    obtain ⟨_, _, entry, -⟩ := modprobeEntries_cons rest
    rw [same, wanted] at entry
    obtain ⟨_, _, deps, -⟩ := modprobe_done entry
    rw [split] at deps
    have to_here := (modprobeEntries_keeps (host.answering a) grows dir (some name) front false
      log).grown
    rw [entries] at to_here
    have succeed : ∀ d ∈ before, Succeeds
        (fun dep => loadKmod (host.answering a) fuel (some dep)) log.length d := fun d member =>
      loadKmod_accepted accepts ((ModuleHost.loadable_answering a d).mpr (loadable d member)) fuel
    obtain ⟨mid, all, from_here, -⟩ := loadDeps_accepted grows (dep :: after) succeed to_here deps
    refine ⟨mid, to_here.trans from_here, fun b agree fuel' ends => ?_⟩
    -- the other run is the same up to there
    have twins (dep : Str) (log : List Event) := @loadKmod_twin host a b fuel fuel' (some dep) log
    obtain ⟨loaded, log', run⟩ := ends
    obtain ⟨ret', here', entries', rest⟩ := modprobeEntries_append front (node :: back) run
    obtain ⟨-, rfl⟩ := modprobeEntries_twin grows twins dir (some name) front false log _ _ _ _
      entries entries' (agree.part (Nat.le_refl _) from_here)
    obtain ⟨_, _, entry, -⟩ := modprobeEntries_cons rest
    rw [same, wanted] at entry
    obtain ⟨_, _, deps, -⟩ := modprobe_done entry
    rw [split] at deps
    obtain ⟨fits, loaded, log', call, -⟩ := loadDeps_cons
      (loadedAll_twin grows twins all (agree.part to_here (Nat.le_refl _)) deps)
    exact ⟨fits, loaded, log', call⟩

end

/-- Refuses everything up to this number of events, and accepts everything then. -/
def refuseUpTo (n : Nat) : KernelAnswers := fun log _ _ => if log.length < n then 1 else 0

theorem refuseUpTo_refuses {n start : Nat} : AgreeOn (fun _ _ _ => 1) (refuseUpTo n) start n := by
  intro log _ early
  funext _ _
  exact (if_pos early).symm

theorem refuseUpTo_accepts (n : Nat) : Accepts (refuseUpTo n) n := by
  intro log late
  funext _ _
  exact if_neg (by omega)

namespace ModuleHost

variable {host : ModuleHost}

/-- A call that can be made is made, if the kernel refuses for a while and accepts
then; and it ends with less fuel. -/
theorem Calls.followed (terminates : host.Terminates) {name dep : Str}
    (calls : host.Calls name dep) (log : List Event) :
    ∃ turn mid : List Event, log.length ≤ turn.length ∧ turn.length ≤ mid.length ∧
      ∀ a : KernelAnswers, AgreeOn (fun _ _ _ => 1) a log.length turn.length →
        AgreeOn (fun _ _ _ => 0) a turn.length mid.length → ∀ fuel,
          Done (loadKmod (host.answering a) (fuel + 1) (some name) log) →
          dep.length < 256 ∧ Done (loadKmod (host.answering a) fuel (some dep) mid) := by
  obtain ⟨image, before, after, found, split, front⟩ := calls
  have loadable : ∀ d ∈ before, host.Loadable d := fun d member => (front d member).2
  obtain initramfs | ⟨disk, file⟩ := mem_files.mp found
  · -- the first directory: the kernel accepts from the start
    obtain ⟨fuel, loaded, log', run⟩ := terminates (fun _ _ _ => 0) (some name) log
    cases fuel with
    | zero => cases run
    | succ fuel =>
      obtain ⟨_, _, first, -⟩ := loadKmod_succ run
      obtain ⟨mid, longer, reached⟩ := modprobeDir_calls split loadable initramfs
        (fun _ _ => rfl) ⟨_, _, first⟩
      refine ⟨log, mid, Nat.le_refl _, longer, fun a _ accepts fuel' ends => ?_⟩
      obtain ⟨loaded, log', run⟩ := ends
      obtain ⟨_, _, first, -⟩ := loadKmod_succ run
      exact reached a accepts fuel' ⟨_, _, first⟩
  · -- the second directory: the kernel refuses what the first one has
    obtain ⟨fuel, loaded, log', run⟩ := terminates (fun _ _ _ => 1) (some name) log
    cases fuel with
    | zero => cases run
    | succ fuel =>
      obtain ⟨_, turn, refused, -⟩ := loadKmod_succ run
      obtain rfl := modprobeDir_refused refused
      have grows := load_keeps (host.answering fun _ _ _ => 1) fuel
      have longer := (modprobeDir_keeps (host.answering fun _ _ _ => 1) grows initramfsModules
        (some name) host.initramfs log).grown
      rw [show modprobeDir (host.answering fun _ _ _ => 1) _ initramfsModules host.initramfs
        (some name) log = _ from refused] at longer
      -- any run that gets these answers comes to the second directory there
      have second (a : KernelAnswers) (refuses : AgreeOn (fun _ _ _ => 1) a log.length turn.length)
          (fuel' : Nat) (ends : Done (loadKmod (host.answering a) (fuel' + 1) (some name) log)) :
          Done (modprobeDir (host.answering a)
            (fun dep => loadKmod (host.answering a) fuel' (some dep)) diskModules host.disk
            (some name) turn) := by
        obtain ⟨loaded, log', run⟩ := ends
        obtain ⟨_, turn', first, rest⟩ := loadKmod_succ run
        obtain ⟨rfl, rfl⟩ := modprobeDir_twin grows
          (fun dep log => @loadKmod_twin host _ a fuel fuel' (some dep) log) initramfsModules
          (some name) host.initramfs log _ _ _ _ refused first refuses
        have searched : (host.answering a).diskSearched = true := disk
        simp only [Bool.not_false, searched, Bool.and_true, if_true] at rest
        exact ⟨_, _, rest⟩
      obtain ⟨fuel₂, loaded₂, log₂, run₂⟩ :=
        terminates (refuseUpTo turn.length) (some name) log
      cases fuel₂ with
      | zero => cases run₂
      | succ fuel₂ =>
        obtain ⟨mid, further, reached⟩ := modprobeDir_calls split loadable file
          (refuseUpTo_accepts turn.length)
          (second _ refuseUpTo_refuses fuel₂ ⟨_, _, run₂⟩)
        refine ⟨turn, mid, longer, further, fun a refuses accepts fuel' ends => ?_⟩
        refine reached a (fun log late early => ?_) fuel' (second a refuses fuel' ends)
        rw [refuseUpTo_accepts turn.length log late]
        exact accepts log late early

theorem Terminates.fits (terminates : host.Terminates) {name dep : Str}
    (calls : host.Calls name dep) : dep.length < 256 := by
  obtain ⟨turn, mid, -, -, follow⟩ := calls.followed terminates []
  obtain ⟨fuel, loaded, log', run⟩ := terminates (refuseUpTo turn.length) (some name) []
  cases fuel with
  | zero => cases run
  | succ fuel =>
    refine (follow _ refuseUpTo_refuses (fun log late _ => ?_) fuel ⟨_, _, run⟩).1
    exact (refuseUpTo_accepts turn.length log late).symm

/-- The next call around a cycle. -/
theorem cycle_next {name : Str} (cycle : Relation.TransGen host.Calls name name) :
    ∃ dep, host.Calls name dep ∧ Relation.TransGen host.Calls dep dep := by
  obtain ⟨dep, calls, back⟩ := Relation.TransGen.head'_iff.mp cycle
  exact ⟨dep, calls, Relation.TransGen.tail' back calls⟩

end ModuleHost

/-- Intervals one behind the other, with two parts each, can be told apart by one set. -/
theorem exists_phases {first second : Nat → Nat} (start : ∀ i, first i ≤ second i)
    (next : ∀ i, second i ≤ first (i + 1)) :
    ∃ phase : Nat → Prop, (∀ i n, first i ≤ n → n < second i → phase n) ∧
      ∀ i n, second i ≤ n → n < first (i + 1) → ¬ phase n := by
  have ordered : Monotone first := monotone_nat_of_le_succ fun i => (start i).trans (next i)
  refine ⟨fun n => ∃ i, first i ≤ n ∧ n < second i, fun i n from_here upto => ⟨i, from_here, upto⟩, ?_⟩
  rintro i n from_here upto ⟨j, above, below⟩
  obtain earlier | later := Nat.lt_or_ge i j
  · have := ordered (show i + 1 ≤ j from earlier)
    omega
  · have := ordered later
    have := start i
    have := next j
    obtain rfl | strict := Nat.eq_or_lt_of_le later
    · omega
    · have := ordered (show j + 1 ≤ i from strict)
      omega

open Classical in
/-- The answers that lead around a cycle, call after call, for ever. -/
theorem ModuleHost.Terminates.acyclic {host : ModuleHost} (terminates : host.Terminates) (name : Str) :
    ¬ Relation.TransGen host.Calls name name := by
  intro cycle
  let Cyclic := {name : Str // Relation.TransGen host.Calls name name}
  have step (at_name : Cyclic) (log : List Event) : ∃ (dep : Cyclic) (turn mid : List Event),
      log.length ≤ turn.length ∧ turn.length ≤ mid.length ∧ ∀ a : KernelAnswers,
        AgreeOn (fun _ _ _ => 1) a log.length turn.length →
        AgreeOn (fun _ _ _ => 0) a turn.length mid.length → ∀ fuel,
          Done (loadKmod (host.answering a) (fuel + 1) (some at_name.1) log) →
          Done (loadKmod (host.answering a) fuel (some dep.1) mid) := by
    obtain ⟨dep, calls, again⟩ := cycle_next at_name.2
    obtain ⟨turn, mid, longer, further, follow⟩ := calls.followed terminates log
    exact ⟨⟨dep, again⟩, turn, mid, longer, further, fun a refuses accepts fuel ends =>
      (follow a refuses accepts fuel ends).2⟩
  choose next turn mid longer further follow using step
  -- the calls, each with the log it starts with
  let call (i : Nat) : Cyclic × List Event :=
    (fun c => (next c.1 c.2, mid c.1 c.2))^[i] (⟨name, cycle⟩, [])
  have call_succ (i : Nat) : call (i + 1) =
      (next (call i).1 (call i).2, mid (call i).1 (call i).2) := Function.iterate_succ_apply' _ _ _
  obtain ⟨refused, refuses, accepts⟩ := @exists_phases (fun i => (call i).2.length)
    (fun i => (turn (call i).1 (call i).2).length) (fun i => longer _ _)
    (fun i => by rw [call_succ]; exact further _ _)
  let answers : KernelAnswers := fun log _ _ => if refused log.length then 1 else 0
  have around (i fuel : Nat)
      (ends : Done (loadKmod (host.answering answers) (fuel + 1) (some (call i).1.1) (call i).2)) :
      Done (loadKmod (host.answering answers) fuel (some (call (i + 1)).1.1) (call (i + 1)).2) := by
    have refuse : AgreeOn (fun _ _ _ => 1) answers (call i).2.length
        (turn (call i).1 (call i).2).length := by
      intro log late early
      funext _ _
      exact (if_pos (refuses i _ late early)).symm
    have accept : AgreeOn (fun _ _ _ => 0) answers (turn (call i).1 (call i).2).length
        (mid (call i).1 (call i).2).length := by
      intro log late early
      funext _ _
      refine (if_neg (accepts i _ late ?_)).symm
      rwa [call_succ]
    rw [call_succ]
    exact follow _ _ answers refuse accept fuel ends
  -- so none of them ends, whatever the fuel
  have endless (fuel i : Nat) :
      ¬ Done (loadKmod (host.answering answers) fuel (some (call i).1.1) (call i).2) := by
    induction fuel generalizing i with
    | zero =>
      rintro ⟨_, _, run⟩
      cases run
    | succ fuel ih => exact fun ends => ih (i + 1) (around i fuel ends)
  obtain ⟨fuel, loaded, log', run⟩ := terminates answers (some name) []
  exact endless fuel 0 ⟨loaded, log', run⟩

/-- Every call comes to an end, whatever the kernel answers, exactly if no module
that can be called for leads back to itself, and every name fits. -/
theorem terminates_iff (host : ModuleHost) : host.Terminates ↔ host.CallsBounded :=
  ⟨fun terminates => ⟨fun _ _ => terminates.fits, terminates.acyclic⟩,
    ModuleHost.CallsBounded.terminates⟩

/-- A module file that lists itself. -/
def selfDependent : ModuleHost where
  initramfs := .ok [⟨bytes "a.ko", .ok S_IFREG, .ok (), .ok (some (bytes "depends=a", 9))⟩]
  bootDisk := false
  modulesExists := false
  disk := .error []
  kmods := []
  initModule := fun _ _ _ => 0
  strerror := fun _ => []

/-- Loading a module that lists itself never comes to an end. -/
theorem self_dependency_endless : ¬ selfDependent.Terminates := by
  intro terminates
  have itself : selfDependent.Calls (bytes "a") (bytes "a") :=
    ⟨⟨initramfsModules ++ bytes "/" ++ bytes "a.ko", some (bytes "depends=a", 9)⟩, [], [],
      by decide, by decide, by simp⟩
  exact terminates.acyclic (bytes "a") (.single itself)

end KexecLoader
