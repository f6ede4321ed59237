import KexecLoader.Library.Runs
import KexecLoader.Modprobe

/-!
# Dependencies come first

The order law of the log, and what a result of `load_kmod` says about it.
-/
namespace KexecLoader

/-- A module of that name was inserted, or the kernel has it already. -/
def Accepted (name : Str) (log : List Event) : Prop :=
  ∃ image args errno, .initModule name image args errno ∈ log ∧ (errno = 0 ∨ errno = EEXIST)

/-- A module is only offered to the kernel after its dependencies. -/
def DependsFirst (e : Event) (before : List Event) : Prop :=
  match e with
  | .initModule _ image _ _ => ∀ dep ∈ image.depends, Accepted dep before
  | _ => True

theorem Accepted.mono {name : Str} {log : List Event} (accepted : Accepted name log)
    {log' : List Event} (sub : log ⊆ log') : Accepted name log' := by
  obtain ⟨image, args, errno, member, good⟩ := accepted
  exact ⟨image, args, errno, sub member, good⟩

/-- A call that starts with `log` only adds to it, keeps the order law, and if it
returns success the new part says what was loaded. -/
def Keeps (log : List Event) (r : Status × List Event) (loaded : List Event → Prop) : Prop :=
  ∃ new, r.2 = log ++ new ∧ (Ordered DependsFirst log → Ordered DependsFirst r.2) ∧
    (r.1 = .done true → loaded new)

theorem Keeps.subset {log log' : List Event} {status : Status} {loaded : List Event → Prop}
    (keeps : Keeps log (status, log') loaded) : log ⊆ log' := by
  obtain ⟨new, grown, -⟩ := keeps
  simp only at grown
  rw [grown]
  exact List.subset_append_left log new

/-- A call that does nothing, or only shows something, keeps the law. -/
theorem keeps_same (log : List Event) (loaded : List Event → Prop) :
    Keeps log (.done false, log) loaded :=
  ⟨[], by simp, id, by simp⟩

theorem keeps_shown (log : List Event) (e : Event) (loaded : List Event → Prop)
    (free : ∀ before, DependsFirst e before) : Keeps log (.done false, log ++ [e]) loaded :=
  ⟨[e], rfl, fun ordered => (ordered_snoc _ log e).mpr ⟨ordered, free log⟩, by simp⟩

/-- One call after another. -/
theorem Keeps.trans {log log' : List Event} {r : Status × List Event}
    {first second whole : List Event → Prop} {status : Status}
    (earlier : Keeps log (status, log') first) (later : Keeps log' r second)
    (both : ∀ new new', (status = .done true → first new) → second new' → whole (new ++ new')) :
    Keeps log r whole := by
  obtain ⟨new, grown, ordered, success⟩ := earlier
  obtain ⟨new', grown', ordered', success'⟩ := later
  simp only at grown
  exact ⟨new ++ new', by rw [grown', grown, List.append_assoc], ordered' ∘ ordered,
    fun done => both new new' success (success' done)⟩

/-- A call that is passed on although it did not end is no success. -/
theorem Keeps.stopped {log log' : List Event} {first whole : List Event → Prop} {status : Status}
    (earlier : Keeps log (status, log') first) (not_done : status ≠ .done true) :
    Keeps log (status, log') whole := by
  obtain ⟨new, grown, ordered, -⟩ := earlier
  exact ⟨new, grown, ordered, fun done => absurd done not_done⟩

section
variable (host : ModuleHost) {load : Load}
  (loads : ∀ dep log, Keeps log (load dep log) (Accepted dep))
include loads

theorem loadDeps_keeps (name : Str) (image : Image) (deps : List Str) (log : List Event) :
    Keeps log (loadDeps load name image deps log) fun new => ∀ dep ∈ deps, Accepted dep new := by
  induction deps generalizing log with
  | nil => exact ⟨[], by simp [loadDeps], id, by simp⟩
  | cons dep deps ih =>
    rw [loadDeps]
    split
    next => exact ⟨[], by simp, id, by simp⟩
    next =>
      have first := loads dep log
      -- only a dependency that was loaded lets the loop go on
      match called : load dep log with
      | (.done true, log') =>
        rw [called] at first
        apply first.trans (ih log')
        intro new new' accepted rest d member
        obtain rfl | member := List.mem_cons.mp member
        · exact (accepted rfl).mono (List.subset_append_left new new')
        · exact (rest d member).mono (List.subset_append_right new new')
      | (.done false, log') =>
        rw [called] at first
        exact first.trans (keeps_shown log' _ (fun _ => False) fun _ => trivial) (by simp)
      | (.overflow, log') =>
        rw [called] at first
        exact first.stopped (by simp)
      | (.deeper, log') =>
        rw [called] at first
        exact first.stopped (by simp)

/-- The kernel is asked only when the loop over the dependencies has ended with
success, and its answer is the result. -/
theorem modprobe_keeps (name : Str) (image : Image) (log : List Event) :
    Keeps log (modprobe host load name image log) (Accepted name) := by
  have deps := loadDeps_keeps loads name image image.depends log
  rw [modprobe]
  match called : loadDeps load name image image.depends log with
  | (.done true, log') =>
    rw [called] at deps
    obtain ⟨new, grown, ordered, success⟩ := deps
    simp only at grown ordered
    -- when the kernel is asked, every dependency is accepted in the log so far
    let e : Event := .initModule name image (moduleArgs host.kmods name)
      (host.initModule log' image (moduleArgs host.kmods name))
    have asked : Ordered DependsFirst log → Ordered DependsFirst (log' ++ [e]) := fun lawful =>
      (ordered_snoc _ log' e).mpr ⟨ordered lawful, fun dep member =>
        (success rfl dep member).mono (by rw [grown]; exact List.subset_append_right log new)⟩
    simp only
    split
    next good =>
      refine ⟨new ++ [e], by simp [grown, e], asked, fun _ => ?_⟩
      exact ⟨image, _, _, List.mem_append_right _ (List.mem_singleton_self _), good⟩
    next =>
      -- the refusal is shown after it
      have refused : Keeps log (.done false, log' ++ [e]) fun _ => False :=
        ⟨new ++ [e], by simp [grown], asked, by simp⟩
      exact refused.trans (keeps_shown _ _ (fun _ => False) fun _ => trivial) (by simp)
  | (.done false, log') =>
    rw [called] at deps
    exact deps.stopped (by simp)
  | (.overflow, log') =>
    rw [called] at deps
    exact deps.stopped (by simp)
  | (.deeper, log') =>
    rw [called] at deps
    exact deps.stopped (by simp)

/-- A module was accepted, the one that was asked for if there was a name. -/
def AcceptedAny (modname : Option Str) (log : List Event) : Prop :=
  ∃ name, (∀ m ∈ modname, m = name) ∧ Accepted name log

omit loads in
theorem AcceptedAny.mono {modname : Option Str} {log log' : List Event}
    (accepted : AcceptedAny modname log) (sub : log ⊆ log') : AcceptedAny modname log' := by
  obtain ⟨name, asked, accepted⟩ := accepted
  exact ⟨name, asked, accepted.mono sub⟩

variable (dir : Str) (modname : Option Str)

theorem modprobeEntry_keeps (node : DirEntry) (log : List Event) :
    Keeps log (modprobeEntry host load dir modname node log) (AcceptedAny modname) := by
  simp only [modprobeEntry]
  split
  next => exact keeps_shown _ _ _ fun _ => trivial
  next =>
    split
    next =>
      split
      next => exact keeps_same _ _
      next asked =>
        split
        next => exact keeps_shown _ _ _ fun _ => trivial
        next => exact keeps_shown _ _ _ fun _ => trivial
        next =>
          obtain ⟨new, grown, ordered, success⟩ := modprobe_keeps host loads
            (node.dName.take (node.dName.length - 3)) ⟨dir ++ bytes "/" ++ node.dName, _⟩ log
          refine ⟨new, grown, ordered, fun done => ⟨_, fun m given => ?_, success done⟩⟩
          -- with a name to look for, only a file of that name gets this far
          cases given
          simpa [klStreq_iff] using asked
    next => exact keeps_same _ _

theorem modprobeEntries_keeps (nodes : List DirEntry) (ret : Bool) (log : List Event) :
    Keeps log (modprobeEntries host load dir modname nodes ret log) fun new =>
      ret = true ∨ AcceptedAny modname new := by
  induction nodes generalizing ret log with
  | nil => exact ⟨[], by simp [modprobeEntries], id, by simpa [modprobeEntries] using .inl⟩
  | cons node nodes ih =>
    have first := modprobeEntry_keeps host loads dir modname node log
    rw [modprobeEntries]
    match called : modprobeEntry host load dir modname node log with
    | (.done loaded, log') =>
      rw [called] at first
      apply first.trans (ih (ret || loaded) log')
      intro new new' accepted rest
      obtain both | accepted' := rest
      · obtain before | here := Bool.or_eq_true_iff.mp both
        · exact .inl before
        · exact .inr ((accepted (congrArg Status.done here)).mono (List.subset_append_left new new'))
      · exact .inr (accepted'.mono (List.subset_append_right new new'))
    | (.overflow, log') =>
      rw [called] at first
      exact first.stopped (by simp)
    | (.deeper, log') =>
      rw [called] at first
      exact first.stopped (by simp)

theorem modprobeDir_keeps (nodes : Except Str (List DirEntry)) (log : List Event) :
    Keeps log (modprobeDir host load dir nodes modname log) (AcceptedAny modname) := by
  cases nodes with
  | error reason => exact keeps_shown _ _ _ fun _ => trivial
  | ok nodes =>
    obtain ⟨new, grown, ordered, success⟩ :=
      modprobeEntries_keeps host loads dir modname nodes false log
    exact ⟨new, grown, ordered, fun done => (success done).resolve_left (by simp)⟩

end

theorem Keeps.named {log : List Event} {r : Status × List Event} {dep : Str}
    (any : Keeps log r (AcceptedAny (some dep))) : Keeps log r (Accepted dep) := by
  obtain ⟨new, grown, ordered, success⟩ := any
  refine ⟨new, grown, ordered, fun done => ?_⟩
  obtain ⟨name, asked, accepted⟩ := success done
  exact asked dep rfl ▸ accepted

/-- By induction on the fuel: the calls for dependencies keep the law, and so
does the search of the two directories that makes them. -/
theorem loadKmod_keeps (host : ModuleHost) (fuel : Nat) (module : Option Str)
    (log : List Event) : Keeps log (loadKmod host fuel module log) (AcceptedAny module) := by
  induction fuel generalizing module log with
  | zero => exact ⟨[], by simp [loadKmod], id, by simp [loadKmod]⟩
  | succ fuel ih =>
    have loads (dep : Str) (log : List Event) :
        Keeps log (loadKmod host fuel (some dep) log) (Accepted dep) := (ih (some dep) log).named
    have first := modprobeDir_keeps host loads initramfsModules module host.initramfs log
    rw [loadKmod]
    match called : modprobeDir host (fun dep => loadKmod host fuel (some dep)) initramfsModules
        host.initramfs module log with
    | (.done true, log') =>
      rw [called] at first
      exact first
    | (.done false, log') =>
      -- the second directory counts only with a boot disk
      rw [called] at first
      simp only
      split
      next =>
        refine first.trans (modprobeDir_keeps host loads diskModules module host.disk log')
          fun new new' _ accepted => accepted.mono (List.subset_append_right new new')
      next => exact first.stopped (by simp)
    | (.overflow, log') =>
      rw [called] at first
      exact first.stopped (by simp)
    | (.deeper, log') =>
      rw [called] at first
      exact first.stopped (by simp)

/-- The calls for the dependencies all succeed, one after the other. -/
inductive LoadedAll (load : Load) : List Str → List Event → List Event → Prop where
  | nil (log : List Event) : LoadedAll load [] log log
  | cons (dep : Str) (deps : List Str) (log log' log'' : List Event) (fits : dep.length < 256)
    (loaded : load dep log = (.done true, log')) (rest : LoadedAll load deps log' log'') :
    LoadedAll load (dep :: deps) log log''

theorem loadedAll_of_loadDeps (load : Load) (name : Str) (image : Image) (deps : List Str)
    (log log' : List Event) (done : loadDeps load name image deps log = (.done true, log')) :
    LoadedAll load deps log log' := by
  induction deps generalizing log with
  | nil =>
    cases done
    exact .nil _
  | cons dep deps ih =>
    rw [loadDeps] at done
    split at done
    next => cases done
    next fits =>
      match called : load dep log with
      | (.done true, log₁) =>
        rw [called] at done
        exact .cons dep deps log log₁ log' (by omega) called (ih log₁ done)
      | (.done false, log₁) => simp [called] at done
      | (.overflow, log₁) => simp [called] at done
      | (.deeper, log₁) => simp [called] at done

/-- If a dependency cannot be loaded, `modprobe` does nothing after the loop over
the dependencies, and does not report success. -/
theorem modprobe_refuses (host : ModuleHost) (load : Load) (name : Str) (image : Image)
    (log : List Event) (lacks : ∀ log', ¬ LoadedAll load image.depends log log') :
    (modprobe host load name image log).1 ≠ .done true ∧
      modprobe host load name image log = loadDeps load name image image.depends log := by
  rw [modprobe]
  match deps : loadDeps load name image image.depends log with
  | (.done true, log') =>
    exact absurd (loadedAll_of_loadDeps load name image image.depends log log' deps) (lacks log')
  | (.done false, log') => simp
  | (.overflow, log') => simp
  | (.deeper, log') => simp

/-- Several calls, as `main` makes them; between two calls the boot disk may have
appeared, and the directories may have changed. -/
def loadKmods (calls : List (ModuleHost × Nat × Option Str)) (log : List Event) : List Event :=
  calls.foldl (fun log call => (loadKmod call.1 call.2.1 call.2.2 log).2) log

theorem loadKmods_ordered (calls : List (ModuleHost × Nat × Option Str)) :
    Ordered DependsFirst (loadKmods calls []) := by
  -- the law holds of the empty log, and each call keeps it
  have kept : ∀ log, Ordered DependsFirst log → Ordered DependsFirst (loadKmods calls log) := by
    induction calls with
    | nil => exact fun _ => id
    | cons call calls ih =>
      intro log lawful
      obtain ⟨_, _, ordered, _⟩ := loadKmod_keeps call.1 call.2.1 call.2.2 log
      exact ih _ (ordered lawful)
  exact kept [] (ordered_nil _)

/-- However often `load_kmod` is called, and whatever the kernel answers: a module
is offered to the kernel only after a module of the name of each of its
dependencies was accepted; a name is reported as loaded only if a module of that
name was accepted in this call, after all of its dependencies; and where a
dependency cannot be loaded, the module is not offered and not reported. -/
theorem dependencies_first (calls : List (ModuleHost × Nat × Option Str)) :
    Ordered DependsFirst (loadKmods calls []) ∧
      (∀ (host : ModuleHost) (fuel : Nat) (name : Str),
        (loadKmod host fuel (some name) (loadKmods calls [])).1 = .done true →
          ∃ before image args errno after,
            (loadKmod host fuel (some name) (loadKmods calls [])).2 =
              before ++ .initModule name image args errno :: after ∧
            loadKmods calls [] <+: before ∧ (errno = 0 ∨ errno = EEXIST) ∧
            ∀ dep ∈ image.depends, Accepted dep before) ∧
      ∀ (host : ModuleHost) (load : Load) (name : Str) (image : Image) (log : List Event),
        (∀ log', ¬ LoadedAll load image.depends log log') →
          (modprobe host load name image log).1 ≠ .done true ∧
            modprobe host load name image log =
              loadDeps load name image image.depends log := by
  refine ⟨loadKmods_ordered calls, fun host fuel name done => ?_, modprobe_refuses⟩
  -- the call that was accepted splits the log, and the order law speaks of what is before it
  obtain ⟨new, grown, ordered, success⟩ :=
    loadKmod_keeps host fuel (some name) (loadKmods calls [])
  obtain ⟨m, asked, image, args, errno, member, good⟩ := success done
  obtain rfl := asked name rfl
  obtain ⟨earlier, after, split⟩ := List.append_of_mem member
  have whole : (loadKmod host fuel (some name) (loadKmods calls [])).2 =
      (loadKmods calls [] ++ earlier) ++ .initModule name image args errno :: after := by
    rw [grown, split, List.append_assoc]
  exact ⟨_, image, args, errno, after, whole, List.prefix_append _ _, good,
    ordered (loadKmods_ordered calls) _ _ _ whole⟩

/-- Two files of the initramfs, of which a depends on b. -/
theorem dependencies_first_pair :
    let file (name modinfo : Str) : DirEntry :=
      ⟨name, .ok S_IFREG, .ok (), .ok (some (modinfo, modinfo.length))⟩
    let host : ModuleHost :=
      ⟨.ok [file (bytes "a.ko") (bytes "depends=b"), file (bytes "b.ko") (bytes "depends=")],
        false, false, .error [], [], fun _ _ _ => 0, fun _ => []⟩
    ∃ before image args errno after, (loadKmod host 2 (some (bytes "a")) []).2 =
        before ++ .initModule (bytes "a") image args errno :: after ∧
      [] <+: before ∧ (errno = 0 ∨ errno = EEXIST) ∧ ∀ dep ∈ image.depends, Accepted dep before :=
  (dependencies_first []).2.1 _ 2 (bytes "a") (by decide)

end KexecLoader
