import KexecLoader.ListFunctions
import KexecLoader.MenuView

/-!
# Targets and modules on the heap

The readers keep their targets and modules in linked lists: a target that is added is
copied with the pointer to its modules, one that is rejected has its modules freed. Here
the directives act on the heap, and the lists of the other model are what the heap holds.
-/
namespace KexecLoader

/-- A `kl_target` in memory: its fields, and the pointer to its modules in place of
the list. -/
structure HeapTarget where
  fields : KlTarget
  modules : Option Loc

/-- The blocks of the readers, the two global lists, and the local `target`, which is
in use once a title was read. -/
structure TargetStore where
  moduleHeap : Heap KlModule
  targetHeap : Heap HeapTarget
  targets : Option Loc
  kmods : Option Loc
  target : HeapTarget
  opened : Bool

namespace TargetStore

section
variable (mallocModule : Malloc KlModule) (mallocTarget : Malloc HeapTarget) (rounds : Nat)
variable (s : TargetStore)

/-- `INIT_TARGET`, and the fields that are set at once. -/
def start (fields : KlTarget) : TargetStore := { s with target := ⟨fields, none⟩, opened := true }

def edit (f : KlTarget → KlTarget) : TargetStore :=
  { s with target := { s.target with fields := f s.target.fields } }

def putModules (st : ListState KlModule) : TargetStore :=
  { s with moduleHeap := st.heap, target := { s.target with modules := st.root } }

def putKmods (st : ListState KlModule) : TargetStore := { s with moduleHeap := st.heap, kmods := st.root }

def putTargets (st : ListState HeapTarget) : TargetStore :=
  { s with targetHeap := st.heap, targets := st.root }

def putHeap (heap : Heap KlModule) : TargetStore := { s with moduleHeap := heap }

/-- `list_add_copy(&target.modules, &mod, sizeof(mod))`. -/
def addModule (mod : KlModule) : Except Stuck TargetStore :=
  (listAddCopy mallocModule rounds ⟨s.target.modules, s.moduleHeap⟩ ⟨mod, none⟩).map s.putModules

/-- `list_add_copy(&kmods, &mod, sizeof(mod))`. -/
def addKmod (mod : KlModule) : Except Stuck TargetStore :=
  (listAddCopy mallocModule rounds ⟨s.kmods, s.moduleHeap⟩ ⟨mod, none⟩).map s.putKmods

/-- A target without root or kernel has its modules freed, another one is copied. -/
def addTarget : Except Stuck TargetStore :=
  if s.target.fields.root.str = [] ∨ s.target.fields.kernel.str = [] then
    (listNuke rounds s.moduleHeap s.target.modules).map s.putHeap
  else (listAddCopy mallocTarget rounds ⟨s.targets, s.targetHeap⟩ ⟨s.target, none⟩).map s.putTargets

/-- What is done with the target under construction, if there is one. -/
def closeConf : Except Stuck TargetStore :=
  if s.opened then (s.addTarget mallocTarget rounds).map ({ · with opened := false }) else .ok s

/-- What a directive of kexec-loader.conf does to the lists. -/
def confStep : ConfCommand → Except Stuck TargetStore
  | .title val =>
    (s.closeConf mallocTarget rounds).map (·.start { initTarget with title := strlcpy val })
  | .edit (.module val) =>
    if s.opened then s.addModule mallocModule rounds (readModule val) else .ok s
  | .edit e => .ok (if s.opened then s.edit e.apply else s)
  | .kmod val => if s.opened then s.addKmod mallocModule rounds (readModule val) else .ok s
  | _ => .ok s

def confLines : List Str → TargetStore → Except Stuck TargetStore
  | [], s => .ok s
  | piece :: lines, s => do
    let s ← (lineCommand piece).elim (.ok s) (s.confStep mallocModule mallocTarget rounds)
    confLines lines s

/-- `load_conf`, as far as its lists go. -/
def loadConf (content : Str) : Except Stuck TargetStore := do
  let s ← confLines mallocModule mallocTarget rounds ((pieces 1024 content).map cstr)
    { s with opened := false }
  s.closeConf mallocTarget rounds

end

end TargetStore

/-! ### What the heap holds -/

/-- A target of the list, with the nodes of its modules. -/
structure HeldTarget where
  loc : Loc
  record : HeapTarget
  modules : List (Loc × KlModule)

/-- The nodes of all lists. -/
structure Layout where
  targets : List HeldTarget
  kmods : List (Loc × KlModule)
  current : List (Loc × KlModule)

/-- The two global lists, and the target under construction. -/
structure ListView where
  targets : List KlTarget
  kmods : List KlModule
  current : Option KlTarget

namespace Layout

variable (lay : Layout) (s : TargetStore)

/-- The lists of modules: the list `kmods`, those of the targets, and that of the
local target while there is one. -/
def moduleLists : List (Option Loc × List (Loc × KlModule)) :=
  (s.kmods, lay.kmods) :: (lay.targets.map fun p => (p.record.modules, p.modules)) ++
    if s.opened then [(s.target.modules, lay.current)] else []

def view : ListView where
  targets := lay.targets.map fun p => { p.record.fields with modules := p.modules.map Prod.snd }
  kmods := lay.kmods.map Prod.snd
  current :=
    if s.opened then some { s.target.fields with modules := lay.current.map Prod.snd } else none

end Layout

/-- The heap holds these lists, no two of them share a node, and the module nodes in use
are theirs and the `lost` ones. -/
def HeapHolds (s : TargetStore) (lost : List Loc) (v : ListView) : Prop :=
  ∃ lay : Layout, Forest s.moduleHeap (lay.moduleLists s) lost ∧
    Forest s.targetHeap [(s.targets, lay.targets.map fun p => (p.loc, p.record))] [] ∧
    lay.view s = v

/-- More rounds than this are enough to walk along any of the lists. -/
def ListView.size (v : ListView) : Nat :=
  v.targets.length + v.kmods.length + (v.current.map (·.modules.length)).getD 0

namespace HeapHolds

variable {s : TargetStore} {lost : List Loc} {targets : List KlTarget} {kmods : List KlModule}
variable {t : KlTarget} {rounds : Nat}

theorem opened (rep : HeapHolds s lost ⟨targets, kmods, some t⟩) : s.opened = true := by
  obtain ⟨lay, -, -, view⟩ := rep
  by_contra closed
  simp [Layout.view, closed] at view

theorem closed (rep : HeapHolds s lost ⟨targets, kmods, none⟩) : s.opened = false := by
  obtain ⟨lay, -, -, view⟩ := rep
  by_contra opened
  simp [Layout.view, opened] at view

theorem start (rep : HeapHolds { s with opened := false } lost ⟨targets, kmods, none⟩)
    (fields : KlTarget) (bare : fields.modules = []) :
    HeapHolds (s.start fields) lost ⟨targets, kmods, some fields⟩ := by
  obtain ⟨lay, modules, records, view⟩ := rep
  simp only [Layout.view, ListView.mk.injEq] at view
  have same : { fields with modules := [] } = fields := by rw [← bare]
  refine ⟨{ lay with current := [] }, ?_, records, ?_⟩
  · simp only [Layout.moduleLists, TargetStore.start] at modules ⊢
    exact Forest.add_empty (by simpa using modules)
  · simp [Layout.view, TargetStore.start, view, same]

/-- A change of fields leaves the modules where they are. -/
theorem edit (rep : HeapHolds s lost ⟨targets, kmods, some t⟩) {f : KlTarget → KlTarget}
    (apart : ∀ t modules, f { t with modules := modules } = { f t with modules := modules }) :
    HeapHolds (s.edit f) lost ⟨targets, kmods, some (f t)⟩ := by
  have opened := rep.opened
  obtain ⟨lay, modules, records, view⟩ := rep
  simp only [Layout.view, opened, if_true, ListView.mk.injEq, Option.some.injEq] at view
  obtain ⟨rfl, rfl, rfl⟩ := view
  refine ⟨lay, modules, records, ?_⟩
  simp only [Layout.view, TargetStore.edit, opened, if_true]
  exact congrArg (fun current => ListView.mk _ _ (some current)) (apart s.target.fields _).symm

theorem addModule (rep : HeapHolds s lost ⟨targets, kmods, some t⟩) (malloc : Malloc KlModule)
    (enough : t.modules.length < rounds) (mod : KlModule) :
    (s.addModule malloc rounds mod = .error .died ∧ malloc.pick s.moduleHeap = none) ∨
      ∃ s', s.addModule malloc rounds mod = .ok s' ∧
        HeapHolds s' lost ⟨targets, kmods, some { t with modules := t.modules ++ [mod] }⟩ := by
  have opened := rep.opened
  obtain ⟨lay, modules, records, view⟩ := rep
  simp only [Layout.view, opened, if_true, ListView.mk.injEq, Option.some.injEq] at view
  obtain ⟨rfl, rfl, rfl⟩ := view
  simp only [Layout.moduleLists, opened, if_true] at modules
  have added := listAddCopy_forest _ malloc modules (show _ < rounds by simpa using enough) ⟨mod, none⟩
  unfold TargetStore.addModule
  rcases added with ⟨died, no_block⟩ | ⟨loc, st', added, forest⟩
  · exact .inl ⟨by rw [died]; rfl, no_block⟩
  · refine .inr ⟨s.putModules st', by rw [added]; rfl,
      { lay with current := lay.current ++ [(loc, mod)] }, ?_, records, ?_⟩
    · simpa [Layout.moduleLists, TargetStore.putModules, opened] using forest
    · simp [Layout.view, TargetStore.putModules, opened]

theorem addKmod {v : ListView} (rep : HeapHolds s lost v) (malloc : Malloc KlModule)
    (enough : v.kmods.length < rounds) (mod : KlModule) :
    (s.addKmod malloc rounds mod = .error .died ∧ malloc.pick s.moduleHeap = none) ∨
      ∃ s', s.addKmod malloc rounds mod = .ok s' ∧
        HeapHolds s' lost { v with kmods := v.kmods ++ [mod] } := by
  obtain ⟨lay, modules, records, rfl⟩ := rep
  have added := listAddCopy_forest [] malloc modules
    (show _ < rounds by simpa [Layout.view] using enough) ⟨mod, none⟩
  unfold TargetStore.addKmod
  rcases added with ⟨died, no_block⟩ | ⟨loc, st', added, forest⟩
  · exact .inl ⟨by rw [died]; rfl, no_block⟩
  · exact .inr ⟨s.putKmods st', by rw [added]; rfl, { lay with kmods := lay.kmods ++ [(loc, mod)] },
      forest, records, by simp only [Layout.view, List.map_append]; rfl⟩

/-- The target goes to the list with its modules, or these are freed. -/
theorem addTarget (rep : HeapHolds s lost ⟨targets, kmods, some t⟩) (malloc : Malloc HeapTarget)
    (room : targets.length < rounds) (enough : t.modules.length < rounds) :
    (s.addTarget malloc rounds = .error .died ∧ malloc.pick s.targetHeap = none) ∨
      ∃ s', s.addTarget malloc rounds = .ok s' ∧
        HeapHolds { s' with opened := false } lost ⟨targets ++ finished t, kmods, none⟩ := by
  have opened := rep.opened
  obtain ⟨lay, modules, records, view⟩ := rep
  simp only [Layout.view, opened, if_true, ListView.mk.injEq, Option.some.injEq] at view
  obtain ⟨rfl, rfl, rfl⟩ := view
  simp only [Layout.moduleLists, opened, if_true] at modules
  unfold TargetStore.addTarget finished
  split
  next rejected =>
    obtain ⟨heap', freed, forest⟩ := listNuke_forest _ modules (show _ < rounds by simpa using enough)
    refine .inr ⟨s.putHeap heap', by rw [freed]; rfl, lay, ?_, records, ?_⟩
    · simpa [Layout.moduleLists, TargetStore.putHeap] using forest
    · simp [Layout.view]
  next accepted =>
    have added := listAddCopy_forest [] malloc records
      (show _ < rounds by simpa using room) ⟨s.target, none⟩
    rcases added with ⟨died, no_block⟩ | ⟨loc, st', added, forest⟩
    · exact .inl ⟨by rw [died]; rfl, no_block⟩
    · refine .inr ⟨s.putTargets st', by rw [added]; rfl,
        { lay with targets := lay.targets ++ [⟨loc, s.target, lay.current⟩] }, ?_, ?_, ?_⟩
      · simpa [Layout.moduleLists, TargetStore.putTargets] using modules
      · simpa [TargetStore.putTargets] using forest
      · simp [Layout.view]

end HeapHolds

/-! ### Reading kexec-loader.conf -/

section
variable {s : TargetStore} {lost : List Loc} {rounds : Nat}
variable (mallocModule : Malloc KlModule) (mallocTarget : Malloc HeapTarget)

/-- `malloc` has no block for one more node. -/
def TargetStore.Starved (mallocModule : Malloc KlModule) (mallocTarget : Malloc HeapTarget) (s : TargetStore) :
    Prop :=
  mallocModule.pick s.moduleHeap = none ∨ mallocTarget.pick s.targetHeap = none

/-- The program dies, for want of memory only, or the heap holds these lists in the end. -/
def Leaves (run : Except Stuck TargetStore) (starved : Prop) (lost : List Loc) (v : ListView) : Prop :=
  (run = .error .died ∧ starved) ∨ ∃ s, run = .ok s ∧ HeapHolds s lost v

def ConfView.lists (v : ConfView) : ListView := ⟨v.settings.targets, v.settings.kmods, v.current⟩

theorem Leaves.map {run : Except Stuck TargetStore} {starved : Prop} {v w : ListView}
    (leaves : Leaves run starved lost v) {f : TargetStore → TargetStore}
    (maps : ∀ s, HeapHolds s lost v → HeapHolds (f s) lost w) : Leaves (run.map f) starved lost w := by
  rcases leaves with ⟨died, no_block⟩ | ⟨s, done, rep⟩
  · exact .inl ⟨by rw [died]; rfl, no_block⟩
  · exact .inr ⟨f s, by rw [done]; rfl, maps s rep⟩

theorem Leaves.bind {run : Except Stuck TargetStore} {starved : Prop} {v w : ListView}
    (leaves : Leaves run starved lost v) {f : TargetStore → Except Stuck TargetStore}
    (then_leaves : ∀ s, run = .ok s → HeapHolds s lost v → Leaves (f s) starved lost w) :
    Leaves (run >>= f) starved lost w := by
  rcases leaves with ⟨died, no_block⟩ | ⟨s, done, rep⟩
  · exact .inl ⟨by rw [died]; rfl, no_block⟩
  · rw [done]
    exact then_leaves s done rep

theorem Leaves.mono {run : Except Stuck TargetStore} {starved starved' : Prop} {v : ListView}
    (leaves : Leaves run starved lost v) (weaker : starved → starved') : Leaves run starved' lost v :=
  leaves.imp_left (And.imp_right weaker)

theorem closeConf_leaves {v : ConfView} (rep : HeapHolds s lost v.lists)
    (enough : v.lists.size < rounds) :
    Leaves (s.closeConf mallocTarget rounds) (s.Starved mallocModule mallocTarget) lost
      ⟨v.close.targets, v.close.kmods, none⟩ := by
  obtain ⟨settings, current⟩ := v
  unfold TargetStore.closeConf
  cases current with
  | none =>
    rw [rep.closed]
    exact .inr ⟨s, rfl, by simpa [ConfView.lists, ConfView.close] using rep⟩
  | some t =>
    have sizes : settings.targets.length + settings.kmods.length + t.modules.length < rounds := enough
    rw [if_pos rep.opened]
    have room : settings.targets.length < rounds := by omega
    have few : t.modules.length < rounds := by omega
    rcases rep.addTarget mallocTarget room few with ⟨died, no_block⟩ | ⟨s', added, rep'⟩
    · exact .inl ⟨by rw [died]; rfl, .inr no_block⟩
    · exact .inr ⟨_, by rw [added]; rfl, rep'⟩

/-- A directive does to the lists on the heap what it does to those of the view. -/
theorem confStep_leaves {v : ConfView} (rep : HeapHolds s lost v.lists)
    (enough : v.lists.size < rounds) (command : ConfCommand) :
    Leaves (s.confStep mallocModule mallocTarget rounds command) (s.Starved mallocModule mallocTarget) lost
      (v.step command).lists := by
  obtain ⟨settings, current⟩ := v
  cases command with
  | timeout n => exact .inr ⟨s, rfl, rep⟩
  | grubPath path => exact .inr ⟨s, rfl, rep⟩
  | grubAutodetect n => exact .inr ⟨s, rfl, rep⟩
  | title val =>
    refine (closeConf_leaves mallocModule mallocTarget rep enough).map fun s' rep' => ?_
    have closed : { s' with opened := false } = s' := by rw [← rep'.closed]
    exact (show HeapHolds { s' with opened := false } _ _ from closed ▸ rep').start _ rfl
  | kmod val =>
    cases current with
    | none => exact .inr ⟨s, by simp [TargetStore.confStep, rep.closed], rep⟩
    | some t =>
      have sizes : settings.targets.length + settings.kmods.length + t.modules.length < rounds := enough
      simp only [TargetStore.confStep, rep.opened, if_true]
      exact (rep.addKmod mallocModule (show settings.kmods.length < rounds by omega) (readModule val)).imp_left
        (And.imp_right .inl)
  | edit e =>
    cases current with
    | none =>
      have closed := rep.closed
      refine .inr ⟨s, ?_, rep⟩
      cases e <;> simp [TargetStore.confStep, closed]
    | some t =>
      have sizes : settings.targets.length + settings.kmods.length + t.modules.length < rounds := enough
      have opened := rep.opened
      -- a module is a node of its own, the other edits stay within the record
      cases e with
      | module val =>
        simp only [TargetStore.confStep, opened, if_true]
        exact (rep.addModule mallocModule (by omega) (readModule val)).imp_left (And.imp_right .inl)
      | _ => exact .inr ⟨_, by simp only [TargetStore.confStep, opened, if_true]; rfl, rep.edit fun _ _ => rfl⟩

theorem step_size (v : ConfView) (command : ConfCommand) :
    (v.step command).lists.size ≤ v.lists.size + 1 := by
  obtain ⟨settings, current⟩ := v
  cases current with
  | none => cases command <;> simp [ConfView.step, ConfView.lists, ListView.size, ConfView.close, initTarget]
  | some t =>
    cases command with
    | edit e =>
      cases e <;>
        (simp [ConfView.step, ConfView.lists, ListView.size, Edit.apply]; try omega)
    | title val =>
      have one : (finished t).length ≤ 1 := by unfold finished; split <;> simp
      simp [ConfView.step, ConfView.lists, ListView.size, ConfView.close, initTarget]
      omega
    | _ => simp [ConfView.step, ConfView.lists, ListView.size] <;> omega

/-- Behind some of the lines there is no memory for another node. -/
def StarvedIn (rounds : Nat) (lines : List Str) (s : TargetStore) : Prop :=
  ∃ front s', front <+: lines ∧ TargetStore.confLines mallocModule mallocTarget rounds front s = .ok s' ∧
    s'.Starved mallocModule mallocTarget

theorem confLines_leaves {v : ConfView} (rep : HeapHolds s lost v.lists) (lines : List Str)
    (enough : v.lists.size + lines.length < rounds) :
    Leaves (TargetStore.confLines mallocModule mallocTarget rounds lines s)
      (StarvedIn mallocModule mallocTarget rounds lines s) lost (lines.foldl ConfView.line v).lists := by
  induction lines generalizing s v with
  | nil => exact .inr ⟨s, rfl, rep⟩
  | cons piece lines ih =>
    simp only [List.length_cons] at enough
    simp only [TargetStore.confLines, List.foldl_cons, ConfView.line]
    cases read : lineCommand piece with
    | none =>
      refine (ih rep (show v.lists.size + lines.length < rounds by omega)).mono ?_
      rintro ⟨front, s', before, run, no_block⟩
      exact ⟨piece :: front, s', List.cons_prefix_cons.mpr ⟨rfl, before⟩,
        by rw [TargetStore.confLines, read]; exact run, no_block⟩
    | some command =>
      have grows := step_size v command
      have few : v.lists.size < rounds := by omega
      have step := confStep_leaves mallocModule mallocTarget rep few command
      -- the memory is at an end before this line, or behind some that follow
      have here : s.Starved mallocModule mallocTarget →
          StarvedIn mallocModule mallocTarget rounds (piece :: lines) s :=
        fun no_block => ⟨[], s, List.nil_prefix, rfl, no_block⟩
      refine (step.mono here).bind fun s' done rep' => ?_
      have room : (v.step command).lists.size + lines.length < rounds := by omega
      refine (ih rep' room).mono ?_
      rintro ⟨front, s'', before, run, no_block⟩
      refine ⟨piece :: front, s'', List.cons_prefix_cons.mpr ⟨rfl, before⟩, ?_, no_block⟩
      rw [TargetStore.confLines, read, Option.elim_some, done]
      exact run

theorem lines_size (v : ConfView) (lines : List Str) :
    (lines.foldl ConfView.line v).lists.size ≤ v.lists.size + lines.length := by
  induction lines generalizing v with
  | nil => exact Nat.le_refl _
  | cons piece lines ih =>
    refine (ih _).trans ?_
    unfold ConfView.line
    cases lineCommand piece with
    | none =>
      rw [Option.elim_none, List.length_cons]
      omega
    | some command =>
      have grows := step_size v command
      rw [Option.elim_some, List.length_cons]
      omega

/-- Reading kexec-loader.conf leaves on the heap the lists `load_conf` leaves, and in use
the blocks of these lists and no others; unless there is no memory left behind some of
the lines. -/
theorem loadConf_leaves (fname : Str) (settings : Settings) (content : Str)
    (rep : HeapHolds { s with opened := false } lost ⟨settings.targets, settings.kmods, none⟩)
    (enough : settings.targets.length + settings.kmods.length + (pieces 1024 content).length < rounds) :
    Leaves (s.loadConf mallocModule mallocTarget rounds content)
      (StarvedIn mallocModule mallocTarget rounds ((pieces 1024 content).map cstr) { s with opened := false }) lost
      ⟨(loadConf fname settings (.ok content)).targets, (loadConf fname settings (.ok content)).kmods,
        none⟩ := by
  have size := lines_size ⟨settings.silent, none⟩ ((pieces 1024 content).map cstr)
  have small : (ConfView.lists ⟨settings.silent, none⟩).size + (pieces 1024 content).length < rounds := enough
  rw [List.length_map] at size
  have begun : HeapHolds { s with opened := false } lost (ConfView.lists ⟨settings.silent, none⟩) := rep
  have read := confLines_leaves mallocModule mallocTarget begun
    ((pieces 1024 content).map cstr) (by rwa [List.length_map])
  have silent := loadConf_silent fname settings content
  generalize ((pieces 1024 content).map cstr).foldl ConfView.line ⟨settings.silent, none⟩ = v
    at size read silent
  have lists : (⟨(loadConf fname settings (.ok content)).targets,
      (loadConf fname settings (.ok content)).kmods, none⟩ : ListView) =
        ⟨v.close.targets, v.close.kmods, none⟩ := by
    rw [← silent]
    rfl
  rw [lists]
  refine read.bind fun s' done rep' => ?_
  exact (closeConf_leaves mallocModule mallocTarget rep' (by omega)).mono
    fun no_block => ⟨_, s', List.prefix_rfl, done, no_block⟩

end

/-- No list yet, and a memory of as many blocks as one likes. -/
def emptyStore : TargetStore := ⟨fun _ => none, fun _ => none, none, none, ⟨initTarget, none⟩, false⟩

def firstFree {α : Type} (blocks : Nat) : Malloc α where
  pick heap := (List.range blocks).find? fun l => (heap l).isNone
  unused := fun {heap l} found => by simpa using List.find?_some found

theorem emptyStore_holds : HeapHolds { emptyStore with opened := false } [] ⟨[], [], none⟩ := by
  refine ⟨⟨[], [], []⟩, ⟨?_, List.nodup_nil, fun l => by simp [emptyStore, Layout.moduleLists, nodeLocs]⟩,
    ⟨?_, List.nodup_nil, fun l => by simp [emptyStore, nodeLocs]⟩, rfl⟩
  all_goals
    intro l listed
    simp only [Layout.moduleLists, emptyStore, List.map_nil, Bool.false_eq_true, if_false,
      List.append_nil, List.mem_singleton] at listed
    rw [listed]
    rfl

/-- A target with a module, and one that is rejected with its module. -/
def nestedConf : Str := bytes "title a\nroot r\nkernel k\nmodule m\ntitle b\nmodule n\n"

/-- The memory is enough, so that the lists are there. -/
theorem loadConf_leaves_nested :
    ∃ s, emptyStore.loadConf (firstFree 8) (firstFree 8) 16 nestedConf = .ok s ∧
      HeapHolds s [] ⟨(loadConf [] initSettings (.ok nestedConf)).targets,
        (loadConf [] initSettings (.ok nestedConf)).kmods, none⟩ := by
  have alive : (emptyStore.loadConf (firstFree 8) (firstFree 8) 16 nestedConf).isOk = true := by decide +kernel
  have leaves := loadConf_leaves (firstFree 8) (firstFree 8) [] initSettings nestedConf emptyStore_holds
    (show _ < 16 by decide +kernel)
  refine leaves.resolve_left fun ⟨died, _⟩ => ?_
  rw [died] at alive
  cases alive

end KexecLoader
