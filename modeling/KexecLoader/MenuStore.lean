import KexecLoader.TargetStore

/-!
# Entries of menu.lst on the heap

An entry that is not to be added is passed over, with the nodes of its modules: these
stay in use, and nothing points at them any more. Everything else goes as for
kexec-loader.conf.
-/
namespace KexecLoader

/-- The lists, and the local variables of `load_menu` that decide over an entry. -/
structure MenuStore extends TargetStore where
  skip : Bool
  defnum : Int
  tnum : Nat

namespace MenuStore

section
variable (mallocModule : Malloc KlModule) (mallocTarget : Malloc HeapTarget) (rounds : Nat)
variable (devmap : List KlGdev) (s : MenuStore)

/-- `GRUB_ADD_TARGET()`. -/
def closeMenu : Except Stuck TargetStore :=
  if s.opened ∧ s.skip = false then
    (s.addTarget mallocTarget rounds).map ({ · with opened := false })
  else .ok { s.toTargetStore with opened := false }

/-- The entry a title opens, in the place of the one before. -/
def openEntry (val : Str) (st : TargetStore) : MenuStore :=
  { st.start (menuEntry s.defnum s.tnum val).target with skip := false, defnum := s.defnum, tnum := s.tnum + 1 }

def put (st : TargetStore) : MenuStore := { s with toTargetStore := st }

/-- What a directive of menu.lst does to the lists. -/
def menuStep : MenuCommand → Except Stuck MenuStore
  | .timeout _ => .ok s
  | .default n => .ok { s with defnum := n }
  | .title val => (s.closeMenu mallocTarget rounds).map (s.openEntry val)
  | .skip => .ok { s with skip := true }
  | .module val =>
    match grubConvPath devmap (nextValue val).1 with
    | none => .ok s
    | some path =>
      if s.opened then
        (s.addModule mallocModule rounds ⟨path, strlcpy (nextValue val).2⟩).map s.put
      else .ok s
  | command =>
    .ok (if s.opened then s.put (s.edit fun t => (MenuEntry.apply devmap ⟨t, s.skip⟩ command).target) else s)

def menuLines : List Str → MenuStore → Except Stuck MenuStore
  | [], s => .ok s
  | piece :: lines, s => do
    let s ← (menuLineCommand piece).elim (.ok s) (s.menuStep mallocModule mallocTarget rounds devmap)
    menuLines lines s

end

end MenuStore

/-- `load_menu`, as far as its lists go. -/
def TargetStore.loadMenu (mallocModule : Malloc KlModule) (mallocTarget : Malloc HeapTarget)
    (rounds : Nat) (devmap : List KlGdev) (tskip : Bool) (s : TargetStore) (content : Str) :
    Except Stuck TargetStore := do
  let s ← MenuStore.menuLines mallocModule mallocTarget rounds devmap ((pieces 1024 content).map cstr)
    { s with opened := false, skip := tskip, defnum := -1, tnum := 0 }
  s.closeMenu mallocTarget rounds

/-! ### Modules of entries that are passed over -/

/-- The modules of the entry that is open, if it is to be passed over. -/
def MenuView.passed (v : MenuView) : Nat :=
  (v.current.map fun entry => if entry.skip then entry.target.modules.length else 0).getD 0

/-- Only a title closes the entry before it. -/
def MenuCommand.passes (v : MenuView) : MenuCommand → Nat
  | .title _ => v.passed
  | _ => 0

/-- The modules of all entries that are passed over from here on. -/
def passedAlong : List Str → MenuView → Nat
  | [], v => v.passed
  | piece :: lines, v => (menuLineCommand piece).elim 0 (·.passes v) + passedAlong lines (v.line piece)

def MenuView.lists (v : MenuView) : ListView :=
  ⟨v.settings.targets, v.settings.kmods, v.current.map MenuEntry.target⟩

/-- The heap holds the lists of the view, and the variables agree with it. -/
structure MenuHolds (s : MenuStore) (lost : List Loc) (v : MenuView) : Prop where
  rep : HeapHolds s.toTargetStore lost v.lists
  defnum : s.defnum = v.defnum
  tnum : s.tnum = v.tnum
  skip : ∀ entry ∈ v.current, s.skip = entry.skip

/-- As `Leaves`, with this many nodes lost on the way. -/
def LeavesLess (run : Except Stuck TargetStore) (starved : Prop) (lost : List Loc) (count : Nat) (v : ListView) :
    Prop :=
  (run = .error .died ∧ starved) ∨
    ∃ s gone, run = .ok s ∧ gone.length = count ∧ HeapHolds s (gone ++ lost) v

section
variable {s : MenuStore} {lost : List Loc} {rounds : Nat} {v : MenuView}
variable (mallocModule : Malloc KlModule) (mallocTarget : Malloc HeapTarget)

/-- Passing over an entry leaves its modules behind. -/
theorem HeapHolds.pass {s : TargetStore} {targets : List KlTarget} {kmods : List KlModule} {t : KlTarget}
    (rep : HeapHolds s lost ⟨targets, kmods, some t⟩) :
    ∃ gone : List Loc, gone.length = t.modules.length ∧
      HeapHolds { s with opened := false } (gone ++ lost) ⟨targets, kmods, none⟩ := by
  have opened := rep.opened
  obtain ⟨lay, modules, records, view⟩ := rep
  simp only [Layout.view, opened, if_true, ListView.mk.injEq, Option.some.injEq] at view
  obtain ⟨rfl, rfl, rfl⟩ := view
  simp only [Layout.moduleLists, opened, if_true] at modules
  refine ⟨lay.current.map Prod.fst, by simp, lay, ?_, records, ?_⟩
  · simpa [Layout.moduleLists] using modules.lose
  · simp [Layout.view]

theorem closeMenu_leaves (follows : MenuHolds s lost v) (enough : v.lists.size < rounds) :
    LeavesLess (s.closeMenu mallocTarget rounds) (s.Starved mallocModule mallocTarget) lost v.passed
      ⟨v.close.targets, v.close.kmods, none⟩ := by
  obtain ⟨rep, -, -, skip⟩ := follows
  obtain ⟨settings, defnum, tnum, current⟩ := v
  unfold MenuStore.closeMenu
  cases current with
  | none =>
    have closed := rep.closed
    have same : { s.toTargetStore with opened := false } = s.toTargetStore := by rw [← closed]
    refine .inr ⟨s.toTargetStore, [], ?_, rfl, by simpa [MenuView.lists, MenuView.close] using rep⟩
    rw [if_neg (by simp [closed]), same]
  | some entry =>
    have skipped := skip entry rfl
    have opened := rep.opened
    have sizes : settings.targets.length + settings.kmods.length + entry.target.modules.length < rounds := enough
    cases out : entry.skip with
    | true =>
      obtain ⟨gone, count, rep'⟩ := rep.pass
      refine .inr ⟨_, gone, by rw [if_neg (by simp [skipped, out])], ?_, ?_⟩
      · simpa [MenuView.passed, out] using count
      · simpa [MenuView.close, MenuEntry.finished, out, MenuView.lists] using rep'
    | false =>
      rw [if_pos ⟨opened, skipped.trans out⟩]
      have room : settings.targets.length < rounds := by omega
      have few : entry.target.modules.length < rounds := by omega
      rcases rep.addTarget mallocTarget room few with ⟨died, no_block⟩ | ⟨s', added, rep'⟩
      · exact .inl ⟨by rw [died]; rfl, .inr no_block⟩
      · refine .inr ⟨_, [], by rw [added]; rfl, by simp [MenuView.passed, out], ?_⟩
        simpa [MenuView.close, MenuEntry.finished, out] using rep'

/-- As `MenuHolds` after a run that lost this many nodes. -/
def Advances (run : Except Stuck MenuStore) (starved : Prop) (lost : List Loc) (count : Nat) (v : MenuView) :
    Prop :=
  (run = .error .died ∧ starved) ∨
    ∃ s gone, run = .ok s ∧ gone.length = count ∧ MenuHolds s (gone ++ lost) v

theorem MenuHolds.stays {starved : Prop} (follows : MenuHolds s lost v) : Advances (.ok s) starved lost 0 v :=
  .inr ⟨s, [], rfl, rfl, follows⟩

/-- A directive that changes the record of the open entry, and none of its modules. -/
theorem MenuHolds.edits {starved : Prop} (follows : MenuHolds s lost v) (command : MenuCommand)
    (edits : v.step command =
      { v with current := v.current.map fun entry => entry.apply v.settings.grubDevmap command })
    (skip : ∀ entry : MenuEntry, (entry.apply v.settings.grubDevmap command).skip = entry.skip)
    (apart : ∀ t b modules, (MenuEntry.apply v.settings.grubDevmap ⟨{ t with modules := modules }, b⟩ command).target =
      { (MenuEntry.apply v.settings.grubDevmap ⟨t, b⟩ command).target with modules := modules }) :
    Advances (.ok (if s.opened then
        s.put (s.edit fun t => (MenuEntry.apply v.settings.grubDevmap ⟨t, s.skip⟩ command).target)
      else s)) starved lost 0 (v.step command) := by
  rw [edits]
  obtain ⟨settings, defnum, tnum, current⟩ := v
  obtain ⟨rep, same, count, skipped⟩ := follows
  cases current with
  | none =>
    rw [rep.closed]
    exact MenuHolds.stays ⟨rep, same, count, skipped⟩
  | some entry =>
    rw [if_pos rep.opened]
    refine MenuHolds.stays ⟨?_, same, count, ?_⟩
    · have changed := rep.edit (f := fun t => (MenuEntry.apply settings.grubDevmap ⟨t, s.skip⟩ command).target)
        fun t modules => apart t s.skip modules
      rw [skipped entry rfl] at changed
      rw [skipped entry rfl]
      exact changed
    · intro other listed
      obtain rfl := Option.some.inj listed
      exact (skipped entry rfl).trans (skip entry).symm

theorem menuStep_advances (follows : MenuHolds s lost v) (enough : v.lists.size < rounds)
    (command : MenuCommand) :
    Advances (s.menuStep mallocModule mallocTarget rounds v.settings.grubDevmap command)
      (s.Starved mallocModule mallocTarget) lost (command.passes v) (v.step command) := by
  cases command with
  | timeout n =>
    have same : (v.step (.timeout n)).lists = v.lists ∧ (v.step (.timeout n)).current = v.current ∧
        (v.step (.timeout n)).defnum = v.defnum ∧ (v.step (.timeout n)).tnum = v.tnum := by
      by_cases unset : v.settings.timeout = -1 <;> simp [MenuView.step, MenuView.lists, unset]
    obtain ⟨lists, current, defnum, tnum⟩ := same
    refine MenuHolds.stays ⟨lists ▸ follows.rep, follows.defnum.trans defnum.symm,
      follows.tnum.trans tnum.symm, ?_⟩
    rw [current]
    exact follows.skip
  | default n => exact MenuHolds.stays ⟨follows.rep, rfl, follows.tnum, follows.skip⟩
  | title val =>
    rcases closeMenu_leaves mallocModule mallocTarget follows enough with
      ⟨died, no_block⟩ | ⟨s', gone, closed, count, rep⟩
    · exact .inl ⟨by simp only [MenuStore.menuStep, died]; rfl, no_block⟩
    · have same : { s' with opened := false } = s' := by rw [← rep.closed]
      have rep' : HeapHolds { s' with opened := false } (gone ++ lost) _ := same ▸ rep
      refine .inr ⟨s.openEntry val s', gone, by simp only [MenuStore.menuStep, closed]; rfl, count, ?_,
        follows.defnum, ?_, ?_⟩
      · rw [show (v.step (.title val)).lists = ⟨v.close.targets, v.close.kmods,
          some (menuEntry s.defnum s.tnum val).target⟩ by rw [follows.defnum, follows.tnum]; rfl]
        exact rep'.start (menuEntry s.defnum s.tnum val).target rfl
      · exact congrArg (· + 1) follows.tnum
      · intro entry listed
        obtain rfl := Option.some.inj listed
        rfl
  | skip =>
    obtain ⟨settings, defnum, tnum, current⟩ := v
    refine MenuHolds.stays ⟨?_, follows.defnum, follows.tnum, ?_⟩
    · have same : (MenuView.step ⟨settings, defnum, tnum, current⟩ .skip).lists =
          MenuView.lists ⟨settings, defnum, tnum, current⟩ := by cases current <;> rfl
      rw [same]
      exact follows.rep
    · intro entry listed
      obtain ⟨old, -, rfl⟩ := Option.map_eq_some_iff.mp listed
      rfl
  | root val =>
    refine follows.edits (.root val) rfl (fun _ => rfl) fun t b modules => ?_
    cases found : lookupGdev v.settings.grubDevmap val <;> simp [MenuEntry.apply, found]
  | kernel val =>
    refine follows.edits (.kernel val) rfl (fun _ => rfl) fun t b modules => ?_
    cases found : grubConvPath v.settings.grubDevmap (nextValue val).1 <;>
      simp [MenuEntry.apply, setPath, found]
  | initrd val =>
    refine follows.edits (.initrd val) rfl (fun _ => rfl) fun t b modules => ?_
    cases found : grubConvPath v.settings.grubDevmap val <;> simp [MenuEntry.apply, setPath, found]
  | module val =>
    obtain ⟨settings, defnum, tnum, current⟩ := v
    obtain ⟨rep, same, count, skipped⟩ := follows
    simp only [MenuStore.menuStep]
    cases found : grubConvPath settings.grubDevmap (nextValue val).1 with
    | none =>
      -- nothing is added, and the entry stays as it is
      have unchanged : MenuView.step ⟨settings, defnum, tnum, current⟩ (.module val) =
          ⟨settings, defnum, tnum, current⟩ := by
        cases current <;> simp [MenuView.step, MenuEntry.apply, setPath, found]
      rw [unchanged]
      exact MenuHolds.stays ⟨rep, same, count, skipped⟩
    | some path =>
      cases current with
      | none =>
        rw [rep.closed]
        exact MenuHolds.stays ⟨rep, same, count, skipped⟩
      | some entry =>
        have sizes : settings.targets.length + settings.kmods.length + entry.target.modules.length < rounds := enough
        simp only [rep.opened, if_true]
        rcases rep.addModule mallocModule (show _ < rounds by omega) ⟨path, strlcpy (nextValue val).2⟩ with
          ⟨died, no_block⟩ | ⟨s', added, rep'⟩
        · exact .inl ⟨by rw [died]; rfl, .inl no_block⟩
        · refine .inr ⟨s.put s', [], by rw [added]; rfl, rfl, ?_, same, count, ?_⟩
          · simpa [MenuView.lists, MenuView.step, MenuEntry.apply, setPath, found, MenuStore.put] using rep'
          · intro other listed
            obtain rfl := Option.some.inj listed
            exact skipped entry rfl

/-- A directive adds one module at most. -/
theorem MenuEntry.apply_modules (devmap : List KlGdev) (entry : MenuEntry) (command : MenuCommand) :
    (entry.apply devmap command).target.modules.length ≤ entry.target.modules.length + 1 := by
  have path : ∀ src (set : KlTarget → Buf 1024 → KlTarget) (t : KlTarget),
      (∀ p, (set t p).modules.length ≤ t.modules.length + 1) →
      (setPath devmap src set t).modules.length ≤ t.modules.length + 1 := by
    intro src set t sets
    unfold setPath
    cases grubConvPath devmap src with
    | none => exact Nat.le_succ _
    | some p => exact sets p
  cases command with
  | root val =>
    simp only [MenuEntry.apply]
    cases lookupGdev devmap val <;> exact Nat.le_succ _
  | kernel val => exact path _ _ { entry.target with cmdline := strlcpy (nextValue val).2 } fun _ => Nat.le_succ _
  | initrd val => exact path _ _ entry.target fun _ => Nat.le_succ _
  | module val => exact path _ _ entry.target fun _ => by simp
  | _ => exact Nat.le_succ _

theorem menuStep_size (v : MenuView) (command : MenuCommand) :
    (v.step command).lists.size ≤ v.lists.size + 1 := by
  obtain ⟨settings, defnum, tnum, current⟩ := v
  have edit : ∀ command, (MenuView.lists ⟨settings, defnum, tnum,
      current.map fun entry => entry.apply settings.grubDevmap command⟩).size ≤
        (MenuView.lists ⟨settings, defnum, tnum, current⟩).size + 1 := by
    intro command
    cases current with
    | none => exact Nat.le_succ _
    | some entry =>
      have grows := entry.apply_modules settings.grubDevmap command
      simp only [MenuView.lists, ListView.size, Option.map_some, Option.getD_some]
      omega
  cases command with
  | timeout n => by_cases unset : settings.timeout = -1 <;> simp [MenuView.step, MenuView.lists, ListView.size, unset]
  | default n => exact Nat.le_succ _
  | title val =>
    have one : ((current.map MenuEntry.finished).getD []).length ≤ 1 := by
      cases current with
      | none => exact Nat.zero_le _
      | some entry =>
        simp only [Option.map_some, Option.getD_some, MenuEntry.finished, finished]
        split_ifs <;> simp
    simp only [MenuView.step, MenuView.lists, ListView.size, MenuView.close, menuEntry, initTarget,
      List.length_append, Option.map_some, Option.getD_some, List.length_nil]
    omega
  | skip => exact edit .skip
  | root val => exact edit (.root val)
  | kernel val => exact edit (.kernel val)
  | initrd val => exact edit (.initrd val)
  | module val => exact edit (.module val)

/-- Behind some of the lines there is no memory for another node. -/
def MenuStore.StarvedIn (rounds : Nat) (devmap : List KlGdev) (lines : List Str) (s : MenuStore) : Prop :=
  ∃ front s', front <+: lines ∧ menuLines mallocModule mallocTarget rounds devmap front s = .ok s' ∧
    s'.Starved mallocModule mallocTarget

theorem menuLines_leaves (follows : MenuHolds s lost v) (lines : List Str)
    (enough : v.lists.size + lines.length < rounds) :
    LeavesLess (MenuStore.menuLines mallocModule mallocTarget rounds v.settings.grubDevmap lines s >>=
        MenuStore.closeMenu mallocTarget rounds)
      (s.StarvedIn mallocModule mallocTarget rounds v.settings.grubDevmap lines) lost (passedAlong lines v)
      ⟨(lines.foldl MenuView.line v).close.targets, (lines.foldl MenuView.line v).close.kmods, none⟩ := by
  induction lines generalizing s v lost with
  | nil =>
    refine (closeMenu_leaves mallocModule mallocTarget follows (by simpa using enough)).imp_left (And.imp_right ?_)
    exact fun no_block => ⟨[], s, List.prefix_rfl, rfl, no_block⟩
  | cons piece lines ih =>
    simp only [List.length_cons] at enough
    simp only [MenuStore.menuLines, List.foldl_cons, MenuView.line, passedAlong]
    cases read : menuLineCommand piece with
    | none =>
      simp only [Option.elim_none, Nat.zero_add]
      refine (ih follows (by omega)).imp_left (And.imp_right ?_)
      rintro ⟨front, s', before, run, no_block⟩
      refine ⟨piece :: front, s', List.cons_prefix_cons.mpr ⟨rfl, before⟩, ?_, no_block⟩
      rw [MenuStore.menuLines, read]
      exact run
    | some command =>
      have grows := menuStep_size v command
      have devmap : (v.step command).settings.grubDevmap = v.settings.grubDevmap := by
        cases command <;> simp [MenuView.step, MenuView.close]
        split <;> rfl
      simp only [Option.elim_some]
      rcases menuStep_advances mallocModule mallocTarget follows
        (show _ < rounds by omega) command with ⟨died, no_block⟩ | ⟨s', gone, done, count, follows'⟩
      · exact .inl ⟨by rw [died]; rfl, [], s, List.nil_prefix, rfl, no_block⟩
      · rw [done]
        rcases ih follows' (by omega) with ⟨died, front, t, before, run, no_block⟩ | ⟨s'', gone', rest, count', rep⟩
        · refine .inl ⟨devmap ▸ died, piece :: front, t, List.cons_prefix_cons.mpr ⟨rfl, before⟩, ?_, no_block⟩
          rw [MenuStore.menuLines, read, Option.elim_some, done]
          exact devmap ▸ run
        · refine .inr ⟨s'', gone' ++ gone, devmap ▸ rest, ?_, ?_⟩
          · rw [List.length_append, count, count']
            exact Nat.add_comm _ _
          · rwa [List.append_assoc]

/-- Reading menu.lst leaves on the heap the lists `load_menu` leaves, unless there is no
memory left behind some of the lines. The nodes lost are as many as the modules of the
entries it passes over. -/
theorem loadMenu_leaves (tskip : Bool) (settings : Settings) (content : Str) {s : TargetStore}
    (rep : HeapHolds { s with opened := false } lost ⟨settings.targets, settings.kmods, none⟩)
    (enough : settings.targets.length + settings.kmods.length + (pieces 1024 content).length < rounds) :
    LeavesLess (s.loadMenu mallocModule mallocTarget rounds settings.grubDevmap tskip content)
      (MenuStore.StarvedIn mallocModule mallocTarget rounds settings.grubDevmap ((pieces 1024 content).map cstr)
        { s with opened := false, skip := tskip, defnum := -1, tnum := 0 }) lost
      (passedAlong ((pieces 1024 content).map cstr) ⟨settings.silent, -1, 0, none⟩)
      ⟨(loadMenu tskip settings (.ok content)).targets, (loadMenu tskip settings (.ok content)).kmods,
        none⟩ := by
  have start : MenuHolds { s with opened := false, skip := tskip, defnum := -1, tnum := 0 } lost
      ⟨settings.silent, -1, 0, none⟩ := ⟨rep, rfl, rfl, fun entry listed => by simp at listed⟩
  have small : (MenuView.lists ⟨settings.silent, -1, 0, none⟩).size +
      ((pieces 1024 content).map cstr).length < rounds := by
    rw [List.length_map]
    exact enough
  have read := menuLines_leaves mallocModule mallocTarget start
    ((pieces 1024 content).map cstr) small
  have lists : (⟨(loadMenu tskip settings (.ok content)).targets,
      (loadMenu tskip settings (.ok content)).kmods, none⟩ : ListView) =
        ⟨(loadMenu tskip settings (.ok content)).silent.targets,
          (loadMenu tskip settings (.ok content)).silent.kmods, none⟩ := rfl
  rw [lists, loadMenu_silent]
  exact read

end

/-- An entry with a module that is passed over. -/
def passingMenu : Str := bytes "title a\nmodule m\nchainloader\n"

/-- The memory is enough, and the module is lost. -/
theorem loadMenu_leaves_passing :
    ∃ s gone, emptyStore.loadMenu (firstFree 8) (firstFree 8) 16 [] false passingMenu = .ok s ∧
      gone.length = 1 ∧ HeapHolds s gone ⟨(loadMenu false initSettings (.ok passingMenu)).targets,
        (loadMenu false initSettings (.ok passingMenu)).kmods, none⟩ := by
  have alive : (emptyStore.loadMenu (firstFree 8) (firstFree 8) 16 [] false passingMenu).isOk = true := by
    decide +kernel
  have passed : passedAlong ((pieces 1024 passingMenu).map cstr) ⟨initSettings.silent, -1, 0, none⟩ = 1 := by
    decide +kernel
  have leaves := loadMenu_leaves (firstFree 8) (firstFree 8) false initSettings passingMenu emptyStore_holds
    (show _ < 16 by decide +kernel)
  rcases leaves with ⟨died, -⟩ | ⟨s, gone, read, count, rep⟩
  · have dead : emptyStore.loadMenu (firstFree 8) (firstFree 8) 16 [] false passingMenu = .error .died := died
    rw [dead] at alive
    cases alive
  · exact ⟨s, gone, read, count.trans passed, by simpa using rep⟩

end KexecLoader
