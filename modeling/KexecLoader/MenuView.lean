import KexecLoader.ConfView
import KexecLoader.Library.Blocks
import KexecLoader.MenuLst

/-!
# What the lines of menu.lst do

As for kexec-loader.conf, the state of `load_menu` is seen without line numbers
and messages. Title lines open entries; the others edit the entry that is open, or
leave a number that decides which entry opened later is the default.
-/
namespace KexecLoader

/-- A target, and whether it is not to be added. -/
structure MenuEntry where
  target : KlTarget
  skip : Bool
deriving DecidableEq

inductive MenuCommand where
  | timeout (n : Int)
  | default (n : Int)
  | title (val : Str)
  | root (val : Str)
  | skip
  | kernel (val : Str)
  | initrd (val : Str)
  | module (val : Str)
deriving DecidableEq

inductive MenuWord where
  | timeout | default | title | root | kernel | initrd | module | chainloader
deriving DecidableEq

def MenuWord.text : MenuWord → Str
  | timeout => bytes "timeout"
  | default => bytes "default"
  | title => bytes "title"
  | root => bytes "root"
  | kernel => bytes "kernel"
  | initrd => bytes "initrd"
  | module => bytes "module"
  | chainloader => bytes "chainloader"

def MenuWord.all : List MenuWord :=
  [timeout, default, title, root, kernel, initrd, module, chainloader]

def MenuWord.command (val : Str) : MenuWord → Option MenuCommand
  | timeout => valued val (.timeout (atoi val))
  | default => valued val (.default (atoi val))
  | title => valued val (.title val)
  | root => some (if val = [] then .skip else .root val)
  | kernel => valued val (.kernel val)
  | initrd => valued val (.initrd val)
  | module => valued val (.module val)
  | chainloader => some .skip

def menuCommand (word val : Str) : Option MenuCommand :=
  (MenuWord.all.find? (·.text = word)).bind (·.command val)

/-- The command of a line. A comment is none, and neither is a blank line. -/
def menuLineCommand (piece : Str) : Option MenuCommand :=
  let (word, val) := lineWords piece
  if word.head? = some 35 then none else menuCommand word val

theorem MenuWord.text_injective : Function.Injective MenuWord.text := by
  intro a b
  cases a <;> cases b <;> simp only [reduceCtorEq, imp_self, imp_false] <;> decide

/-- A line is one of the directives, or does nothing. -/
theorem menuLine_cases (line : Str) :
    (∃ w : MenuWord, (lineWords line).1 = w.text ∧
        menuLineCommand line = w.command (lineWords line).2) ∨
      (∀ w : MenuWord, (lineWords line).1 ≠ w.text) ∧ menuLineCommand line = none := by
  by_cases known : ∃ w : MenuWord, (lineWords line).1 = w.text
  · obtain ⟨w, word⟩ := known
    have listed : MenuWord.all.find? (·.text = w.text) = some w := by cases w <;> rfl
    have no_comment : w.text.head? ≠ some 35 := by cases w <;> decide
    refine .inl ⟨w, word, ?_⟩
    simp only [menuLineCommand, menuCommand, word, if_neg no_comment, listed, Option.bind_some]
  · have other : ∀ w : MenuWord, (lineWords line).1 ≠ w.text := fun w word => known ⟨w, word⟩
    have unlisted : MenuWord.all.find? (·.text = (lineWords line).1) = none :=
      List.find?_eq_none.mpr fun w _ => by simpa using Ne.symm (other w)
    refine .inr ⟨other, ?_⟩
    simp only [menuLineCommand, menuCommand, unlisted, Option.bind_none, ite_self]

/-- The target with a path set if its device is found. -/
def setPath (devmap : List KlGdev) (src : Str) (set : KlTarget → Buf 1024 → KlTarget) (t : KlTarget) :
    KlTarget :=
  (grubConvPath devmap src).elim t (set t)

/-- What a command does to the entry that is open. -/
def MenuEntry.apply (devmap : List KlGdev) (entry : MenuEntry) : MenuCommand → MenuEntry
  | .root val =>
    { entry with
      target := (lookupGdev devmap val).elim entry.target
        fun dev => { entry.target with root := strlcpy dev } }
  | .skip => { entry with skip := true }
  | .kernel val =>
    { entry with
      target := setPath devmap (nextValue val).1 (fun t p => { t with kernel := p })
        { entry.target with cmdline := strlcpy (nextValue val).2 } }
  | .initrd val =>
    { entry with target := setPath devmap val (fun t p => { t with initrd := p }) entry.target }
  | .module val =>
    { entry with
      target := setPath devmap (nextValue val).1
        (fun t p => { t with modules := t.modules ++ [⟨p, strlcpy (nextValue val).2⟩] })
        entry.target }
  | _ => entry

/-- What closing an entry adds to the targets. -/
def MenuEntry.finished (entry : MenuEntry) : List KlTarget :=
  if entry.skip then [] else KexecLoader.finished entry.target

/-- The entry a title opens, given the number in the last `default` line and the
number of titles before. -/
def menuEntry (defnum : Int) (tnum : Nat) (val : Str) : MenuEntry :=
  ⟨{ initTarget with
      title := strlcpy val
      flags := TARGET_RESET ||| if (tnum : Int) = defnum then TARGET_DEFAULT else 0 }, false⟩

structure MenuView where
  settings : Settings
  defnum : Int
  tnum : Nat
  current : Option MenuEntry

def MenuState.view (st : MenuState) : MenuView :=
  ⟨st.settings.silent, st.defnum, st.tnum,
    if st.topen = 0 then none else some ⟨st.target, st.tskip⟩⟩

def MenuView.close (v : MenuView) : Settings :=
  { v.settings with
    targets := v.settings.targets ++ (v.current.map MenuEntry.finished).getD [] }

def MenuView.step (v : MenuView) : MenuCommand → MenuView
  | .timeout n =>
    if v.settings.timeout = -1 then { v with settings := { v.settings with timeout := n } } else v
  | .default n => { v with defnum := n }
  | .title val => ⟨v.close, v.defnum, v.tnum + 1, some (menuEntry v.defnum v.tnum val)⟩
  | command =>
    { v with current := v.current.map fun entry => entry.apply v.settings.grubDevmap command }

def MenuView.line (v : MenuView) (piece : Str) : MenuView :=
  (menuLineCommand piece).elim v v.step

/-! ### One round of the loop -/

section
variable (st : MenuState) (name val : Str)

theorem MenuState.printD_view (lnum : Nat) (text : Str) : (st.printD lnum text).view = st.view := rfl

theorem grubCheckArg_view (body : MenuState) (command : MenuCommand)
    (does : val ≠ [] → body.view = st.view.step command) :
    (grubCheckArg st name val body).view = (valued val command).elim st.view st.view.step := by
  unfold grubCheckArg valued
  split
  next => rfl
  next given => exact does given

theorem grubCheckTopen_view (body : MenuState) (command : Option MenuCommand)
    (outside : st.topen = 0 → command.elim st.view st.view.step = st.view)
    (inside : st.topen ≠ 0 → body.view = command.elim st.view st.view.step) :
    (grubCheckTopen st name body).view = command.elim st.view st.view.step := by
  unfold grubCheckTopen
  split
  next closed => exact (outside closed).symm
  next opened => exact inside opened

theorem menuPath_view (src : Str) (set : KlTarget → Buf 1024 → KlTarget) (opened : st.topen ≠ 0) :
    (menuPath st src set).view = { st.view with
      current := some ⟨setPath st.settings.grubDevmap src set st.target, st.tskip⟩ } := by
  unfold menuPath setPath
  cases grubConvPath st.settings.grubDevmap src with
  | none =>
    simp only [MenuState.printD_view]
    simp [MenuState.view, opened]
  | some path => simp [MenuState.view, opened]

theorem grubAddTarget_silent :
    (grubAddTarget st).settings.silent = st.view.close := by
  unfold grubAddTarget MenuState.view MenuView.close MenuEntry.finished finished
  by_cases closed : st.topen = 0
  · simp [closed, Settings.silent]
  · cases skipped : st.tskip with
    | true => simp [closed, Settings.silent]
    | false =>
      split_ifs <;> simp_all [MenuState.printD, Settings.silent, Settings.printD]

theorem grubAddTarget_locals :
    (grubAddTarget st).lnum = st.lnum ∧ (grubAddTarget st).defnum = st.defnum ∧
      (grubAddTarget st).tnum = st.tnum := by
  unfold grubAddTarget
  split_ifs <;> exact ⟨rfl, rfl, rfl⟩

theorem menuTitle_view (numbered : 0 < st.lnum) :
    (menuTitle st name val).view = (valued val (.title val)).elim st.view st.view.step := by
  refine grubCheckArg_view st name val _ _ fun _ => ?_
  have closed := grubAddTarget_silent st
  obtain ⟨lnum, defnum, tnum⟩ := grubAddTarget_locals st
  generalize grubAddTarget st = st' at closed lnum defnum tnum ⊢
  -- the flag for an open entry is the number of its first line
  have opened : st.lnum ≠ 0 := by omega
  simp only [MenuView.step, ← closed]
  simp [MenuState.view, menuEntry, lnum, defnum, tnum, opened]
  congr

theorem menuTimeout_view :
    (menuTimeout st name val).view = (valued val (.timeout (atoi val))).elim st.view st.view.step := by
  unfold menuTimeout
  split
  next unset =>
    refine grubCheckArg_view st name val _ _ fun _ => ?_
    simp [MenuView.step, MenuState.view, Settings.silent, unset]
  next set =>
    -- a timeout from elsewhere is kept
    unfold valued
    split
    · rfl
    · simp [MenuView.step, MenuState.view, Settings.silent, set]

theorem menuRoot_view :
    (menuRoot st name val).view = st.view.step (if val = [] then .skip else .root val) := by
  apply grubCheckTopen_view st name _ (some (if val = [] then .skip else .root val))
  · intro closed
    split <;> simp [MenuView.step, MenuState.view, closed]
  · intro opened
    by_cases empty : val = []
    · simp [empty, MenuView.step, MenuState.view, opened, MenuEntry.apply]
    · have devmap : st.view.settings.grubDevmap = st.settings.grubDevmap := rfl
      simp only [if_neg empty, Option.elim_some, MenuView.step, devmap]
      cases found : lookupGdev st.settings.grubDevmap val with
      | none =>
        simp only [MenuState.printD_view]
        simp [MenuState.view, opened, MenuEntry.apply, found]
      | some dev => simp [MenuState.view, opened, MenuEntry.apply, found]

/-- The directives that need an open entry and an argument. -/
theorem grubChecked_view (body : MenuState) (command : MenuCommand)
    (edits : ∀ v : MenuView, v.step command =
      { v with current := v.current.map fun entry => entry.apply v.settings.grubDevmap command })
    (does : st.topen ≠ 0 → body.view = st.view.step command) :
    (grubCheckTopen st name (grubCheckArg st name val body)).view =
      (valued val command).elim st.view st.view.step := by
  apply grubCheckTopen_view
  · intro closed
    -- outside an entry the line is rejected, and in the view there is nothing to edit
    have none_open : st.view.current = none := by simp [MenuState.view, closed]
    unfold valued
    split
    · rfl
    · simp only [Option.elim_some, edits, none_open, Option.map_none]
      rw [← none_open]
  · exact fun opened => grubCheckArg_view st name val _ _ fun _ => does opened

theorem menuKernel_view :
    (menuKernel st name val).view = (valued val (.kernel val)).elim st.view st.view.step := by
  refine grubChecked_view st name val _ _ (fun _ => rfl) fun opened => ?_
  refine (menuPath_view
    { st with target := { st.target with cmdline := strlcpy (nextValue val).2 } }
    (nextValue val).1 (fun t p => { t with kernel := p }) opened).trans ?_
  simp [MenuState.view, MenuView.step, MenuEntry.apply, opened, Settings.silent]

theorem menuInitrd_view :
    (menuInitrd st name val).view = (valued val (.initrd val)).elim st.view st.view.step := by
  refine grubChecked_view st name val _ _ (fun _ => rfl) fun opened => ?_
  refine (menuPath_view _ _ _ opened).trans ?_
  simp [MenuState.view, MenuView.step, MenuEntry.apply, opened, Settings.silent]

theorem menuModule_view :
    (menuModule st name val).view = (valued val (.module val)).elim st.view st.view.step := by
  refine grubChecked_view st name val _ _ (fun _ => rfl) fun opened => ?_
  refine (menuPath_view st (nextValue val).1
    (fun t p => { t with modules := t.modules ++ [⟨p, strlcpy (nextValue val).2⟩] })
    opened).trans ?_
  simp [MenuState.view, MenuView.step, MenuEntry.apply, opened, Settings.silent]

/-- Before the first title `tskip` is not looked at. -/
theorem menuChainloader_view :
    ({ st with tskip := true } : MenuState).view = st.view.step .skip := by
  by_cases closed : st.topen = 0 <;> simp [MenuState.view, MenuView.step, MenuEntry.apply, closed]

theorem menuDirective_view (numbered : 0 < st.lnum) :
    (menuDirective st name val).view = (menuCommand name val).elim st.view st.view.step := by
  -- one link for each word the loop compares with, in the order of the words
  have chain (w : MenuWord) {ws : List MenuWord} {a b : MenuState} := @streq_chain _ _ _ _
    MenuWord.text (·.command val) MenuState.view (·.elim st.view st.view.step) name w ws a b
  exact chain .timeout (menuTimeout_view st name val) <|
    chain .default (grubCheckArg_view st name val _ _ fun _ => rfl) <|
    chain .title (menuTitle_view st name val numbered) <|
    chain .root (menuRoot_view st name val) <|
    chain .kernel (menuKernel_view st name val) <|
    chain .initrd (menuInitrd_view st name val) <|
    chain .module (menuModule_view st name val) <|
    chain .chainloader (menuChainloader_view st) rfl

theorem menuLine_view (piece : Str) : (menuLine st piece).view = st.view.line piece := by
  have same : ({ st with lnum := st.lnum + 1 } : MenuState).view = st.view := rfl
  have directive := menuDirective_view { st with lnum := st.lnum + 1 }
    (nextValue (lineText piece)).1 (nextValue (lineText piece)).2 (Nat.succ_pos _)
  simp only [menuLine, lineText_cut, MenuView.line, menuLineCommand, lineWords]
  by_cases comment : (nextValue (lineText piece)).1.head? = some 35
  · simp [comment, same]
  · by_cases empty : (nextValue (lineText piece)).1 = []
    · -- a blank line has no word to compare
      have nothing : menuCommand [] (nextValue (lineText piece)).2 = none := rfl
      simp [empty, nothing, same]
    · simpa [comment, empty, same] using directive

theorem menuLines_view (lines : List Str) :
    (lines.foldl menuLine st).view = lines.foldl MenuView.line st.view := by
  induction lines generalizing st with
  | nil => rfl
  | cons piece lines ih => rw [List.foldl_cons, ih, menuLine_view, List.foldl_cons]

end

/-- What `load_menu` leaves, seen without the messages; the value `tskip` starts
with does not matter. -/
theorem loadMenu_silent (tskip : Bool) (s : Settings) (content : Str) :
    (loadMenu tskip s (.ok content)).silent =
      (((pieces 1024 content).map cstr).foldl MenuView.line ⟨s.silent, -1, 0, none⟩).close := by
  have start : (MenuState.view ⟨s, 0, 0, -1, 0, tskip, initTarget⟩) = ⟨s.silent, -1, 0, none⟩ := rfl
  simp only [loadMenu]
  rw [grubAddTarget_silent, menuLines_view, start]

end KexecLoader
