import KexecLoader.ConfFidelity
import KexecLoader.GrubMap

/-!
# What the lines of kexec-loader.conf do

A line is a command or says nothing, whatever is in it. The state of `load_conf`
is seen without line numbers and messages: the settings and the target that is
open. One round of the loop carries out the line's command on that view.
-/
namespace KexecLoader

/-- A change to a target. -/
inductive Edit where
  | root (val : Str)
  | kernel (val : Str)
  | initrd (val : Str)
  | cmdline (val : Str)
  | append (val : Str)
  | default
  | resetVga
  | module (val : Str)
deriving DecidableEq

def Edit.apply (t : KlTarget) : Edit → KlTarget
  | .root val => { t with root := strlcpy val }
  | .kernel val => { t with kernel := strlcpy val }
  | .initrd val => { t with initrd := strlcpy val }
  | .cmdline val => { t with cmdline := strlcpy val }
  | .append val => { t with append := strlcpy val }
  | .default => { t with flags := t.flags ||| TARGET_DEFAULT }
  | .resetVga => { t with flags := t.flags ||| TARGET_RESET }
  | .module val => { t with modules := t.modules ++ [readModule val] }

inductive ConfCommand where
  | timeout (n : Int)
  | grubPath (path : Str)
  | grubAutodetect (n : Int)
  | title (val : Str)
  | edit (e : Edit)
  | kmod (val : Str)
deriving DecidableEq

/-- A directive that needs an argument. -/
def valued {α : Type} (val : Str) (command : α) : Option α := if val = [] then none else some command

/-- The words a line can begin with. -/
inductive ConfWord where
  | timeout | grubPath | grubMap | grubAutodetect | title | root | kernel | initrd | cmdline
  | append | default | resetVga | module | kmod
deriving DecidableEq

def ConfWord.text : ConfWord → Str
  | timeout => bytes "timeout"
  | grubPath => bytes "grub-path"
  | grubMap => bytes "grub-map"
  | grubAutodetect => bytes "grub-autodetect"
  | title => bytes "title"
  | root => bytes "root"
  | kernel => bytes "kernel"
  | initrd => bytes "initrd"
  | cmdline => bytes "cmdline"
  | append => bytes "append"
  | default => bytes "default"
  | resetVga => bytes "reset-vga"
  | module => bytes "module"
  | kmod => bytes "kmod"

def ConfWord.all : List ConfWord :=
  [timeout, grubPath, grubMap, grubAutodetect, title, root, kernel, initrd, cmdline, append,
    default, resetVga, module, kmod]

/-- What a line with this word and value asks for. A `grub-map` line is rejected
whatever its value is. -/
def ConfWord.command (val : Str) : ConfWord → Option ConfCommand
  | timeout => valued val (.timeout (if klStreq val (bytes "off") then -2 else atoi val))
  | grubPath => if val.head? = some 40 then some (.grubPath val) else none
  | grubMap => none
  | grubAutodetect =>
    if klStrceq val (bytes "on") then valued val (.grubAutodetect 2)
    else if klStrceq val (bytes "off") then valued val (.grubAutodetect 0)
    else none
  | title => valued val (.title val)
  | root => valued val (.edit (.root val))
  | kernel => valued val (.edit (.kernel val))
  | initrd => valued val (.edit (.initrd val))
  | cmdline => valued val (.edit (.cmdline val))
  | append => valued val (.edit (.append val))
  | default => some (.edit .default)
  | resetVga => some (.edit .resetVga)
  | module => valued val (.edit (.module val))
  | kmod => valued val (.kmod val)

def confCommand (word val : Str) : Option ConfCommand :=
  (ConfWord.all.find? (·.text = word)).bind (·.command val)

theorem valued_eq_some {α : Type} {val : Str} {command c : α} :
    valued val command = some c ↔ val ≠ [] ∧ command = c := by
  unfold valued
  split <;> simp [*]

theorem confCommand_word {word val : Str} {command : ConfCommand}
    (found : confCommand word val = some command) :
    ∃ w : ConfWord, w.text = word ∧ w.command val = some command := by
  obtain ⟨w, listed, asks⟩ := Option.bind_eq_some_iff.mp found
  exact ⟨w, by simpa using List.find?_some listed, asks⟩

theorem confCommand_kmod {word val v : Str} (found : confCommand word val = some (.kmod v)) :
    word = bytes "kmod" ∧ val ≠ [] ∧ val = v := by
  obtain ⟨w, text, asks⟩ := confCommand_word found
  cases w <;> simp only [ConfWord.command, valued_eq_some, reduceCtorEq, and_false,
    ConfCommand.kmod.injEq, Option.some.injEq] at asks
  case kmod => exact ⟨text.symm, asks⟩
  all_goals split_ifs at asks
  all_goals simp [valued_eq_some] at asks

theorem confCommand_title {word val v : Str} (found : confCommand word val = some (.title v)) :
    word = bytes "title" ∧ val ≠ [] ∧ val = v := by
  obtain ⟨w, text, asks⟩ := confCommand_word found
  cases w <;> simp only [ConfWord.command, valued_eq_some, reduceCtorEq, and_false,
    ConfCommand.title.injEq, Option.some.injEq] at asks
  case title => exact ⟨text.symm, asks⟩
  all_goals split_ifs at asks
  all_goals simp [valued_eq_some] at asks

/-- The command of a line. A comment is none, and neither is a blank line. -/
def lineCommand (piece : Str) : Option ConfCommand :=
  let (word, val) := lineWords piece
  if word.head? = some 35 then none else confCommand word val

theorem lineCommand_some {piece : Str} {command : ConfCommand}
    (found : lineCommand piece = some command) : (lineWords piece).1.head? ≠ some 35 ∧
      confCommand (lineWords piece).1 (lineWords piece).2 = some command := by
  simp only [lineCommand] at found
  split at found
  next => cases found
  next no_comment => exact ⟨no_comment, found⟩

/-- The settings without the messages. -/
def Settings.silent (s : Settings) : Settings := { s with shown := [] }

@[simp] theorem Settings.silent_printD (s : Settings) (message : Str) :
    (s.printD message).silent = s.silent := rfl

structure ConfView where
  settings : Settings
  current : Option KlTarget
deriving DecidableEq

def ConfState.view (st : ConfState) : ConfView :=
  ⟨st.settings.silent, if st.topen = 0 then none else some st.target⟩

def ConfView.close (v : ConfView) : Settings :=
  { v.settings with
    targets := v.settings.targets ++ (v.current.map finished).getD [] }

def ConfView.step (v : ConfView) : ConfCommand → ConfView
  | .timeout n => { v with settings := { v.settings with timeout := n } }
  | .grubPath path => { v with settings := { v.settings with grubPath := some path } }
  | .grubAutodetect n => { v with settings := { v.settings with grubAutodetect := n } }
  | .title val => ⟨v.close, some { initTarget with title := strlcpy val }⟩
  | .edit e => { v with current := v.current.map fun t => e.apply t }
  | .kmod val =>
    if v.current.isSome then
      { v with settings := { v.settings with kmods := v.settings.kmods ++ [readModule val] } }
    else v

def ConfView.line (v : ConfView) (piece : Str) : ConfView :=
  (lineCommand piece).elim v v.step

section
variable (fname : Str) (st : ConfState) (name val : Str)

theorem ConfState.printD_view (lnum : Nat) (text : Str) :
    (st.printD fname lnum text).view = st.view := rfl

theorem countArgs_one : countArgs 1 val < 1 ↔ val = [] := by
  unfold countArgs
  split
  next empty => simp [empty]
  next nonempty => simp [nonempty]

/-- A directive with an argument does what its command does, and without one
nothing. -/
theorem cfgCheckArgs_view (body : ConfState) (command : ConfCommand)
    (does : val ≠ [] → body.view = st.view.step command) :
    (cfgCheckArgs fname 1 st name val body).view =
      (valued val command).elim st.view st.view.step := by
  unfold cfgCheckArgs valued
  simp only [countArgs_one]
  split
  next empty => rfl
  next given => exact does given

theorem cfgCheckTopen_view (body : ConfState) (command : Option ConfCommand)
    (outside : st.topen = 0 → command.elim st.view st.view.step = st.view)
    (inside : st.topen ≠ 0 → body.view = command.elim st.view st.view.step) :
    (cfgCheckTopen fname st name body).view = command.elim st.view st.view.step := by
  unfold cfgCheckTopen
  split
  next closed => exact (outside closed).symm
  next opened => exact inside opened

theorem confField_view (set : KlTarget → Str → KlTarget) (e : Edit)
    (sets : ∀ t, set t val = e.apply t) :
    (confField fname set st name val).view =
      (valued val (.edit e)).elim st.view st.view.step := by
  apply cfgCheckTopen_view
  · intro closed
    unfold valued
    split <;> simp [ConfView.step, ConfState.view, closed]
  · intro opened
    exact cfgCheckArgs_view fname st name val _ _ fun _ => by
      simp [ConfState.view, ConfView.step, opened, sets]

theorem confFlag_view (flag : Nat) (e : Edit)
    (sets : ∀ t, e.apply t = { t with flags := t.flags ||| flag }) :
    (confFlag fname flag st name val).view = st.view.step (.edit e) := by
  apply cfgCheckTopen_view fname st name _ (some (.edit e))
  · intro closed
    simp [ConfView.step, ConfState.view, closed]
  · intro opened
    simp [ConfView.step, ConfState.view, opened, sets]

theorem confKmod_view :
    (confKmod fname st name val).view = (valued val (.kmod val)).elim st.view st.view.step := by
  apply cfgCheckTopen_view
  · intro closed
    unfold valued
    split <;> simp [ConfView.step, ConfState.view, closed]
  · intro opened
    exact cfgCheckArgs_view fname st name val _ _ fun _ => by
      simp [ConfState.view, ConfView.step, opened, Settings.silent]

theorem cfgAddTarget_silent :
    (cfgAddTarget fname st).settings.silent =
      { st.settings.silent with targets := st.settings.targets ++ finished st.target } := by
  unfold cfgAddTarget finished
  split_ifs <;> simp [ConfState.printD, Settings.silent, Settings.printD]

theorem ConfState.view_close :
    (if st.topen ≠ 0 then cfgAddTarget fname st else st).settings.silent = st.view.close := by
  split
  next opened =>
    rw [cfgAddTarget_silent]
    simp [ConfState.view, ConfView.close, opened, Settings.silent]
  next closed =>
    simp only [ne_eq, not_not] at closed
    simp [ConfState.view, ConfView.close, closed, Settings.silent]

theorem confTitle_view (numbered : 0 < st.lnum) :
    (confTitle fname st name val).view = (valued val (.title val)).elim st.view st.view.step := by
  refine cfgCheckArgs_view fname st name val _ _ fun _ => ?_
  have closed := st.view_close fname
  have lnum : (if st.topen ≠ 0 then cfgAddTarget fname st else st).lnum = st.lnum := by
    split
    · exact cfgAddTarget_lnum fname st
    · rfl
  generalize (if st.topen ≠ 0 then cfgAddTarget fname st else st) = st' at closed lnum ⊢
  -- the flag for an open target is the number of its first line
  have opened : st.lnum ≠ 0 := by omega
  simp only [ConfView.step, ← closed]
  simp [ConfState.view, lnum, opened]

theorem confTimeout_view :
    (confTimeout fname st name val).view =
      (valued val (.timeout (if klStreq val (bytes "off") then -2 else atoi val))).elim st.view
        st.view.step :=
  cfgCheckArgs_view fname st name val _ _ fun _ => rfl

theorem confGrubPath_view :
    (confGrubPath fname st name val).view =
      (if val.head? = some 40 then some (.grubPath val) else none).elim st.view st.view.step := by
  unfold confGrubPath cfgCheckArgs
  simp only [countArgs_one, bne_iff_ne, ne_eq, ite_not]
  split
  next empty => simp [empty, ConfState.printD_view]
  next given => split <;> rfl

theorem confGrubAutodetect_view :
    (confGrubAutodetect fname st name val).view =
      (if klStrceq val (bytes "on") then valued val (.grubAutodetect 2)
        else if klStrceq val (bytes "off") then valued val (.grubAutodetect 0)
        else none).elim st.view st.view.step := by
  unfold confGrubAutodetect cfgCheckArgs valued
  simp only [countArgs_one]
  split
  next empty => simp [empty, ConfState.printD_view]
  next given => split_ifs <;> rfl

/-- A directive does to the view what its command does. -/
theorem confDirective_view (numbered : 0 < st.lnum) :
    (confDirective fname st name val).view =
      (confCommand name val).elim st.view st.view.step := by
  -- one link for each word the loop compares with, in the order of the words
  have chain (w : ConfWord) {ws : List ConfWord} {a b : ConfState} := @streq_chain _ _ _ _
    ConfWord.text (·.command val) ConfState.view (·.elim st.view st.view.step) name w ws a b
  have field := confField_view fname st name val
  refine chain .timeout (confTimeout_view fname st name val) <|
    chain .grubPath (confGrubPath_view fname st name val) <| chain .grubMap ?map <|
    chain .grubAutodetect (confGrubAutodetect_view fname st name val) <|
    chain .title (confTitle_view fname st name val numbered) <|
    chain .root (field _ (.root val) fun _ => rfl) <|
    chain .kernel (field _ (.kernel val) fun _ => rfl) <|
    chain .initrd (field _ (.initrd val) fun _ => rfl) <|
    chain .cmdline (field _ (.cmdline val) fun _ => rfl) <|
    chain .append (field _ (.append val) fun _ => rfl) <|
    chain .default (confFlag_view fname st name val _ .default fun _ => rfl) <|
    chain .resetVga (confFlag_view fname st name val _ .resetVga fun _ => rfl) <|
    chain .module (field _ (.module val) fun _ => rfl) <|
    chain .kmod (confKmod_view fname st name val) rfl
  case map =>
    rw [confGrubMap_rejected]
    rfl

/-- One round of the loop carries out the command of the line. -/
theorem confLine_view (piece : Str) :
    (confLine fname st piece).view = st.view.line piece := by
  have same : ({ st with lnum := st.lnum + 1 } : ConfState).view = st.view := rfl
  have directive := confDirective_view fname { st with lnum := st.lnum + 1 }
    (nextValue (lineText piece)).1 (nextValue (lineText piece)).2 (Nat.succ_pos _)
  simp only [confLine, lineText_cut, ConfView.line, lineCommand, lineWords]
  by_cases comment : (nextValue (lineText piece)).1.head? = some 35
  · simp [comment, same]
  · by_cases empty : (nextValue (lineText piece)).1 = []
    · -- a blank line has no word to compare
      have nothing : confCommand [] (nextValue (lineText piece)).2 = none := rfl
      simp [empty, nothing, same]
    · simpa [comment, empty, same] using directive

theorem confLines_view (lines : List Str) :
    (lines.foldl (confLine fname) st).view = lines.foldl ConfView.line st.view := by
  induction lines generalizing st with
  | nil => rfl
  | cons piece lines ih => rw [List.foldl_cons, ih, confLine_view, List.foldl_cons]

/-- What `load_conf` leaves, seen without the messages. -/
theorem loadConf_silent (s : Settings) (content : Str) :
    (loadConf fname s (.ok content)).silent =
      (((pieces 1024 content).map cstr).foldl ConfView.line ⟨s.silent, none⟩).close := by
  have start : (ConfState.view ⟨s, 0, 0, initTarget⟩) = ⟨s.silent, none⟩ := rfl
  simp only [loadConf]
  rw [ConfState.view_close, confLines_view, start]

end

end KexecLoader
