import KexecLoader.GrubCfgView
import KexecLoader.Library.Records
import KexecLoader.MenuView
import KexecLoader.SearchLine

/-!
# The commands of grub.cfg

A line of grub.cfg is one command for the loop of `load_grub2_cfg`. Seen without the
numbers of lines and without messages, the loop carries out the commands one after
another, up to a line that it cannot take apart.
-/
namespace KexecLoader

/-- What a line asks for. -/
inductive GrubCfgCommand where
  | malformed
  | menuentry (title : Str)
  | close
  | chainloader
  | root (val : Str)
  | default (val : Str)
  | timeout (val : Str)
  | linux (kernel args : Str)
  | initrd (path : Str)
  | nothing
deriving DecidableEq

/-! ### The command of a line -/

/-- The text of a line, without its indentation and its ending. -/
def grubCfgText (piece : Str) : Str :=
  (piece.dropWhile (· ∈ newlines ++ blanks)).takeWhile (· ∉ newlines)

/-- The text as the loop cuts it out of its buffer. -/
theorem grubCfgText_cut (piece : Str) :
    (piece.drop (strspn piece (newlines ++ blanks))).take
      (strcspn (piece.drop (strspn piece (newlines ++ blanks))) newlines) = grubCfgText piece := by
  rw [drop_strspn, take_strcspn, grubCfgText]

def grub2Command (cur : Str) (body : Str → Str → GrubCfgCommand) : GrubCfgCommand :=
  match grub2Val cur with
  | none => .malformed
  | some (val, next) => body val next

def setCommand (name val : Str) : GrubCfgCommand :=
  if name = bytes "root" then .root val
  else if name = bytes "default" then .default val
  else if name = bytes "timeout" then .timeout val
  else .nothing

/-- The root that a search finds. -/
def searchedRoot (search : SearchState) (id : Str) : GrubCfgCommand :=
  if search.setRoot then
    match search.searchBy with
    | .fsLabel => .root (bytes "LABEL=" ++ id)
    | .fsUuid => .root (bytes "UUID=" ++ id)
    | _ => .nothing
  else .nothing

def grubCfgAsks (cmd args : Str) : GrubCfgCommand :=
  if cmd = bytes "menuentry" then grub2Command args fun title _ => .menuentry title
  else if cmd = bytes "\x7d" then .close
  else if cmd = bytes "chainloader" then .chainloader
  else if cmd = bytes "set" then
    grub2Command args fun name rest => grub2Command rest fun val _ => setCommand name val
  else if cmd = bytes "linux" ∨ cmd = bytes "linux16" then grub2Command args .linux
  else if cmd = bytes "initrd" ∨ cmd = bytes "initrd16" then
    grub2Command args fun path _ => .initrd path
  else if cmd = bytes "search" ∨ cmd = bytes "search.file" ∨ cmd = bytes "search.fs_label" ∨
      cmd = bytes "search.fs_uuid" then
    let (search, id) := searchArgs args.length ⟨searchCommand cmd, false, false⟩ args
    searchedRoot search id
  else .nothing

def grubCfgTextCommand (text : Str) : GrubCfgCommand :=
  if text.head? = some 35 ∨ text = [] then .nothing
  else grubCfgAsks (nextValue text).1 (nextValue text).2

def grubCfgLineCommand (piece : Str) : GrubCfgCommand := grubCfgTextCommand (grubCfgText piece)

/-! ### Carrying it out -/

/-- What a command does to the entry. -/
def GrubCfgCommand.edit (e : MenuEntry) : GrubCfgCommand → MenuEntry
  | .menuentry title => ⟨{ e.target with title := strlcpy title }, false⟩
  | .chainloader => { e with skip := true }
  | .root val => { e with target := { e.target with root := strlcpy val } }
  | .linux kernel args =>
    { e with target := { e.target with kernel := strlcpy kernel, append := strlcpy args } }
  | .initrd path => { e with target := { e.target with initrd := strlcpy path } }
  | _ => e

def GrubCfgState.entry (st : GrubCfgState) : MenuEntry := ⟨st.target, st.skipEntry⟩

def GrubCfgState.withEntry (st : GrubCfgState) (e : MenuEntry) : GrubCfgState :=
  { st with target := e.target, skipEntry := e.skip }

/-- The next entry is the default if it has this title. -/
def GrubCfgState.Chosen (st : GrubCfgState) (title : Str) : Prop :=
  (st.curIndex : Int) = st.defaultIndex ∨ st.defaultTitle.any (klStreq ·.str title) = true

instance (st : GrubCfgState) (title : Str) : Decidable (st.Chosen title) :=
  inferInstanceAs (Decidable (_ ∨ _))

def GrubCfgState.mark (st : GrubCfgState) (title : Str) (e : MenuEntry) : MenuEntry :=
  { e with target := { e.target with flags := if st.Chosen title then TARGET_DEFAULT else e.target.flags } }

def GrubCfgState.setDefault (st : GrubCfgState) (val : Str) : GrubCfgState :=
  if val.all isdigit then { st with defaultIndex := atoi val, defaultTitle := none }
  else { st with
    defaultIndex := -1
    defaultTitle := if (strchr val 62).isSome then none else some (strlcpy val) }

/-- The entry that is open is added, if it can be. -/
def GrubCfgState.closed (st : GrubCfgState) : GrubCfgState :=
  if st.entryStart = 0 then st
  else { st with
    settings := { st.settings with targets := st.settings.targets ++ st.entry.finished }
    target := initTarget
    entryStart := 0 }

def GrubCfgCommand.apply (st : GrubCfgState) (c : GrubCfgCommand) : GrubCfgEnd :=
  match c with
  | .malformed => .error st.settings
  | .menuentry title =>
    .ok { st.withEntry (st.mark title (c.edit st.entry)) with
      curIndex := st.curIndex + 1
      entryStart := 1 }
  | .close => .ok st.closed
  | .default val => .ok (st.setDefault val)
  | .timeout val =>
    .ok (if st.settings.timeout = -1 then
      { st with settings := { st.settings with timeout := atoi val } } else st)
  | _ => .ok (st.withEntry (c.edit st.entry))

/-! ### What an entry is given -/

namespace GrubCfgCommand

def title? : GrubCfgCommand → Option (Buf 256)
  | menuentry title => some (strlcpy title)
  | _ => none

def root? : GrubCfgCommand → Option (Buf 256)
  | root val => some (strlcpy val)
  | _ => none

/-- A kernel comes with its arguments. -/
def linux? : GrubCfgCommand → Option (Buf 1024 × Buf 1024)
  | linux kernel args => some (strlcpy kernel, strlcpy args)
  | _ => none

def initrd? : GrubCfgCommand → Option (Buf 1024)
  | initrd path => some (strlcpy path)
  | _ => none

end GrubCfgCommand

/-- A target with what was given last. -/
def givenLast (t : KlTarget) (commands : List GrubCfgCommand) : KlTarget :=
  { t with
    title := (latest GrubCfgCommand.title? commands).getD t.title
    root := (latest GrubCfgCommand.root? commands).getD t.root
    kernel := ((latest GrubCfgCommand.linux? commands).getD (t.kernel, t.append)).1
    append := ((latest GrubCfgCommand.linux? commands).getD (t.kernel, t.append)).2
    initrd := (latest GrubCfgCommand.initrd? commands).getD t.initrd }

theorem foldl_edit_target (e : MenuEntry) (commands : List GrubCfgCommand) :
    (commands.foldl GrubCfgCommand.edit e).target = givenLast e.target commands := by
  induction commands generalizing e with
  | nil => rfl
  | cons c commands ih =>
    rw [List.foldl_cons, ih]
    simp only [givenLast, latest_getD_cons]
    cases c <;> rfl

/-- Without another title the entry is skipped once a line says so. -/
theorem foldl_edit_skip (e : MenuEntry) (commands : List GrubCfgCommand)
    (untitled : ∀ c ∈ commands, c.title? = none) :
    (commands.foldl GrubCfgCommand.edit e).skip = true ↔
      e.skip = true ∨ .chainloader ∈ commands := by
  induction commands generalizing e with
  | nil => simp
  | cons c commands ih =>
    have here := untitled c List.mem_cons_self
    rw [List.foldl_cons, ih _ fun other member => untitled other (List.mem_cons_of_mem _ member)]
    cases c with
    | menuentry title => cases here
    | chainloader => simp [GrubCfgCommand.edit]
    | _ => simp [GrubCfgCommand.edit]

/-! ### One round of the loop -/

section
variable (st : GrubCfgState)

theorem grub2Arg_command (cur : Str) (body : Str → Str → GrubCfgEnd)
    (command : Str → Str → GrubCfgCommand)
    (same : ∀ val next, coreEnd (body val next) = (command val next).apply st.core) :
    coreEnd (grub2Arg st cur body) = (grub2Command cur command).apply st.core := by
  unfold grub2Arg grub2Command
  cases grub2Val cur with
  | none => rfl
  | some parts => exact same parts.1 parts.2

theorem grubCfgMenuentry_command (args : Str) (numbered : st.lnum ≠ 0) :
    coreEnd (grubCfgMenuentry st args) =
      (grub2Command args fun title _ => .menuentry title).apply st.core :=
  grub2Arg_command st args _ _ fun title _ => by
    simp only [coreEnd, GrubCfgState.core, if_neg numbered]
    rfl

theorem grubCfgClose_command (opened : st.entryStart ≠ 0) :
    (grubCfgClose st).core = st.core.closed := by
  unfold grubCfgClose GrubCfgState.closed MenuEntry.finished finished
  cases skipped : st.skipEntry with
  | true => simp [GrubCfgState.core, GrubCfgState.entry, Settings.silent, skipped, opened]
  | false =>
    by_cases no_root : st.target.root.str = [] <;> by_cases no_kernel : st.target.kernel.str = [] <;>
      simp [GrubCfgState.core, GrubCfgState.entry, GrubCfgState.printD, Settings.silent,
        Settings.printD, skipped, opened, no_root, no_kernel]

theorem grubCfgDefault_command (val : Str) :
    (grubCfgDefault st val).core = st.core.setDefault val := by
  unfold grubCfgDefault GrubCfgState.setDefault
  cases val.all isdigit with
  | true => rfl
  | false =>
    cases submenu : (strchr val 62).isSome <;> simp <;> rfl

theorem grubCfgSet_command (args : Str) :
    coreEnd (grubCfgSet st args) =
      (grub2Command args fun name rest =>
        grub2Command rest fun val _ => setCommand name val).apply st.core := by
  refine grub2Arg_command st args _ _ fun name rest => ?_
  refine grub2Arg_command st rest _ _ fun val _ => ?_
  simp only [coreEnd, setCommand, klStreq_iff, Bool.and_eq_true, beq_iff_eq]
  by_cases root : name = bytes "root"
  · simp only [root, if_true]
    rfl
  · by_cases default : name = bytes "default"
    · rw [if_neg root, if_pos default, if_neg root, if_pos default, grubCfgDefault_command]
      rfl
    · rw [if_neg root, if_neg default, if_neg root, if_neg default]
      by_cases timeout : name = bytes "timeout"
      · simp only [timeout, true_and, if_true, GrubCfgCommand.apply]
        have same : st.core.settings.timeout = st.settings.timeout := rfl
        rw [same]
        split <;> rfl
      · simp only [timeout, false_and, if_false]
        rfl

theorem grubCfgSearch_command (cmd args : Str) :
    coreEnd (.ok (grubCfgSearch st cmd args)) =
      (let (search, id) := searchArgs args.length ⟨searchCommand cmd, false, false⟩ args
      searchedRoot search id).apply st.core := by
  simp only [grubCfgSearch, grubCfgSearchRoot, searchedRoot]
  generalize searchArgs args.length ⟨searchCommand cmd, false, false⟩ args = found
  cases found.1.setRoot with
  | false => rfl
  | true => cases found.1.searchBy <;> rfl

theorem grubCfgCommand_command (cmd args : Str) (numbered : st.lnum ≠ 0) :
    coreEnd (grubCfgCommand st cmd args) = (grubCfgAsks cmd args).apply st.core := by
  simp only [grubCfgCommand, grubCfgAsks, klStreq_iff, Bool.or_eq_true, Bool.and_eq_true, bne_iff_ne,
    or_assoc]
  by_cases menuentry : cmd = bytes "menuentry"
  · rw [if_pos menuentry, if_pos menuentry]
    exact grubCfgMenuentry_command st args numbered
  rw [if_neg menuentry, if_neg menuentry]
  by_cases close : cmd = bytes "\x7d"
  · rw [if_pos close]
    by_cases opened : st.entryStart = 0
    · -- outside an entry the bracket is no command at all
      subst close
      rw [if_neg fun both => both.2 opened]
      have nothing : st.core.closed = st.core := if_pos (if_pos opened)
      exact congrArg Except.ok nothing.symm
    · rw [if_pos ⟨close, opened⟩]
      exact congrArg Except.ok (grubCfgClose_command st opened)
  rw [if_neg fun both => close both.1, if_neg close]
  by_cases chainloader : cmd = bytes "chainloader"
  · rw [if_pos chainloader, if_pos chainloader]
    rfl
  rw [if_neg chainloader, if_neg chainloader]
  by_cases set : cmd = bytes "set"
  · rw [if_pos set, if_pos set]
    exact grubCfgSet_command st args
  rw [if_neg set, if_neg set]
  by_cases linux : cmd = bytes "linux" ∨ cmd = bytes "linux16"
  · rw [if_pos linux, if_pos linux]
    exact grub2Arg_command st args _ _ fun _ _ => rfl
  rw [if_neg linux, if_neg linux]
  by_cases initrd : cmd = bytes "initrd" ∨ cmd = bytes "initrd16"
  · rw [if_pos initrd, if_pos initrd]
    exact grub2Arg_command st args _ _ fun _ _ => rfl
  rw [if_neg initrd, if_neg initrd]
  by_cases search : cmd = bytes "search" ∨ cmd = bytes "search.file" ∨ cmd = bytes "search.fs_label" ∨
      cmd = bytes "search.fs_uuid"
  · rw [if_pos search, if_pos search]
    exact grubCfgSearch_command st cmd args
  rw [if_neg search, if_neg search]
  rfl

/-- A round of the loop carries out the command of its line. -/
theorem coreLine_command (piece : Str) :
    coreLine (.ok st) piece = (grubCfgLineCommand piece).apply st.core := by
  have same : ({ st with lnum := st.lnum + 1 } : GrubCfgState).core = st.core := rfl
  have round := grubCfgCommand_command { st with lnum := st.lnum + 1 }
    (nextValue (grubCfgText piece)).1 (nextValue (grubCfgText piece)).2 (Nat.succ_ne_zero _)
  rw [same] at round
  simp only [coreLine, grubCfgLine, grubCfgText_cut, grubCfgLineCommand, grubCfgTextCommand]
  by_cases ignored : (grubCfgText piece).head? = some 35 ∨ grubCfgText piece = []
  · rw [if_pos ignored, if_pos (by simpa using ignored)]
    rfl
  · rw [if_neg ignored, if_neg (by simpa using ignored)]
    exact round

end

/-! ### The loop -/

def runCommands (st : GrubCfgState) (commands : List GrubCfgCommand) : GrubCfgEnd :=
  commands.foldlM GrubCfgCommand.apply st

theorem runCommands_cons (st : GrubCfgState) (c : GrubCfgCommand) (commands : List GrubCfgCommand) :
    runCommands st (c :: commands) = (c.apply st).bind fun st => runCommands st commands := rfl

theorem runCommands_append (st : GrubCfgState) (front back : List GrubCfgCommand) :
    runCommands st (front ++ back) = (runCommands st front).bind fun st => runCommands st back :=
  List.foldlM_append

theorem coreLine_commands (st : GrubCfgState) (plain : st.core = st) (lines : List Str) :
    lines.foldl coreLine (.ok st) = runCommands st (lines.map grubCfgLineCommand) := by
  induction lines generalizing st with
  | nil => rfl
  | cons piece lines ih =>
    have round := coreLine_command st piece
    have next := coreLine_plain (.ok st) piece (congrArg Except.ok plain)
    rw [plain] at round
    rw [List.foldl_cons, List.map_cons, runCommands_cons, round]
    rw [round] at next
    cases after : (grubCfgLineCommand piece).apply st with
    | error s =>
      rw [after] at next
      have silent : s.silent = s := Except.error.inj next
      rw [← silent]
      exact coreLine_ended s lines
    | ok st' => exact ih st' (Except.ok.inj (after ▸ next))

/-- What the loop leaves, seen without the messages. -/
theorem grubCfgLoop_commands (st : GrubCfgState) (lines : List Str) :
    (grubCfgLoop st lines).silent =
      endSettings (runCommands st.core (lines.map grubCfgLineCommand)) := by
  rw [grubCfgLoop_silent, coreLine_commands st.core st.core_core]

/-- The state `load_grub2_cfg` starts in. -/
def grubCfgStart (s : Settings) : GrubCfgState := ⟨s, 0, 0, false, none, -1, 0, initTarget⟩

theorem loadGrub2Cfg_commands (s : Settings) (content : Str) :
    (loadGrub2Cfg s (.ok content)).silent = endSettings (runCommands (grubCfgStart s.silent)
      (((pieces 1024 content).map cstr).map grubCfgLineCommand)) :=
  grubCfgLoop_commands (grubCfgStart s) _

end KexecLoader
