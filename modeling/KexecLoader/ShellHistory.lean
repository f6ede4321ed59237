import KexecLoader.ShellTarget

/-!
# The lines of a session

The array of 32 lines, shifted by every line that is entered, against a history that
forgets nothing: a session runs the commands of the plain editor, and the keys up and down
walk through the lines that were entered last.
-/
namespace KexecLoader

/-- What exists in a round, and the keys typed in it before its Enter. -/
structure ShellRound where
  vfsExists : VfsExists
  keys : List KeyPress

def ShellRound.input (r : ShellRound) : VfsExists × List KeyPress :=
  (r.vfsExists, r.keys ++ [⟨10, []⟩])

/-- All lines that were entered, the latest first; a line of spaces is not kept. -/
def remember (past : List Str) (text : Str) : List Str :=
  if text.any (· != space) then text :: past else past

/-- The line a round edits; the last 32 lines can be recalled into it. -/
def ShellRound.line (past : List Str) (r : ShellRound) : TextLine :=
  TextLine.run id (past.take HISTORY_SIZE) r.keys

/-- The line whose command a round runs, what this comes to, and the array behind it. -/
structure RoundEnd where
  line : Str
  action : ShellAction
  shell : Shell
  history : List (Option Str)
deriving DecidableEq

/-- The rounds of `shell_main` up to `exit`, with what each of them leaves. -/
def sessionRounds (stack : Str) : Shell → List (Option Str) → List (VfsExists × List KeyPress) →
    Option (List RoundEnd)
  | _, _, [] => some []
  | sh, history, (vfsExists, keys) :: rest =>
    (readCmd stack history keys).bind fun (line, history) =>
      let (sh, action) := shellCommand vfsExists sh line
      if action = .exit then some [⟨line, action, sh, history⟩]
      else (sessionRounds stack sh history rest).map (⟨line, action, sh, history⟩ :: ·)

/-- The rounds of the plain editor, whose history forgets nothing. -/
def plainRounds : Shell → List Str → List ShellRound → List RoundEnd
  | _, _, [] => []
  | sh, past, r :: rest =>
    let line := (r.line past).text.dropWhile (· = space)
    let (sh, action) := shellCommand r.vfsExists sh line
    let past := remember past (r.line past).text
    ⟨line, action, sh, historySlots (past.take HISTORY_SIZE)⟩ ::
      if action = .exit then [] else plainRounds sh past rest

/-- The shell behind some rounds. -/
def lastShell (sh : Shell) (rounds : List RoundEnd) : Shell := (rounds.getLast?.map RoundEnd.shell).getD sh

/-- The keys are not Enter, none types a NUL, and no completion makes a line too long. -/
structure ShellRound.Typable (past : List Str) (r : ShellRound) : Prop where
  typed : ∀ key ∈ r.keys, key.c ≠ 10 ∧ key.NoNul
  takes : TextLine.init.TakesAll (past.take HISTORY_SIZE) r.keys

def AllTypable : List Str → List ShellRound → Prop
  | _, [] => True
  | past, r :: rest => r.Typable past ∧ AllTypable (remember past (r.line past).text) rest

/-- A line as the buffer holds it. -/
def BufferLine (line : Str) : Prop := 0 ∉ line ∧ line.length ≤ 1022

instance (line : Str) : Decidable (BufferLine line) := inferInstanceAs (Decidable (_ ∧ _))

/-! ### One round -/

/-- The array keeps the latest lines of a history. -/
theorem enterLine_remember (past : List Str) (text : Str) :
    enterLine (past.take HISTORY_SIZE) text = (remember past text).take HISTORY_SIZE := by
  unfold enterLine remember
  split
  · simp only [HISTORY_SIZE, List.take_succ_cons, List.take_take]
    rfl
  · rfl

theorem run_short {history : List Str} (short_lines : ∀ line ∈ history, line.length ≤ 1022)
    (keys : List KeyPress) {l : TextLine} (short : l.Short) (takes : l.TakesAll history keys) :
    (keys.foldl (fun l key => l.step id history key.edit) l).Short := by
  induction keys generalizing l with
  | nil => exact short
  | cons key keys ih => exact ih (step_short short_lines short key.edit takes.1) takes.2

section
variable (stack : Str) {past : List Str} (lines : ∀ line ∈ past, BufferLine line) {r : ShellRound}
  (typable : r.Typable past)
include lines

theorem shortHistory_take : ShortHistory (past.take HISTORY_SIZE) :=
  ⟨⟨List.length_take_le _ _, fun line member => (lines line (List.mem_of_mem_take member)).1⟩,
    fun line member => (lines line (List.mem_of_mem_take member)).2⟩

include typable

theorem ShellRound.Typable.bufferLine : BufferLine (r.line past).text := by
  have ok := shortHistory_take lines
  have rep := readKeys_represents [] _ ok.toValidHistory ok.short r.keys typable.typed typable.takes
  have short := run_short ok.short r.keys ⟨Nat.le_refl _, Nat.zero_le _⟩ typable.takes
  exact ⟨rep.holds.no_nul, short.short⟩

theorem ShellRound.Typable.remembered :
    ∀ line ∈ remember past (r.line past).text, BufferLine line := by
  intro line member
  unfold remember at member
  split at member
  · obtain rfl | old := List.mem_cons.mp member
    · exact typable.bufferLine lines
    · exact lines line old
  · exact lines line member

/-- A round enters the line of the plain editor and leaves the array with the latest lines
again. -/
theorem readRound_plain :
    readCmd stack (historySlots (past.take HISTORY_SIZE)) r.input.2 =
      some ((r.line past).text.dropWhile (· = space),
        historySlots ((remember past (r.line past).text).take HISTORY_SIZE)) := by
  have ok := shortHistory_take lines
  have read := readCmd_run stack _ ok.toValidHistory ok.short r.keys typable.typed typable.takes []
    ⟨10, []⟩ rfl
  rw [enterLine_remember] at read
  exact read

end

/-! ### Walking through the history -/

/-- The line that many lines back, where 0 is the empty line before any key. -/
def lineBack (past : List Str) : Nat → Str
  | 0 => []
  | n + 1 => (past[n]?).getD []

/-- A key up goes one line back, as long as there is one, and a key down one forward. -/
def walkBack (size back : Nat) (key : KeyPress) : Nat :=
  if key.c = KEY_UP then min (back + 1) size else back - 1

section
variable (history : List Str)

/-- The line that was recalled, with the cursor at its end. -/
def lineRecalled (back : Nat) : TextLine := ⟨lineBack history back, (lineBack history back).length, back⟩

theorem step_older {back : Nat} (inside : back ≤ history.length) :
    (lineRecalled history back).step id history .older =
      lineRecalled history (min (back + 1) history.length) := by
  have recalled : (lineRecalled history back).recalled = back := rfl
  simp only [TextLine.step, recalled]
  by_cases more : back < history.length
  · have line : history[back]? = some history[back] := List.getElem?_eq_getElem more
    rw [Nat.min_eq_left more, line]
    simp only [lineRecalled, lineBack, line, TextLine.put, id, Option.getD_some]
  -- the oldest line stays
  · rw [List.getElem?_eq_none (by omega), show min (back + 1) history.length = back by omega]

theorem step_newer (back : Nat) :
    (lineRecalled history back).step id history .newer = lineRecalled history (back - 1) := by
  match back with
  | 0 => rfl
  | 1 => rfl
  | n + 2 => rfl

theorem run_walk (keys : List KeyPress) (browse : ∀ key ∈ keys, key.c = KEY_UP ∨ key.c = KEY_DOWN)
    {back : Nat} (inside : back ≤ history.length) :
    keys.foldl (fun l key => l.step id history key.edit) (lineRecalled history back) =
      lineRecalled history (keys.foldl (walkBack history.length) back) := by
  induction keys generalizing back with
  | nil => rfl
  | cons key keys ih =>
    have others : ∀ key ∈ keys, key.c = KEY_UP ∨ key.c = KEY_DOWN :=
      fun k member => browse k (List.mem_cons_of_mem _ member)
    rw [List.foldl_cons, List.foldl_cons]
    obtain ⟨c, completions⟩ := key
    obtain up | down : c = KEY_UP ∨ c = KEY_DOWN := browse _ (List.mem_cons_self ..)
    · subst up
      rw [show (KeyPress.mk KEY_UP completions).edit = .older from rfl, step_older history inside,
        ih others (Nat.min_le_right _ _)]
      rfl
    · subst down
      rw [show (KeyPress.mk KEY_DOWN completions).edit = .newer from rfl, step_newer history,
        ih others (by omega)]
      rfl

end

/-- The keys up and down. -/
def browseKeys : List KeyPress := [⟨KEY_UP, []⟩, ⟨KEY_DOWN, []⟩]

/-- In a round of keys up and down the line is the one they walked to. -/
theorem ShellRound.line_walk (past : List Str) (r : ShellRound) (browse : r.keys ⊆ browseKeys) :
    (r.line past).text =
      lineBack past (r.keys.foldl (walkBack (min past.length HISTORY_SIZE)) 0) := by
  have walked := run_walk (past.take HISTORY_SIZE) r.keys (fun key member => by
    have key_browses := browse member
    simp only [browseKeys, List.mem_cons, List.not_mem_nil, or_false] at key_browses
    exact key_browses.imp (congrArg KeyPress.c) (congrArg KeyPress.c)) (Nat.zero_le _)
  have length : (past.take HISTORY_SIZE).length = min past.length HISTORY_SIZE := by
    rw [List.length_take, Nat.min_comm]
  rw [length] at walked
  have bounded : ∀ (keys : List KeyPress) (back : Nat), back ≤ min past.length HISTORY_SIZE →
      keys.foldl (walkBack (min past.length HISTORY_SIZE)) back ≤ min past.length HISTORY_SIZE := by
    intro keys
    induction keys with
    | nil => exact fun _ inside => inside
    | cons key keys ih =>
      refine fun back inside => ih _ ?_
      unfold walkBack
      split <;> omega
  have end_inside := bounded r.keys 0 (Nat.zero_le _)
  have line : (r.line past).text = lineBack (past.take HISTORY_SIZE) _ := congrArg TextLine.text walked
  rw [line]
  generalize r.keys.foldl (walkBack (min past.length HISTORY_SIZE)) 0 = back at end_inside
  cases back with
  | zero => rfl
  | succ n => rw [lineBack, lineBack, List.getElem?_take_of_lt (by omega)]

theorem ShellRound.typable_walk (past : List Str) (r : ShellRound) (browse : r.keys ⊆ browseKeys) :
    r.Typable past where
  typed := fun key member => by
    have key_browses := browse member
    simp only [browseKeys, List.mem_cons, List.not_mem_nil, or_false] at key_browses
    obtain rfl | rfl := key_browses
    · exact ⟨by decide, by decide, by simp⟩
    · exact ⟨by decide, by decide, by simp⟩
  takes := by
    -- only a completion can make a line too long
    have unbounded : ∀ (keys : List KeyPress) (l : TextLine), keys ⊆ browseKeys →
        l.TakesAll (past.take HISTORY_SIZE) keys := by
      intro keys
      induction keys with
      | nil => exact fun _ _ => trivial
      | cons key keys ih =>
        intro l browse
        obtain ⟨first, others⟩ := List.cons_subset.mp browse
        refine ⟨?_, ih _ others⟩
        simp only [browseKeys, List.mem_cons, List.not_mem_nil, or_false] at first
        obtain rfl | rfl := first
        · exact trivial
        · exact trivial
    exact unbounded r.keys _ browse

/-! ### A session -/

theorem lastShell_cons (sh : Shell) (first : RoundEnd) (rounds : List RoundEnd) :
    lastShell sh (first :: rounds) = lastShell first.shell rounds := by
  cases rounds with
  | nil => rfl
  | cons next rounds =>
    rw [lastShell, lastShell, List.getLast?_cons_cons, List.getLast?_cons]
    rfl

/-- The session ends with the shell of its last round. -/
theorem shellSession_rounds (stack : Str) (sh : Shell) (history : List (Option Str))
    (inputs : List (VfsExists × List KeyPress)) :
    shellSession stack sh history inputs = (sessionRounds stack sh history inputs).map (lastShell sh) := by
  induction inputs generalizing sh history with
  | nil => rfl
  | cons input inputs ih =>
    obtain ⟨vfsExists, keys⟩ := input
    rw [shellSession, sessionRounds, shellRound]
    cases readCmd stack history keys with
    | none => rfl
    | some entered =>
      obtain ⟨line, history'⟩ := entered
      simp only [Option.map_some, Option.bind_some]
      by_cases exits : (shellCommand vfsExists sh line).2 = .exit
      · simp only [if_pos exits]
        rfl
      · simp only [if_neg exits, ih, Option.map_map]
        congr 1
        funext rounds
        exact (lastShell_cons sh ⟨line, (shellCommand vfsExists sh line).2, _, history'⟩ rounds).symm

/-- The rounds are those of the plain editor. -/
theorem sessionRounds_plain (stack : Str) (sh : Shell) {past : List Str}
    (lines : ∀ line ∈ past, BufferLine line) (rounds : List ShellRound) (typable : AllTypable past rounds) :
    sessionRounds stack sh (historySlots (past.take HISTORY_SIZE)) (rounds.map ShellRound.input) =
      some (plainRounds sh past rounds) := by
  induction rounds generalizing sh past with
  | nil => rfl
  | cons r rounds ih =>
    have rest := ih (shellCommand r.vfsExists sh ((r.line past).text.dropWhile (· = space))).1
      (typable.1.remembered lines) typable.2
    rw [List.map_cons, sessionRounds, readRound_plain stack lines typable.1, Option.bind_some, plainRounds,
      show r.input.1 = r.vfsExists from rfl]
    dsimp only
    by_cases exits :
        (shellCommand r.vfsExists sh ((r.line past).text.dropWhile (· = space))).2 = .exit
    · rw [if_pos exits, if_pos exits]
    · rw [if_neg exits, if_neg exits, rest]
      rfl

/-- From any lines entered before, the array of 32 lines serves a whole session as a history
that forgets nothing would: every round runs the command of the plain editor and leaves the
array with the latest lines. Keys up and down repeat the line they walk to among the last
32. -/
theorem shellSession_history (stack : Str) (sh : Shell) {past : List Str}
    (lines : ∀ line ∈ past, BufferLine line) :
    (∀ rounds, AllTypable past rounds →
      sessionRounds stack sh (historySlots (past.take HISTORY_SIZE)) (rounds.map ShellRound.input) =
        some (plainRounds sh past rounds) ∧
      shellSession stack sh (historySlots (past.take HISTORY_SIZE)) (rounds.map ShellRound.input) =
        some (lastShell sh (plainRounds sh past rounds))) ∧
    ∀ keys ⊆ browseKeys,
      let line := lineBack past (keys.foldl (walkBack (min past.length HISTORY_SIZE)) 0)
      readCmd stack (historySlots (past.take HISTORY_SIZE)) (keys ++ [⟨10, []⟩]) =
        some (line.dropWhile (· = space), historySlots ((remember past line).take HISTORY_SIZE)) := by
  constructor
  · intro rounds typable
    have plain := sessionRounds_plain stack sh lines rounds typable
    exact ⟨plain, by rw [shellSession_rounds, plain]; rfl⟩
  · intro keys browse
    let r : ShellRound := ⟨fun _ => .ok (), keys⟩
    have line : (r.line past).text = _ := r.line_walk past browse
    have read := readRound_plain stack lines (r.typable_walk past browse)
    rw [line] at read
    exact read

/-- `ls` is typed; then two keys up call it up again, as there is no older line. -/
theorem shellSession_history_again :
    let rounds : List ShellRound :=
      [⟨fun _ => .ok (), [⟨108, []⟩, ⟨115, []⟩]⟩, ⟨fun _ => .ok (), [⟨KEY_UP, []⟩, ⟨KEY_UP, []⟩]⟩]
    (sessionRounds [] shellInit (historySlots []) (rounds.map ShellRound.input) =
          some (plainRounds shellInit [] rounds) ∧
        shellSession [] shellInit (historySlots []) (rounds.map ShellRound.input) =
          some (lastShell shellInit (plainRounds shellInit [] rounds))) ∧
      plainRounds shellInit [] rounds =
        [⟨bytes "ls", .ls [], shellInit, historySlots [bytes "ls"]⟩,
          ⟨bytes "ls", .ls [], shellInit, historySlots [bytes "ls", bytes "ls"]⟩] ∧
      readCmd [] (historySlots [bytes "ls"]) [⟨KEY_UP, []⟩, ⟨KEY_UP, []⟩, ⟨10, []⟩] =
        some (bytes "ls", historySlots [bytes "ls", bytes "ls"]) := by
  intro rounds
  have first : (rounds.head (by simp [rounds])).Typable [] := by
    refine ⟨fun key member => ?_, ⟨trivial, trivial, trivial⟩⟩
    simp only [rounds, List.head_cons, List.mem_cons, List.not_mem_nil, or_false] at member
    obtain rfl | rfl := member
    · exact ⟨by decide, by decide, by simp⟩
    · exact ⟨by decide, by decide, by simp⟩
  have second := ShellRound.typable_walk (remember [] (bytes "ls"))
    ⟨fun _ => .ok (), [⟨KEY_UP, []⟩, ⟨KEY_UP, []⟩]⟩ (by simp [browseKeys])
  have entered : ∀ line ∈ [bytes "ls"], BufferLine line := fun line member => by
    obtain rfl := List.mem_singleton.mp member
    decide
  exact ⟨(@shellSession_history [] shellInit [] (by simp)).1 rounds ⟨first, second, trivial⟩, by decide +kernel,
    (shellSession_history [] shellInit entered).2 [⟨KEY_UP, []⟩, ⟨KEY_UP, []⟩] (by simp [browseKeys])⟩

end KexecLoader
