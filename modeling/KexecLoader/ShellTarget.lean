import KexecLoader.EditorRefinement
import KexecLoader.Shell

/-!
# The shell and the configuration file agree

The same directives make the same target, typed into the shell or read from
kexec-loader.conf.
-/
namespace KexecLoader

/-! ### A session -/

/-- One round of the loop of `shell_main`. -/
def shellRound (stack : Str) (vfsExists : VfsExists) (sh : Shell) (history : List (Option Str))
    (keys : List KeyPress) : Option (Shell × ShellAction × List (Option Str)) :=
  (readCmd stack history keys).map fun (line, history) =>
    let (sh, action) := shellCommand vfsExists sh line
    (sh, action, history)

/-- The rounds up to `exit`, each with the keys typed in it and what exists at
that time. -/
def shellSession (stack : Str) : Shell → List (Option Str) → List (VfsExists × List KeyPress) →
    Option Shell
  | sh, _, [] => some sh
  | sh, history, (vfsExists, keys) :: rest =>
    (shellRound stack vfsExists sh history keys).bind fun (sh, action, history) =>
      if action = .exit then some sh else shellSession stack sh history rest

/-- The keys that type a line, and Enter. -/
def typedLine (line : Str) : List KeyPress := line.map (fun c => ⟨byteValue c, []⟩) ++ [⟨10, []⟩]

/-- The directives both have. -/
def sharedWords : List ConfWord := [.root, .kernel, .initrd, .cmdline, .append, .resetVga, .module]

/-- A line that can stand in both: it can be typed, has a value where one is needed,
and its path exists. -/
structure SharedLine (vfsExists : VfsExists) (line : Str) (w : ConfWord) (val : Str) : Prop where
  one_line : ∀ c ∈ line, c ∉ newlines ∧ c ≠ tab ∧ c ≠ 0
  short : line.length ≤ 1022
  words : nextValue (line.dropWhile (· = space)) = (w.text, val)
  shared : w ∈ sharedWords
  value : w ≠ .resetVga → val ≠ []
  path : w = .kernel ∨ w = .initrd → vfsExists val = .ok ()

/-! ### One directive -/

theorem SharedLine.lineWords_eq {vfsExists : VfsExists} {line : Str} {w : ConfWord} {val : Str}
    (ok : SharedLine vfsExists line w val) (ends : Str) (ended : ∀ c ∈ ends, c ∈ newlines) :
    lineWords (line ++ ends) = (w.text, val) := by
  have skipped : line.dropWhile (· ∈ newlines ++ blanks) = line.dropWhile (· = space) := by
    apply dropWhile_agree
    intro c member
    obtain ⟨no_newline, no_tab, -⟩ := ok.one_line c member
    simp [no_newline, no_tab, blanks]
  rw [lineWords, lineText_append (fun c member => (ok.one_line c member).1) ended, skipped, ok.words]

/-- What a directive both have does to the target. -/
def sharedEdit (val : Str) : ConfWord → Edit
  | .root => .root val
  | .kernel => .kernel val
  | .initrd => .initrd val
  | .cmdline => .cmdline val
  | .append => .append val
  | .module => .module val
  | _ => .resetVga

section
variable {vfsExists : VfsExists} {line : Str} {w : ConfWord} {val : Str}
  (ok : SharedLine vfsExists line w val)
include ok

theorem SharedLine.command (ends : Str) (ended : ∀ c ∈ ends, c ∈ newlines) :
    lineCommand (line ++ ends) = some (.edit (sharedEdit val w)) := by
  have shared := ok.shared
  have value := ok.value
  have words := ok.lineWords_eq ends ended
  simp only [lineCommand, words]
  simp only [sharedWords, List.mem_cons, List.not_mem_nil, or_false] at shared
  obtain rfl | rfl | rfl | rfl | rfl | rfl | rfl := shared
  case inr.inr.inr.inr.inr.inl => rfl
  all_goals exact valued_eq_some.mpr ⟨value (by decide), rfl⟩

/-- The shell does to its target what `load_conf` does to the one it builds. -/
theorem SharedLine.shellCommand_target (sh : Shell) :
    (shellCommand vfsExists sh (line.dropWhile (· = space))).1.target =
        (sharedEdit val w).apply sh.target ∧
      (shellCommand vfsExists sh (line.dropWhile (· = space))).2 = .prompt := by
  have shared := ok.shared
  have value := ok.value
  have path := ok.path
  simp only [shellCommand, ok.words]
  simp only [sharedWords, List.mem_cons, List.not_mem_nil, or_false] at shared
  obtain rfl | rfl | rfl | rfl | rfl | rfl | rfl := shared
  case inl => exact ⟨rfl, rfl⟩
  case inr.inl =>
    have set : pathCommand vfsExists (fun t v => { t with kernel := strlcpy v }) sh val =
        { sh with target := { sh.target with kernel := strlcpy val } } := by
      rw [pathCommand, if_neg (value (by decide)), path (.inl rfl)]
    exact ⟨congrArg Shell.target set, rfl⟩
  case inr.inr.inl =>
    have set : pathCommand vfsExists (fun t v => { t with initrd := strlcpy v }) sh val =
        { sh with target := { sh.target with initrd := strlcpy val } } := by
      rw [pathCommand, if_neg (value (by decide)), path (.inr rfl)]
    exact ⟨congrArg Shell.target set, rfl⟩
  case inr.inr.inr.inl => exact ⟨rfl, rfl⟩
  case inr.inr.inr.inr.inl => exact ⟨rfl, rfl⟩
  case inr.inr.inr.inr.inr.inl => exact ⟨rfl, rfl⟩
  case inr.inr.inr.inr.inr.inr =>
    have set : cmdModule sh val =
        { sh with target := { sh.target with modules := sh.target.modules ++ [readModule val] } } :=
      if_neg (value (by decide))
    exact ⟨congrArg Shell.target set, rfl⟩

end

/-! ### Typing a line -/

theorem byteValue_edit {c : UInt8} (no_tab : c ≠ tab) :
    (KeyPress.mk (byteValue c) []).edit = .insert c := by
  have pos : 0 ≤ byteValue c := Int.natCast_nonneg _
  -- a byte is none of the keys but Tab, which would complete a path
  have other : byteValue c ≠ 9 := by
    intro same
    have value : c.toNat = 9 := by
      simp only [byteValue] at same
      omega
    exact no_tab (UInt8.toNat_inj.mp value)
  have char : charOf (byteValue c) = c := by
    have small : c.toNat < 256 := c.toNat_lt
    have mod : (byteValue c % 256).toNat = c.toNat := by
      simp only [byteValue]
      omega
    rw [charOf, mod, UInt8.ofNat_toNat]
  simp only [KeyPress.edit, KEY_BACKSPACE, KEY_LEFT, KEY_RIGHT, KEY_HOME, KEY_END, KEY_DEL, KEY_UP,
    KEY_DOWN]
  repeat rw [if_neg (by omega)]
  rw [char]

/-- Typing at the end of a text that stays short enough. -/
theorem typed_text (history : List Str) (line : Str) (no_tab : ∀ c ∈ line, c ≠ tab) (text : Str)
    (short : text.length + line.length ≤ 1022) :
    (line.map (fun c => KeyPress.mk (byteValue c) [])).foldl
        (fun l key => l.step id history key.edit) (TextLine.mk text text.length 0) =
      TextLine.mk (text ++ line) (text ++ line).length 0 := by
  induction line generalizing text with
  | nil => simp
  | cons c line ih =>
    rw [List.length_cons] at short
    have typed : TextLine.step id history ⟨text, text.length, 0⟩ (.insert c) =
        ⟨text ++ [c], (text ++ [c]).length, 0⟩ := by
      simp only [TextLine.step]
      rw [if_pos (by omega), List.take_length, List.drop_length, List.length_append,
        List.length_singleton]
    rw [List.map_cons, List.foldl_cons, byteValue_edit (no_tab c (by simp)), typed,
      ih (fun b member => no_tab b (by simp [member])) (text ++ [c])
        (by rw [List.length_append, List.length_singleton]; omega), List.append_assoc]
    rfl

/-- A history whose lines can be typed. -/
structure ShortHistory (history : List Str) : Prop extends ValidHistory history where
  short : ∀ line ∈ history, line.length ≤ 1022

theorem ShortHistory.enter {history : List Str} (ok : ShortHistory history) {line : Str}
    (no_nul : 0 ∉ line) (short : line.length ≤ 1022) : ShortHistory (enterLine history line) := by
  unfold enterLine
  split
  -- a line that is kept is the new one or an old one
  · have parts : ∀ l ∈ (line :: history).take HISTORY_SIZE, l = line ∨ l ∈ history :=
      fun l member => List.mem_cons.mp (List.mem_of_mem_take member)
    refine ⟨⟨List.length_take_le _ _, fun l member => ?_⟩, fun l member => ?_⟩
    · obtain rfl | old := parts l member
      · exact no_nul
      · exact ok.no_nul l old
    · obtain rfl | old := parts l member
      · exact short
      · exact ok.short l old
  · exact ok

theorem readCmd_typed (stack : Str) {history : List Str} (ok : ShortHistory history) (line : Str)
    (plain : ∀ c ∈ line, c ∉ newlines ∧ c ≠ tab ∧ c ≠ 0) (short : line.length ≤ 1022) :
    readCmd stack (historySlots history) (typedLine line) =
      some (line.dropWhile (· = space), historySlots (enterLine history line)) := by
  have keys : ∀ key ∈ line.map (fun c => KeyPress.mk (byteValue c) []), key.c ≠ 10 ∧ key.NoNul := by
    intro key member
    obtain ⟨c, typed, rfl⟩ := List.mem_map.mp member
    obtain ⟨no_newline, no_tab, no_nul⟩ := plain c typed
    refine ⟨fun enter => no_newline ?_, ⟨?_, by simp⟩⟩
    · have value : c.toNat = 10 := by
        simp only [byteValue] at enter
        omega
      have : c = lf := UInt8.toNat_inj.mp value
      simp [this, newlines]
    · rw [byteValue_edit no_tab]
      simpa using no_nul
  have no_tab : ∀ c ∈ line, c ≠ tab := fun c member => (plain c member).2.1
  -- no byte that is typed completes a path, and only completions are bounded
  have takes : ∀ (line : Str) (l : TextLine), (∀ c ∈ line, c ≠ tab) →
      l.TakesAll history (line.map (fun c => KeyPress.mk (byteValue c) [])) := by
    intro line
    induction line with
    | nil => exact fun _ _ => trivial
    | cons c line ih =>
      intro l no_tab
      refine ⟨?_, ih _ fun b member => no_tab b (by simp [member])⟩
      rw [byteValue_edit (no_tab c (by simp))]
      trivial
  have read := readCmd_run stack history ok.toValidHistory ok.short _ keys (takes line _ no_tab) []
    ⟨10, []⟩ rfl
  have text : TextLine.run id history (line.map fun c => KeyPress.mk (byteValue c) []) =
      ⟨line, line.length, 0⟩ := typed_text history line no_tab [] (by simpa using short)
  simpa only [text, typedLine] using read

/-! ### A whole configuration -/

/-- A directive for both, and what exists when it is entered. -/
structure SharedDirective where
  vfsExists : VfsExists
  line : Str
  word : ConfWord
  val : Str
  ok : SharedLine vfsExists line word val

def SharedDirective.edit (d : SharedDirective) : Edit := sharedEdit d.val d.word

theorem SharedDirective.no_lf (d : SharedDirective) : lf ∉ d.line :=
  fun member => (d.ok.one_line lf member).1 (by decide)

theorem SharedDirective.no_nul (d : SharedDirective) : 0 ∉ d.line :=
  fun member => (d.ok.one_line 0 member).2.2 rfl

/-- The file with these lines behind a title. -/
def titledText (title : Str) (directives : List SharedDirective) : Str :=
  (title :: directives.map SharedDirective.line).flatMap (· ++ [lf])

theorem shellSession_target (stack : Str) (directives : List SharedDirective) (sh : Shell)
    {history : List Str} (ok : ShortHistory history) :
    ∃ sh', shellSession stack sh (historySlots history)
        (directives.map fun d => (d.vfsExists, typedLine d.line)) = some sh' ∧
      sh'.target = (directives.map SharedDirective.edit).foldl Edit.apply sh.target := by
  induction directives generalizing sh history with
  | nil => exact ⟨sh, rfl, rfl⟩
  | cons d directives ih =>
    obtain ⟨target, prompt⟩ := d.ok.shellCommand_target sh
    obtain ⟨sh', session, final⟩ :=
      ih (shellCommand d.vfsExists sh (d.line.dropWhile (· = space))).1
        (ok.enter d.no_nul d.ok.short)
    have read := readCmd_typed stack ok d.line d.ok.one_line d.ok.short
    refine ⟨sh', ?_, by rw [final, target]; rfl⟩
    simp only [List.map_cons, shellSession, shellRound, read, Option.map_some, Option.bind_some,
      prompt, reduceCtorEq, if_false, session]

theorem pathCommand_missing (vfsExists : VfsExists) (set : KlTarget → Str → KlTarget) (sh : Shell)
    (path reason : Str) (given : path ≠ []) (missing : vfsExists path = .error reason) :
    (pathCommand vfsExists set sh path).target = sh.target := by
  rw [pathCommand, if_neg given, missing]
  rfl

/-- Changes to a target leave its title. -/
theorem apply_titled (edits : List Edit) (t : KlTarget) (title : Buf 256) :
    edits.foldl Edit.apply { t with title := title } =
      { edits.foldl Edit.apply t with title := title } := by
  induction edits generalizing t with
  | nil => rfl
  | cons e edits ih =>
    have one : Edit.apply { t with title := title } e = { Edit.apply t e with title := title } := by
      cases e <;> rfl
    rw [List.foldl_cons, one, ih, List.foldl_cons]

theorem titled_view (title val : Str) (directives : List SharedDirective) (s : Settings)
    (titled : lineCommand (title ++ [lf]) = some (.title val)) :
    (((title :: directives.map SharedDirective.line).map (· ++ [lf])).foldl ConfView.line
      ⟨s, none⟩) = ⟨s, some ((directives.map SharedDirective.edit).foldl Edit.apply
        { initTarget with title := strlcpy val })⟩ := by
  -- each directive edits the target that the title opened
  have body : ∀ t, ((directives.map SharedDirective.line).map (· ++ [lf])).foldl ConfView.line
      ⟨s, some t⟩ = ⟨s, some ((directives.map SharedDirective.edit).foldl Edit.apply t)⟩ := by
    induction directives with
    | nil => exact fun _ => rfl
    | cons d directives ih =>
      intro t
      have command := d.ok.command [lf] (by decide)
      simp only [List.map_cons, List.foldl_cons, ConfView.line, command, Option.elim_some,
        ConfView.step, Option.map_some]
      exact ih _
  have first : ConfView.line ⟨s, none⟩ (title ++ [lf]) =
      ⟨s, some { initTarget with title := strlcpy val }⟩ := by
    simp [ConfView.line, titled, ConfView.step, ConfView.close]
  rw [List.map_cons, List.foldl_cons, first, body]

/-- Typed into the shell, directives leave its target as `load_conf` builds it from
the same lines behind a title, and a path that does not exist changes nothing. -/
theorem shell_agrees (fname stack : Str) (s : Settings) (title val : Str)
    (directives : List SharedDirective) (titled : lineCommand (title ++ [lf]) = some (.title val))
    (plain : lf ∉ title ∧ 0 ∉ title ∧ title.length ≤ 1022) :
    (∃ sh, shellSession stack shellInit (historySlots [])
        (directives.map fun d => (d.vfsExists, typedLine d.line)) = some sh ∧
      (readLines fname ⟨s, 0, 0, initTarget⟩ (titledText title directives)).target =
        { sh.target with title := strlcpy val } ∧
      (loadConf fname s (.ok (titledText title directives))).targets =
        s.targets ++ finished { sh.target with title := strlcpy val }) ∧
    ∀ (vfsExists : VfsExists) (sh : Shell) (line path reason : Str),
      nextValue line = (bytes "kernel", path) ∨ nextValue line = (bytes "initrd", path) →
      path ≠ [] → vfsExists path = .error reason →
        (shellCommand vfsExists sh line).1.target = sh.target := by
  constructor
  · obtain ⟨sh, session, target⟩ := shellSession_target stack directives shellInit
      (show ShortHistory [] from ⟨⟨Nat.zero_le _, by simp⟩, by simp⟩)
    refine ⟨sh, session, ?_⟩
    -- every line of the file is delivered as it is
    have fit : ∀ line ∈ title :: directives.map SharedDirective.line,
        lf ∉ line ∧ line.length ≤ 1022 := by
      intro line member
      obtain rfl | member := List.mem_cons.mp member
      · exact ⟨plain.1, plain.2.2⟩
      · obtain ⟨d, -, rfl⟩ := List.mem_map.mp member
        exact ⟨d.no_lf, d.ok.short⟩
    have no_nul : ∀ line ∈ title :: directives.map SharedDirective.line, 0 ∉ line ++ [lf] := by
      intro line member
      obtain rfl | member := List.mem_cons.mp member
      · simpa using ⟨plain.2.1, by decide⟩
      · obtain ⟨d, -, rfl⟩ := List.mem_map.mp member
        simpa using ⟨d.no_nul, by decide⟩
    have delivered : (pieces 1024 (titledText title directives)).map cstr =
        (title :: directives.map SharedDirective.line).map (· ++ [lf]) := by
      have read := pieces_lines 1022 _ fit []
      rw [List.append_nil, pieces_nil, List.append_nil] at read
      rw [titledText, read, List.map_map]
      apply List.map_congr_left
      intro line member
      exact cstr_of_no_nul (no_nul line member)
    have view := titled_view title val directives s.silent titled
    rw [apply_titled, ← delivered] at view
    rw [target]
    constructor
    -- the loop ends with the target open, to be added after it
    · have reached := confLines_view fname ⟨s, 0, 0, initTarget⟩
        ((pieces 1024 (titledText title directives)).map cstr)
      have current := congrArg ConfView.current (reached.trans view)
      simp only [ConfState.view] at current
      split at current
      · cases current
      · exact Option.some.inj current
    · have silent := congrArg Settings.targets
        (loadConf_silent fname s (titledText title directives))
      rw [view] at silent
      exact silent
  · rintro vfsExists sh line path reason (words | words) given missing
    · simp only [shellCommand, words]
      exact pathCommand_missing vfsExists _ sh path reason given missing
    · simp only [shellCommand, words]
      exact pathCommand_missing vfsExists _ sh path reason given missing

/-- A root, a kernel with more than a space before it, and the directives of another kind. -/
theorem shell_agrees_linux :
    let vfsExists : VfsExists := fun _ => .ok ()
    ∃ sh, shellSession [] shellInit (historySlots [])
        [(vfsExists, typedLine (bytes "root sda1")), (vfsExists, typedLine (bytes "kernel   /k")),
          (vfsExists, typedLine (bytes "append ro")), (vfsExists, typedLine (bytes "reset-vga")),
          (vfsExists, typedLine (bytes "module /m  x y"))] =
          some sh ∧
      sh.target = { initTarget with
        root := strlcpy (bytes "sda1"), kernel := strlcpy (bytes "/k"), append := strlcpy (bytes "ro"),
        flags := TARGET_RESET, modules := [⟨strlcpy (bytes "/m"), strlcpy (bytes "x y")⟩] } ∧
      (loadConf [] initSettings (.ok (bytes
          "title A\nroot sda1\nkernel   /k\nappend ro\nreset-vga\nmodule /m  x y\n"))).targets =
        [{ sh.target with title := strlcpy (bytes "A") }] := by
  let root : SharedDirective :=
    ⟨fun _ => .ok (), bytes "root sda1", .root, bytes "sda1",
      ⟨by decide, by decide, by decide, by decide, fun _ => by decide, fun _ => rfl⟩⟩
  let kernel : SharedDirective :=
    ⟨fun _ => .ok (), bytes "kernel   /k", .kernel, bytes "/k",
      ⟨by decide, by decide, by decide, by decide, fun _ => by decide, fun _ => rfl⟩⟩
  let append : SharedDirective :=
    ⟨fun _ => .ok (), bytes "append ro", .append, bytes "ro",
      ⟨by decide, by decide, by decide, by decide, fun _ => by decide, fun _ => rfl⟩⟩
  let reset : SharedDirective :=
    ⟨fun _ => .ok (), bytes "reset-vga", .resetVga, [],
      ⟨by decide, by decide, by decide, by decide, fun other => absurd rfl other, fun _ => rfl⟩⟩
  let added : SharedDirective :=
    ⟨fun _ => .ok (), bytes "module /m  x y", .module, bytes "/m  x y",
      ⟨by decide, by decide, by decide, by decide, fun _ => by decide, fun _ => rfl⟩⟩
  obtain ⟨sh, session, -, targets⟩ := (shell_agrees [] [] initSettings (bytes "title A") (bytes "A")
    [root, kernel, append, reset, added] (by decide) ⟨by decide, by decide, by decide⟩).1
  obtain ⟨sh', session', target⟩ := shellSession_target [] [root, kernel, append, reset, added] shellInit
    (show ShortHistory [] from ⟨⟨Nat.zero_le _, by simp⟩, by simp⟩)
  obtain rfl : sh' = sh := Option.some.inj (session'.symm.trans session)
  refine ⟨sh', session, target.trans (by decide +kernel), targets.trans ?_⟩
  rw [target]
  decide +kernel

end KexecLoader
