import KexecLoader.Library.Blocks
import KexecLoader.MenuView

/-!
# The targets of a file and the lines they come from

The readers of kexec-loader.conf and menu.lst are readers of blocks: title lines
open targets, the other lines edit them. The theorem at the end says that a target
is what its own block makes of it, up to menu.lst's choice of a default.
-/
namespace KexecLoader

/-- A line whose directive is `title`. -/
def TitleLine (line : Str) : Prop := (lineWords line).1 = bytes "title"

instance (line : Str) : Decidable (TitleLine line) :=
  inferInstanceAs (Decidable ((lineWords line).1 = bytes "title"))

/-- A title line with a text, which is one that is accepted. -/
def Titled (line : Str) : Prop := TitleLine line ∧ (lineWords line).2 ≠ []

instance (line : Str) : Decidable (Titled line) :=
  inferInstanceAs (Decidable (TitleLine line ∧ (lineWords line).2 ≠ []))

/-- A title line with its block, where the next title line, if there is one, is
accepted as well. -/
structure OwnBlock (lines before : List Str) (title : Str) (body after : List Str) : Prop where
  split : lines = before ++ title :: body ++ after
  titled : Titled title
  inside : ∀ line ∈ body, ¬ TitleLine line
  ends : ∀ line ∈ after.head?, Titled line

/-- The targets the loop of `load_conf` makes of these lines alone. -/
def confTargets (fname : Str) (lines : List Str) : List KlTarget :=
  let st := lines.foldl (confLine fname) ⟨initSettings, 0, 0, initTarget⟩
  (if st.topen ≠ 0 then cfgAddTarget fname st else st).settings.targets

/-- The targets the loop of `load_menu` makes of these lines alone, given its
variables for the default entry. -/
def menuTargets (devmap : List KlGdev) (defnum : Int) (tnum : Nat) (lines : List Str) :
    List KlTarget :=
  (grubAddTarget (lines.foldl menuLine
    ⟨{ initSettings with grubDevmap := devmap }, 0, 0, defnum, tnum, false, initTarget⟩)).settings.targets

/-- The value of a `default` line with an argument. -/
def defaultValue (line : Str) : Option Int :=
  if (lineWords line).1 = bytes "default" ∧ (lineWords line).2 ≠ [] then
    some (atoi (lineWords line).2)
  else none

/-- The number in the last `default` line with an argument. -/
def lastDefault (lines : List Str) : Option Int := (lines.filterMap defaultValue).getLast?

def titleCount (lines : List Str) : Nat := lines.countP (Titled ·)

def markDefault (marked : Prop) [Decidable marked] (t : KlTarget) : KlTarget :=
  { t with flags := t.flags ||| if marked then TARGET_DEFAULT else 0 }

def MenuEntry.mark (marked : Prop) [Decidable marked] (entry : MenuEntry) : MenuEntry :=
  { entry with target := markDefault marked entry.target }

/-! ### kexec-loader.conf -/

theorem confCommand_titled (line : Str) (titled : Titled line) :
    lineCommand line = some (.title (lineWords line).2) := by
  obtain ⟨word, value⟩ := titled
  have no_comment : (bytes "title").head? ≠ some 35 := by decide
  have command (val : Str) : confCommand (bytes "title") val = valued val (.title val) := rfl
  unfold TitleLine at word
  simp only [lineCommand, word, if_neg no_comment, command]
  exact if_neg value

theorem titled_of_confCommand (line val : Str) (command : lineCommand line = some (.title val)) :
    Titled line := by
  obtain ⟨word, value, -⟩ := confCommand_title (lineCommand_some command).2
  exact ⟨word, value⟩

def confEdit (t : KlTarget) (line : Str) : KlTarget :=
  match lineCommand line with
  | some (.edit e) => e.apply t
  | _ => t

def confReader : BlockReader Str Unit KlTarget KlTarget where
  opens line := Titled line
  start _ line := { initTarget with title := strlcpy (lineWords line).2 }
  edit := confEdit
  note _ _ := ()
  close := finished

def ConfView.blocks (v : ConfView) : BlockState Unit KlTarget KlTarget :=
  ⟨(), v.settings.targets, v.current⟩

theorem ConfView.line_blocks (v : ConfView) (line : Str) :
    (v.line line).blocks = confReader.step v.blocks line := by
  by_cases titled : Titled line
  -- a title line closes the open target and opens its own
  · rw [confReader.step_opening _ line (decide_eq_true titled), ConfView.line,
      confCommand_titled line titled]
    rfl
  · have edit : ∀ t, confReader.edit t line = confEdit t line := fun _ => rfl
    rw [confReader.step_inside _ line (decide_eq_false titled), ConfView.line]
    simp only [edit, confEdit]
    cases command : lineCommand line with
    | none => simp [ConfView.blocks]
    | some c =>
      cases c with
      -- no title is left here, and only an option for a module touches the settings
      | title val => exact absurd (titled_of_confCommand line val command) titled
      | kmod val =>
        simp only [Option.elim_some, ConfView.step]
        split <;> simp [ConfView.blocks]
      | _ => simp [ConfView.blocks, ConfView.step]

theorem ConfView.foldl_blocks (v : ConfView) (lines : List Str) :
    (lines.foldl ConfView.line v).blocks = lines.foldl confReader.step v.blocks := by
  induction lines generalizing v with
  | nil => rfl
  | cons line lines ih => rw [List.foldl_cons, ih, ConfView.line_blocks, List.foldl_cons]

theorem confTargets_blocks (fname : Str) (lines : List Str) :
    confTargets fname lines = confReader.finish (lines.foldl confReader.step ⟨(), [], none⟩) := by
  have closed := ConfState.view_close fname (lines.foldl (confLine fname) ⟨initSettings, 0, 0, initTarget⟩)
  rw [confLines_view] at closed
  exact (congrArg Settings.targets closed).trans
    (congrArg confReader.finish (ConfView.foldl_blocks _ lines))

theorem loadConf_blocks (fname : Str) (s : Settings) (content : Str) :
    (loadConf fname s (.ok content)).targets =
      confReader.finish (((pieces 1024 content).map cstr).foldl confReader.step
        ⟨(), s.targets, none⟩) :=
  (congrArg Settings.targets (loadConf_silent fname s content)).trans
    (congrArg confReader.finish (ConfView.foldl_blocks _ _))

/-! ### menu.lst -/

theorem menuCommand_titled (line : Str) (titled : Titled line) :
    menuLineCommand line = some (.title (lineWords line).2) := by
  obtain ⟨w, word, command⟩ | ⟨other, -⟩ := menuLine_cases line
  · obtain rfl : MenuWord.title = w := MenuWord.text_injective (titled.1.symm.trans word)
    exact command.trans (if_neg titled.2)
  · exact absurd titled.1 (other .title)

theorem titled_of_menuCommand (line val : Str) (command : menuLineCommand line = some (.title val)) :
    Titled line := by
  obtain ⟨w, word, asks⟩ | ⟨-, nothing⟩ := menuLine_cases line
  · rw [asks] at command
    cases w <;> simp only [MenuWord.command, valued_eq_some, reduceCtorEq, and_false,
      Option.some.injEq] at command
    case title => exact ⟨word, command.1⟩
    all_goals split_ifs at command
  · rw [nothing] at command
    cases command

theorem defaultValue_command (line : Str) :
    defaultValue line =
      match menuLineCommand line with
      | some (.default n) => some n
      | _ => none := by
  -- the words of the file format are told apart by their texts
  have default_text : bytes "default" = MenuWord.default.text := rfl
  unfold defaultValue
  obtain ⟨w, word, command⟩ | ⟨other, command⟩ := menuLine_cases line
  · rw [command, word, default_text]
    by_cases given : w = .default
    · subst given
      by_cases empty : (lineWords line).2 = [] <;> simp [MenuWord.command, valued, empty]
    · have differs : w.text ≠ MenuWord.default.text := fun same => given (MenuWord.text_injective same)
      rw [if_neg fun both => differs both.1]
      by_cases empty : (lineWords line).2 = [] <;>
        cases w <;> simp [MenuWord.command, valued, empty] at given ⊢
  · rw [command, if_neg fun both => other .default both.1]

/-- The number of the default entry and the number of titles so far. -/
def menuNote (g : Int × Nat) (line : Str) : Int × Nat :=
  match menuLineCommand line with
  | some (.default n) => (n, g.2)
  | some (.title _) => (g.1, g.2 + 1)
  | _ => g

def menuEdit (devmap : List KlGdev) (entry : MenuEntry) (line : Str) : MenuEntry :=
  (menuLineCommand line).elim entry (entry.apply devmap)

def menuReader (devmap : List KlGdev) : BlockReader Str (Int × Nat) MenuEntry KlTarget where
  opens line := Titled line
  start g line := menuEntry g.1 g.2 (lineWords line).2
  edit := menuEdit devmap
  note := menuNote
  close := MenuEntry.finished

def MenuView.blocks (v : MenuView) : BlockState (Int × Nat) MenuEntry KlTarget :=
  ⟨(v.defnum, v.tnum), v.settings.targets, v.current⟩

theorem MenuView.line_devmap (v : MenuView) (line : Str) :
    (v.line line).settings.grubDevmap = v.settings.grubDevmap := by
  unfold MenuView.line
  cases menuLineCommand line with
  | none => rfl
  | some command =>
    cases command with
    | timeout n =>
      simp only [Option.elim_some, MenuView.step]
      split <;> rfl
    | _ => rfl

theorem MenuView.line_blocks (v : MenuView) (line : Str) :
    (v.line line).blocks = (menuReader v.settings.grubDevmap).step v.blocks line := by
  have note : ∀ g, (menuReader v.settings.grubDevmap).note g line = menuNote g line := fun _ => rfl
  by_cases titled : Titled line
  -- the title is counted in the note, after its target got the old count
  · have command := menuCommand_titled line titled
    rw [BlockReader.step_opening _ _ line (decide_eq_true titled), note, MenuView.line, menuNote,
      command]
    rfl
  · have edit : ∀ entry, (menuReader v.settings.grubDevmap).edit entry line =
        menuEdit v.settings.grubDevmap entry line := fun _ => rfl
    rw [BlockReader.step_inside _ _ line (decide_eq_false titled), note, MenuView.line]
    simp only [edit, menuEdit, menuNote]
    cases command : menuLineCommand line with
    | none => simp [MenuView.blocks]
    | some c =>
      cases c with
      | title val => exact absurd (titled_of_menuCommand line val command) titled
      | timeout n =>
        simp only [Option.elim_some, MenuView.step]
        split <;> simp [MenuView.blocks, MenuEntry.apply]
      | default n => simp [MenuView.blocks, MenuView.step, MenuEntry.apply]
      | _ => simp [MenuView.blocks, MenuView.step]

theorem MenuView.foldl_blocks (v : MenuView) (lines : List Str) :
    (lines.foldl MenuView.line v).blocks =
      lines.foldl (menuReader v.settings.grubDevmap).step v.blocks := by
  induction lines generalizing v with
  | nil => rfl
  | cons line lines ih =>
    rw [List.foldl_cons, ih, MenuView.line_devmap, MenuView.line_blocks, List.foldl_cons]

theorem menuTargets_blocks (devmap : List KlGdev) (defnum : Int) (tnum : Nat) (lines : List Str) :
    menuTargets devmap defnum tnum lines =
      (menuReader devmap).finish (lines.foldl (menuReader devmap).step ⟨(defnum, tnum), [], none⟩) := by
  have closed := grubAddTarget_silent (lines.foldl menuLine
    ⟨{ initSettings with grubDevmap := devmap }, 0, 0, defnum, tnum, false, initTarget⟩)
  rw [menuLines_view] at closed
  exact (congrArg Settings.targets closed).trans
    (congrArg (menuReader devmap).finish (MenuView.foldl_blocks _ lines))

theorem loadMenu_blocks (tskip : Bool) (s : Settings) (content : Str) :
    (loadMenu tskip s (.ok content)).targets =
      (menuReader s.grubDevmap).finish (((pieces 1024 content).map cstr).foldl
        (menuReader s.grubDevmap).step ⟨(-1, 0), s.targets, none⟩) :=
  (congrArg Settings.targets (loadMenu_silent tskip s content)).trans
    (congrArg (menuReader s.grubDevmap).finish (MenuView.foldl_blocks _ _))

/-- The notes are the last default and the number of titles. -/
theorem foldl_menuNote (lines : List Str) (g : Int × Nat) :
    lines.foldl menuNote g = ((lastDefault lines).getD g.1, g.2 + titleCount lines) := by
  induction lines generalizing g with
  | nil => rfl
  | cons line lines ih =>
    rw [List.foldl_cons, ih]
    have here := defaultValue_command line
    unfold menuNote lastDefault titleCount
    by_cases titled : Titled line
    · have command := menuCommand_titled line titled
      rw [command] at here ⊢
      simp [here, titled, Nat.add_assoc, Nat.add_comm]
    -- without a title the count stays, and only `default` changes the number
    · have no_title : ∀ val, menuLineCommand line ≠ some (.title val) :=
        fun val command => titled (titled_of_menuCommand line val command)
      cases command : menuLineCommand line with
      | none =>
        rw [command] at here
        simp [here, titled]
      | some c =>
        rw [command] at here
        cases c with
        | title val => exact absurd command (no_title val)
        | default n =>
          simp only at here
          simp only [List.filterMap_cons, here, List.getLast?_cons, Option.getD_some,
            List.countP_cons, titled, decide_false, Bool.false_eq_true, if_false, Nat.add_zero]
        | _ =>
          simp only at here
          simp [here, titled]

section
variable (marked : Prop) [Decidable marked] (devmap : List KlGdev)

theorem setPath_mark (src : Str) (set : KlTarget → Buf 1024 → KlTarget)
    (unmarked : ∀ t p, set (markDefault marked t) p = markDefault marked (set t p)) (t : KlTarget) :
    setPath devmap src set (markDefault marked t) = markDefault marked (setPath devmap src set t) := by
  unfold setPath
  cases grubConvPath devmap src with
  | none => rfl
  | some path => exact unmarked t path

theorem MenuEntry.apply_mark (entry : MenuEntry) (command : MenuCommand) :
    (entry.mark marked).apply devmap command = (entry.apply devmap command).mark marked := by
  cases command with
  | root val =>
    simp only [MenuEntry.apply, MenuEntry.mark]
    cases lookupGdev devmap val <;> rfl
  | kernel val =>
    have sets := setPath_mark marked devmap (nextValue val).1 (fun t p => { t with kernel := p })
      (fun _ _ => rfl) { entry.target with cmdline := strlcpy (nextValue val).2 }
    exact congrArg (MenuEntry.mk · entry.skip) sets
  | initrd val =>
    have sets := setPath_mark marked devmap val (fun t p => { t with initrd := p })
      (fun _ _ => rfl) entry.target
    exact congrArg (MenuEntry.mk · entry.skip) sets
  | module val =>
    have sets := setPath_mark marked devmap (nextValue val).1
      (fun t p => { t with modules := t.modules ++ [⟨p, strlcpy (nextValue val).2⟩] })
      (fun _ _ => rfl) entry.target
    exact congrArg (MenuEntry.mk · entry.skip) sets
  | _ => rfl

theorem foldl_mark (entry : MenuEntry) (body : List Str) :
    body.foldl (menuEdit devmap) (entry.mark marked) =
      (body.foldl (menuEdit devmap) entry).mark marked := by
  induction body generalizing entry with
  | nil => rfl
  | cons line body ih =>
    have here : menuEdit devmap (entry.mark marked) line = (menuEdit devmap entry line).mark marked := by
      unfold menuEdit
      cases menuLineCommand line with
      | none => rfl
      | some command => exact MenuEntry.apply_mark marked devmap entry command
    rw [List.foldl_cons, here, ih, List.foldl_cons]

theorem MenuEntry.finished_mark (entry : MenuEntry) :
    (entry.mark marked).finished = entry.finished.map (markDefault marked) := by
  unfold MenuEntry.finished KexecLoader.finished
  by_cases skipped : entry.skip = true
  · simp [MenuEntry.mark, skipped]
  · by_cases missing : entry.target.root.str = [] ∨ entry.target.kernel.str = [] <;>
      simp [MenuEntry.mark, markDefault, skipped, missing]

end

/-- A count is not the number a file without `default` has. -/
theorem counted_default (lines : List Str) (count : Nat) :
    (count : Int) = (lastDefault lines).getD (-1) ↔ lastDefault lines = some (count : Int) := by
  cases lastDefault lines with
  | none => simp
  | some n => simp [eq_comm]

/-- What a block yields, but for the mark of the default entry, does not depend on
the notes. -/
theorem menuTargets_marked (devmap : List KlGdev) (defnum : Int) (tnum : Nat) (title : Str)
    (body : List Str) (titled : Titled title) (inside : ∀ line ∈ body, ¬ TitleLine line) :
    menuTargets devmap defnum tnum (title :: body) =
      (menuTargets devmap (-1) 0 (title :: body)).map (markDefault ((tnum : Int) = defnum)) := by
  have opens : (menuReader devmap).opens title = true := decide_eq_true titled
  have inside' : ∀ line ∈ body, (menuReader devmap).opens line = false :=
    fun line member => decide_eq_false fun titled => inside line member titled.1
  have block (g : Int × Nat) :
      (menuReader devmap).finish ((title :: body).foldl (menuReader devmap).step ⟨g, [], none⟩) =
        (body.foldl (menuEdit devmap) (menuEntry g.1 g.2 (lineWords title).2)).finished := by
    rw [List.foldl_cons, BlockReader.step_opening _ _ _ opens, BlockReader.foldl_body _ _ _ inside']
    rfl
  -- the notes are used for the mark alone, when the target is opened
  have start : menuEntry defnum tnum (lineWords title).2 =
      (menuEntry (-1) 0 (lineWords title).2).mark ((tnum : Int) = defnum) := by
    by_cases marked : (tnum : Int) = defnum <;> simp [menuEntry, MenuEntry.mark, markDefault, marked]
  rw [menuTargets_blocks, menuTargets_blocks, block, block, start, foldl_mark, MenuEntry.finished_mark]

/-! ### Both files -/

/-- The targets of a file are those of the lines before a block, of the block, and
of the lines after it, each part read alone. In menu.lst the lines before also
choose the default entry. -/
theorem targets_of_block (fname : Str) (tskip : Bool) (s : Settings) (content : Str)
    (before : List Str) (title : Str) (body after : List Str)
    (own : OwnBlock ((pieces 1024 content).map cstr) before title body after) :
    (loadConf fname s (.ok content)).targets =
        s.targets ++ confTargets fname before ++ confTargets fname (title :: body) ++
          confTargets fname after ∧
      (loadMenu tskip s (.ok content)).targets =
        s.targets ++ menuTargets s.grubDevmap (-1) 0 before ++
          (menuTargets s.grubDevmap (-1) 0 (title :: body)).map
            (markDefault (lastDefault before = some (titleCount before : Int))) ++
          menuTargets s.grubDevmap ((lastDefault (before ++ title :: body)).getD (-1))
            (titleCount (before ++ title :: body)) after := by
  obtain ⟨split, titled, inside, ends⟩ := own
  constructor
  · have opening : ∀ line ∈ after.head?, confReader.opens line = true :=
      fun line head => decide_eq_true (ends line head)
    rw [loadConf_blocks, split, confReader.finish_block () s.targets before title body after
      (decide_eq_true titled) opening]
    simp only [confTargets_blocks]
  · have opening : ∀ line ∈ after.head?, (menuReader s.grubDevmap).opens line = true :=
      fun line head => decide_eq_true (ends line head)
    have notes (lines : List Str) : lines.foldl (menuReader s.grubDevmap).note (-1, 0) =
        ((lastDefault lines).getD (-1), titleCount lines) := by
      rw [show (menuReader s.grubDevmap).note = menuNote from rfl, foldl_menuNote, Nat.zero_add]
    rw [loadMenu_blocks, split, BlockReader.finish_block _ (-1, 0) s.targets before title body after
      (decide_eq_true titled) opening, notes, notes, ← menuTargets_blocks, ← menuTargets_blocks,
      ← menuTargets_blocks, menuTargets_marked _ _ _ _ _ titled inside]
    -- a count is never the -1 of a file without `default`
    have marks : markDefault ((titleCount before : Int) = (lastDefault before).getD (-1)) =
        markDefault (lastDefault before = some (titleCount before : Int)) := by
      funext t
      simp only [markDefault, counted_default]
    rw [marks]

theorem targets_of_block_root :
    OwnBlock ((pieces 1024 (bytes "title a\nroot r\nkernel k\ntitle b\n")).map cstr) []
        (bytes "title a\n") [bytes "root r\n", bytes "kernel k\n"] [bytes "title b\n"] ∧
      (loadConf [] initSettings (.ok (bytes "title a\nroot r\nkernel k\ntitle b\n"))).targets =
        [] ++ confTargets [] [] ++
          confTargets [] [bytes "title a\n", bytes "root r\n", bytes "kernel k\n"] ++
          confTargets [] [bytes "title b\n"] :=
  have own : OwnBlock ((pieces 1024 (bytes "title a\nroot r\nkernel k\ntitle b\n")).map cstr) []
      (bytes "title a\n") [bytes "root r\n", bytes "kernel k\n"] [bytes "title b\n"] :=
    ⟨by decide, by decide, by decide, by decide⟩
  ⟨own, (targets_of_block [] false initSettings _ _ _ _ _ own).1⟩

/-- A `default` line elsewhere marks a target of menu.lst; and a title line without
a text leaves its lines to the target before. -/
theorem target_outside_block :
    (loadMenu false initSettings (.ok (bytes "title a\nroot (fd0)\nkernel k\n"))).targets.map
        KlTarget.flags = [TARGET_RESET] ∧
      (loadMenu false initSettings
          (.ok (bytes "default 0\ntitle a\nroot (fd0)\nkernel k\n"))).targets.map KlTarget.flags =
        [TARGET_RESET ||| TARGET_DEFAULT] ∧
      (loadConf [] initSettings (.ok (bytes "title a\nroot r\nkernel k\n"))).targets.map
        (fun t => t.kernel.str) = [bytes "k"] ∧
      (loadConf [] initSettings (.ok (bytes "title a\nroot r\nkernel k\ntitle\nkernel m\n"))).targets.map
        (fun t => t.kernel.str) = [bytes "m"] := by
  decide

end KexecLoader
