import KexecLoader.TargetBlocks

/-!
# Which blocks of menu.lst become targets

In a file of short lines the blocks are the title lines with what follows them. The
theorem at the end says which of them are added, and which one is the default.
-/
namespace KexecLoader

/-- The settings the configuration files can leave when menu.lst is read. -/
inductive Configured : Settings → Prop
  | start : Configured initSettings
  | conf {s : Settings} (fname : Str) (file : Except Str Str) (before : Configured s) :
      Configured (loadConf fname s file)
  | devmap {s : Settings} (file : Except Str Str) (before : Configured s) :
      Configured (loadDevmap s file)
  | menu {s : Settings} (tskip : Bool) (file : Except Str Str) (before : Configured s) :
      Configured (loadMenu tskip s file)

/-- The lines of a file, each as the C string it is read as. -/
def menuLines (content : Str) : List Str := (fileLines content).map cstr

/-- The title lines, each with the lines up to the next one. -/
def titleBlocks (content : Str) : List (Passage Str) :=
  passages (fun line => TitleLine line) [] (menuLines content)

/-- The number of title lines before a block. -/
def ordinal (block : Passage Str) : Nat := block.before.countP (TitleLine ·)

/-- What the path of a `kernel` line needs. -/
def PathResolves (devmap : List KlGdev) (path : Str) : Prop :=
  path.head? = some 40 → (lookupGdev devmap path).isSome = true

/-- A block that can be booted. -/
structure Bootable (devmap : List KlGdev) (body : List Str) : Prop where
  no_chainloader : ∀ line ∈ body, (lineWords line).1 ≠ bytes "chainloader"
  no_empty_root : ∀ line ∈ body, lineWords line ≠ (bytes "root", [])
  root : ∃ line ∈ body, (lineWords line).1 = bytes "root" ∧
    (lookupGdev devmap (lineWords line).2).isSome = true
  kernel : ∃ line ∈ body, (lineWords line).1 = bytes "kernel" ∧ (lineWords line).2 ≠ [] ∧
    PathResolves devmap (nextValue (lineWords line).2).1

instance (devmap : List KlGdev) (path : Str) : Decidable (PathResolves devmap path) :=
  inferInstanceAs (Decidable (_ → _))

instance (devmap : List KlGdev) (body : List Str) : Decidable (Bootable devmap body) :=
  decidable_of_iff
    ((∀ line ∈ body, (lineWords line).1 ≠ bytes "chainloader") ∧
      (∀ line ∈ body, lineWords line ≠ (bytes "root", [])) ∧
      (∃ line ∈ body, (lineWords line).1 = bytes "root" ∧
        (lookupGdev devmap (lineWords line).2).isSome = true) ∧
      ∃ line ∈ body, (lineWords line).1 = bytes "kernel" ∧ (lineWords line).2 ≠ [] ∧
        PathResolves devmap (nextValue (lineWords line).2).1)
    ⟨fun ⟨a, b, c, d⟩ => ⟨a, b, c, d⟩, fun ⟨a, b, c, d⟩ => ⟨a, b, c, d⟩⟩

/-- The target a block describes. -/
def blockTarget (devmap : List KlGdev) (block : Passage Str) : KlTarget :=
  ((menuReader devmap).record (-1, 0) block).target

/-! ### Devices have names -/

def NamedDevices (devmap : List KlGdev) : Prop := ∀ gdev ∈ devmap, gdev.device.str ≠ []

theorem devmapLine_named (s : Settings) (line : Nat) (piece : Str)
    (named : NamedDevices s.grubDevmap) : NamedDevices (devmapLine s line piece).grubDevmap := by
  obtain same | ⟨gdev, grown, -, given⟩ := devmapLine_cases s line piece
  · rwa [same]
  · rw [grown]
    intro entry member
    obtain old | new := List.mem_append.mp member
    · exact named entry old
    · rw [List.mem_singleton.mp new]
      simpa using given

theorem devmapLoop_named (s : Settings) (line : Nat) (rest : List Str)
    (named : NamedDevices s.grubDevmap) : NamedDevices (devmapLoop s line rest).grubDevmap := by
  induction rest generalizing s line with
  | nil => exact named
  | cons piece rest ih => exact ih _ _ (devmapLine_named s (line + 1) piece named)

theorem MenuView.foldl_devmap (v : MenuView) (lines : List Str) :
    (lines.foldl MenuView.line v).settings.grubDevmap = v.settings.grubDevmap := by
  induction lines generalizing v with
  | nil => rfl
  | cons line lines ih => rw [List.foldl_cons, ih, MenuView.line_devmap]

theorem loadMenu_grubDevmap (tskip : Bool) (s : Settings) (file : Except Str Str) :
    (loadMenu tskip s file).grubDevmap = s.grubDevmap := by
  cases file with
  | error reason => rfl
  | ok content =>
    exact (congrArg Settings.grubDevmap (loadMenu_silent tskip s content)).trans
      (MenuView.foldl_devmap _ _)

theorem Configured.named {s : Settings} (configured : Configured s) :
    NamedDevices s.grubDevmap := by
  induction configured with
  | start => simp [NamedDevices, initSettings]
  | conf fname file _ ih => rwa [loadConf_grubDevmap]
  | devmap file _ ih =>
    cases file with
    | error reason => exact ih
    | ok content => exact devmapLoop_named _ 0 _ ih
  | menu tskip file _ ih => rwa [loadMenu_grubDevmap]

theorem lookupGdev_nonempty {devmap : List KlGdev} (named : NamedDevices devmap) {dev name : Str}
    (found : lookupGdev devmap dev = some name) : name ≠ [] := by
  obtain ⟨gdev, -, found⟩ := Option.bind_eq_some_iff.mp found
  -- a floppy gets its name from its number
  have floppy : lookupFloppy gdev = some name → name ≠ [] := by
    unfold lookupFloppy
    split
    · rintro ⟨rfl⟩
      simp [bytes]
    · simp
  unfold lookupParsed at found
  split at found
  next entry absolute =>
    cases found
    exact named entry (List.mem_of_find?_eq_some absolute)
  next =>
    split at found
    next => exact floppy found
    next =>
      split at found
      next entry whole =>
        cases found
        exact List.append_ne_nil_of_left_ne_nil (named entry (List.mem_of_find?_eq_some whole)) _
      next => exact floppy found

/-! ### What the lines of a block bring about -/

section
variable (devmap : List KlGdev) (entry : MenuEntry) (line : Str)

theorem menuEdit_skip :
    (menuEdit devmap entry line).skip = true ↔ entry.skip = true ∨
      ((lineWords line).1 = bytes "chainloader" ∨ lineWords line = (bytes "root", [])) := by
  have chainloader : bytes "chainloader" = MenuWord.chainloader.text := rfl
  have root : bytes "root" = MenuWord.root.text := rfl
  rw [chainloader, root, Prod.ext_iff]
  obtain ⟨w, word, command⟩ | ⟨other, command⟩ := menuLine_cases line
  · rw [menuEdit, command, word, MenuWord.text_injective.eq_iff, MenuWord.text_injective.eq_iff]
    by_cases empty : (lineWords line).2 = [] <;>
      cases w <;> simp [MenuWord.command, valued, empty, MenuEntry.apply]
  · simp [menuEdit, command, other]

theorem setPath_kernel (t : KlTarget) (src : Str) :
    (setPath devmap src (fun t p => { t with kernel := p }) t).kernel =
      ((grubConvPath devmap src).getD t.kernel) ∧
    (setPath devmap src (fun t p => { t with kernel := p }) t).root = t.root := by
  unfold setPath
  cases grubConvPath devmap src <;> exact ⟨rfl, rfl⟩

theorem MenuEntry.apply_root (named : NamedDevices devmap) (command : MenuCommand) :
    (entry.apply devmap command).target.root.str ≠ [] ↔ entry.target.root.str ≠ [] ∨
      ∃ val, command = .root val ∧ (lookupGdev devmap val).isSome = true := by
  cases command with
  | root val =>
    simp only [MenuEntry.apply]
    cases found : lookupGdev devmap val with
    | none => simp [found]
    | some dev =>
      have nonempty := lookupGdev_nonempty named found
      simp [found, nonempty]
  | kernel val => simp [MenuEntry.apply, setPath_kernel]
  | initrd val =>
    simp only [MenuEntry.apply, setPath]
    cases grubConvPath devmap val <;> simp
  | module val =>
    simp only [MenuEntry.apply, setPath]
    cases grubConvPath devmap (nextValue val).1 <;> simp
  | _ => simp [MenuEntry.apply]

theorem menuEdit_root (named : NamedDevices devmap) :
    (menuEdit devmap entry line).target.root.str ≠ [] ↔ entry.target.root.str ≠ [] ∨
      ((lineWords line).1 = bytes "root" ∧ (lookupGdev devmap (lineWords line).2).isSome = true) := by
  have root : bytes "root" = MenuWord.root.text := rfl
  rw [root]
  obtain ⟨w, word, command⟩ | ⟨other, command⟩ := menuLine_cases line
  · have step (c : MenuCommand) : ((some c).elim entry (entry.apply devmap)).target.root.str ≠ [] ↔
        entry.target.root.str ≠ [] ∨
          ∃ val, c = .root val ∧ (lookupGdev devmap val).isSome = true :=
      entry.apply_root devmap named c
    rw [menuEdit, command, word, MenuWord.text_injective.eq_iff]
    by_cases empty : (lineWords line).2 = []
    · -- the empty name is no device
      have no_device : lookupGdev devmap [] = none := rfl
      cases w <;> simp [MenuWord.command, valued, empty, no_device, MenuEntry.apply]
    · cases w <;> simp only [MenuWord.command, valued, empty, if_false, step] <;> simp
  · simp [menuEdit, command, other]

theorem MenuEntry.apply_kernel (command : MenuCommand)
    (path : ∀ val, command = .kernel val → (nextValue val).1 ≠ []) :
    (entry.apply devmap command).target.kernel.str ≠ [] ↔ entry.target.kernel.str ≠ [] ∨
      ∃ val, command = .kernel val ∧ PathResolves devmap (nextValue val).1 := by
  cases command with
  | kernel val =>
    have given := path val rfl
    simp only [MenuEntry.apply, setPath, grubConvPath, MenuCommand.kernel.injEq, exists_eq_left',
      PathResolves]
    by_cases device : (nextValue val).1.head? = some 40
    · rw [if_pos device]
      cases found : lookupGdev devmap (nextValue val).1 with
      | none => simp [device]
      | some dev => simp [bytes]
    · simp [device, given]
  | root val =>
    simp only [MenuEntry.apply]
    cases lookupGdev devmap val <;> simp
  | initrd val =>
    simp only [MenuEntry.apply, setPath]
    cases grubConvPath devmap val <;> simp
  | module val =>
    simp only [MenuEntry.apply, setPath]
    cases grubConvPath devmap (nextValue val).1 <;> simp
  | _ => simp [MenuEntry.apply]

theorem menuEdit_kernel :
    (menuEdit devmap entry line).target.kernel.str ≠ [] ↔ entry.target.kernel.str ≠ [] ∨
      ((lineWords line).1 = bytes "kernel" ∧ (lineWords line).2 ≠ [] ∧
        PathResolves devmap (nextValue (lineWords line).2).1) := by
  have kernel : bytes "kernel" = MenuWord.kernel.text := rfl
  rw [kernel]
  obtain ⟨w, word, command⟩ | ⟨other, command⟩ := menuLine_cases line
  · have step (c : MenuCommand) (path : ∀ val, c = .kernel val → (nextValue val).1 ≠ []) :
        ((some c).elim entry (entry.apply devmap)).target.kernel.str ≠ [] ↔
          entry.target.kernel.str ≠ [] ∨
            ∃ val, c = .kernel val ∧ PathResolves devmap (nextValue val).1 :=
      entry.apply_kernel devmap c path
    rw [menuEdit, command, word, MenuWord.text_injective.eq_iff]
    by_cases empty : (lineWords line).2 = []
    · cases w <;> simp [MenuWord.command, valued, empty, MenuEntry.apply]
    · have path : (nextValue (lineWords line).2).1 ≠ [] := nextValue_first (lineText line) empty
      cases w <;> simp only [MenuWord.command, valued, empty, if_false]
      case kernel =>
        rw [step _ (by rintro _ ⟨rfl⟩; exact path)]
        simp [empty]
      all_goals
        rw [step _ (by simp)]
        simp
  · simp [menuEdit, command, other]

end

/-- The block's record is added exactly if the block can be booted. -/
theorem yield_block (devmap : List KlGdev) (named : NamedDevices devmap) (block : Passage Str) :
    (menuReader devmap).yield (-1, 0) block =
      if Bootable devmap block.body then [blockTarget devmap block] else [] := by
  obtain ⟨before, title, body⟩ := block
  let notes := before.foldl menuNote (-1, 0)
  let start := menuEntry notes.1 notes.2 (lineWords title).2
  let record := body.foldl (menuEdit devmap) start
  -- once a line brings one of these about, it stays
  have skip : record.skip = true ↔ ∃ line ∈ body,
      (lineWords line).1 = bytes "chainloader" ∨ lineWords line = (bytes "root", []) :=
    (foldl_iff_exists (P := fun e : MenuEntry => e.skip = true) (menuEdit devmap)
      (menuEdit_skip devmap) start body).trans (by simp [start, menuEntry])
  have root : record.target.root.str ≠ [] ↔ ∃ line ∈ body, (lineWords line).1 = bytes "root" ∧
      (lookupGdev devmap (lineWords line).2).isSome = true :=
    (foldl_iff_exists (P := fun e : MenuEntry => e.target.root.str ≠ []) (menuEdit devmap)
      (fun e line => menuEdit_root devmap e line named) start body).trans
      (by simp [start, menuEntry, initTarget, default])
  have kernel : record.target.kernel.str ≠ [] ↔ ∃ line ∈ body,
      (lineWords line).1 = bytes "kernel" ∧ (lineWords line).2 ≠ [] ∧
        PathResolves devmap (nextValue (lineWords line).2).1 :=
    (foldl_iff_exists (P := fun e : MenuEntry => e.target.kernel.str ≠ []) (menuEdit devmap)
      (menuEdit_kernel devmap) start body).trans (by simp [start, menuEntry, initTarget, default])
  -- what a target needs to be added, with the lines that say so
  have bootable : Bootable devmap body ↔
      record.skip = false ∧ record.target.root.str ≠ [] ∧ record.target.kernel.str ≠ [] := by
    rw [← Bool.not_eq_true, skip, root, kernel]
    constructor
    · rintro ⟨no_chainloader, no_empty_root, has_root, has_kernel⟩
      refine ⟨?_, has_root, has_kernel⟩
      rintro ⟨line, member, chainloader | empty⟩
      · exact no_chainloader line member chainloader
      · exact no_empty_root line member empty
    · rintro ⟨none_skips, has_root, has_kernel⟩
      exact ⟨fun line member chainloader => none_skips ⟨line, member, .inl chainloader⟩,
        fun line member empty => none_skips ⟨line, member, .inr empty⟩, has_root, has_kernel⟩
  have yielded : (menuReader devmap).yield (-1, 0) ⟨before, title, body⟩ = record.finished := rfl
  have target : blockTarget devmap ⟨before, title, body⟩ = record.target := rfl
  rw [yielded, target]
  simp only [bootable, MenuEntry.finished, KexecLoader.finished]
  cases record.skip with
  | true => simp
  | false =>
    by_cases no_root : record.target.root.str = [] <;>
      by_cases no_kernel : record.target.kernel.str = [] <;> simp [no_root, no_kernel]

/-! ### Lines as they are written -/

/-- The reader looks at nothing but the words of a line. -/
theorem menuReader_words (devmap : List KlGdev) (s : BlockState (Int × Nat) MenuEntry KlTarget)
    {a b : Str} (same : lineWords a = lineWords b) :
    (menuReader devmap).step s a = (menuReader devmap).step s b := by
  have command : menuLineCommand a = menuLineCommand b := by
    rw [menuLineCommand, menuLineCommand, same]
  have titled : Titled a ↔ Titled b := by rw [Titled, Titled, TitleLine, TitleLine, same]
  have opens : (menuReader devmap).opens a = (menuReader devmap).opens b :=
    decide_eq_decide.mpr titled
  have start : ∀ g, (menuReader devmap).start g a = (menuReader devmap).start g b := fun g =>
    congrArg (fun words : Str × Str => menuEntry g.1 g.2 words.2) same
  have edit : ∀ entry, (menuReader devmap).edit entry a = (menuReader devmap).edit entry b :=
    fun entry => congrArg (Option.elim · entry (entry.apply devmap)) command
  have note : ∀ g, (menuReader devmap).note g a = (menuReader devmap).note g b := fun g => by
    rw [show (menuReader devmap).note = menuNote from rfl, menuNote, menuNote, command]
  simp only [BlockReader.step, opens, start, edit, note]

theorem menuReader_blank (devmap : List KlGdev) (s : BlockState (Int × Nat) MenuEntry KlTarget) :
    (menuReader devmap).step s [] = s := by
  have inside : (menuReader devmap).opens [] = false := rfl
  have edit : ∀ entry, (menuReader devmap).edit entry [] = entry := fun _ => rfl
  rw [BlockReader.step_inside _ s [] inside]
  simp only [edit, Option.map_id']
  rfl

theorem loadMenu_titleBlocks (tskip : Bool) (s : Settings) (content : Str)
    (short : ∀ line ∈ fileLines content, line.length < 1023)
    (texts : ∀ line ∈ menuLines content, TitleLine line → (lineWords line).2 ≠ []) :
    (loadMenu tskip s (.ok content)).targets =
      s.targets ++ (titleBlocks content).flatMap ((menuReader s.grubDevmap).yield (-1, 0)) := by
  have by_line := foldl_fileLines 1022 (menuReader s.grubDevmap).step ⟨(-1, 0), s.targets, none⟩ content
    (fun _ line _ => menuReader_words s.grubDevmap _ (lineWords_lf line))
    (menuReader_blank s.grubDevmap) fun line member => by have := short line member; omega
  have opens : passages (menuReader s.grubDevmap).opens [] (menuLines content) =
      titleBlocks content :=
    passages_congr [] (menuLines content) fun line member =>
      decide_eq_decide.mpr (and_iff_left_of_imp (texts line member))
  rw [loadMenu_blocks, by_line, ← menuLines,
    BlockReader.finish_run _ (-1, 0) [] (menuLines content) _ rfl, opens]
  simp [BlockReader.closed]

theorem MenuEntry.apply_heading (devmap : List KlGdev) (entry : MenuEntry)
    (command : MenuCommand) : (entry.apply devmap command).target.title = entry.target.title ∧
      (entry.apply devmap command).target.flags = entry.target.flags := by
  cases command with
  | root val =>
    simp only [MenuEntry.apply]
    cases lookupGdev devmap val <;> exact ⟨rfl, rfl⟩
  | kernel val =>
    simp only [MenuEntry.apply, setPath]
    cases grubConvPath devmap (nextValue val).1 <;> exact ⟨rfl, rfl⟩
  | initrd val =>
    simp only [MenuEntry.apply, setPath]
    cases grubConvPath devmap val <;> exact ⟨rfl, rfl⟩
  | module val =>
    simp only [MenuEntry.apply, setPath]
    cases grubConvPath devmap (nextValue val).1 <;> exact ⟨rfl, rfl⟩
  | _ => exact ⟨rfl, rfl⟩

theorem foldl_heading (devmap : List KlGdev) (entry : MenuEntry) (body : List Str) :
    (body.foldl (menuEdit devmap) entry).target.title = entry.target.title ∧
      (body.foldl (menuEdit devmap) entry).target.flags = entry.target.flags := by
  induction body generalizing entry with
  | nil => exact ⟨rfl, rfl⟩
  | cons line body ih =>
    obtain ⟨title, flags⟩ := ih (menuEdit devmap entry line)
    rw [List.foldl_cons, title, flags, menuEdit]
    cases menuLineCommand line with
    | none => exact ⟨rfl, rfl⟩
    | some command => exact entry.apply_heading devmap command

theorem blockTarget_heading (devmap : List KlGdev) (block : Passage Str) :
    (blockTarget devmap block).title = strlcpy (lineWords block.first).2 ∧
      (blockTarget devmap block).flags = TARGET_RESET |||
        if lastDefault block.before = some (titleCount block.before : Int) then TARGET_DEFAULT
        else 0 := by
  obtain ⟨before, title, body⟩ := block
  have record : blockTarget devmap ⟨before, title, body⟩ = (body.foldl (menuEdit devmap)
      (menuEntry (before.foldl menuNote (-1, 0)).1 (before.foldl menuNote (-1, 0)).2
        (lineWords title).2)).target := rfl
  obtain ⟨same_title, same_flags⟩ := foldl_heading devmap
    (menuEntry (before.foldl menuNote (-1, 0)).1 (before.foldl menuNote (-1, 0)).2
      (lineWords title).2) body
  rw [record, same_title, same_flags, foldl_menuNote]
  refine ⟨rfl, ?_⟩
  simp only [menuEntry, Nat.zero_add, counted_default]

/-- menu.lst yields the blocks that can be booted, in the order of the file. The
default is the one whose number among all of them is that of the last `default`
line before it. -/
theorem menu_targets (tskip : Bool) (s : Settings) (configured : Configured s) (content : Str)
    (short : ∀ line ∈ fileLines content, line.length < 1023)
    (texts : ∀ line ∈ menuLines content, TitleLine line → (lineWords line).2 ≠ []) :
    (loadMenu tskip s (.ok content)).targets = s.targets ++
        ((titleBlocks content).filter (Bootable s.grubDevmap ·.body)).map
          (blockTarget s.grubDevmap) ∧
      ∀ block ∈ titleBlocks content,
        (blockTarget s.grubDevmap block).title = strlcpy (lineWords block.first).2 ∧
          ((blockTarget s.grubDevmap block).flags &&& TARGET_DEFAULT ≠ 0 ↔
            lastDefault block.before = some (ordinal block : Int)) := by
  constructor
  · rw [loadMenu_titleBlocks tskip s content short texts]
    congr 1
    induction titleBlocks content with
    | nil => rfl
    | cons block blocks ih =>
      rw [List.flatMap_cons, ih, yield_block _ configured.named, List.filter_cons]
      by_cases bootable : Bootable s.grubDevmap block.body <;> simp [bootable]
  · intro block member
    obtain ⟨title, flags⟩ := blockTarget_heading s.grubDevmap block
    obtain ⟨-, -, after, place⟩ := passage_split _ _ _ block member
    -- every title line of the file has a text, so that all of them are counted
    have counted : titleCount block.before = ordinal block := by
      refine List.countP_congr fun line inside => ?_
      have listed : line ∈ menuLines content := by
        rw [← List.nil_append (menuLines content), ← place]
        simp [inside]
      rw [decide_eq_true_iff, decide_eq_true_iff, Titled, and_iff_left_of_imp (texts line listed)]
    refine ⟨title, ?_⟩
    rw [flags, counted]
    split <;> simp_all [TARGET_RESET, TARGET_DEFAULT]

/-- The block of another system counts, but is not added. -/
def sampleMenu : Str :=
  bytes "default 1\ntitle Other\nchainloader +1\ntitle Linux\nroot (fd0)\nkernel /linux quiet\n"

theorem menu_targets_sample :
    Configured initSettings ∧ (∀ line ∈ fileLines sampleMenu, line.length < 1023) ∧
      (∀ line ∈ menuLines sampleMenu, TitleLine line → (lineWords line).2 ≠ []) ∧
      (loadMenu false initSettings (.ok sampleMenu)).targets =
        [] ++ ((titleBlocks sampleMenu).filter (Bootable [] ·.body)).map (blockTarget []) :=
  have short : ∀ line ∈ fileLines sampleMenu, line.length < 1023 := by decide
  have texts : ∀ line ∈ menuLines sampleMenu, TitleLine line → (lineWords line).2 ≠ [] := by decide
  ⟨.start, short, texts, (menu_targets false initSettings .start sampleMenu short texts).1⟩

example : ((titleBlocks sampleMenu).map fun block => decide (Bootable [] block.body)) = [false, true] ∧
    (titleBlocks sampleMenu).map ordinal = [0, 1] := by
  decide

end KexecLoader
