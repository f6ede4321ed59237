import KexecLoader.GrubCfgCommands

/-!
# Entries of grub.cfg and what stands around them

A block is a `menuentry` line with what follows up to its closing bracket. What it
yields also depends on the lines in front of it: the loop has one record, which the
lines outside of blocks fill as well, and the first line that it cannot take apart
ends it.
-/
namespace KexecLoader

/-- The lines as `fgets` delivers them. -/
def grubCfgLines (content : Str) : List Str := (pieces 1024 content).map cstr

/-- The fields of a target, but for the mark of the default entry. -/
def KlTarget.unmarked (t : KlTarget) : KlTarget := { t with flags := 0 }

/-- The commands of grub.cfg as a reader with one record. -/
def grubCfgReader : RecordReader Str MenuEntry KlTarget where
  fails line := grubCfgLineCommand line = .malformed
  opens line := (nextValue (grubCfgText line)).1 = bytes "menuentry"
  closes line := grubCfgLineCommand line = .close
  start := ⟨initTarget, false⟩
  edit e line := (grubCfgLineCommand line).edit e
  close := MenuEntry.finished

/-- A block and the lines of the file in front of it. -/
structure BlockAt (lines front block : List Str) : Prop where
  is_block : grubCfgReader.IsBlock block
  here : front ++ block <+: lines

/-- The targets the loop leaves when the file ends behind these lines. -/
def grubCfgTargets (s : Settings) (lines : List Str) : List KlTarget :=
  (grubCfgLoop (grubCfgStart s) lines).targets

/-- What a block behind `front` adds. -/
def blockYield (s : Settings) (front block : List Str) : List KlTarget :=
  ((grubCfgTargets s (front ++ block)).drop (grubCfgTargets s front).length).map KlTarget.unmarked

/-- The lines in front of a block without the malformed ones that are outside of all
blocks. No block reaches over the first line of another, so that these are blocks of the
file. -/
def repairedFront (front : List Str) : List Str := grubCfgReader.repaired false front

/-- Blocks do not depend on what stands around them. -/
structure PositionFree (s : Settings) (lines : List Str) : Prop where
  same : ∀ front₁ block₁ front₂ block₂,
    BlockAt lines front₁ block₁ → BlockAt lines front₂ block₂ →
    block₁.map grubCfgText = block₂.map grubCfgText →
    blockYield s front₁ block₁ = blockYield s front₂ block₂
  kept : ∀ front block, BlockAt lines front block →
    blockYield s front block = blockYield s (repairedFront front) block

/-! ### The condition -/

/-- What the lines ask for that stand in front of a block since the record was emptied. -/
def askedOutside (front : List Str) : List GrubCfgCommand :=
  (grubCfgReader.pending front).2.map grubCfgLineCommand

def askedFor (front block : List Str) : List GrubCfgCommand :=
  askedOutside front ++ block.map grubCfgLineCommand

/-- The block becomes a target there. -/
structure BlockAccepted (front block : List Str) : Prop where
  sound : ∀ line ∈ front ++ block, grubCfgLineCommand line ≠ .malformed
  no_chainloader : .chainloader ∉ block.map grubCfgLineCommand
  root : ((latest GrubCfgCommand.root? (askedFor front block)).getD default).str ≠ []
  kernel : ((latest GrubCfgCommand.linux? (askedFor front block)).getD default).1.str ≠ []

/-- A block with its own value, or lines in front of both places that give the same. -/
def Agree {α : Type} [Inhabited α] (field : GrubCfgCommand → Option α)
    (front₁ front₂ block : List Str) : Prop :=
  (latest field (block.map grubCfgLineCommand)).isSome = true ∨
    (latest field (askedOutside front₁)).getD default = (latest field (askedOutside front₂)).getD default

/-- The place of a block makes no difference to what it is given. -/
structure SamePlace (front₁ front₂ block : List Str) : Prop where
  sound : ∀ line ∈ front₁ ++ front₂, grubCfgLineCommand line ≠ .malformed
  root : Agree GrubCfgCommand.root? front₁ front₂ block
  linux : Agree GrubCfgCommand.linux? front₁ front₂ block
  initrd : Agree GrubCfgCommand.initrd? front₁ front₂ block

/-- What stands outside of the blocks makes no difference to them. -/
structure OutsideInert (lines : List Str) : Prop where
  same : ∀ front₁ block₁ front₂ block₂,
    BlockAt lines front₁ block₁ → BlockAt lines front₂ block₂ →
    block₁.map grubCfgText = block₂.map grubCfgText →
    BlockAccepted front₁ block₁ ∨ BlockAccepted front₂ block₂ → SamePlace front₁ front₂ block₁
  sound : ∀ front block, BlockAt lines front block → repairedFront front ≠ front →
    ¬ BlockAccepted (repairedFront front) block

/-! ### The loop is the reader -/

theorem grub2Command_menuentry {cur title : Str} {body : Str → Str → GrubCfgCommand}
    (other : ∀ val next, body val next ≠ .menuentry title) :
    grub2Command cur body ≠ .menuentry title := by
  unfold grub2Command
  cases grub2Val cur with
  | none => exact GrubCfgCommand.noConfusion
  | some parts => exact other parts.1 parts.2

/-- Only the command `menuentry` opens an entry. -/
theorem grubCfgAsks_menuentry {cmd args title : Str} (asks : grubCfgAsks cmd args = .menuentry title) :
    cmd = bytes "menuentry" := by
  by_contra other
  revert asks
  unfold grubCfgAsks
  rw [if_neg other]
  split_ifs
  · simp
  · simp
  · refine grub2Command_menuentry fun name rest => grub2Command_menuentry fun val _ => ?_
    unfold setCommand
    split_ifs <;> simp
  · exact grub2Command_menuentry fun _ _ => by simp
  · exact grub2Command_menuentry fun _ _ => by simp
  · simp only [searchedRoot]
    split
    · split <;> simp
    · simp
  · simp

theorem opens_iff {line : Str} (sound : grubCfgLineCommand line ≠ .malformed) :
    grubCfgReader.opens line = true ↔ ∃ title, grubCfgLineCommand line = .menuentry title := by
  have unfolded : grubCfgReader.opens line = true ↔
      (nextValue (grubCfgText line)).1 = bytes "menuentry" := decide_eq_true_iff
  rw [unfolded]
  unfold grubCfgLineCommand grubCfgTextCommand at sound ⊢
  constructor
  · intro word
    -- neither a comment nor a blank line has this word
    have given : ¬ ((grubCfgText line).head? = some 35 ∨ grubCfgText line = []) := by
      rintro (comment | blank)
      · obtain ⟨rest, text⟩ := List.head?_eq_some_iff.mp comment
        have sign : decide ((35 : UInt8) ∉ blanks) = true := by decide
        simp only [nextValue_token, text, List.takeWhile_cons, sign, if_true] at word
        exact absurd (List.cons.inj word).1 (by decide)
      · rw [blank] at word
        exact absurd word (by decide)
    rw [if_neg given] at sound ⊢
    rw [grubCfgAsks, if_pos word] at sound ⊢
    unfold grub2Command at sound ⊢
    cases taken : grub2Val (nextValue (grubCfgText line)).2 with
    | none =>
      rw [taken] at sound
      exact absurd rfl sound
    | some parts => exact ⟨parts.1, rfl⟩
  · rintro ⟨title, asks⟩
    split_ifs at asks
    exact grubCfgAsks_menuentry asks

/-- What the reader has of the loop's state. Whether an entry is skipped matters only
while it is open. -/
structure Shows (st : GrubCfgState) (seen : RecordState MenuEntry KlTarget) : Prop where
  opened : seen.opened = true ↔ st.entryStart ≠ 0
  target : seen.record.target = st.target.unmarked
  skip : seen.opened = true → seen.record.skip = st.skipEntry
  done : seen.done = st.settings.targets.map KlTarget.unmarked

theorem Shows.finished {st : GrubCfgState} {seen : RecordState MenuEntry KlTarget}
    (shown : Shows st seen) (opened : seen.opened = true) :
    seen.record.finished = st.entry.finished.map KlTarget.unmarked := by
  have root : st.target.unmarked.root = st.target.root := rfl
  have kernel : st.target.unmarked.kernel = st.target.kernel := rfl
  simp only [MenuEntry.finished, KexecLoader.finished, GrubCfgState.entry, shown.skip opened,
    shown.target, root, kernel]
  by_cases skipped : st.skipEntry = true
  · simp [skipped]
  · by_cases missing : st.target.root.str = [] ∨ st.target.kernel.str = [] <;> simp [skipped, missing]

theorem edit_unmarked (c : GrubCfgCommand) {a b : MenuEntry} (target : a.target = b.target.unmarked) :
    (c.edit a).target = (c.edit b).target.unmarked := by
  cases c <;> simp only [GrubCfgCommand.edit, target] <;> rfl

theorem edit_skip (c : GrubCfgCommand) {a b : MenuEntry} (skip : a.skip = b.skip) :
    (c.edit a).skip = (c.edit b).skip := by
  cases c <;> first | exact skip | rfl

/-! Three kinds of rounds. -/

section
variable (seen : RecordState MenuEntry KlTarget) {line : Str}

theorem reader_menuentry {title : Str} (command : grubCfgLineCommand line = .menuentry title) :
    grubCfgReader.step seen line =
      { seen with opened := true, record := (GrubCfgCommand.menuentry title).edit seen.record } := by
  have opens : grubCfgReader.opens line = true :=
    (opens_iff (command ▸ GrubCfgCommand.noConfusion)).mpr ⟨title, command⟩
  have closes : grubCfgReader.closes line = false := decide_eq_false (command ▸ GrubCfgCommand.noConfusion)
  rw [RecordReader.step, closes, Bool.and_false, if_neg Bool.false_ne_true, opens, Bool.or_true]
  simp only [grubCfgReader, command]

theorem reader_edit {c : GrubCfgCommand} (command : grubCfgLineCommand line = c)
    (no_title : ∀ title, c ≠ .menuentry title) (inside : c ≠ .close) (sound : c ≠ .malformed) :
    grubCfgReader.step seen line = { seen with record := c.edit seen.record } := by
  have opens : grubCfgReader.opens line = false := by
    rw [Bool.eq_false_iff, ne_eq, opens_iff (command ▸ sound)]
    rintro ⟨title, menuentry⟩
    exact no_title title (command.symm.trans menuentry)
  have closes : grubCfgReader.closes line = false := decide_eq_false (command ▸ inside)
  rw [RecordReader.step, closes, Bool.and_false, if_neg Bool.false_ne_true, opens, Bool.or_false]
  simp only [grubCfgReader, command]

theorem reader_close (command : grubCfgLineCommand line = .close) :
    grubCfgReader.step seen line =
      if seen.opened then ⟨false, ⟨initTarget, false⟩, seen.done ++ seen.record.finished⟩
      else seen := by
  have closes : grubCfgReader.closes line = true := decide_eq_true command
  have opens : grubCfgReader.opens line = false := by
    rw [Bool.eq_false_iff, ne_eq, opens_iff (command ▸ GrubCfgCommand.noConfusion)]
    rintro ⟨title, menuentry⟩
    exact GrubCfgCommand.noConfusion (command.symm.trans menuentry)
  rw [RecordReader.step, closes, Bool.and_true, opens, Bool.or_false]
  simp only [grubCfgReader, command]
  rfl

end

/-- A round that is not the last shows what the reader does. -/
theorem Shows.step {st : GrubCfgState} {seen : RecordState MenuEntry KlTarget} (shown : Shows st seen)
    (line : Str) (sound : grubCfgLineCommand line ≠ .malformed) :
    ∃ st', (grubCfgLineCommand line).apply st = .ok st' ∧ Shows st' (grubCfgReader.step seen line) := by
  -- most commands change nothing but the entry, or something the reader does not have
  have edited : ∀ st' : GrubCfgState, ∀ c : GrubCfgCommand, grubCfgLineCommand line = c →
      (∀ title, c ≠ .menuentry title) → c ≠ .close →
      st'.entryStart = st.entryStart → st'.target = (c.edit st.entry).target →
      st'.skipEntry = (c.edit st.entry).skip → st'.settings.targets = st.settings.targets →
      Shows st' (grubCfgReader.step seen line) := by
    intro st' c command no_title inside same_start target skip targets
    rw [reader_edit seen command no_title inside (command ▸ sound)]
    refine ⟨by rw [same_start]; exact shown.opened, ?_, fun opened => ?_, by rw [targets]; exact shown.done⟩
    · rw [target]
      exact edit_unmarked c shown.target
    · rw [skip]
      exact edit_skip c (shown.skip opened)
  cases command : grubCfgLineCommand line with
  | malformed => exact absurd command sound
  | menuentry title =>
    refine ⟨_, rfl, ?_⟩
    rw [reader_menuentry seen command]
    refine ⟨by simp, ?_, fun _ => rfl, shown.done⟩
    simp only [GrubCfgCommand.edit, shown.target]
    rfl
  | close =>
    refine ⟨_, rfl, ?_⟩
    rw [reader_close seen command, GrubCfgState.closed]
    by_cases opened : seen.opened = true
    · rw [if_pos opened, if_neg (shown.opened.mp opened)]
      exact ⟨by simp, rfl, by simp, by rw [shown.done, shown.finished opened, ← List.map_append]⟩
    · rw [if_neg opened, if_pos (Decidable.not_not.mp (mt shown.opened.mpr opened))]
      exact shown
  | default val =>
    refine ⟨_, rfl, edited _ _ command (by simp) (by simp) ?_ ?_ ?_ ?_⟩ <;>
      unfold GrubCfgState.setDefault <;> split <;> rfl
  | timeout val =>
    refine ⟨_, rfl, edited _ _ command (by simp) (by simp) ?_ ?_ ?_ ?_⟩ <;> split <;> rfl
  | _ => exact ⟨_, rfl, edited _ _ command (by simp) (by simp) rfl rfl rfl rfl⟩

/-- The loop yields what the reader hands in. -/
theorem Shows.run {st : GrubCfgState} {seen : RecordState MenuEntry KlTarget} (shown : Shows st seen)
    (lines : List Str) :
    (endSettings (runCommands st (lines.map grubCfgLineCommand))).targets.map KlTarget.unmarked =
      grubCfgReader.run seen lines := by
  induction lines generalizing st seen with
  | nil => exact shown.done.symm
  | cons line lines ih =>
    have fails : grubCfgReader.fails line = decide (grubCfgLineCommand line = .malformed) := rfl
    rw [List.map_cons, runCommands_cons, RecordReader.run, fails]
    by_cases malformed : grubCfgLineCommand line = .malformed
    · rw [if_pos (decide_eq_true malformed), malformed, shown.done]
      rfl
    · obtain ⟨st', applied, next⟩ := shown.step line malformed
      rw [applied, if_neg (by simpa using malformed), ← ih next]
      rfl

theorem grubCfgTargets_commands (s : Settings) (lines : List Str) :
    grubCfgTargets s lines =
      (endSettings (runCommands (grubCfgStart s).core (lines.map grubCfgLineCommand))).targets := by
  have loop := congrArg Settings.targets (grubCfgLoop_commands (grubCfgStart s) lines)
  exact loop

theorem grubCfgTargets_run (s : Settings) (lines : List Str) :
    (grubCfgTargets s lines).map KlTarget.unmarked =
      grubCfgReader.run (grubCfgReader.init (s.targets.map KlTarget.unmarked)) lines := by
  rw [grubCfgTargets_commands]
  refine Shows.run ⟨?_, rfl, ?_, rfl⟩ lines
  · simp [RecordReader.init, GrubCfgState.core, grubCfgStart]
  · simp [RecordReader.init]

/-! ### What a block yields -/

theorem blockLines_asked (front block : List Str) (is_block : grubCfgReader.IsBlock block) (e : MenuEntry) :
    (grubCfgReader.blockLines front block).foldl grubCfgReader.edit e =
      (askedFor front block).foldl GrubCfgCommand.edit e := by
  obtain ⟨first, body, last, rfl, -, -, -, closes⟩ := is_block
  have close : grubCfgLineCommand last = .close := of_decide_eq_true closes
  have edit : grubCfgReader.edit = fun e line => (grubCfgLineCommand line).edit e := rfl
  -- the bracket itself edits nothing
  have at_end : ∀ e : MenuEntry, (grubCfgLineCommand last).edit e = e := fun e => by rw [close]; rfl
  rw [RecordReader.blockLines, askedFor, askedOutside, List.dropLast_concat, edit, ← List.map_append,
    List.foldl_map, ← List.append_assoc]
  conv_rhs => rw [List.foldl_append, List.foldl_cons, List.foldl_nil, at_end]

/-- The lines of a block behind its first give no title. -/
theorem block_commands {block : List Str} (is_block : grubCfgReader.IsBlock block)
    (sound : ∀ line ∈ block, grubCfgLineCommand line ≠ .malformed) :
    ∃ title rest, block.map grubCfgLineCommand = .menuentry title :: rest ∧
      ∀ c ∈ rest, c.title? = none := by
  obtain ⟨first, body, last, rfl, opens, inside, -, closes⟩ := is_block
  obtain ⟨title, menuentry⟩ := (opens_iff (sound first (by simp))).mp opens
  have close : grubCfgLineCommand last = .close := of_decide_eq_true closes
  refine ⟨title, (body ++ [last]).map grubCfgLineCommand, by simp [menuentry], ?_⟩
  intro c member
  obtain ⟨line, behind, rfl⟩ := List.mem_map.mp member
  rcases List.mem_append.mp behind with member | member
  · have not_opening := (opens_iff (sound line (by simp [member]))).not.mp (by simp [inside line member])
    cases command : grubCfgLineCommand line with
    | menuentry title => exact absurd ⟨title, command⟩ not_opening
    | _ => rfl
  · rw [List.mem_singleton.mp member, close]
    rfl

/-- What is handed in for a block whose lines can all be taken apart. -/
theorem askedFor_finished (front block : List Str) (is_block : grubCfgReader.IsBlock block)
    (sound : ∀ line ∈ front ++ block, grubCfgLineCommand line ≠ .malformed) :
    (BlockAccepted front block →
        ((askedFor front block).foldl GrubCfgCommand.edit ⟨initTarget, false⟩).finished =
          [givenLast initTarget (askedFor front block)]) ∧
      (¬ BlockAccepted front block →
        ((askedFor front block).foldl GrubCfgCommand.edit ⟨initTarget, false⟩).finished = []) := by
  obtain ⟨title, rest, commands, untitled⟩ := block_commands is_block
    fun line member => sound line (List.mem_append_right _ member)
  have skip : ((askedFor front block).foldl GrubCfgCommand.edit ⟨initTarget, false⟩).skip = true ↔
      .chainloader ∈ block.map grubCfgLineCommand := by
    rw [askedFor, commands, List.foldl_append, List.foldl_cons, foldl_edit_skip _ rest untitled]
    simp [GrubCfgCommand.edit]
  have target := foldl_edit_target ⟨initTarget, false⟩ (askedFor front block)
  unfold MenuEntry.finished finished
  rw [target]
  constructor
  · rintro ⟨-, no_chainloader, root, kernel⟩
    rw [if_neg (mt skip.mp no_chainloader), if_neg]
    exact not_or.mpr ⟨root, kernel⟩
  · intro rejected
    split
    · rfl
    next not_skipped =>
      rw [if_pos]
      by_contra given
      obtain ⟨root, kernel⟩ := not_or.mp given
      exact rejected ⟨sound, mt skip.mpr not_skipped, root, kernel⟩

/-- A block yields one target where it is accepted, and none elsewhere. -/
theorem blockYield_accepted (s : Settings) {front block : List Str}
    (is_block : grubCfgReader.IsBlock block) :
    (BlockAccepted front block → blockYield s front block = [givenLast initTarget (askedFor front block)]) ∧
      (¬ BlockAccepted front block → blockYield s front block = []) := by
  have run := grubCfgReader.run_block (s.targets.map KlTarget.unmarked) front block is_block
  rw [← grubCfgTargets_run, ← grubCfgTargets_run, blockLines_asked front block is_block] at run
  have yields : blockYield s front block =
      if (front ++ block).any grubCfgReader.fails = true then []
      else ((askedFor front block).foldl GrubCfgCommand.edit ⟨initTarget, false⟩).finished := by
    rw [blockYield, List.map_drop, run, ← List.length_map KlTarget.unmarked, List.drop_left]
    rfl
  have any : ((front ++ block).any grubCfgReader.fails = true) =
      ¬ ∀ line ∈ front ++ block, grubCfgLineCommand line ≠ .malformed := by
    simp only [List.any_eq_true, grubCfgReader, decide_eq_true_eq, ne_eq, not_forall, not_not, exists_prop]
  rw [yields]
  by_cases sound : ∀ line ∈ front ++ block, grubCfgLineCommand line ≠ .malformed
  · rw [if_neg (any ▸ not_not.mpr sound)]
    exact askedFor_finished front block is_block sound
  · rw [if_pos (any ▸ sound)]
    exact ⟨fun accepted => absurd accepted.sound sound, fun _ => rfl⟩

/-! ### Two places -/

/-- The value a block ends up with is the same at both places. -/
theorem asked_agree_iff {α : Type} [Inhabited α] {field : GrubCfgCommand → Option α}
    {front₁ front₂ block₁ block₂ : List Str}
    (commands : block₁.map grubCfgLineCommand = block₂.map grubCfgLineCommand) :
    (latest field (askedFor front₁ block₁)).getD default =
        (latest field (askedFor front₂ block₂)).getD default ↔
      Agree field front₁ front₂ block₁ := by
  rw [askedFor, askedFor, latest_append, latest_append, ← commands, Agree]
  cases latest field (block₁.map grubCfgLineCommand) with
  | none => simp
  | some own => simp

section
variable {front₁ front₂ block₁ block₂ : List Str}

theorem accepted_samePlace (commands : block₁.map grubCfgLineCommand = block₂.map grubCfgLineCommand)
    (place : SamePlace front₁ front₂ block₁) :
    BlockAccepted front₁ block₁ ↔ BlockAccepted front₂ block₂ := by
  have root := (asked_agree_iff commands).mpr place.root
  have linux := (asked_agree_iff commands).mpr place.linux
  have sound : (∀ line ∈ block₁, grubCfgLineCommand line ≠ .malformed) ↔
      ∀ line ∈ block₂, grubCfgLineCommand line ≠ .malformed := by
    have all : ∀ block : List Str, (∀ line ∈ block, grubCfgLineCommand line ≠ .malformed) ↔
        ∀ c ∈ block.map grubCfgLineCommand, c ≠ .malformed := fun block => by simp
    rw [all, all, commands]
  have before₁ := fun line member => place.sound line (List.mem_append_left front₂ member)
  have before₂ := fun line member => place.sound line (List.mem_append_right front₁ member)
  constructor
  · rintro ⟨all, no_chainloader, has_root, has_kernel⟩
    have own := sound.mp fun line member => all line (List.mem_append_right _ member)
    exact ⟨List.forall_mem_append.mpr ⟨before₂, own⟩, commands ▸ no_chainloader, root ▸ has_root,
      linux ▸ has_kernel⟩
  · rintro ⟨all, no_chainloader, has_root, has_kernel⟩
    have own := sound.mpr fun line member => all line (List.mem_append_right _ member)
    exact ⟨List.forall_mem_append.mpr ⟨before₁, own⟩, commands ▸ no_chainloader, root ▸ has_root,
      linux ▸ has_kernel⟩

/-- The targets are the same when the fields that are given are. -/
theorem givenLast_samePlace (is_block : grubCfgReader.IsBlock block₁)
    (sound : ∀ line ∈ block₁, grubCfgLineCommand line ≠ .malformed)
    (commands : block₁.map grubCfgLineCommand = block₂.map grubCfgLineCommand) :
    givenLast initTarget (askedFor front₁ block₁) = givenLast initTarget (askedFor front₂ block₂) ↔
      Agree GrubCfgCommand.root? front₁ front₂ block₁ ∧
        Agree GrubCfgCommand.linux? front₁ front₂ block₁ ∧
        Agree GrubCfgCommand.initrd? front₁ front₂ block₁ := by
  -- the title is one of the block's own
  have title : (latest GrubCfgCommand.title? (askedFor front₁ block₁)).getD default =
      (latest GrubCfgCommand.title? (askedFor front₂ block₂)).getD default := by
    obtain ⟨title, rest, own, untitled⟩ := block_commands is_block sound
    refine (asked_agree_iff commands).mpr (.inl ?_)
    rw [own, latest, List.filterMap_cons, List.filterMap_eq_nil_iff.mpr untitled]
    rfl
  rw [← asked_agree_iff commands, ← asked_agree_iff commands, ← asked_agree_iff commands,
    KlTarget.ext_iff]
  constructor
  · rintro ⟨-, -, root, kernel, initrd, -, append, -⟩
    exact ⟨root, Prod.ext kernel append, initrd⟩
  · rintro ⟨root, linux, initrd⟩
    exact ⟨title, rfl, root, congrArg Prod.fst linux, initrd, rfl, congrArg Prod.snd linux, rfl⟩

theorem sameYield_iff (s : Settings) (first : grubCfgReader.IsBlock block₁)
    (second : grubCfgReader.IsBlock block₂)
    (commands : block₁.map grubCfgLineCommand = block₂.map grubCfgLineCommand) :
    blockYield s front₁ block₁ = blockYield s front₂ block₂ ↔
      (BlockAccepted front₁ block₁ ∨ BlockAccepted front₂ block₂ →
        SamePlace front₁ front₂ block₁) := by
  obtain ⟨yield₁, none₁⟩ := @blockYield_accepted s front₁ block₁ first
  obtain ⟨yield₂, none₂⟩ := @blockYield_accepted s front₂ block₂ second
  constructor
  · intro same accepted
    -- accepted at one place means accepted at the other
    have both : BlockAccepted front₁ block₁ ∧ BlockAccepted front₂ block₂ := by
      by_contra other
      rcases accepted with accepted | accepted
      · rw [yield₁ accepted, none₂ fun later => other ⟨accepted, later⟩] at same
        cases same
      · rw [yield₂ accepted, none₁ fun later => other ⟨later, accepted⟩] at same
        cases same
    obtain ⟨here, there⟩ := both
    rw [yield₁ here, yield₂ there, List.singleton_inj, givenLast_samePlace first
      (fun line member => here.sound line (by simp [member])) commands] at same
    refine ⟨fun line member => ?_, same.1, same.2.1, same.2.2⟩
    rcases List.mem_append.mp member with member | member
    · exact here.sound line (List.mem_append_left _ member)
    · exact there.sound line (List.mem_append_left _ member)
  · intro place
    by_cases accepted : BlockAccepted front₁ block₁ ∨ BlockAccepted front₂ block₂
    · have place := place accepted
      have iff := accepted_samePlace commands place
      have here : BlockAccepted front₁ block₁ := accepted.elim id iff.mpr
      rw [yield₁ here, yield₂ (iff.mp here), List.singleton_inj, givenLast_samePlace first
        (fun line member => here.sound line (by simp [member])) commands]
      exact ⟨place.root, place.linux, place.initrd⟩
    · obtain ⟨here, there⟩ := not_or.mp accepted
      rw [none₁ here, none₂ there]

end

theorem close_separate (line : Str) (closes : grubCfgReader.closes line = true) :
    grubCfgReader.opens line = false ∧ grubCfgReader.fails line = false := by
  have close : grubCfgLineCommand line = .close := of_decide_eq_true closes
  refine ⟨?_, decide_eq_false (close ▸ GrubCfgCommand.noConfusion)⟩
  rw [Bool.eq_false_iff, ne_eq, opens_iff (close ▸ GrubCfgCommand.noConfusion)]
  rintro ⟨title, menuentry⟩
  exact GrubCfgCommand.noConfusion (close.symm.trans menuentry)

/-- What is taken out: a line that cannot be taken apart and that no block begins with,
behind blocks and other such lines. -/
theorem repairedFront_cases (rest : List Str) :
    (∀ block, grubCfgReader.IsBlock block → repairedFront (block ++ rest) = block ++ repairedFront rest) ∧
      ∀ line, (∀ block, grubCfgReader.IsBlock block → ¬ block <+: line :: rest) →
        repairedFront (line :: rest) =
          if grubCfgLineCommand line = .malformed then repairedFront rest else line :: repairedFront rest := by
  refine ⟨fun block is_block => grubCfgReader.repaired_block rest is_block close_separate, ?_⟩
  intro line outside
  have taken := grubCfgReader.repaired_outside rest outside close_separate
  have fails : grubCfgReader.fails line = true ↔ grubCfgLineCommand line = .malformed := decide_eq_true_iff
  simp only [fails] at taken
  exact taken

/-- A line that was taken out is malformed, and the reading ends there. -/
theorem repairedFront_lost {front block : List Str} (repaired : repairedFront front ≠ front) :
    ¬ BlockAccepted front block := by
  intro accepted
  refine repaired (grubCfgReader.repaired_sound false fun line member => ?_)
  exact decide_eq_false (accepted.sound line (List.mem_append_left _ member))

/-- Malformed lines take away the blocks behind them. -/
theorem malformed_kept_iff (s : Settings) {front block : List Str} (is_block : grubCfgReader.IsBlock block) :
    blockYield s front block = blockYield s (repairedFront front) block ↔
      (repairedFront front ≠ front → ¬ BlockAccepted (repairedFront front) block) := by
  obtain ⟨-, lost⟩ := @blockYield_accepted s front block is_block
  obtain ⟨yield, none⟩ := @blockYield_accepted s (repairedFront front) block is_block
  constructor
  · intro same repaired accepted
    rw [lost (repairedFront_lost repaired), yield accepted] at same
    cases same
  · intro rejected
    by_cases repaired : repairedFront front = front
    · rw [repaired]
    · rw [lost (repairedFront_lost repaired), none (rejected repaired)]

/-- Two malformed lines outside of the blocks: each alone takes the block away. -/
example :
    let entry := [bytes "menuentry a \x7b\n", bytes "set root=r\n", bytes "linux /k\n", bytes "\x7d\n"]
    let front := [bytes "set a='x\n", bytes "linux 'y\n"]
    repairedFront front = [] ∧ (blockYield initSettings front entry).length = 0 ∧
      (blockYield initSettings (repairedFront front) entry).length = 1 := by
  decide

/-! ### The file -/

/-- What was added stays in front. -/
theorem apply_targets (st : GrubCfgState) (c : GrubCfgCommand) :
    st.settings.targets <+: (endSettings (c.apply st)).targets := by
  cases c with
  | close =>
    simp only [GrubCfgCommand.apply, endSettings, GrubCfgState.closed]
    split
    · exact List.prefix_rfl
    · exact List.prefix_append _ _
  | default val =>
    simp only [GrubCfgCommand.apply, endSettings, GrubCfgState.setDefault]
    split <;> exact List.prefix_rfl
  | timeout val =>
    simp only [GrubCfgCommand.apply, endSettings]
    split <;> exact List.prefix_rfl
  | _ => exact List.prefix_rfl

theorem runCommands_targets (st : GrubCfgState) (commands : List GrubCfgCommand) :
    st.settings.targets <+: (endSettings (runCommands st commands)).targets := by
  induction commands generalizing st with
  | nil => exact List.prefix_rfl
  | cons c commands ih =>
    have here := apply_targets st c
    rw [runCommands_cons]
    cases after : c.apply st with
    | error s => rwa [after] at here
    | ok st' =>
      rw [after] at here
      exact here.trans (ih st')

theorem grubCfgTargets_append (s : Settings) (front rest : List Str) :
    grubCfgTargets s front <+: grubCfgTargets s (front ++ rest) := by
  rw [grubCfgTargets_commands, grubCfgTargets_commands, List.map_append, runCommands_append]
  cases runCommands (grubCfgStart s).core (front.map grubCfgLineCommand) with
  | error settings => exact List.prefix_rfl
  | ok st => exact runCommands_targets st _

theorem commands_of_text {block₁ block₂ : List Str}
    (text : block₁.map grubCfgText = block₂.map grubCfgText) :
    block₁.map grubCfgLineCommand = block₂.map grubCfgLineCommand := by
  have commands := congrArg (List.map grubCfgTextCommand) text
  rwa [List.map_map, List.map_map] at commands

/-- The targets of every front part of the file are there in the end; and the blocks do
not depend on what stands around them exactly when that makes no difference. -/
theorem positionFree_iff (s : Settings) (content : Str) :
    (∀ front rest, grubCfgLines content = front ++ rest →
      grubCfgTargets s front <+: (loadGrub2Cfg s (.ok content)).targets) ∧
    (PositionFree s (grubCfgLines content) ↔ OutsideInert (grubCfgLines content)) := by
  refine ⟨fun front rest split => ?_, ⟨fun free => ⟨?_, ?_⟩, fun inert => ⟨?_, ?_⟩⟩⟩
  · have whole : (loadGrub2Cfg s (.ok content)).targets = grubCfgTargets s (grubCfgLines content) := rfl
    rw [whole, split]
    exact grubCfgTargets_append s front rest
  · intro front₁ block₁ front₂ block₂ first second text
    exact (sameYield_iff s first.is_block second.is_block (commands_of_text text)).mp
      (free.same front₁ block₁ front₂ block₂ first second text)
  · intro front block behind
    exact (malformed_kept_iff s behind.is_block).mp (free.kept front block behind)
  · intro front₁ block₁ front₂ block₂ first second text
    exact (sameYield_iff s first.is_block second.is_block (commands_of_text text)).mpr
      (inert.same front₁ block₁ front₂ block₂ first second text)
  · intro front block behind
    exact (malformed_kept_iff s behind.is_block).mpr (inert.sound front block behind)

/-- An initrd outside of the blocks gets into the first one. -/
theorem initrd_leaks :
    let entry := [bytes "menuentry a \x7b\n", bytes "set root=r\n", bytes "linux /k\n", bytes "\x7d\n"]
    grubCfgLines (bytes "initrd /x\n" ++ entry.flatten ++ entry.flatten) =
        bytes "initrd /x\n" :: entry ++ entry ∧
      ¬ PositionFree initSettings (bytes "initrd /x\n" :: entry ++ entry) := by
  intro entry
  refine ⟨by decide, fun free => ?_⟩
  have is_block : grubCfgReader.IsBlock entry :=
    ⟨_, [bytes "set root=r\n", bytes "linux /k\n"], _, rfl, by decide, by decide, by decide, by decide⟩
  have same := free.same [bytes "initrd /x\n"] entry (bytes "initrd /x\n" :: entry) entry
    ⟨is_block, ⟨entry, rfl⟩⟩ ⟨is_block, ⟨[], by simp⟩⟩ rfl
  have initrds := congrArg (List.map fun t : KlTarget => t.initrd.str) same
  revert initrds
  decide

end KexecLoader
