import KexecLoader.Library.Runs
import KexecLoader.MenuBlocks

/-!
# Rejected lines of menu.lst

A line whose argument is missing or whose device is unknown leaves the target as it
was, but for a `kernel` line: its command line is stored before its path is looked at.
-/
namespace KexecLoader

/-- The argument of a directive is missing, or its device cannot be resolved. -/
def MenuWord.Refuses (devmap : List KlGdev) (val : Str) : MenuWord → Prop
  | root => val = [] ∨ lookupGdev devmap val = none
  | kernel => val = [] ∨ ¬ PathResolves devmap (nextValue val).1
  | initrd => val = [] ∨ ¬ PathResolves devmap val
  | module => val = [] ∨ ¬ PathResolves devmap (nextValue val).1
  | _ => False

def RejectedLine (devmap : List KlGdev) (line : Str) : Prop :=
  ∃ w : MenuWord, (lineWords line).1 = w.text ∧ w.Refuses devmap (lineWords line).2

/-- A rejected line leaves the target under construction as it was. -/
def RejectionHarmless (st : MenuState) (line : Str) : Prop :=
  RejectedLine st.settings.grubDevmap line → (menuLine st line).target = st.target

/-- A `kernel` line with an unknown device and another command line than the target
has. -/
def ReplacesCmdline (st : MenuState) (line : Str) : Prop :=
  (lineWords line).1 = bytes "kernel" ∧ (lineWords line).2 ≠ [] ∧
    ¬ PathResolves st.settings.grubDevmap (nextValue (lineWords line).2).1 ∧
    st.target.cmdline ≠ strlcpy (nextValue (lineWords line).2).2

/-- The kernel path and the command line are those of one `kernel` line, or there was
none yet. -/
def SameKernelLine (devmap : List KlGdev) (block : List Str) (t : KlTarget) : Prop :=
  (t.kernel = default ∧ t.cmdline = default) ∨
    ∃ line ∈ block, (lineWords line).1 = bytes "kernel" ∧ (lineWords line).2 ≠ [] ∧
      grubConvPath devmap (nextValue (lineWords line).2).1 = some t.kernel ∧
      t.cmdline = strlcpy (nextValue (lineWords line).2).2

/-- The lines read so far end with a title line and these. -/
structure InBlock (lines block : List Str) : Prop where
  split : ∃ front title, lines = front ++ title :: block ∧ Titled title
  inside : ∀ line ∈ block, ¬ Titled line

/-- The state is that of the block it is in, and the targets that were added come from
blocks. -/
structure KernelsPaired (devmap : List KlGdev) (old : List KlTarget) (lines : List Str)
    (st : MenuState) : Prop where
  same_map : st.settings.grubDevmap = devmap
  current : st.topen ≠ 0 → ∃ block, InBlock lines block ∧ SameKernelLine devmap block st.target
  added : ∀ t ∈ st.settings.targets, t ∈ old ∨
    ∃ front back block, lines = front ++ back ∧ InBlock front block ∧ SameKernelLine devmap block t

theorem grubConvPath_eq_none {devmap : List KlGdev} {src : Str} :
    grubConvPath devmap src = none ↔ ¬ PathResolves devmap src := by
  unfold grubConvPath PathResolves
  split
  next device => simp [device]
  next plain => simp [plain]

/-! ### One line -/

section
variable (st : MenuState) (line : Str)

theorem menuLine_current (opened : st.topen ≠ 0) (inside : ¬ Titled line) :
    (menuLine st line).view.current = some (menuEdit st.settings.grubDevmap ⟨st.target, st.tskip⟩ line) := by
  have step := congrArg BlockState.current (MenuView.line_blocks st.view line)
  rw [BlockReader.step_inside _ _ line (decide_eq_false inside)] at step
  rw [menuLine_view]
  refine step.trans ?_
  simp [MenuView.blocks, MenuState.view, opened]
  rfl

/-- What is seen of the open entry is the target. -/
theorem MenuState.view_target {st : MenuState} {entry : MenuEntry} (seen : st.view.current = some entry) :
    st.topen ≠ 0 ∧ st.target = entry.target := by
  simp only [MenuState.view] at seen
  split at seen
  next => cases seen
  next opened =>
    cases seen
    exact ⟨opened, rfl⟩

theorem menuLine_target (opened : st.topen ≠ 0) (inside : ¬ Titled line) :
    (menuLine st line).target =
      (menuEdit st.settings.grubDevmap ⟨st.target, st.tskip⟩ line).target :=
  (MenuState.view_target (menuLine_current st line opened inside)).2

end

theorem not_titled_of_word {line : Str} {w : MenuWord} (word : (lineWords line).1 = w.text)
    (other : w ≠ .title) : ¬ Titled line := by
  rintro ⟨title, -⟩
  exact other (MenuWord.text_injective (word.symm.trans title))

theorem menuLineCommand_word {line : Str} {w : MenuWord} (word : (lineWords line).1 = w.text) :
    menuLineCommand line = w.command (lineWords line).2 := by
  obtain ⟨w', word', command⟩ | ⟨other, -⟩ := menuLine_cases line
  · obtain rfl := MenuWord.text_injective (word.symm.trans word')
    exact command
  · exact absurd word (other w)

section
variable (devmap : List KlGdev) (entry : MenuEntry) (line : Str)

/-- The command line is replaced by every `kernel` line with an argument, the kernel
only if its path resolves. -/
theorem menuEdit_kernel_line (word : (lineWords line).1 = bytes "kernel") (given : (lineWords line).2 ≠ []) :
    (menuEdit devmap entry line).target =
      setPath devmap (nextValue (lineWords line).2).1 (fun t p => { t with kernel := p })
        { entry.target with cmdline := strlcpy (nextValue (lineWords line).2).2 } := by
  have command := menuLineCommand_word (w := .kernel) word
  rw [menuEdit, command, MenuWord.command, valued, if_neg given]
  rfl

/-- No other line touches either. -/
theorem menuEdit_other_line (other : ¬ ((lineWords line).1 = bytes "kernel" ∧ (lineWords line).2 ≠ [])) :
    (menuEdit devmap entry line).target.kernel = entry.target.kernel ∧
      (menuEdit devmap entry line).target.cmdline = entry.target.cmdline := by
  obtain ⟨w, word, command⟩ | ⟨-, command⟩ := menuLine_cases line
  · rw [menuEdit, command]
    cases w with
    | kernel =>
      have empty : (lineWords line).2 = [] := by
        by_contra given
        exact other ⟨word, given⟩
      rw [MenuWord.command, valued, if_pos empty]
      exact ⟨rfl, rfl⟩
    | root =>
      simp only [MenuWord.command, Option.elim_some]
      split
      · exact ⟨rfl, rfl⟩
      · simp only [MenuEntry.apply]
        cases lookupGdev devmap (lineWords line).2 <;> exact ⟨rfl, rfl⟩
    | initrd =>
      simp only [MenuWord.command, valued]
      split
      · exact ⟨rfl, rfl⟩
      · simp only [Option.elim_some, MenuEntry.apply, setPath]
        cases grubConvPath devmap (lineWords line).2 <;> exact ⟨rfl, rfl⟩
    | module =>
      simp only [MenuWord.command, valued]
      split
      · exact ⟨rfl, rfl⟩
      · simp only [Option.elim_some, MenuEntry.apply, setPath]
        cases grubConvPath devmap (nextValue (lineWords line).2).1 <;> exact ⟨rfl, rfl⟩
    | chainloader => exact ⟨rfl, rfl⟩
    | _ =>
      simp only [MenuWord.command, valued]
      split <;> exact ⟨rfl, rfl⟩
  · rw [menuEdit, command]
    exact ⟨rfl, rfl⟩

variable {devmap line}

theorem setPath_unresolved {src : Str} (unknown : ¬ PathResolves devmap src)
    (set : KlTarget → Buf 1024 → KlTarget) (t : KlTarget) : setPath devmap src set t = t := by
  rw [setPath, grubConvPath_eq_none.mpr unknown]
  rfl

/-- A rejected line that is no `kernel` line with an argument leaves the target. -/
theorem menuEdit_rejected (rejected : RejectedLine devmap line)
    (other : ¬ ((lineWords line).1 = bytes "kernel" ∧ (lineWords line).2 ≠ [])) :
    (menuEdit devmap entry line).target = entry.target := by
  obtain ⟨w, word, refuses⟩ := rejected
  rw [menuEdit, menuLineCommand_word word]
  cases w with
  | root =>
    simp only [MenuWord.command, Option.elim_some]
    split
    · rfl
    next given => simp only [MenuEntry.apply, refuses.resolve_left given, Option.elim_none]
  | kernel =>
    have empty : (lineWords line).2 = [] := by
      by_contra given
      exact other ⟨word, given⟩
    rw [MenuWord.command, valued, if_pos empty]
    rfl
  | initrd =>
    simp only [MenuWord.command, valued]
    split
    · rfl
    next given =>
      simp only [Option.elim_some, MenuEntry.apply, setPath_unresolved (refuses.resolve_left given)]
  | module =>
    simp only [MenuWord.command, valued]
    split
    · rfl
    next given =>
      simp only [Option.elim_some, MenuEntry.apply, setPath_unresolved (refuses.resolve_left given)]
  | _ => cases refuses

end

/-- A rejected line replaces the command line, or nothing. -/
theorem rejectionHarmless_iff (st : MenuState) (line : Str) (opened : st.topen ≠ 0) :
    RejectionHarmless st line ↔ ¬ ReplacesCmdline st line := by
  constructor
  · rintro harmless ⟨word, given, unknown, differs⟩
    have inside := not_titled_of_word (w := .kernel) word (by simp)
    have kept := harmless ⟨.kernel, word, .inr unknown⟩
    rw [menuLine_target st line opened inside, menuEdit_kernel_line _ _ _ word given,
      setPath_unresolved unknown] at kept
    exact differs (congrArg KlTarget.cmdline kept).symm
  · intro same rejected
    have inside : ¬ Titled line := by
      obtain ⟨w, word, refuses⟩ := rejected
      exact not_titled_of_word word fun title => by rw [title] at refuses; exact refuses
    rw [menuLine_target st line opened inside]
    by_cases kernel : (lineWords line).1 = bytes "kernel" ∧ (lineWords line).2 ≠ []
    · obtain ⟨word, given⟩ := kernel
      obtain ⟨w, word', refuses⟩ := rejected
      obtain rfl : MenuWord.kernel = w := MenuWord.text_injective (word.symm.trans word')
      have unknown := refuses.resolve_left given
      rw [menuEdit_kernel_line _ _ _ word given, setPath_unresolved unknown]
      have cmdline : st.target.cmdline = strlcpy (nextValue (lineWords line).2).2 := by
        by_contra differs
        exact same ⟨word, given, unknown, differs⟩
      rw [← cmdline]
    · exact menuEdit_rejected _ rejected kernel

/-! ### Runs -/

theorem SameKernelLine.edit {devmap : List KlGdev} {block : List Str} {st : MenuState} {line : Str}
    (same_map : st.settings.grubDevmap = devmap) (paired : SameKernelLine devmap block st.target)
    (kept : ¬ ReplacesCmdline st line) :
    SameKernelLine devmap (block ++ [line]) (menuEdit devmap ⟨st.target, st.tskip⟩ line).target := by
  have before {t : KlTarget} (kernel : t.kernel = st.target.kernel)
      (cmdline : t.cmdline = st.target.cmdline) : SameKernelLine devmap (block ++ [line]) t := by
    rw [SameKernelLine, kernel, cmdline]
    refine paired.imp_right ?_
    rintro ⟨line', member, rest⟩
    exact ⟨line', List.mem_append_left _ member, rest⟩
  by_cases kernel : (lineWords line).1 = bytes "kernel" ∧ (lineWords line).2 ≠ []
  · obtain ⟨word, given⟩ := kernel
    rw [menuEdit_kernel_line _ _ _ word given]
    cases found : grubConvPath devmap (nextValue (lineWords line).2).1 with
    | none =>
      -- the path is refused, and the command line was this one before
      have unknown := grubConvPath_eq_none.mp found
      rw [setPath_unresolved unknown]
      refine before rfl ?_
      by_contra differs
      rw [← same_map] at unknown
      exact kept ⟨word, given, unknown, Ne.symm differs⟩
    | some path =>
      rw [setPath, found]
      exact .inr ⟨line, by simp, word, given, found, rfl⟩
  · obtain ⟨same_kernel, same_cmdline⟩ := menuEdit_other_line devmap ⟨st.target, st.tskip⟩ line kernel
    exact before same_kernel same_cmdline

theorem menuLine_blocks (st : MenuState) (line : Str) :
    (menuLine st line).view.blocks = (menuReader st.settings.grubDevmap).step st.view.blocks line := by
  rw [menuLine_view]
  exact MenuView.line_blocks st.view line

/-- The block goes on, or a title line opens the next one. -/
theorem KernelsPaired.current_step {devmap : List KlGdev} {old : List KlTarget} {lines : List Str}
    {st : MenuState} {line : Str} (paired : KernelsPaired devmap old lines st)
    (kept : ¬ ReplacesCmdline st line) (opened : (menuLine st line).topen ≠ 0) :
    ∃ block, InBlock (lines ++ [line]) block ∧
      SameKernelLine devmap block (menuLine st line).target := by
  have current := congrArg BlockState.current (menuLine_blocks st line)
  by_cases titled : Titled line
  · rw [BlockReader.step_opening _ _ line (decide_eq_true titled)] at current
    rw [(MenuState.view_target current).2]
    exact ⟨[], ⟨⟨lines, line, rfl, titled⟩, by simp⟩, .inl ⟨rfl, rfl⟩⟩
  · have was_opened : st.topen ≠ 0 := by
      intro closed
      rw [BlockReader.step_inside _ _ line (decide_eq_false titled)] at current
      simp [MenuView.blocks, MenuState.view, opened, closed] at current
    obtain ⟨block, ⟨⟨front, title, split, first⟩, inside⟩, same⟩ := paired.current was_opened
    refine ⟨block ++ [line], ⟨⟨front, title, by rw [split]; simp, first⟩, ?_⟩, ?_⟩
    · intro other member
      obtain member | last := List.mem_append.mp member
      · exact inside other member
      · exact List.mem_singleton.mp last ▸ titled
    · rw [menuLine_target st line was_opened titled, paired.same_map]
      exact same.edit paired.same_map kept

/-- What closing the open block adds was paired while it was open. -/
theorem KernelsPaired.finish {devmap : List KlGdev} {old : List KlTarget} {lines : List Str}
    {st : MenuState} (paired : KernelsPaired devmap old lines st) :
    ∀ t ∈ (menuReader st.settings.grubDevmap).finish st.view.blocks, t ∈ old ∨
      ∃ front back block, lines = front ++ back ∧ InBlock front block ∧ SameKernelLine devmap block t := by
  intro t member
  obtain before | closed := List.mem_append.mp member
  · exact paired.added t before
  · by_cases opened : st.topen = 0
    · simp [MenuView.blocks, MenuState.view, opened, BlockReader.closed] at closed
    · obtain ⟨block, own, same⟩ := paired.current opened
      have finished : t ∈ MenuEntry.finished ⟨st.target, st.tskip⟩ := by
        simp only [MenuView.blocks, MenuState.view, opened, if_false, BlockReader.closed] at closed
        exact closed
      have is_target : t = st.target := by
        unfold MenuEntry.finished KexecLoader.finished at finished
        split at finished
        next => cases finished
        next =>
          split at finished
          next => cases finished
          next => exact List.mem_singleton.mp finished
      exact .inr ⟨lines, [], block, by simp, own, is_target ▸ same⟩

theorem KernelsPaired.step {devmap : List KlGdev} {old : List KlTarget} {lines : List Str} {st : MenuState}
    {line : Str} (paired : KernelsPaired devmap old lines st) (kept : ¬ ReplacesCmdline st line) :
    KernelsPaired devmap old (lines ++ [line]) (menuLine st line) where
  same_map := by
    have view := congrArg (·.settings.grubDevmap) (menuLine_view st line)
    exact view.trans ((MenuView.line_devmap st.view line).trans paired.same_map)
  current := paired.current_step kept
  added := by
    intro t member
    have done : t ∈ (menuLine st line).view.blocks.done := member
    rw [menuLine_blocks] at done
    have earlier : t ∈ (menuReader st.settings.grubDevmap).finish st.view.blocks := by
      by_cases titled : Titled line
      · rwa [BlockReader.step_opening _ _ line (decide_eq_true titled)] at done
      · rw [BlockReader.step_inside _ _ line (decide_eq_false titled)] at done
        exact List.mem_append_left _ done
    refine (paired.finish t earlier).imp_right ?_
    rintro ⟨front, back, block, rfl, rest⟩
    exact ⟨front, back ++ [line], block, by simp, rest⟩

/-- Where `load_menu` starts. -/
def menuStart (tskip : Bool) (s : Settings) : MenuState := ⟨s, 0, 0, -1, 0, tskip, initTarget⟩

/-- A run of the loop of `load_menu` over lines of which none replaces the command line
alone. -/
def OrderlyRun (tskip : Bool) (s : Settings) (lines : List Str) (st : MenuState) : Prop :=
  Run (menuStart tskip s) (Restrict (fun st line st' => st' = menuLine st line)
    fun st line => ¬ ReplacesCmdline st line) lines st

theorem OrderlyRun.paired {tskip : Bool} {s : Settings} {lines : List Str} {st : MenuState}
    (run : OrderlyRun tskip s lines st) : KernelsPaired s.grubDevmap s.targets lines st := by
  refine @Run.invariant _ _ _ _ (KernelsPaired s.grubDevmap s.targets) ?_ ?_ _ _ run
  · exact ⟨rfl, fun opened => absurd rfl opened, fun t member => .inl member⟩
  · rintro lines st line st' paired ⟨rfl, kept⟩
    exact paired.step kept

theorem OrderlyRun.state {tskip : Bool} {s : Settings} {lines : List Str} {st : MenuState}
    (run : OrderlyRun tskip s lines st) : st = lines.foldl menuLine (menuStart tskip s) := by
  refine @Run.invariant _ _ _ _ (fun lines st => st = lines.foldl menuLine (menuStart tskip s))
    rfl ?_ _ _ run
  rintro lines st line st' rfl ⟨rfl, -⟩
  simp

/-- Inside a block a rejected line leaves the target as it was but for the `kernel`
lines that replace its command line, and without one of these the kernel and the
command line of every target come from one line of its block. -/
theorem rejection_iff (tskip : Bool) (s : Settings) :
    (∀ st line, st.topen ≠ 0 → (RejectionHarmless st line ↔ ¬ ReplacesCmdline st line)) ∧
      (∀ lines st, OrderlyRun tskip s lines st →
        KernelsPaired s.grubDevmap s.targets lines st) ∧
      ∀ content st, OrderlyRun tskip s ((pieces 1024 content).map cstr) st →
        ∀ t ∈ (loadMenu tskip s (.ok content)).targets, t ∈ s.targets ∨
          ∃ front back block, (pieces 1024 content).map cstr = front ++ back ∧
            InBlock front block ∧ SameKernelLine s.grubDevmap block t := by
  refine ⟨fun st line => rejectionHarmless_iff st line, fun lines st => OrderlyRun.paired, ?_⟩
  intro content st run t member
  have paired := run.paired
  rw [run.state] at paired
  have added : (loadMenu tskip s (.ok content)).targets =
      (menuReader s.grubDevmap).finish (((pieces 1024 content).map cstr).foldl menuLine
        (menuStart tskip s)).view.blocks := by
    rw [loadMenu_blocks, menuLines_view, MenuView.foldl_blocks]
    rfl
  rw [added, ← paired.same_map] at member
  exact paired.finish t member

/-- The state of `load_menu` behind the first three lines of a block. -/
def sampleBlock : MenuState :=
  [bytes "title Linux", bytes "root (fd0)", bytes "kernel /linux quiet"].foldl menuLine
    (menuStart false initSettings)

/-- A device that is not there, behind an accepted `kernel` line. -/
theorem rejected_kernel_replaces :
    ¬ ∀ st line, st.topen ≠ 0 → RejectionHarmless st line := by
  intro harmless
  let line := bytes "kernel (hd9)/other single"
  have unknown : ¬ PathResolves sampleBlock.settings.grubDevmap (nextValue (lineWords line).2).1 := by
    decide
  have kept := harmless sampleBlock line (by decide) ⟨.kernel, by decide, .inr unknown⟩
  have before : sampleBlock.target.cmdline.str = bytes "quiet" := by decide
  have after : (menuLine sampleBlock line).target.cmdline.str = bytes "single" := by decide
  rw [kept, before] at after
  exact absurd after (by decide)

end KexecLoader
