import KexecLoader.ConfView
import KexecLoader.GrubCfg

/-!
# What the lines of grub.cfg do

The state of `load_grub2_cfg` is seen without the numbers of its lines and without
messages. A round of the loop does to two states that look the same the same.
-/
namespace KexecLoader

/-- The state without line numbers and messages; of the line an entry starts at it
only matters that there is one. -/
def GrubCfgState.core (st : GrubCfgState) : GrubCfgState :=
  { st with
    settings := st.settings.silent
    lnum := 0
    -- 0 is no line, which the loop tests
    entryStart := if st.entryStart = 0 then 0 else 1 }

def coreEnd : GrubCfgEnd → GrubCfgEnd
  | .error settings => .error settings.silent
  | .ok st => .ok st.core

theorem coreEnd_idem (r : GrubCfgEnd) : coreEnd (coreEnd r) = coreEnd r := by
  cases r with
  | error settings => rfl
  | ok st =>
    by_cases closed : st.entryStart = 0 <;>
      simp [coreEnd, GrubCfgState.core, Settings.silent, closed]

/-- One round without line numbers and messages. -/
def coreLine (r : GrubCfgEnd) (piece : Str) : GrubCfgEnd :=
  match r with
  | .error settings => coreEnd (.error settings)
  | .ok st => coreEnd (grubCfgLine st piece)

theorem coreLine_plain (r : GrubCfgEnd) (piece : Str) (_ : coreEnd r = r) :
    coreEnd (coreLine r piece) = coreLine r piece := by
  cases r with
  | error settings => exact coreEnd_idem (.error settings)
  | ok st => exact coreEnd_idem (grubCfgLine st piece)

def endSettings : GrubCfgEnd → Settings
  | .error settings => settings
  | .ok st => st.settings

/-- A state that looks the same as `st`. -/
def GrubCfgState.relabel (st : GrubCfgState) (shown : List Str) (lnum start : Nat) :
    GrubCfgState :=
  { st with settings := { st.settings with shown := shown }, lnum := lnum, entryStart := start }

theorem GrubCfgState.eq_relabel {a b : GrubCfgState} (same : a.core = b.core) :
    a = b.relabel a.settings.shown a.lnum a.entryStart ∧ (b.entryStart = 0 ↔ a.entryStart = 0) := by
  -- the fields that are compared are those that `relabel` leaves
  obtain ⟨⟨_, _, _, _, _, _, _⟩, _, start, _, _, _, _, _⟩ := a
  obtain ⟨⟨_, _, _, _, _, _, _⟩, _, start', _, _, _, _, _⟩ := b
  simp only [core, Settings.silent, mk.injEq, Settings.mk.injEq] at same
  refine ⟨by simp_all [relabel], ?_⟩
  by_cases first : start = 0 <;> by_cases second : start' = 0 <;> simp_all

section
variable (st : GrubCfgState) (shown : List Str) (lnum start : Nat)

theorem relabel_core (opened : st.entryStart = 0 ↔ start = 0) :
    (st.relabel shown lnum start).core = st.core := by
  by_cases closed : start = 0
  · simp [GrubCfgState.core, GrubCfgState.relabel, Settings.silent, closed, opened.mpr closed]
  · simp [GrubCfgState.core, GrubCfgState.relabel, Settings.silent, closed, opened]

theorem grub2Arg_blind (cur : Str) (body body' : Str → Str → GrubCfgEnd)
    (same : ∀ val next, coreEnd (body val next) = coreEnd (body' val next)) :
    coreEnd (grub2Arg (st.relabel shown lnum start) cur body) =
      coreEnd (grub2Arg st cur body') := by
  unfold grub2Arg
  cases grub2Val cur with
  | none => rfl
  | some parts => exact same parts.1 parts.2

theorem grubCfgMenuentry_blind (args : Str) (numbered : lnum ≠ 0 ∧ st.lnum ≠ 0) :
    coreEnd (grubCfgMenuentry (st.relabel shown lnum start) args) =
      coreEnd (grubCfgMenuentry st args) :=
  grub2Arg_blind st shown lnum start args _ _ fun _ _ => by
    simp [coreEnd, GrubCfgState.core, GrubCfgState.relabel, Settings.silent, numbered]
    rfl

theorem grubCfgClose_blind :
    (grubCfgClose (st.relabel shown lnum start)).core = (grubCfgClose st).core := by
  unfold grubCfgClose
  cases skipped : st.skipEntry with
  | true => simp [GrubCfgState.core, GrubCfgState.relabel, Settings.silent, skipped]
  | false =>
    by_cases no_root : st.target.root.str = [] <;> by_cases no_kernel : st.target.kernel.str = [] <;>
      simp [GrubCfgState.core, GrubCfgState.relabel, GrubCfgState.printD, Settings.silent,
        Settings.printD, skipped, no_root, no_kernel]

theorem grubCfgDefault_blind (envVal : Str) (opened : st.entryStart = 0 ↔ start = 0) :
    (grubCfgDefault (st.relabel shown lnum start) envVal).core =
      (grubCfgDefault st envVal).core := by
  unfold grubCfgDefault
  split_ifs
  · exact relabel_core { st with defaultIndex := atoi envVal, defaultTitle := none } shown lnum start
      opened
  · exact relabel_core { st with defaultIndex := -1, defaultTitle := none } shown lnum start opened
  · exact relabel_core { st with defaultIndex := -1, defaultTitle := some (strlcpy envVal) } shown
      lnum start opened

theorem grubCfgSet_blind (args : Str) (opened : st.entryStart = 0 ↔ start = 0) :
    coreEnd (grubCfgSet (st.relabel shown lnum start) args) = coreEnd (grubCfgSet st args) := by
  refine grub2Arg_blind st shown lnum start args _ _ fun envName rest => ?_
  refine grub2Arg_blind st shown lnum start rest _ _ fun envVal _ => ?_
  have timeout : (st.relabel shown lnum start).settings.timeout = st.settings.timeout := rfl
  simp only [coreEnd, timeout]
  split_ifs
  · exact congrArg Except.ok (relabel_core
      { st with target := { st.target with root := strlcpy envVal } } shown lnum start opened)
  · rw [grubCfgDefault_blind st shown lnum start envVal opened]
  · exact congrArg Except.ok (relabel_core
      { st with settings := { st.settings with timeout := atoi envVal } } shown lnum start opened)
  · rw [relabel_core st shown lnum start opened]

theorem grubCfgLinux_blind (args : Str) (opened : st.entryStart = 0 ↔ start = 0) :
    coreEnd (grubCfgLinux (st.relabel shown lnum start) args) = coreEnd (grubCfgLinux st args) :=
  grub2Arg_blind st shown lnum start args _ _ fun kernel kArgs => congrArg Except.ok (relabel_core
    { st with target := { st.target with kernel := strlcpy kernel, append := strlcpy kArgs } }
    shown lnum start opened)

theorem grubCfgInitrd_blind (args : Str) (opened : st.entryStart = 0 ↔ start = 0) :
    coreEnd (grubCfgInitrd (st.relabel shown lnum start) args) = coreEnd (grubCfgInitrd st args) :=
  grub2Arg_blind st shown lnum start args _ _ fun initrd _ => congrArg Except.ok (relabel_core
    { st with target := { st.target with initrd := strlcpy initrd } } shown lnum start opened)

theorem grubCfgSearchRoot_blind (search : SearchState) (args : Str)
    (opened : st.entryStart = 0 ↔ start = 0) :
    (grubCfgSearchRoot (st.relabel shown lnum start) search args).core =
      (grubCfgSearchRoot st search args).core := by
  have same := relabel_core st shown lnum start opened
  unfold grubCfgSearchRoot
  split
  · split
    · exact same
    · exact same
    · exact relabel_core { st with target := { st.target with root := strlcpy (bytes "LABEL=" ++ args) } }
        shown lnum start opened
    · exact relabel_core { st with target := { st.target with root := strlcpy (bytes "UUID=" ++ args) } }
        shown lnum start opened
  · exact same

theorem grubCfgCommand_blind (cmd args : Str) (opened : st.entryStart = 0 ↔ start = 0)
    (numbered : lnum ≠ 0 ∧ st.lnum ≠ 0) :
    coreEnd (grubCfgCommand (st.relabel shown lnum start) cmd args) =
      coreEnd (grubCfgCommand st cmd args) := by
  have same := relabel_core st shown lnum start opened
  -- every branch is chosen in both states or in neither
  have open_flag : ((st.relabel shown lnum start).entryStart != 0) = (st.entryStart != 0) := by
    exact Bool.eq_iff_iff.mpr (by simpa [GrubCfgState.relabel] using not_congr opened.symm)
  unfold grubCfgCommand
  rw [open_flag]
  split_ifs
  · exact grubCfgMenuentry_blind st shown lnum start args numbered
  · exact congrArg Except.ok (grubCfgClose_blind st shown lnum start)
  · exact congrArg Except.ok (relabel_core { st with skipEntry := true } shown lnum start opened)
  · exact grubCfgSet_blind st shown lnum start args opened
  · exact grubCfgLinux_blind st shown lnum start args opened
  · exact grubCfgInitrd_blind st shown lnum start args opened
  · exact congrArg Except.ok (grubCfgSearchRoot_blind st shown lnum start _ _ opened)
  · exact congrArg Except.ok same

end

/-- States that look the same still do after a line. -/
theorem grubCfgLine_core {a b : GrubCfgState} (same : a.core = b.core) (piece : Str) :
    coreEnd (grubCfgLine a piece) = coreEnd (grubCfgLine b piece) := by
  obtain ⟨relabelled, opened⟩ := GrubCfgState.eq_relabel same
  have next : ({ a with lnum := a.lnum + 1 } : GrubCfgState) =
      ({ b with lnum := b.lnum + 1 } : GrubCfgState).relabel a.settings.shown (a.lnum + 1)
        a.entryStart := by
    rw [relabelled]
    rfl
  simp only [grubCfgLine, next]
  split
  · exact congrArg Except.ok (relabel_core _ _ _ _ opened)
  · exact grubCfgCommand_blind _ _ _ _ _ _ opened ⟨by simp, by simp⟩

theorem GrubCfgState.core_core (st : GrubCfgState) : st.core.core = st.core :=
  Except.ok.inj (coreEnd_idem (.ok st))

/-- Nothing is read behind a line that could not be parsed. -/
theorem coreLine_ended (s : Settings) (lines : List Str) :
    lines.foldl coreLine (.error s.silent) = .error s.silent := by
  induction lines with
  | nil => rfl
  | cons piece lines ih => exact ih

theorem grubCfgLoop_silent (st : GrubCfgState) (lines : List Str) :
    (grubCfgLoop st lines).silent = endSettings (lines.foldl coreLine (.ok st.core)) := by
  induction lines generalizing st with
  | nil => rfl
  | cons piece lines ih =>
    have here := grubCfgLine_core st.core_core piece
    rw [List.foldl_cons, coreLine, here, grubCfgLoop]
    cases grubCfgLine st piece with
    | error s => exact (congrArg endSettings (coreLine_ended s lines)).symm
    | ok st' => exact ih st'

/-- What `load_grub2_cfg` leaves, seen without the messages. -/
theorem loadGrub2Cfg_silent (s : Settings) (content : Str) :
    (loadGrub2Cfg s (.ok content)).silent =
      endSettings (((pieces 1024 content).map cstr).foldl coreLine
        (.ok ⟨s.silent, 0, 0, false, none, -1, 0, initTarget⟩)) :=
  grubCfgLoop_silent _ _

end KexecLoader
