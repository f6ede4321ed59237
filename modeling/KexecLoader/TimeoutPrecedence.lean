import KexecLoader.GrubCfgCommands
import Mathlib.Data.List.DropRight

/-!
# Which timeout the menu starts with

One number stands for the seconds, for waiting forever and, as -1, for a timeout
that nobody has set. The last `timeout` line of kexec-loader.conf is to count, and
without one the first setting of the GRUB file; what goes wrong are the texts that
are read as -1, those that are no number, and numbers that no int holds.
-/
namespace KexecLoader

/-- The file that is found in the GRUB directory, with the byte that `load_menu`
finds in `tskip`. -/
inductive GrubFile where
  | menuLst (tskip : Bool) (content : Str)
  | grubCfg (content : Str)

def GrubFile.load (s : Settings) : GrubFile → Settings
  | menuLst tskip content => loadMenu tskip s (.ok content)
  | grubCfg content => loadGrub2Cfg s (.ok content)

/-- The settings when the menu starts; a device.map may be read in between. -/
def startSettings (fname conf : Str) (devmap : Option (Except Str Str)) (file : GrubFile) :
    Settings :=
  let s := loadConf fname initSettings (.ok conf)
  file.load (devmap.elim s (loadDevmap s))

/-- What the menu makes of the number: the seconds it waits; none is forever. -/
def inForce (timeout : Int) : Option Nat := if timeout < 0 then none else some timeout.toNat

/-! ### What the files say -/

/-- The argument of a `timeout` line of kexec-loader.conf or menu.lst. -/
def timeoutArg (line : Str) : Option Str :=
  if (lineWords line).1 = bytes "timeout" ∧ (lineWords line).2 ≠ [] then some (lineWords line).2
  else none

/-- The value of a line of grub.cfg that sets the timeout. -/
def setTimeoutArg (line : Str) : Option Str :=
  match grubCfgLineCommand line with
  | .timeout val => some val
  | _ => none

/-- The timeout lines of kexec-loader.conf. -/
def confTimeouts (conf : Str) : List Str := ((pieces 1024 conf).map cstr).filterMap timeoutArg

/-- All timeout settings of the file. -/
def GrubFile.timeouts : GrubFile → List Str
  | menuLst _ content => ((pieces 1024 content).map cstr).filterMap timeoutArg
  | grubCfg content => ((pieces 1024 content).map cstr).filterMap setTimeoutArg

/-- Those in front of the first line that cannot be taken apart. -/
def GrubFile.reached : GrubFile → List Str
  | menuLst _ content => ((pieces 1024 content).map cstr).filterMap timeoutArg
  | grubCfg content =>
    (((pieces 1024 content).map cstr).takeWhile (grubCfgLineCommand · ≠ .malformed)).filterMap
      setTimeoutArg

/-- The number a text begins with, of any size. -/
def leadingNumber (s : Str) : Int :=
  let magnitude : Int := numeral 10 ((readSign s).2.takeWhile (isDigitOf 10))
  if (readSign s).1 then -magnitude else magnitude

/-- A number is digits with or without a sign. -/
def isInteger (s : Str) : Bool :=
  let digits := if s.head? = some 45 ∨ s.head? = some 43 then s.drop 1 else s
  !digits.isEmpty && digits.all isdigit

/-- The timeout a valid argument states; blanks behind it are no part of it. -/
def stated (arg : Str) : Option (Option Nat) :=
  if arg.rdropWhile (· ∈ blanks) = bytes "off" then some none
  else if isInteger (arg.rdropWhile (· ∈ blanks)) then some (inForce (leadingNumber arg))
  else none

/-- The timeout that is due: that of the last valid line, or else the first setting
of the GRUB file, or else to wait forever. -/
def dueTimeout (conf grub : List Str) : Option Nat :=
  (latest stated conf).getD (grub.head?.bind fun arg => inForce (leadingNumber arg))

/-! ### The condition -/

/-- The first number of the GRUB file that is not -1. -/
def firstOther (grub : List Str) : Int :=
  ((grub.map atoi).find? (· ≠ -1)).getD (-1)

/-- The first setting of the GRUB file is the one that counts. -/
def FirstCounts (grub reached : List Str) : Prop :=
  ∀ arg ∈ grub.head?,
    if 0 ≤ leadingNumber arg then reached ≠ [] ∧ leadingNumber arg < 2 ^ 31
    else leadingNumber arg = -1 → firstOther reached < 0

/-- A valid last line is read as what it states, and the GRUB file does not undo it. -/
structure LastCounts (arg : Str) (reached : List Str) : Prop where
  off : arg.rdropWhile (· ∈ blanks) = bytes "off" → arg = bytes "off"
  small : leadingNumber arg < 2 ^ 31
  kept : leadingNumber arg = -1 → firstOther reached < 0

/-- The timeout lines are valid up to the last, or the number an invalid one begins
with is the timeout that is due. -/
def PrecedenceKept (conf grub reached : List Str) : Prop :=
  match conf.getLast? with
  | none => FirstCounts grub reached
  | some arg =>
    if (stated arg).isSome then LastCounts arg reached
    else inForce (if leadingNumber arg = -1 then firstOther reached else atoi arg) =
      dueTimeout conf grub

/-! ### Reading numbers -/

theorem atoi_eq (s : Str) : atoi s = max (-2 ^ 31) (min (leadingNumber s) (2 ^ 31 - 1)) := by
  unfold atoi leadingNumber
  cases (readSign s).1 with
  | true => simp only [if_true]; omega
  | false => simp only [Bool.false_eq_true, if_false]; omega

theorem atoi_unset (s : Str) : atoi s = -1 ↔ leadingNumber s = -1 := by
  rw [atoi_eq]
  omega

/-- An int holds every number that is too small, as far as the menu is concerned. -/
theorem inForce_atoi (s : Str) :
    inForce (atoi s) = inForce (leadingNumber s) ↔ leadingNumber s < 2 ^ 31 := by
  rw [atoi_eq]
  unfold inForce
  by_cases neg : leadingNumber s < 0
  · rw [if_pos neg, if_pos (by omega)]
    simp only [true_iff]
    omega
  · rw [if_neg neg, if_neg (by omega), Option.some_inj]
    omega

theorem inForce_eq_none (n : Int) : inForce n = none ↔ n < 0 := by simp [inForce]

/-! ### The loops -/

/-- The number a line of kexec-loader.conf sets. -/
def readTimeout (arg : Str) : Int := if klStreq arg (bytes "off") then -2 else atoi arg

/-- A number that is set once. -/
def setOnce (timeout : Int) (numbers : List Int) : Int :=
  if timeout = -1 then (numbers.find? (· ≠ -1)).getD (-1) else timeout

/-- A line sets the number if it is not set; a line without a setting does nothing. -/
theorem setOnce_line (timeout : Int) (setting : Str → Option Str) (line : Str) (lines : List Str) :
    setOnce timeout (((line :: lines).filterMap setting).map atoi) =
      setOnce (if timeout = -1 then ((setting line).map atoi).getD (-1) else timeout)
        ((lines.filterMap setting).map atoi) := by
  unfold setOnce
  by_cases unset : timeout = -1
  · cases given : setting line with
    | none => simp [given, unset]
    | some arg => by_cases again : atoi arg = -1 <;> simp [given, unset, again]
  · simp [unset]

theorem confCommand_timeout {word val : Str} {n : Int}
    (found : confCommand word val = some (.timeout n)) : word = bytes "timeout" ∧ val ≠ [] := by
  obtain ⟨w, text, asks⟩ := confCommand_word found
  cases w <;> simp only [ConfWord.command, valued_eq_some, reduceCtorEq, and_false,
    Option.some.injEq] at asks
  case timeout => exact ⟨text.symm, asks.1⟩
  all_goals split_ifs at asks
  all_goals simp [valued_eq_some] at asks

theorem lineCommand_timeout {line arg : Str} (given : timeoutArg line = some arg) :
    lineCommand line = some (.timeout (readTimeout arg)) := by
  unfold timeoutArg at given
  split at given
  next timeout =>
    cases given
    have found : ConfWord.all.find? (·.text = bytes "timeout") = some .timeout := rfl
    have no_comment : (bytes "timeout").head? ≠ some 35 := by decide
    simp only [lineCommand, timeout.1, if_neg no_comment, confCommand, found, Option.bind_some,
      ConfWord.command, valued, if_neg timeout.2]
    rfl
  next => cases given

theorem confView_timeout (v : ConfView) (line : Str) :
    (v.line line).settings.timeout =
      ((timeoutArg line).map readTimeout).getD v.settings.timeout := by
  cases given : timeoutArg line with
  | some arg =>
    rw [ConfView.line, lineCommand_timeout given]
    rfl
  | none =>
    unfold ConfView.line
    cases asks : lineCommand line with
    | none => rfl
    | some command =>
      cases command with
      | timeout n =>
        rw [timeoutArg, if_pos (confCommand_timeout (lineCommand_some asks).2)] at given
        cases given
      | kmod val =>
        simp only [Option.elim_some, ConfView.step]
        split <;> rfl
      | _ => rfl

/-- The last line counts. -/
theorem confView_timeouts (v : ConfView) (lines : List Str) :
    (lines.foldl ConfView.line v).settings.timeout =
      ((lines.filterMap timeoutArg).getLast?.map readTimeout).getD v.settings.timeout := by
  induction lines generalizing v with
  | nil => rfl
  | cons line lines ih =>
    rw [List.foldl_cons, ih, confView_timeout]
    cases given : timeoutArg line with
    | none => simp [given]
    | some arg =>
      cases later : (lines.filterMap timeoutArg).getLast? <;>
        simp [given, List.getLast?_cons, later]

theorem loadConf_timeout (fname conf : Str) :
    (loadConf fname initSettings (.ok conf)).timeout =
      ((confTimeouts conf).getLast?.map readTimeout).getD (-1) :=
  (congrArg Settings.timeout (loadConf_silent fname initSettings conf)).trans
    (confView_timeouts _ _)

/-- Only a timeout line changes the timeout. -/
theorem menuStep_timeout (v : MenuView) (command : MenuCommand)
    (other : ∀ n, command ≠ .timeout n) : (v.step command).settings.timeout = v.settings.timeout := by
  cases command with
  | timeout n => exact absurd rfl (other n)
  | _ => rfl

theorem menuWord_timeout {w : MenuWord} {val : Str} {n : Int}
    (asks : w.command val = some (.timeout n)) : w = .timeout ∧ val ≠ [] ∧ n = atoi val := by
  cases w with
  | timeout =>
    obtain ⟨nonempty, same⟩ := valued_eq_some.mp asks
    cases same
    exact ⟨rfl, nonempty, rfl⟩
  | root =>
    simp only [MenuWord.command] at asks
    split at asks <;> cases asks
  | _ => simp [MenuWord.command, valued_eq_some] at asks

theorem menuView_timeout (v : MenuView) (line : Str) :
    (v.line line).settings.timeout =
      if v.settings.timeout = -1 then ((timeoutArg line).map atoi).getD (-1)
      else v.settings.timeout := by
  cases given : timeoutArg line with
  | some arg =>
    unfold timeoutArg at given
    split at given
    next timeout =>
      cases given
      have found : MenuWord.all.find? (·.text = bytes "timeout") = some .timeout := rfl
      have no_comment : (bytes "timeout").head? ≠ some 35 := by decide
      simp only [MenuView.line, menuLineCommand, timeout.1, if_neg no_comment, menuCommand, found,
        Option.bind_some, MenuWord.command, valued, if_neg timeout.2, Option.elim_some,
        MenuView.step]
      split <;> rfl
    next => cases given
  | none =>
    have same : (v.line line).settings.timeout = v.settings.timeout := by
      unfold MenuView.line
      obtain ⟨w, word, command⟩ | ⟨-, command⟩ := menuLine_cases line
      · rw [command]
        cases asks : w.command (lineWords line).2 with
        | none => rfl
        | some c =>
          refine menuStep_timeout v c ?_
          rintro n rfl
          obtain ⟨rfl, nonempty, -⟩ := menuWord_timeout asks
          rw [timeoutArg, if_pos ⟨word, nonempty⟩] at given
          cases given
      · rw [command]
        rfl
    rw [same]
    split
    next unset => simpa using unset
    next => rfl

/-- The first setting counts. -/
theorem menuView_timeouts (v : MenuView) (lines : List Str) :
    (lines.foldl MenuView.line v).settings.timeout =
      setOnce v.settings.timeout ((lines.filterMap timeoutArg).map atoi) := by
  induction lines generalizing v with
  | nil => simp [setOnce]
  | cons line lines ih =>
    rw [List.foldl_cons, ih, menuView_timeout, setOnce_line]

theorem loadMenu_timeout (tskip : Bool) (s : Settings) (content : Str) :
    (loadMenu tskip s (.ok content)).timeout =
      setOnce s.timeout (((GrubFile.menuLst tskip content).reached).map atoi) :=
  (congrArg Settings.timeout (loadMenu_silent tskip s content)).trans (menuView_timeouts _ _)

/-- Only a timeout setting changes the timeout. -/
theorem apply_keeps_timeout {st st' : GrubCfgState} {c : GrubCfgCommand}
    (other : ∀ val, c ≠ .timeout val) (round : c.apply st = .ok st') :
    st'.settings.timeout = st.settings.timeout := by
  cases c with
  | malformed => cases round
  | timeout val => exact absurd rfl (other val)
  | close =>
    cases round
    unfold GrubCfgState.closed
    split <;> rfl
  | default val =>
    cases round
    unfold GrubCfgState.setDefault
    split <;> rfl
  | _ =>
    cases round
    rfl

theorem apply_timeout {st st' : GrubCfgState} {line : Str}
    (round : (grubCfgLineCommand line).apply st = .ok st') :
    st'.settings.timeout = if st.settings.timeout = -1 then
      ((setTimeoutArg line).map atoi).getD (-1) else st.settings.timeout := by
  unfold setTimeoutArg
  by_cases sets : ∃ val, grubCfgLineCommand line = .timeout val
  · obtain ⟨val, asks⟩ := sets
    rw [asks] at round ⊢
    cases round
    split <;> rfl
  · have other : ∀ val, grubCfgLineCommand line ≠ .timeout val := fun val asks => sets ⟨val, asks⟩
    rw [apply_keeps_timeout other round]
    split
    next unset =>
      split
      next val asks => exact absurd asks (other val)
      next => exact unset
    next => rfl

/-- The first setting in front of a malformed line counts. -/
theorem runCommands_timeout (st : GrubCfgState) (lines : List Str) :
    (endSettings (runCommands st (lines.map grubCfgLineCommand))).timeout =
      setOnce st.settings.timeout (((lines.takeWhile (grubCfgLineCommand · ≠ .malformed)).filterMap
        setTimeoutArg).map atoi) := by
  induction lines generalizing st with
  | nil => simp [setOnce, runCommands, endSettings, pure, Except.pure]
  | cons line lines ih =>
    rw [List.map_cons, runCommands_cons]
    by_cases malformed : grubCfgLineCommand line = .malformed
    · simp [malformed, GrubCfgCommand.apply, Except.bind, endSettings, setOnce]
    · obtain ⟨st', round⟩ : ∃ st', (grubCfgLineCommand line).apply st = .ok st' := by
        cases asks : grubCfgLineCommand line with
        | malformed => exact absurd asks malformed
        | _ => exact ⟨_, rfl⟩
      have passes : decide (grubCfgLineCommand line ≠ .malformed) = true := by simpa using malformed
      rw [round, Except.bind, ih, apply_timeout round, List.takeWhile_cons, if_pos passes, setOnce_line]

theorem loadGrub2Cfg_timeout (s : Settings) (content : Str) :
    (loadGrub2Cfg s (.ok content)).timeout =
      setOnce s.timeout (((GrubFile.grubCfg content).reached).map atoi) :=
  (congrArg Settings.timeout (loadGrub2Cfg_commands s content)).trans (runCommands_timeout _ _)

theorem devmapLine_timeout (s : Settings) (line : Nat) (piece : Str) :
    (devmapLine s line piece).timeout = s.timeout := by
  unfold devmapLine
  dsimp only
  split_ifs
  · rfl
  · rfl
  · cases parseGdev _ <;> rfl

theorem loadDevmap_timeout (s : Settings) (file : Except Str Str) :
    (loadDevmap s file).timeout = s.timeout := by
  have loop (s : Settings) (line : Nat) (lines : List Str) :
      (devmapLoop s line lines).timeout = s.timeout := by
    induction lines generalizing s line with
    | nil => rfl
    | cons piece lines ih => rw [devmapLoop, ih, devmapLine_timeout]
  cases file with
  | error reason => rfl
  | ok content => exact loop s 0 _

theorem startSettings_timeout (fname conf : Str) (devmap : Option (Except Str Str))
    (file : GrubFile) :
    (startSettings fname conf devmap file).timeout =
      setOnce (((confTimeouts conf).getLast?.map readTimeout).getD (-1)) (file.reached.map atoi) := by
  have before : (devmap.elim (loadConf fname initSettings (.ok conf))
      (loadDevmap (loadConf fname initSettings (.ok conf)))).timeout =
        ((confTimeouts conf).getLast?.map readTimeout).getD (-1) := by
    rw [← loadConf_timeout fname]
    cases devmap with
    | none => rfl
    | some map => exact loadDevmap_timeout _ map
  rw [← before]
  cases file with
  | menuLst tskip content => exact loadMenu_timeout tskip _ content
  | grubCfg content => exact loadGrub2Cfg_timeout _ content

theorem reached_front (file : GrubFile) : file.reached <+: file.timeouts := by
  cases file with
  | menuLst tskip content => exact List.prefix_refl _
  | grubCfg content => exact (List.takeWhile_prefix _).filterMap _

/-! ### The timeout that is due -/

theorem setOnce_unset (reached : List Str) : setOnce (-1) (reached.map atoi) = firstOther reached :=
  if_pos rfl

theorem setOnce_atoi (arg : Str) (reached : List Str) :
    setOnce (atoi arg) (reached.map atoi) =
      if leadingNumber arg = -1 then firstOther reached else atoi arg := by
  unfold setOnce
  simp only [atoi_unset]
  rfl

theorem readTimeout_number {arg : Str} (number : arg ≠ bytes "off") : readTimeout arg = atoi arg :=
  if_neg (by simpa [klStreq_iff] using number)

theorem firstOther_cons (arg : Str) (reached : List Str) :
    firstOther (arg :: reached) = if leadingNumber arg = -1 then firstOther reached else atoi arg := by
  unfold firstOther
  by_cases unset : atoi arg = -1
  · simp [unset, (atoi_unset arg).mp unset]
  · simp [unset, mt (atoi_unset arg).mpr unset]

/-- Without a timeout line in kexec-loader.conf. -/
theorem firstCounts_iff {grub reached : List Str} (front : reached <+: grub) :
    inForce (firstOther reached) = (grub.head?.bind fun arg => inForce (leadingNumber arg)) ↔
      FirstCounts grub reached := by
  unfold FirstCounts
  cases grub with
  | nil =>
    obtain rfl := List.prefix_nil.mp front
    simp [firstOther, inForce]
  | cons arg grub =>
    simp only [List.head?_cons, Option.bind_some, Option.mem_def, Option.some.injEq, forall_eq']
    cases reached with
    | nil =>
      -- nothing is set: that is right if the first setting is to wait forever
      have unset : inForce (firstOther []) = none := rfl
      rw [unset, eq_comm, inForce_eq_none]
      split
      · simp; omega
      · simp [firstOther]; omega
    | cons first reached =>
      obtain ⟨rfl, -⟩ := List.cons_prefix_cons.mp front
      rw [firstOther_cons]
      by_cases unset : leadingNumber first = -1
      · have forever : inForce (leadingNumber first) = none := by simp [unset, inForce]
        rw [if_pos unset, forever, inForce_eq_none, if_neg (by omega), forall_prop_of_true unset]
      · rw [if_neg unset, inForce_atoi]
        split
        · simp
        · simp [unset]; omega

theorem latest_last {α : Type} {f : Str → Option α} {conf : List Str} {arg : Str} {a : α}
    (last : conf.getLast? = some arg) (given : f arg = some a) : latest f conf = some a := by
  obtain ⟨front, rfl⟩ := List.getLast?_eq_some_iff.mp last
  rw [latest_append]
  simp [latest, given]

theorem leadingNumber_off {arg : Str} (off : arg.rdropWhile (· ∈ blanks) = bytes "off") :
    leadingNumber arg = 0 := by
  obtain ⟨rest, rfl⟩ := off ▸ List.rdropWhile_prefix (· ∈ blanks) arg
  rfl

/-- With a last line that is valid. -/
theorem lastCounts_iff {conf grub reached : List Str} {arg : Str} {t : Option Nat}
    (last : conf.getLast? = some arg) (valid : stated arg = some t) :
    inForce (setOnce (readTimeout arg) (reached.map atoi)) = dueTimeout conf grub ↔
      LastCounts arg reached := by
  have due : dueTimeout conf grub = t := by rw [dueTimeout, latest_last last valid, Option.getD_some]
  rw [due]
  unfold stated at valid
  split at valid
  next off =>
    cases valid
    have zero := leadingNumber_off off
    by_cases plain : arg = bytes "off"
    · -- -2 is not taken for a timeout that nobody has set
      subst plain
      refine ⟨fun _ => ⟨fun _ => rfl, by rw [zero]; decide, fun unset => ?_⟩, fun _ => rfl⟩
      rw [zero] at unset
      cases unset
    · -- with blanks behind it the word is read as the number 0
      have instant : atoi arg = 0 := by rw [atoi_eq, zero]; rfl
      rw [readTimeout_number plain, instant]
      refine ⟨fun wait => ?_, fun counts => absurd (counts.off off) plain⟩
      rw [setOnce, if_neg (by decide)] at wait
      cases wait
  next no_off =>
    split at valid
    next =>
      cases valid
      have number : arg ≠ bytes "off" := fun plain => no_off (by rw [plain]; decide)
      rw [readTimeout_number number, setOnce_atoi]
      by_cases unset : leadingNumber arg = -1
      · -- -1 is how the code marks a timeout that is not set
        have forever : inForce (leadingNumber arg) = none := by simp [unset, inForce]
        rw [if_pos unset, forever, inForce_eq_none]
        exact ⟨fun waits => ⟨fun off => absurd off no_off, by omega, fun _ => waits⟩,
          fun counts => counts.kept unset⟩
      · rw [if_neg unset, inForce_atoi]
        exact ⟨fun small => ⟨fun off => absurd off no_off, small, fun minus => absurd minus unset⟩,
          fun counts => counts.small⟩
    next => cases valid

theorem precedence_iff {conf grub reached : List Str} (front : reached <+: grub) :
    inForce (setOnce ((conf.getLast?.map readTimeout).getD (-1)) (reached.map atoi)) =
      dueTimeout conf grub ↔ PrecedenceKept conf grub reached := by
  unfold PrecedenceKept
  cases last : conf.getLast? with
  | none =>
    obtain rfl := List.getLast?_eq_none_iff.mp last
    rw [Option.map_none, Option.getD_none, setOnce_unset]
    exact firstCounts_iff front
  | some arg =>
    rw [Option.map_some, Option.getD_some]
    dsimp only
    cases valid : stated arg with
    | some t =>
      rw [Option.isSome_some, if_pos rfl]
      exact lastCounts_iff last valid
    | none =>
      have number : arg ≠ bytes "off" := by
        rintro rfl
        exact absurd valid (by decide)
      rw [readTimeout_number number, setOnce_atoi, Option.isSome_none, if_neg Bool.false_ne_true]

/-- The menu starts with the timeout that is due exactly if what the files say is
read as it is meant. -/
theorem timeout_iff (fname conf : Str) (devmap : Option (Except Str Str)) (file : GrubFile) :
    inForce (startSettings fname conf devmap file).timeout =
        dueTimeout (confTimeouts conf) file.timeouts ↔
      PrecedenceKept (confTimeouts conf) file.timeouts file.reached := by
  rw [startSettings_timeout, precedence_iff (reached_front file)]

/-- An explicit -1 in kexec-loader.conf is taken for a timeout that is not set, and
replaced by that of the GRUB file. -/
theorem explicit_timeout_replaced :
    let file := GrubFile.grubCfg (bytes "set timeout=5\n")
    inForce (startSettings (bytes "c") (bytes "timeout -1\n") none file).timeout = some 5 ∧
      dueTimeout (confTimeouts (bytes "timeout -1\n")) file.timeouts = none := by
  decide +kernel

end KexecLoader
