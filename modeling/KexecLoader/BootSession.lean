import KexecLoader.ConfFidelity
import KexecLoader.KexecInvocation
import KexecLoader.MenuSelection
import KexecLoader.Shell

/-!
# From the configuration file to kexec

A session reads kexec-loader.conf and then runs the menu, which boots targets until one of
them takes over, or opens shells, which boot targets of their own. It is simulated by a
cursor over the blocks of the file: what kexec is called with is the block under the cursor.
-/
namespace KexecLoader

/-! ### What the menu and its shells call -/

/-- A call of `boot_target`, or of something that changes only the VFS. -/
inductive SessionCall where
  | boot (host : BootHost) (target : KlTarget)
  | other (change : Vfs → Vfs)

/-- A line that is entered in a shell, with what the system answers to its command. -/
structure ShellLine where
  line : Str
  vfsExists : VfsExists
  host : BootHost
  /-- What a command other than `boot` makes of the VFS. -/
  change : Vfs → Vfs

/-- The commands of these lines, up to `exit`. -/
def shellCalls (sh : Shell) : List ShellLine → List SessionCall
  | [] => []
  | l :: lines =>
    match shellCommand l.vfsExists sh l.line with
    | (_, .exit) => []
    | (sh, .boot target) => .boot l.host target :: shellCalls sh lines
    | (sh, _) => .other l.change :: shellCalls sh lines

/-- `shell_main`, for the lines that are entered. -/
def shellMain (lines : List ShellLine) : List SessionCall :=
  .other (vfsSetRoot · none) :: shellCalls shellInit lines

/-- The menu, and what the calls have left behind. -/
structure MenuSession where
  menu : Menu
  vfs : Vfs
  events : List BootEvent

/-- An input of the menu, with what the system answers to `boot_target`, and the lines
entered in the shell, where the input comes to that. -/
structure SessionInput where
  input : MenuInput
  host : BootHost
  shell : List ShellLine

def MenuSession.call (s : MenuSession) : SessionCall → MenuSession
  | .boot host target =>
    let done := bootTarget host s.vfs target
    { s with vfs := done.state.vfs, events := s.events ++ done.events }
  | .other change => { s with vfs := change s.vfs }

section
variable (rows : Nat) (targets : List KlTarget)

/-- One step of `menu_main`, with what it calls. -/
def sessionStep (s : MenuSession) (e : SessionInput) : Option MenuSession :=
  (menuStep rows targets s.menu e.input).bind fun (menu, action) =>
    let s := { s with menu := menu }
    match action with
    | some (.boot node) => targets[node]?.map fun target => s.call (.boot e.host target)
    | some .shell => some ((shellMain e.shell).foldl MenuSession.call s)
    | some .listDisks => some s
    | none => some s

def SessionStep (s : MenuSession) (e : SessionInput) (s' : MenuSession) : Prop :=
  e.input.Enabled s.menu ∧ sessionStep rows targets s e = some s'

end

/-! ### The cursor -/

/-- The key C opens a shell. -/
def MenuInput.OpensShell : MenuInput → Prop
  | .key c => c = 67 ∨ c = 99
  | _ => False

instance (input : MenuInput) : Decidable input.Boots :=
  match input with
  | .poll _ => isFalse id
  | .expired => isTrue trivial
  | .key c => inferInstanceAs (Decidable (c = 10))

instance (input : MenuInput) : Decidable input.OpensShell :=
  match input with
  | .poll _ => isFalse id
  | .expired => isFalse id
  | .key c => inferInstanceAs (Decidable (c = 67 ∨ c = 99))

section
variable (targets : List KlTarget)

def cursorStep (entry : Nat) (e : SessionInput) : Nat := e.input.movedTo targets entry

/-- Where the cursor is after these inputs. -/
def cursorAt (entry : Nat) (trace : List SessionInput) : Nat := trace.foldl (cursorStep targets) entry

/-- What an input calls, when the cursor is on this entry. -/
def SessionInput.calls (entry : Nat) (e : SessionInput) : List SessionCall :=
  if e.input.Boots then targets[entry]?.toList.map (.boot e.host ·)
  else if e.input.OpensShell then shellMain e.shell
  else []

/-- What the inputs call, one after the other. -/
def callsAlong (entry : Nat) : List SessionInput → List SessionCall
  | [] => []
  | e :: trace => e.calls targets entry ++ callsAlong (cursorStep targets entry e) trace

theorem callsAlong_concat (entry : Nat) (trace : List SessionInput) (e : SessionInput) :
    callsAlong targets entry (trace ++ [e]) =
      callsAlong targets entry trace ++ e.calls targets (cursorAt targets entry trace) := by
  induction trace generalizing entry with
  | nil => exact List.append_nil _
  | cons d trace ih => simp only [List.cons_append, callsAlong, ih, List.append_assoc, cursorAt, List.foldl_cons]

theorem cursorAt_concat (entry : Nat) (trace : List SessionInput) (e : SessionInput) :
    cursorAt targets entry (trace ++ [e]) = cursorStep targets (cursorAt targets entry trace) e := by
  rw [cursorAt, List.foldl_append]
  rfl

end

/-- The events of these calls, from this VFS on, and the VFS behind them: each call of
`boot_target` is an attempt in the VFS that the calls before it have left. -/
inductive Accounts (vfs : Vfs) : List SessionCall → List BootEvent → Vfs → Prop
  | start : Accounts vfs [] [] vfs
  | boot {calls : List SessionCall} {events made : List BootEvent} {now : Vfs} {host : BootHost}
      {target : KlTarget} : Accounts vfs calls events now → Attempt host now target made →
      Accounts vfs (calls ++ [.boot host target]) (events ++ made) (bootTarget host now target).state.vfs
  | other {calls : List SessionCall} {events : List BootEvent} {now : Vfs} {change : Vfs → Vfs} :
      Accounts vfs calls events now → Accounts vfs (calls ++ [.other change]) events (change now)

/-- What has been called since a session was this one accounts for its VFS and its events. -/
def MenuSession.Since (init : MenuSession) (calls : List SessionCall) (s : MenuSession) : Prop :=
  ∃ events, s.events = init.events ++ events ∧ Accounts init.vfs calls events s.vfs

section
variable {init s : MenuSession} {called : List SessionCall}

theorem MenuSession.Since.call (since : init.Since called s) (c : SessionCall) :
    init.Since (called ++ [c]) (s.call c) := by
  obtain ⟨events, same, accounts⟩ := since
  cases c with
  | boot host target =>
    refine ⟨events ++ (bootTarget host s.vfs target).events, ?_, accounts.boot (bootTarget_attempt host s.vfs target)⟩
    rw [← List.append_assoc, ← same]
    rfl
  | other change => exact ⟨events, same, accounts.other⟩

theorem MenuSession.Since.calls (since : init.Since called s) (more : List SessionCall) :
    init.Since (called ++ more) (more.foldl MenuSession.call s) := by
  induction more generalizing called s with
  | nil => rwa [List.append_nil]
  | cons c more ih =>
    have rest := ih (since.call c)
    rwa [List.append_assoc] at rest

theorem MenuSession.calls_menu (calls : List SessionCall) (s : MenuSession) :
    (calls.foldl MenuSession.call s).menu = s.menu := by
  induction calls generalizing s with
  | nil => rfl
  | cons c calls ih =>
    have same : (s.call c).menu = s.menu := by cases c <;> rfl
    exact (ih (s.call c)).trans same

end

/-! ### The session follows the cursor -/

section
variable {rows : Nat} {targets : List KlTarget}

/-- A shell is opened by its key, and by nothing else. -/
theorem menuStep_shell {m m' : Menu} {input : MenuInput} {action : Option MenuAction}
    (step : menuStep rows targets m input = some (m', action)) : action = some .shell ↔ input.OpensShell := by
  -- what booting leaves is never a shell
  have no_shell : ∀ {m m' : Menu} {action : Option MenuAction}, menuBoot rows targets m = some (m', action) →
      action ≠ some .shell := by
    intro m m' action booted
    obtain ⟨node, -, same⟩ := Option.map_eq_some_iff.mp booted
    obtain rfl : some (MenuAction.boot node) = action := congrArg Prod.snd same
    simp
  cases input with
  | poll pressed =>
    obtain rfl := congrArg Prod.snd (Option.some.inj step)
    simp [MenuInput.OpensShell]
  | expired =>
    obtain ⟨⟨m₁, action₁⟩, booted, same⟩ := Option.map_eq_some_iff.mp step
    obtain rfl : action₁ = action := congrArg Prod.snd same
    simp [MenuInput.OpensShell, no_shell booted]
  | key c =>
    -- both cases of the letter count, once the key has moved the cursor
    obtain ⟨m₁, -, step⟩ := Option.bind_eq_some_iff.mp step
    have letter : toupperInt c = 67 ↔ c = 67 ∨ c = 99 := by
      unfold toupperInt
      split <;> omega
    rw [MenuInput.OpensShell, ← letter]
    split_ifs at step with enter special disks shell
    · simp only [no_shell step, enter, false_iff]
      decide
    all_goals obtain rfl := congrArg Prod.snd (Option.some.inj step)
    · simp only [reduceCtorEq, false_iff, letter]
      omega
    · simp [disks]
    · simp [shell]
    · simp [shell]

/-- The selection of the menu is where the cursor is, and what has been called is what the
inputs call. -/
structure SessionInv (rows : Nat) (targets : List KlTarget) (init : MenuSession) (start : Nat)
    (trace : List SessionInput) (s : MenuSession) (first : Nat) : Prop where
  inv : MenuInv rows targets s.menu first (cursorAt targets start trace)
  drawn : s.menu.Drawn rows targets
  since : init.Since (callsAlong targets start trace) s

theorem SessionInv.start {init : MenuSession} {start first : Nat} (inv : MenuInv rows targets init.menu first start)
    (drawn : init.menu.Drawn rows targets) : SessionInv rows targets init start [] init first :=
  ⟨inv, drawn, [], (List.append_nil _).symm, .start⟩

theorem sessionStep_inv {init : MenuSession} {start : Nat} {trace : List SessionInput} {s : MenuSession}
    {first : Nat} (session : SessionInv rows targets init start trace s first) (tall : 10 ≤ rows)
    (e : SessionInput) :
    ∃ s' first', sessionStep rows targets s e = some s' ∧
      SessionInv rows targets init start (trace ++ [e]) s' first' := by
  obtain ⟨inv, drawn, since⟩ := session
  obtain ⟨menu, first', action, stepped, inv', drawn', boots⟩ := menuStep_inv inv drawn tall e.input
  have opens := menuStep_shell stepped
  have moved : MenuInv rows targets menu first' (cursorAt targets start (trace ++ [e])) := by
    rw [cursorAt_concat]
    exact inv'
  have idle : (∀ node, action ≠ some (.boot node)) → ¬ e.input.Boots := fun other booting =>
    other _ ((boots (cursorAt targets start trace)).mpr ⟨booting, rfl⟩)
  -- without an action nothing is called
  have quiet : (∀ node, action ≠ some (.boot node)) → action ≠ some .shell →
      init.Since (callsAlong targets start (trace ++ [e])) { s with menu := menu } := by
    intro no_boot no_shell
    rw [callsAlong_concat, SessionInput.calls, if_neg (idle no_boot), if_neg (mt opens.mpr no_shell), List.append_nil]
    exact since
  unfold sessionStep
  rw [stepped, Option.bind_some]
  dsimp only
  rcases action with _ | node | _ | _
  · exact ⟨_, first', rfl, moved, drawn', quiet (by simp) (by simp)⟩
  · obtain ⟨booting, rfl⟩ := (boots node).mp rfl
    obtain ⟨target, inside⟩ : ∃ target, targets[cursorAt targets start trace]? = some target :=
      ⟨_, List.getElem?_eq_getElem inv.placed.inside⟩
    simp only [inside, Option.map_some]
    refine ⟨_, first', rfl, moved, drawn', ?_⟩
    rw [callsAlong_concat, SessionInput.calls, if_pos booting, inside]
    exact MenuSession.Since.call (s := { s with menu := menu }) since (.boot e.host target)
  · exact ⟨_, first', rfl, moved, drawn', quiet (by simp) (by simp)⟩
  · have same := MenuSession.calls_menu (shellMain e.shell) { s with menu := menu }
    refine ⟨_, first', rfl, same.symm ▸ moved, same.symm ▸ drawn', ?_⟩
    rw [callsAlong_concat, SessionInput.calls, if_neg (idle (by simp)), if_pos (opens.mp rfl)]
    exact MenuSession.Since.calls (s := { s with menu := menu }) since (shellMain e.shell)

theorem session_run_inv {init : MenuSession} {start first : Nat} (inv : MenuInv rows targets init.menu first start)
    (drawn : init.menu.Drawn rows targets) (tall : 10 ≤ rows) {trace : List SessionInput} {s : MenuSession}
    (run : Run init (SessionStep rows targets) trace s) :
    ∃ first, SessionInv rows targets init start trace s first := by
  refine @Run.invariant _ _ init _ (fun trace s => ∃ first, SessionInv rows targets init start trace s first)
    ⟨first, .start inv drawn⟩ ?_ _ _ run
  rintro trace s e s' ⟨first, session⟩ ⟨-, step⟩
  obtain ⟨s'', first', stepped, session'⟩ := sessionStep_inv session tall e
  obtain rfl : s'' = s' := Option.some.inj (stepped.symm.trans step)
  exact ⟨first', session'⟩

end

/-- A block with the two fields it needs. -/
def diskBlock : Block :=
  ⟨⟨strlcpy (bytes "Linux"), by decide, by decide, by decide, by decide⟩,
    [.field .root ⟨strlcpy (bytes "sda1"), by decide, by decide, by decide, by decide⟩,
      .field .kernel ⟨strlcpy (bytes "/vmlinuz"), by decide, by decide, by decide, by decide⟩]⟩

/-- Its lines, the last of which has no end. -/
def diskFile : ConfFile :=
  ⟨[(⟨_, _, .directive _ [] _ [space] _ (by decide) (by decide) (by simp) (.title diskBlock.title),
        by decide⟩, .lf),
      (⟨_, _, .directive _ [space] _ [space] _ (by decide) (by decide) (by simp)
        (.field .root ⟨strlcpy (bytes "sda1"), by decide, by decide, by decide, by decide⟩), by decide⟩, .crlf)],
    some ⟨_, _, .directive _ [tab] _ [space] _ (by decide) (by decide) (by simp)
      (.field .kernel ⟨strlcpy (bytes "/vmlinuz"), by decide, by decide, by decide, by decide⟩), by decide⟩⟩

end KexecLoader
