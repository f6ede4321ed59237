import KexecLoader.Library.Runs

/-!
# The processes around boot_target

`redirect_klog` leaves a child behind that copies kernel messages and may exit
at any time. `boot_target` forks a kexec child and calls `wait`, which collects
any child of the parent that has exited.
-/
namespace KexecLoader.Boot

/-- What `wait` stores in `status`. -/
inductive Status where
  | exited (code : Nat)
  | signaled (signal : Nat)
deriving DecidableEq

inductive Job where
  | klog
  /-- The kexec child of the n-th call that got as far as forking. -/
  | kexec (attempt : Nat)
deriving DecidableEq

/-- A child that runs, or has exited and is not collected yet. -/
structure Child where
  job : Job
  status : Option Status
deriving DecidableEq

/-- Where the parent stands. -/
inductive Pc where
  /-- Before `redirect_klog` forks. -/
  | start
  /-- Outside `boot_target`. -/
  | idle
  /-- In `wait`. -/
  | waiting (attempt : Nat)
  /-- After `wait`, with the status it stored. -/
  | returned (attempt : Nat) (status : Status)
deriving DecidableEq

structure State where
  pc : Pc
  attempts : Nat
  children : List Child

def init : State := ⟨.start, 0, []⟩

inductive Event where
  | klogForked
  | klogSkipped
  | bootAbandoned
  | kexecForked (attempt : Nat)
  | childExited (job : Job) (status : Status)
  | collected (job : Job) (status : Status)
  /-- `call_reboot(LINUX_REBOOT_CMD_KEXEC)`. -/
  | reboot (attempt : Nat)
  | cleanup (attempt : Nat)
deriving DecidableEq

inductive Step : State → Event → State → Prop where
  | klogForked {s : State} : s.pc = .start →
      Step s .klogForked { s with pc := .idle, children := ⟨.klog, none⟩ :: s.children }
  /-- The log terminal or /proc/kmsg cannot be opened, or `fork` fails. -/
  | klogSkipped {s : State} : s.pc = .start → Step s .klogSkipped { s with pc := .idle }
  /-- A path does not translate, there are too many arguments, or `fork` fails. -/
  | bootAbandoned {s : State} : s.pc = .idle → Step s .bootAbandoned s
  | kexecForked {s : State} : s.pc = .idle →
      Step s (.kexecForked s.attempts)
        { pc := .waiting s.attempts, attempts := s.attempts + 1
          children := ⟨.kexec s.attempts, none⟩ :: s.children }
  /-- The log copier ends with `exit(0)`; kexec may end in any way. -/
  | childExited {s : State} {before after : List Child} {job : Job} {status : Status} :
      s.children = before ++ ⟨job, none⟩ :: after → (job = .klog → status = .exited 0) →
      Step s (.childExited job status)
        { s with children := before ++ ⟨job, some status⟩ :: after }
  /-- `wait(&status)` collects whichever child has exited. -/
  | collected {s : State} {before after : List Child} {attempt : Nat} {job : Job}
      {status : Status} :
      s.pc = .waiting attempt → s.children = before ++ ⟨job, some status⟩ :: after →
      Step s (.collected job status)
        { s with pc := .returned attempt status, children := before ++ after }
  /-- `WIFEXITED(status) && WEXITSTATUS(status) == 0`; the call returns when the
  reboot fails. -/
  | reboot {s : State} {attempt : Nat} : s.pc = .returned attempt (.exited 0) →
      Step s (.reboot attempt) { s with pc := .idle }
  | cleanup {s : State} {attempt : Nat} {status : Status} :
      s.pc = .returned attempt status → status ≠ .exited 0 →
      Step s (.cleanup attempt) { s with pc := .idle }

/-- A reboot needs its own kexec child to have exited with status 0. -/
def Needs : Event → List Event → Prop
  | .reboot attempt, before => .childExited (.kexec attempt) (.exited 0) ∈ before
  | _, _ => True

/-- No child other than the one just forked is there to be collected with status
0, unless that one has exited with status 0 itself. -/
def NoStranger (s : State) : Prop :=
  ∀ attempt, s.pc = .waiting attempt →
    ∀ child ∈ s.children, child.status = some (.exited 0) → child.job ≠ .kexec attempt →
      ⟨.kexec attempt, some (.exited 0)⟩ ∈ s.children

/-- The condition on a step: there is no stranger when a child is collected. -/
def Undisturbed (s : State) : Event → Prop
  | .collected _ _ => NoStranger s
  | _ => True

/-- The statuses of kexec children are those of the trace, and a status 0 that
`wait` returned is that of the child forked last. -/
structure Inv (trace : List Event) (s : State) : Prop where
  ordered : Ordered Needs trace
  exited : ∀ attempt status, ⟨.kexec attempt, some status⟩ ∈ s.children →
    .childExited (.kexec attempt) status ∈ trace
  returned : ∀ attempt, s.pc = .returned attempt (.exited 0) →
    .childExited (.kexec attempt) (.exited 0) ∈ trace

theorem inv_init : Inv [] init :=
  ⟨ordered_nil _, by simp [init], by simp [init]⟩

/-- A step that is no reboot, keeps the exit statuses the trace knows of and does
not come back from `wait` keeps the invariant. -/
theorem Inv.extend {trace : List Event} {s s' : State} {e : Event} (inv : Inv trace s)
    (quiet : Needs e trace)
    (exited : ∀ attempt status, ⟨.kexec attempt, some status⟩ ∈ s'.children →
      ⟨.kexec attempt, some status⟩ ∈ s.children ∨ e = .childExited (.kexec attempt) status)
    (returned : ∀ attempt, s'.pc = .returned attempt (.exited 0) →
      s.pc = .returned attempt (.exited 0) ∨
        ⟨.kexec attempt, some (.exited 0)⟩ ∈ s.children) :
    Inv (trace ++ [e]) s' := by
  constructor
  · exact (ordered_snoc _ _ _).mpr ⟨inv.ordered, quiet⟩
  · intro attempt status member
    rcases exited attempt status member with old | new
    · exact List.mem_append_left _ (inv.exited attempt status old)
    · exact List.mem_append_right _ (by simp [new])
  · intro attempt back
    rcases returned attempt back with old | collected
    · exact List.mem_append_left _ (inv.returned attempt old)
    · exact List.mem_append_left _ (inv.exited attempt _ collected)

theorem inv_step (trace : List Event) (s : State) (e : Event) (s' : State) (inv : Inv trace s)
    (step : Restrict Step Undisturbed s e s') : Inv (trace ++ [e]) s' := by
  obtain ⟨step, undisturbed⟩ := step
  cases step with
  | klogForked before =>
    exact inv.extend trivial (fun _ _ h => Or.inl (by simpa using h)) (fun _ h => by cases h)
  | klogSkipped before =>
    exact inv.extend trivial (fun _ _ h => Or.inl h) (fun _ h => by cases h)
  | bootAbandoned idle =>
    exact inv.extend trivial (fun _ _ h => Or.inl h) (fun _ h => Or.inl h)
  | kexecForked idle =>
    exact inv.extend trivial (fun _ _ h => Or.inl (by simpa using h)) (fun _ h => by cases h)
  | @childExited before after job status split log =>
    -- the trace learns of the exit in the same step as the list of children
    refine inv.extend trivial (fun attempt st member => ?_) (fun _ h => Or.inl h)
    rcases List.mem_append.mp member with old | rest
    · exact Or.inl (by simp [split, old])
    · rcases List.mem_cons.mp rest with new | old
      · cases new
        exact Or.inr rfl
      · exact Or.inl (by simp [split, old])
  | @collected before after attempt job status waiting split =>
    refine inv.extend trivial (fun n st member => Or.inl ?_) (fun n back => Or.inr ?_)
    · rcases List.mem_append.mp member with old | old <;> simp [split, old]
    · cases back
      by_cases own : job = .kexec attempt
      · simp [split, own]
      · -- a stranger was collected, which the condition allows only if kexec is done too
        exact undisturbed attempt waiting ⟨job, some (.exited 0)⟩ (by simp [split]) rfl own
  | reboot back =>
    -- the only step the order law says something about
    exact inv.extend (inv.returned _ back) (fun _ _ h => Or.inl h) (fun _ h => by cases h)
  | cleanup back failed =>
    exact inv.extend trivial (fun _ _ h => Or.inl h) (fun _ h => by cases h)

/-- In every run in which nothing else with status 0 is there to be collected
when `wait` returns, a reboot comes after the successful exit of its own kexec
child. -/
theorem reboot_after_load (trace : List Event) (s : State)
    (run : Run init (Restrict Step Undisturbed) trace s) : Ordered Needs trace :=
  (Run.invariant inv_init inv_step run).ordered

/-- A boot that waits while the log copier still runs. -/
theorem reboot_after_load_quiet :
    Ordered Needs [.klogForked, .kexecForked 0, .childExited (.kexec 0) (.exited 0),
      .collected (.kexec 0) (.exited 0), .reboot 0] := by
  let forked : State := ⟨.waiting 0, 1, [⟨.kexec 0, none⟩, ⟨.klog, none⟩]⟩
  let loaded : State := ⟨.waiting 0, 1, [⟨.kexec 0, some (.exited 0)⟩, ⟨.klog, none⟩]⟩
  have fork : Run init (Restrict Step Undisturbed) [.klogForked, .kexecForked 0] forked :=
    (Run.start.next ⟨.klogForked rfl, trivial⟩).next ⟨.kexecForked rfl, trivial⟩
  have exit : Step forked (.childExited (.kexec 0) (.exited 0)) loaded :=
    @Step.childExited forked [] [⟨.klog, none⟩] _ _ rfl (by simp)
  have collect : Step loaded (.collected (.kexec 0) (.exited 0))
      ⟨.returned 0 (.exited 0), 1, [⟨.klog, none⟩]⟩ :=
    @Step.collected loaded [] [⟨.klog, none⟩] 0 _ _ rfl rfl
  have undisturbed : NoStranger loaded := by
    intro attempt waiting child member
    cases waiting
    simp only [loaded, List.mem_cons, List.not_mem_nil, or_false] at member
    rcases member with rfl | rfl <;> simp
  exact reboot_after_load _ _
    (((fork.next ⟨exit, trivial⟩).next ⟨collect, undisturbed⟩).next ⟨.reboot rfl, trivial⟩)

/-- The log copier exits while `wait` blocks: the loader reboots although kexec
still runs. -/
theorem reboot_before_load :
    ∃ s, Run init Step [.klogForked, .kexecForked 0, .childExited .klog (.exited 0),
      .collected .klog (.exited 0), .reboot 0] s ∧
      ¬Ordered Needs [.klogForked, .kexecForked 0, .childExited .klog (.exited 0),
        .collected .klog (.exited 0), .reboot 0] := by
  let forked : State := ⟨.waiting 0, 1, [⟨.kexec 0, none⟩, ⟨.klog, none⟩]⟩
  let ended : State := ⟨.waiting 0, 1, [⟨.kexec 0, none⟩, ⟨.klog, some (.exited 0)⟩]⟩
  have fork : Run init Step [.klogForked, .kexecForked 0] forked :=
    (Run.start.next (.klogForked rfl)).next (.kexecForked rfl)
  have exit : Step forked (.childExited .klog (.exited 0)) ended :=
    @Step.childExited forked [⟨.kexec 0, none⟩] [] _ _ rfl (fun _ => rfl)
  have collect : Step ended (.collected .klog (.exited 0))
      ⟨.returned 0 (.exited 0), 1, [⟨.kexec 0, none⟩]⟩ :=
    @Step.collected ended [⟨.kexec 0, none⟩] [] 0 _ _ rfl rfl
  refine ⟨_, ((fork.next exit).next collect).next (.reboot rfl), fun ordered => ?_⟩
  have needed := ordered [.klogForked, .kexecForked 0, .childExited .klog (.exited 0),
    .collected .klog (.exited 0)] (.reboot 0) [] rfl
  simp [Needs] at needed

/-! ### The condition is exact -/

/-- Kexec children are numbered by the forks, and the one waited for stays in the
list of children with the status it exited with. -/
structure Tracked (trace : List Event) (s : State) : Prop where
  numbered : ∀ attempt status, ⟨.kexec attempt, status⟩ ∈ s.children → attempt < s.attempts
  past : ∀ attempt status, .childExited (.kexec attempt) status ∈ trace → attempt < s.attempts
  waited : ∀ attempt, s.pc = .waiting attempt → ∀ status,
    .childExited (.kexec attempt) status ∈ trace → ⟨.kexec attempt, some status⟩ ∈ s.children

theorem tracked_step (trace : List Event) (s : State) (e : Event) (s' : State)
    (inv : Tracked trace s) (step : Step s e s') : Tracked (trace ++ [e]) s' := by
  cases step with
  | klogForked before =>
    exact ⟨fun n st h => inv.numbered n st (by simpa using h),
      fun n st h => inv.past n st (by simpa using h), fun n h => by cases h⟩
  | klogSkipped before =>
    exact ⟨inv.numbered, fun n st h => inv.past n st (by simpa using h), fun n h => by cases h⟩
  | bootAbandoned idle =>
    exact ⟨inv.numbered, fun n st h => inv.past n st (by simpa using h),
      fun n h => by simp [idle] at h⟩
  | kexecForked idle =>
    constructor
    · intro n st member
      rcases List.mem_cons.mp member with new | old
      · cases new
        exact Nat.lt_succ_self _
      · exact Nat.lt_succ_of_lt (inv.numbered n st old)
    · intro n st member
      exact Nat.lt_succ_of_lt (inv.past n st (by simpa using member))
    · intro n waiting st member
      -- no child of this number can have exited before it was forked
      cases waiting
      have early := inv.past _ st (by simpa using member)
      exact absurd early (Nat.lt_irrefl _)
  | @childExited before after job status split log =>
    -- the other children, and those that have exited already, stay as they are
    have kept : ∀ c ∈ s.children, c.status ≠ none →
        c ∈ before ++ ⟨job, some status⟩ :: after := by
      intro c member exited
      rw [split] at member
      rcases List.mem_append.mp member with old | rest
      · simp [old]
      · rcases List.mem_cons.mp rest with rfl | old
        · exact absurd rfl exited
        · simp [old]
    constructor
    · intro n st member
      rcases List.mem_append.mp member with old | rest
      · exact inv.numbered n st (by simp [split, old])
      · rcases List.mem_cons.mp rest with new | old
        · cases new
          exact inv.numbered n none (by simp [split])
        · exact inv.numbered n st (by simp [split, old])
    · intro n st member
      rcases List.mem_append.mp member with old | new
      · exact inv.past n st old
      · cases List.mem_singleton.mp new
        exact inv.numbered n none (by simp [split])
    · intro n waiting st member
      rcases List.mem_append.mp member with old | new
      · exact kept _ (inv.waited n waiting st old) (by simp)
      · cases List.mem_singleton.mp new
        simp
  | @collected before after attempt job status waiting split =>
    constructor
    · intro n st member
      rcases List.mem_append.mp member with old | old
      · exact inv.numbered n st (by simp [split, old])
      · exact inv.numbered n st (by simp [split, old])
    · exact fun n st h => inv.past n st (by simpa using h)
    · exact fun n h => by cases h
  | reboot back =>
    exact ⟨inv.numbered, fun n st h => inv.past n st (by simpa using h), fun n h => by cases h⟩
  | cleanup back failed =>
    exact ⟨inv.numbered, fun n st h => inv.past n st (by simpa using h), fun n h => by cases h⟩

/-- Wherever a stranger is there to be collected, the run can go on to a reboot
that comes too early. -/
theorem stranger_reboots (trace : List Event) (s : State) (run : Run init Step trace s)
    (stranger : ¬NoStranger s) :
    ∃ more s', Run init Step (trace ++ more) s' ∧ ¬Ordered Needs (trace ++ more) := by
  have tracked : Tracked trace s :=
    Run.invariant ⟨by simp [init], by simp, by simp [init]⟩ tracked_step run
  simp only [NoStranger, not_forall] at stranger
  obtain ⟨attempt, waiting, child, member, zero, other, absent⟩ := stranger
  obtain ⟨before, after, split⟩ := List.append_of_mem member
  obtain ⟨job, status⟩ := child
  subst zero
  refine ⟨[.collected job (.exited 0)] ++ [.reboot attempt], { s with pc := .idle, children := before ++ after },
    ?_, fun ordered => ?_⟩
  · rw [← List.append_assoc]
    exact (run.next (.collected waiting split)).next (.reboot rfl)
  · rw [← List.append_assoc] at ordered
    have needed := ((ordered_snoc _ _ _).mp ordered).2
    -- had kexec exited before, it would still be among the children
    have known : .childExited (.kexec attempt) (.exited 0) ∈ trace := by simpa [Needs] using needed
    exact absent (tracked.waited attempt waiting _ known)

end KexecLoader.Boot
