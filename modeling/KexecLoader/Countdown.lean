import KexecLoader.MenuSelection

/-!
# The countdown of the menu

A second without a key shortens the countdown, a key ends it for good, and its end boots
the entry under the cursor. Left alone, the menu lets the seconds pass one by one, boots the
default target behind the last of them, and then waits for keys.
-/
namespace KexecLoader

/-- The input comes from someone at the keyboard. -/
def MenuInput.Touched : MenuInput → Prop
  | .poll pressed => pressed = true
  | .expired => False
  | .key _ => True

def MenuInput.IsKey : MenuInput → Prop
  | .key _ => True
  | _ => False

/-- What an input leaves of the countdown. -/
def MenuInput.leaves (left : Int) : MenuInput → Int
  | .poll pressed => if pressed then -1 else left - 1
  | .expired => -1
  | .key _ => left

/-- The inputs of a menu that starts with a number of seconds, and what is left of them. -/
inductive Countdown (seconds : Int) : List MenuInput → Int → Prop
  | off {keys : List MenuInput} : seconds < 0 → (∀ input ∈ keys, input.IsKey) →
      Countdown seconds keys seconds
  | counting {n : Nat} : n ≤ seconds →
      Countdown seconds (List.replicate n (.poll false)) (seconds - n)
  | stopped {n : Nat} {keys : List MenuInput} : n < seconds → (∀ input ∈ keys, input.IsKey) →
      Countdown seconds (List.replicate n (.poll false) ++ .poll true :: keys) (-1)
  | expired {n : Nat} {keys : List MenuInput} : n = seconds → (∀ input ∈ keys, input.IsKey) →
      Countdown seconds (List.replicate n (.poll false) ++ .expired :: keys) (-1)

/-! ### One step -/

section
variable {rows : Nat} {targets : List KlTarget} {m m' : Menu}

theorem menuDown_timeout (down : menuDown rows targets m = some m') : m'.timeout = m.timeout := by
  unfold menuDown at down
  obtain ⟨node, -, down⟩ := Option.bind_eq_some_iff.mp down
  dsimp only at down
  split at down
  · obtain ⟨next, -, down⟩ := Option.bind_eq_some_iff.mp down
    split at down
    · obtain ⟨first, -, rfl⟩ := Option.map_eq_some_iff.mp down
      rfl
    · obtain rfl := Option.some.inj down
      rfl
  · obtain rfl := Option.some.inj down
    rfl

theorem menuUp_timeout (m : Menu) : (menuUp targets m).timeout = m.timeout := by
  simp only [menuUp]
  split <;> rfl

theorem menuMove_timeout {c : Int} (moved : menuMove rows targets c m = some m') :
    m'.timeout = m.timeout := by
  unfold menuMove at moved
  -- the branch for the key up comes first
  have up : (if c = KEY_UP ∧ 6 < m.row then (menuUp targets m).draw rows targets else m).timeout =
      m.timeout := by
    split
    · exact menuUp_timeout m
    · rfl
  generalize (if c = KEY_UP ∧ 6 < m.row then (menuUp targets m).draw rows targets else m) = m₁ at moved up
  dsimp only at moved
  split at moved
  · obtain ⟨node, -, moved⟩ := Option.bind_eq_some_iff.mp moved
    split at moved
    · obtain ⟨m₂, down, rfl⟩ := Option.map_eq_some_iff.mp moved
      exact (menuDown_timeout down).trans up
    · obtain rfl := Option.some.inj moved
      exact up
  · obtain rfl := Option.some.inj moved
    exact up

theorem menuBoot_timeout {action : Option MenuAction} (booted : menuBoot rows targets m = some (m', action)) :
    m'.timeout = m.timeout := by
  obtain ⟨node, -, same⟩ := Option.map_eq_some_iff.mp booted
  obtain rfl := congrArg Prod.fst same
  rfl

theorem menuStep_leaves {input : MenuInput} {action : Option MenuAction}
    (step : menuStep rows targets m input = some (m', action)) : m'.timeout = input.leaves m.timeout := by
  cases input with
  | poll pressed =>
    obtain rfl := congrArg Prod.fst (Option.some.inj step)
    cases pressed <;> rfl
  | expired =>
    obtain ⟨⟨m₁, action₁⟩, -, same⟩ := Option.map_eq_some_iff.mp step
    obtain rfl := congrArg Prod.fst same
    rfl
  | key c =>
    obtain ⟨m₁, moved, step⟩ := Option.bind_eq_some_iff.mp step
    rw [MenuInput.leaves, ← menuMove_timeout moved]
    split_ifs at step with enter special disks shell
    · exact menuBoot_timeout step
    all_goals obtain rfl := congrArg Prod.fst (Option.some.inj step); rfl

theorem menuSeek_timeout {tptr fuel : Nat} (found : menuSeek rows targets tptr fuel m = some m') :
    m'.timeout = m.timeout := by
  induction fuel generalizing m with
  | zero =>
    unfold menuSeek at found
    split at found
    · obtain rfl := Option.some.inj found
      rfl
    · cases found
  | succ fuel ih =>
    unfold menuSeek at found
    split at found
    · obtain rfl := Option.some.inj found
      rfl
    · obtain ⟨m₁, down, found⟩ := Option.bind_eq_some_iff.mp found
      exact (ih found).trans (menuDown_timeout down)

theorem menuInit_timeout {seconds : Int} (started : menuInit rows targets seconds = some m) :
    m.timeout = seconds := by
  unfold menuInit at started
  dsimp only at started
  split at started
  · obtain rfl := Option.some.inj started
    rfl
  · obtain ⟨m₁, found, rfl⟩ := Option.map_eq_some_iff.mp started
    exact menuSeek_timeout found

end

section
variable {seconds left : Int} {inputs : List MenuInput}

/-- A countdown goes on as the inputs the menu waits for tell it. -/
theorem Countdown.next (countdown : Countdown seconds inputs left) {m : Menu} (here : m.timeout = left)
    {input : MenuInput} (enabled : input.Enabled m) :
    Countdown seconds (inputs ++ [input]) (input.leaves left) := by
  -- behind the countdown only keys are read
  have keyed : ∀ {keys : List MenuInput}, left < 0 → (∀ k ∈ keys, MenuInput.IsKey k) →
      (∀ k ∈ keys ++ [input], k.IsKey) ∧ input.leaves left = left := by
    intro keys past all
    cases input with
    | poll pressed => exact absurd (here ▸ enabled : 0 < left) (by omega)
    | expired => exact absurd (here ▸ enabled : left = 0) (by omega)
    | key c => exact ⟨List.forall_mem_append.mpr ⟨all, List.forall_mem_singleton.mpr trivial⟩, rfl⟩
  cases countdown with
  | off past all =>
    obtain ⟨all', same⟩ := keyed past all
    rw [same]
    exact .off past all'
  | @counting n within =>
    cases input with
    | poll pressed =>
      have more : 0 < seconds - n := here ▸ enabled
      cases pressed with
      | true => exact .stopped (by omega) (List.forall_mem_nil _)
      | false =>
        have longer : List.replicate n (MenuInput.poll false) ++ [.poll false] =
            List.replicate (n + 1) (.poll false) := List.replicate_succ'.symm
        rw [longer, show MenuInput.leaves (seconds - n) (.poll false) = seconds - (n + 1 : Nat) by
          simp [MenuInput.leaves]; omega]
        exact .counting (by omega)
    | expired =>
      have ended : seconds - n = 0 := here ▸ enabled
      exact .expired (by omega) (List.forall_mem_nil _)
    | key c =>
      have past : seconds - n < 0 := here ▸ enabled
      omega
  | stopped within all =>
    obtain ⟨all', same⟩ := keyed (by decide) all
    rw [same, List.append_assoc]
    exact .stopped within all'
  | expired whole all =>
    obtain ⟨all', same⟩ := keyed (by decide) all
    rw [same, List.append_assoc]
    exact .expired whole all'

end

/-! ### The menu left alone -/

/-- The steps of a menu that nobody touches. -/
def untouchedSteps (seconds entry : Nat) : List (MenuInput × Option MenuAction) :=
  List.replicate seconds (.poll false, none) ++ [(.expired, some (.boot entry))]

section
variable {rows : Nat} {targets : List KlTarget}

theorem menu_countdown {init : Menu} {trace : List (MenuInput × Option MenuAction)} {m : Menu}
    (run : Run init (MenuStep rows targets) trace m) :
    Countdown init.timeout (trace.map Prod.fst) m.timeout := by
  induction run with
  | start =>
    by_cases counts : 0 ≤ init.timeout
    · have none := Countdown.counting (n := 0) counts
      rwa [Nat.cast_zero, Int.sub_zero] at none
    · exact .off (by omega) (List.forall_mem_nil _)
  | next _ step ih =>
    obtain ⟨enabled, stepped⟩ := step
    rw [List.map_append, menuStep_leaves stepped]
    exact ih.next rfl enabled

theorem menuBoot_draws {m : Menu} {first entry : Nat} (inv : MenuInv rows targets m first entry) :
    menuBoot rows targets m = some (m.draw rows targets, some (.boot entry)) :=
  congrArg (Option.map _) inv.target

/-- What a menu is after some seconds without a key. -/
theorem menu_waits {menu : Menu} {seconds : Nat} (starts : menu.timeout = seconds) (n : Nat) (within : n ≤ seconds) :
    Run menu (MenuStep rows targets) (List.replicate n (.poll false, none))
      { menu with timeout := (seconds : Int) - n } := by
  induction n with
  | zero =>
    have same : { menu with timeout := (seconds : Int) - (0 : Nat) } = menu := by
      rw [Nat.cast_zero, Int.sub_zero, ← starts]
    rw [same]
    exact .start
  | succ n ih =>
    rw [List.replicate_succ']
    refine .next (ih (by omega)) ⟨?_, ?_⟩
    · show (0 : Int) < seconds - n
      omega
    · have less : (seconds : Int) - n - 1 = seconds - (n + 1 : Nat) := by omega
      show some (menuPoll false _, none) = _
      rw [menuPoll, ← less]
      rfl

variable {menu : Menu} {seconds first entry : Nat}

/-- Behind the last second the entry under the cursor is booted. -/
theorem menu_expires (starts : menu.timeout = seconds) (inv : MenuInv rows targets menu first entry) :
    Run menu (MenuStep rows targets) (untouchedSteps seconds entry)
      { menu.draw rows targets with timeout := -1 } := by
  refine .next (menu_waits starts seconds (Nat.le_refl seconds)) ⟨Int.sub_self _, ?_⟩
  show (menuBoot rows targets _).map _ = _
  rw [menuBoot_draws (inv.timed _)]
  rfl

/-- A run that nobody touches has let some seconds pass, or it is over. -/
theorem untouched_run (starts : menu.timeout = seconds) (inv : MenuInv rows targets menu first entry)
    {trace : List (MenuInput × Option MenuAction)} {m : Menu} (run : Run menu (MenuStep rows targets) trace m)
    (alone : ∀ step ∈ trace, ¬ step.1.Touched) :
    (∃ n ≤ seconds, trace = List.replicate n (.poll false, none) ∧ m = { menu with timeout := (seconds : Int) - n }) ∨
      trace = untouchedSteps seconds entry ∧ m.timeout = -1 := by
  induction run with
  | start =>
    refine .inl ⟨0, Nat.zero_le seconds, rfl, ?_⟩
    rw [Nat.cast_zero, Int.sub_zero, ← starts]
  | @next trace s s' step _ made ih =>
    obtain ⟨input, action⟩ := step
    obtain ⟨enabled, stepped⟩ := made
    have quiet : ¬ input.Touched := alone (input, action) (by simp)
    obtain ⟨n, within, rfl, rfl⟩ | ⟨rfl, behind⟩ := ih fun step member => alone step (List.mem_append_left _ member)
    · cases input with
      | key c => exact absurd trivial quiet
      | poll pressed =>
        -- one second less
        obtain rfl : pressed = false := by simpa [MenuInput.Touched] using quiet
        have more : (0 : Int) < seconds - n := enabled
        obtain ⟨rfl, rfl⟩ := Prod.mk.inj (Option.some.inj stepped)
        have less : (seconds : Int) - n - 1 = seconds - (n + 1 : Nat) := by omega
        refine .inl ⟨n + 1, by omega, List.replicate_succ'.symm, ?_⟩
        rw [← less]
        rfl
      | expired =>
        -- the countdown ends with its last second only
        have ended : (seconds : Int) - n = 0 := enabled
        obtain rfl : n = seconds := by omega
        obtain ⟨⟨booted, action'⟩, boot, same⟩ := Option.map_eq_some_iff.mp stepped
        rw [menuBoot_draws (inv.timed _)] at boot
        obtain ⟨-, rfl⟩ := Prod.mk.inj (Option.some.inj boot)
        obtain ⟨rfl, rfl⟩ := Prod.mk.inj same
        exact .inr ⟨rfl, rfl⟩
    · -- behind its end the menu waits for keys
      cases input with
      | key c => exact absurd trivial quiet
      | poll pressed =>
        have counts : 0 < s.timeout := enabled
        omega
      | expired =>
        have ended : s.timeout = 0 := enabled
        omega

/-- Every run of the menu goes through its countdown: the seconds that pass without a key
come first, then the key that ends it or its end, then keys. Left alone, the menu does
nothing while the seconds pass, boots the default target once behind the last of them, and
has no other run. -/
theorem countdown_boots (given : targets ≠ []) (tall : 10 ≤ rows) (timeout : Int) :
    ∃ menu, menuInit rows targets timeout = some menu ∧
      (∀ trace m, Run menu (MenuStep rows targets) trace m → Countdown timeout (trace.map Prod.fst) m.timeout) ∧
      (0 ≤ timeout → ∀ trace,
        ((∃ m, Run menu (MenuStep rows targets) trace m) ∧ ∀ step ∈ trace, ¬ step.1.Touched) ↔
          trace <+: untouchedSteps timeout.toNat (firstDefault targets)) := by
  obtain ⟨menu, first, started, inv, -⟩ := menuInit_inv timeout given tall
  have starts := menuInit_timeout started
  refine ⟨menu, started, fun trace m run => starts ▸ menu_countdown run, fun counts trace => ?_⟩
  obtain ⟨seconds, rfl⟩ := Int.eq_ofNat_of_zero_le counts
  rw [Int.toNat_natCast]
  constructor
  · rintro ⟨⟨m, run⟩, alone⟩
    obtain ⟨n, within, rfl, -⟩ | ⟨rfl, -⟩ := untouched_run starts inv run alone
    · -- some of the seconds have passed
      obtain ⟨left, rfl⟩ := Nat.exists_eq_add_of_le within
      rw [untouchedSteps, List.replicate_add, List.append_assoc]
      exact List.prefix_append _ _
    · exact List.prefix_rfl
  · -- a front part is all of the run, or some polls of it
    intro front
    rcases List.prefix_concat_iff.mp front with rfl | waits
    · refine ⟨⟨_, menu_expires starts inv⟩, ?_⟩
      rintro step member
      rcases List.mem_append.mp member with idle | last
      · rw [(List.mem_replicate.mp idle).2]
        simp [MenuInput.Touched]
      · rw [List.mem_singleton.mp last]
        exact id
    · obtain ⟨within, polls⟩ := List.prefix_replicate_iff.mp waits
      rw [polls]
      refine ⟨⟨_, menu_waits starts _ within⟩, fun step member => ?_⟩
      rw [(List.mem_replicate.mp member).2]
      simp [MenuInput.Touched]

end

/-- With the last of three targets the default, and five seconds to wait. -/
theorem countdown_boots_last :
    untouchedSteps 5 (firstDefault menuSample) =
        List.replicate 5 (.poll false, none) ++ [(.expired, some (.boot 2))] ∧
    ∃ menu, menuInit 10 menuSample 5 = some menu ∧
      (∀ trace m, Run menu (MenuStep 10 menuSample) trace m → Countdown 5 (trace.map Prod.fst) m.timeout) ∧
      ((0 : Int) ≤ 5 → ∀ trace,
        ((∃ m, Run menu (MenuStep 10 menuSample) trace m) ∧ ∀ step ∈ trace, ¬ step.1.Touched) ↔
          trace <+: untouchedSteps (5 : Int).toNat (firstDefault menuSample)) :=
  ⟨by rw [show firstDefault menuSample = 2 by decide]; rfl,
    countdown_boots (by simp [menuSample]) (Nat.le_refl 10) 5⟩

end KexecLoader
