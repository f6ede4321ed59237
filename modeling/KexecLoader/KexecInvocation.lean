import KexecLoader.BootTarget
import KexecLoader.DiskFilter

/-!
# When kexec is called, and how

The arguments of kexec are planned from the target alone, except for the paths, which are
filled in as they translate. A child is started exactly if all of them do, the plan fits,
and `fork` succeeds.
-/
namespace KexecLoader

/-- An argument that is known, or one that is made of a real path. -/
inductive BootArg where
  | plain (text : Str)
  | path (path : Str) (arg : Str → Str)

/-- The arguments for a target, in their order. -/
def bootPlan (target : KlTarget) : List BootArg :=
  [.plain (bytes "kexec"), .plain (bytes "-l"), .path target.kernel.str id] ++
    (if target.initrd.str = [] then [] else [.path target.initrd.str (bytes "--initrd=" ++ ·)]) ++
    (if target.cmdline.str = [] then [] else [.plain (bytes "--command-line=" ++ target.cmdline.str)]) ++
    (if target.append.str = [] then [] else [.plain (bytes "--append=" ++ target.append.str)]) ++
    (if target.flags &&& TARGET_RESET ≠ 0 then [.plain (bytes "--reset-vga")] else []) ++
    target.modules.map fun m => .path m.name.str (moduleArg · m.args.str)

section
variable (host : BootHost)

def argvPlan : List BootArg → BootState → Except BootStop BootState
  | [], s => .ok s
  | .plain text :: plan, s => do
    let s ← argvAdd text s
    argvPlan plan s
  | .path path arg :: plan, s => do
    let (tmp, s) ← mountVpath host path s
    let s ← argvAdd (arg tmp) s
    argvPlan plan s

/-- The paths one after another as they translate, or none if one of them does not. -/
def realPaths : Nat → Vfs → List Str → Option (List Str)
  | _, _, [] => some []
  | n, vfs, path :: paths =>
    match vfsTranslatePath (host.access n).1 (host.access n).2 vfs host.stack path with
    | (.ok real, vfs) => (realPaths (n + 1) vfs paths).map (real.str :: ·)
    | _ => none

theorem argvPlan_append (first last : List BootArg) (s : BootState) :
    argvPlan host (first ++ last) s = argvPlan host first s >>= argvPlan host last := by
  induction first generalizing s with
  | nil => rfl
  | cons arg first ih =>
    cases arg with
    | plain text => simp only [List.cons_append, argvPlan, ih, bind_assoc]
    | path path arg => simp only [List.cons_append, argvPlan, ih, bind_assoc]

theorem argvPlan_plain (text : Str) (s : BootState) :
    argvPlan host [.plain text] s = argvAdd text s := bind_pure (argvAdd text s)

theorem argvPlan_field (option field : Str) (s : BootState) :
    argvPlan host (if field = [] then [] else [.plain (option ++ field)]) s =
      argvField option field s := by
  unfold argvField
  split
  · rfl
  · exact argvPlan_plain host _ s

theorem argvPlan_flags (flags : Nat) (s : BootState) :
    argvPlan host (if flags &&& TARGET_RESET ≠ 0 then [.plain (bytes "--reset-vga")] else []) s =
      argvFlags flags s := by
  unfold argvFlags
  split
  · exact argvPlan_plain host _ s
  · rfl

theorem argvPlan_initrd (initrd : Str) (s : BootState) :
    argvPlan host (if initrd = [] then [] else [.path initrd (bytes "--initrd=" ++ ·)]) s =
      argvInitrd host initrd s := by
  unfold argvInitrd
  split
  · rfl
  · exact bind_congr fun (tmp, s) => bind_pure (argvAdd _ s)

theorem argvPlan_modules (modules : List KlModule) (s : BootState) :
    argvPlan host (modules.map fun m => .path m.name.str (moduleArg · m.args.str)) s =
      argvModules host modules s := by
  induction modules generalizing s with
  | nil => rfl
  | cons m modules ih => simp only [List.map_cons, argvPlan, argvModules, ih]

/-- `boot_target` carries out the plan. -/
theorem argvTarget_plan (target : KlTarget) (s : BootState) :
    argvTarget host target s = argvPlan host (bootPlan target) s := by
  have front (s : BootState) :
      argvPlan host [.plain (bytes "kexec"), .plain (bytes "-l"), .path target.kernel.str id] s =
        (argvAdd (bytes "kexec") s >>= fun s => argvAdd (bytes "-l") s >>= fun s =>
          mountVpath host target.kernel.str s >>= fun real => argvAdd real.1 real.2) :=
    bind_congr fun s => bind_congr fun s => bind_congr fun real => bind_pure (argvAdd real.1 real.2)
  rw [argvTarget, bootPlan]
  simp only [argvPlan_append, front, bind_assoc, argvPlan_initrd, argvPlan_field, argvPlan_flags]
  have modules : argvPlan host (target.modules.map fun m => .path m.name.str (moduleArg · m.args.str)) =
      argvModules host target.modules := funext (argvPlan_modules host target.modules)
  rw [modules]

/-! ### Carrying out a plan -/

def bootPath : BootArg → Option Str
  | .plain _ => none
  | .path path _ => some path

/-- The plan with the real paths filled in. -/
def fillPlan : List BootArg → List Str → List Str
  | [], _ => []
  | .plain text :: plan, reals => text :: fillPlan plan reals
  | .path _ arg :: plan, real :: reals => arg real :: fillPlan plan reals
  | .path _ _ :: _, [] => []

def BootStop.state : BootStop → BootState
  | .cleanup s => s
  | .crash s => s

/-- The arguments fit in their array, and so do all the slots that were written. -/
structure BootState.Fits (s : BootState) : Prop where
  argv : s.argv.length ≤ 255
  slots : ∀ i ∈ s.slots, i < MAX_ARGV

theorem argvAdd_cases (text : Str) {s : BootState} (fits : s.Fits) :
    (s.argv.length = 255 ∧ ∃ stop, argvAdd text s = .error stop ∧ stop.state.Fits) ∨
      ∃ s', argvAdd text s = .ok s' ∧ s'.argv = s.argv ++ [text] ∧ s'.vfs = s.vfs ∧
        s'.translations = s.translations ∧ s'.Fits := by
  have argv := fits.argv
  by_cases full : s.argv.length + 1 = MAX_ARGV
  · refine .inl ⟨?_, _, if_pos full, ⟨fits.argv, fits.slots⟩⟩
    simp only [MAX_ARGV] at full
    omega
  · refine .inr ⟨_, if_neg full, rfl, rfl, rfl, ?_, ?_⟩
    · simp only [MAX_ARGV, List.length_append, List.length_singleton] at full ⊢
      omega
    · intro i member
      simp only [MAX_ARGV] at full
      simp only [List.mem_append, List.mem_cons, List.not_mem_nil, or_false] at member
      obtain old | rfl | rfl := member
      · exact fits.slots i old
      · simp only [MAX_ARGV]
        omega
      · simp only [MAX_ARGV]
        omega

theorem mountVpath_cases (path : Str) {s : BootState} (fits : s.Fits) :
    (∃ real vfs, vfsTranslatePath (host.access s.translations).1 (host.access s.translations).2 s.vfs
        host.stack path = (.ok real, vfs) ∧
      mountVpath host path s =
        .ok (real.str, { s with vfs := vfs, translations := s.translations + 1 })) ∨
    (∀ paths, realPaths host s.translations s.vfs (path :: paths) = none) ∧
      ∃ stop, mountVpath host path s = .error stop ∧ stop.state.Fits := by
  unfold mountVpath
  cases translated : vfsTranslatePath (host.access s.translations).1 (host.access s.translations).2
      s.vfs host.stack path with
  | mk outcome vfs =>
    simp only [realPaths, translated]
    cases outcome with
    | ok real => exact .inl ⟨real, vfs, rfl, rfl⟩
    | fail errno => exact .inr ⟨fun _ => rfl, _, rfl, ⟨fits.argv, fits.slots⟩⟩
    | crash => exact .inr ⟨fun _ => rfl, _, rfl, ⟨fits.argv, fits.slots⟩⟩

/-- A plan is carried out if its paths translate and its arguments fit, and otherwise it
is not. -/
theorem argvPlan_cases (plan : List BootArg) {s : BootState} (fits : s.Fits) :
    (∃ s' reals, argvPlan host plan s = .ok s' ∧ s'.Fits ∧
      realPaths host s.translations s.vfs (plan.filterMap bootPath) = some reals ∧
      s'.argv = s.argv ++ fillPlan plan reals) ∨
    (∃ stop, argvPlan host plan s = .error stop ∧ stop.state.Fits) ∧
      ∀ reals, realPaths host s.translations s.vfs (plan.filterMap bootPath) = some reals →
        255 < (s.argv ++ fillPlan plan reals).length := by
  induction plan generalizing s with
  | nil => exact .inl ⟨s, [], rfl, fits, rfl, by simp [fillPlan]⟩
  | cons arg plan ih =>
    cases arg with
    | plain text =>
      rw [argvPlan]
      obtain ⟨full, stop, added, stopped⟩ | ⟨s', added, argv, vfs, count, fits'⟩ := argvAdd_cases text fits
      · -- the array is full, so that the plan does not fit whatever the paths are
        rw [added]
        refine .inr ⟨⟨stop, rfl, stopped⟩, fun reals _ => ?_⟩
        simp only [fillPlan, List.length_append, List.length_cons]
        omega
      · rw [added]
        have rest := ih fits'
        rw [vfs, count] at rest
        simp only [argv, List.append_assoc, List.singleton_append] at rest
        exact rest
    | path path arg =>
      rw [argvPlan, List.filterMap_cons, bootPath]
      obtain ⟨real, vfs, translated, mounted⟩ | ⟨lost, stop, mounted, stopped⟩ :=
        mountVpath_cases host path fits
      · -- the paths behind it are translated in the VFS that this one leaves
        rw [mounted]
        have fits₁ : BootState.Fits { s with vfs := vfs, translations := s.translations + 1 } :=
          ⟨fits.argv, fits.slots⟩
        have paths (reals : List Str) : realPaths host s.translations s.vfs
            (path :: plan.filterMap bootPath) = some reals ↔ ∃ rest,
              realPaths host (s.translations + 1) vfs (plan.filterMap bootPath) = some rest ∧
                real.str :: rest = reals := by
          rw [realPaths, translated]
          exact Option.map_eq_some_iff
        simp only [paths]
        obtain ⟨full, stop, added, stopped⟩ | ⟨s', added, argv, vfs', count, fits'⟩ :=
          argvAdd_cases (arg real.str) fits₁
        · refine .inr ⟨⟨stop, ?_, stopped⟩, ?_⟩
          · show (argvAdd _ _ >>= _) = _
            rw [added]
            rfl
          · rintro _ ⟨rest, -, rfl⟩
            dsimp only at full
            simp only [fillPlan, List.length_append, List.length_cons]
            omega
        · have rest := ih fits'
          rw [vfs', count] at rest
          simp only [argv, List.append_assoc, List.singleton_append] at rest
          obtain ⟨s'', reals, done, fits'', found, argv''⟩ | ⟨⟨stop, failed, stopped⟩, many⟩ := rest
          · refine .inl ⟨s'', real.str :: reals, ?_, fits'', ⟨reals, found, rfl⟩, argv''⟩
            show (argvAdd _ _ >>= _) = _
            rw [added]
            exact done
          · refine .inr ⟨⟨stop, ?_, stopped⟩, ?_⟩
            · show (argvAdd _ _ >>= _) = _
              rw [added]
              exact failed
            · rintro _ ⟨rest, found, rfl⟩
              exact many rest found
      · -- with this path all are lost
        rw [mounted]
        refine .inr ⟨⟨stop, rfl, stopped⟩, fun reals found => ?_⟩
        rw [lost] at found
        cases found

theorem realPaths_length (n : Nat) (vfs : Vfs) (paths : List Str) {reals : List Str}
    (found : realPaths host n vfs paths = some reals) : reals.length = paths.length := by
  induction paths generalizing n vfs reals with
  | nil =>
    cases found
    rfl
  | cons path paths ih =>
    rw [realPaths] at found
    split at found
    · obtain ⟨rest, found', rfl⟩ := Option.map_eq_some_iff.mp found
      exact congrArg Nat.succ (ih _ _ found')
    · cases found

end

/-! ### The arguments of a target -/

/-- The paths that `boot_target` translates. -/
def targetPaths (target : KlTarget) : List Str :=
  target.kernel.str :: ((if target.initrd.str = [] then [] else [target.initrd.str]) ++
    target.modules.map fun m => m.name.str)

/-- The arguments of kexec, for the real paths of the kernel, of the initrd if there is
one, and of the modules. -/
def kexecArgs (target : KlTarget) (kernel : Str) (initrd modules : List Str) : List Str :=
  [bytes "kexec", bytes "-l", kernel] ++
    initrd.map (bytes "--initrd=" ++ ·) ++
    (if target.cmdline.str = [] then [] else [bytes "--command-line=" ++ target.cmdline.str]) ++
    (if target.append.str = [] then [] else [bytes "--append=" ++ target.append.str]) ++
    (if target.flags &&& TARGET_RESET ≠ 0 then [bytes "--reset-vga"] else []) ++
    List.zipWith (fun m real => bytes "--module=" ++ real ++
      (if m.args.str = [] then [] else bytes " " ++ m.args.str)) target.modules modules

/-- All paths of the target translate under its root, and these are the arguments. -/
def KexecArgs (host : BootHost) (vfs : Vfs) (target : KlTarget) (args : List Str) : Prop :=
  ∃ kernel initrd modules,
    realPaths host 0 (vfsSetRoot vfs (some target.root.str)) (targetPaths target) =
      some (kernel :: (initrd ++ modules)) ∧
    initrd.length = (if target.initrd.str = [] then 0 else 1) ∧
    modules.length = target.modules.length ∧
    args = kexecArgs target kernel initrd modules

theorem bootPlan_paths (target : KlTarget) :
    (bootPlan target).filterMap bootPath = targetPaths target := by
  have modules : (target.modules.map fun m => BootArg.path m.name.str (moduleArg · m.args.str)).filterMap
      bootPath = target.modules.map fun m => m.name.str := by
    rw [List.filterMap_map]
    exact congrFun List.filterMap_eq_map target.modules
  simp only [bootPlan, targetPaths, List.filterMap_append, modules]
  split <;> split <;> split <;> split <;> rfl

theorem fillPlan_modules (modules : List KlModule) (reals : List Str) :
    fillPlan (modules.map fun m => .path m.name.str (moduleArg · m.args.str)) reals =
      List.zipWith (fun m real => bytes "--module=" ++ real ++
        (if m.args.str = [] then [] else bytes " " ++ m.args.str)) modules reals := by
  induction modules generalizing reals with
  | nil => rfl
  | cons m modules ih =>
    cases reals with
    | nil => rfl
    | cons real reals =>
      have arg : moduleArg real m.args.str = bytes "--module=" ++ real ++
          (if m.args.str = [] then [] else bytes " " ++ m.args.str) := by
        unfold moduleArg
        split
        · exact (List.append_nil _).symm
        · exact List.append_assoc _ _ _
      rw [List.map_cons, fillPlan, List.zipWith_cons_cons, ih, arg]

theorem fillPlan_bootPlan (target : KlTarget) (kernel : Str) (initrd modules : List Str)
    (count : initrd.length = if target.initrd.str = [] then 0 else 1) :
    fillPlan (bootPlan target) (kernel :: (initrd ++ modules)) =
      kexecArgs target kernel initrd modules := by
  rw [bootPlan, kexecArgs]
  -- an initrd takes a real path, the other fields take none
  by_cases none : target.initrd.str = []
  · rw [if_pos none] at count ⊢
    cases List.length_eq_zero_iff.mp count
    split <;> split <;> split <;>
      simp [fillPlan, fillPlan_modules]
  · rw [if_neg none] at count ⊢
    obtain ⟨real, rfl⟩ := List.length_eq_one_iff.mp count
    split <;> split <;> split <;>
      simp [fillPlan, fillPlan_modules]

/-- The paths of a target, split at the initrd. -/
theorem targetPaths_split (host : BootHost) (vfs : Vfs) (target : KlTarget) {reals : List Str}
    (found : realPaths host 0 vfs (targetPaths target) = some reals) :
    ∃ kernel initrd modules, reals = kernel :: (initrd ++ modules) ∧
      initrd.length = (if target.initrd.str = [] then 0 else 1) ∧
      modules.length = target.modules.length := by
  have length := realPaths_length host 0 vfs (targetPaths target) found
  simp only [targetPaths, List.length_cons, List.length_append, List.length_map] at length
  cases reals with
  | nil => cases length
  | cons kernel rest =>
    rw [List.length_cons] at length
    by_cases none : target.initrd.str = []
    · rw [if_pos none] at length
      refine ⟨kernel, [], rest, rfl, (if_pos none).symm, ?_⟩
      simpa using length
    · rw [if_neg none] at length
      cases rest with
      | nil => simp at length
      | cons initrd modules =>
        refine ⟨kernel, [initrd], modules, rfl, (if_neg none).symm, ?_⟩
        simp only [List.length_cons, List.length_nil] at length
        omega

theorem kexecArgs_iff (host : BootHost) (vfs : Vfs) (target : KlTarget) (args : List Str) :
    KexecArgs host vfs target args ↔
      ∃ reals, realPaths host 0 (vfsSetRoot vfs (some target.root.str)) (targetPaths target) = some reals ∧
        args = fillPlan (bootPlan target) reals := by
  constructor
  · rintro ⟨kernel, initrd, modules, found, count, -, rfl⟩
    exact ⟨_, found, (fillPlan_bootPlan target kernel initrd modules count).symm⟩
  · rintro ⟨reals, found, rfl⟩
    obtain ⟨kernel, initrd, modules, rfl, count, all⟩ := targetPaths_split host _ target found
    exact ⟨kernel, initrd, modules, found, count, all,
      fillPlan_bootPlan target kernel initrd modules count⟩

theorem showTarget_vfs (target : KlTarget) (s : BootState) : (showTarget target s).vfs = s.vfs := by
  simp only [showTarget, BootState.printd, apply_ite BootState.vfs, ite_self]

theorem showTarget_translations (target : KlTarget) (s : BootState) :
    (showTarget target s).translations = s.translations := by
  simp only [showTarget, BootState.printd, apply_ite BootState.translations, ite_self]

theorem showTarget_argv (target : KlTarget) (s : BootState) : (showTarget target s).argv = s.argv := by
  simp only [showTarget, BootState.printd, apply_ite BootState.argv, ite_self]

theorem showTarget_slots (target : KlTarget) (s : BootState) : (showTarget target s).slots = s.slots := by
  simp only [showTarget, BootState.printd, apply_ite BootState.slots, ite_self]

/-! ### Booting it -/

/-- What an attempt to boot a target makes of the machine: one call of kexec with the
arguments of the target, if they can be had and a child can be started, else nothing. -/
def Attempt (host : BootHost) (vfs : Vfs) (target : KlTarget) (made : List BootEvent) : Prop :=
  (∃ args, KexecArgs host vfs target args ∧ args.length ≤ 255 ∧ host.forkError = none ∧
      made = .kexec args :: if host.status = .exited 0 then [.reboot] else []) ∨
    (¬∃ args, KexecArgs host vfs target args ∧ args.length ≤ 255 ∧ host.forkError = none) ∧ made = []

/-- The state in which `boot_target` begins to gather arguments. -/
def bootStart (vfs : Vfs) (target : KlTarget) : BootState :=
  showTarget target ⟨vfsSetRoot vfs (some target.root.str), 0, [], [], [], false⟩

section
variable (host : BootHost) (vfs : Vfs) (target : KlTarget)

theorem bootStart_fits : (bootStart vfs target).Fits := by
  have no_args : (bootStart vfs target).argv = [] := showTarget_argv target _
  have no_slots : (bootStart vfs target).slots = [] := showTarget_slots target _
  refine ⟨by rw [no_args]; exact Nat.zero_le 255, ?_⟩
  rw [no_slots]
  exact List.forall_mem_nil _

/-- The arguments are gathered, or they cannot be had. -/
theorem argvTarget_cases :
    (∃ s, argvTarget host target (bootStart vfs target) = .ok s ∧ s.Fits ∧ KexecArgs host vfs target s.argv) ∨
      (∃ stop, argvTarget host target (bootStart vfs target) = .error stop ∧ stop.state.Fits) ∧
        ∀ args, KexecArgs host vfs target args → 255 < args.length := by
  -- what is shown first leaves alone what the arguments depend on
  have root : (bootStart vfs target).vfs = vfsSetRoot vfs (some target.root.str) := showTarget_vfs target _
  have count : (bootStart vfs target).translations = 0 := showTarget_translations target _
  have no_args : (bootStart vfs target).argv = [] := showTarget_argv target _
  have plan := argvPlan_cases host (bootPlan target) (bootStart_fits vfs target)
  rw [root, count, no_args, bootPlan_paths, ← argvTarget_plan] at plan
  simp only [List.nil_append] at plan
  obtain ⟨s, reals, done, fits, found, args⟩ | ⟨stopped, many⟩ := plan
  · exact .inl ⟨s, done, fits, (kexecArgs_iff host vfs target _).mpr ⟨reals, found, args⟩⟩
  · refine .inr ⟨stopped, fun args is_args => ?_⟩
    obtain ⟨reals, found, rfl⟩ := (kexecArgs_iff host vfs target args).mp is_args
    exact many reals found

theorem bootTarget_attempt : Attempt host vfs target (bootTarget host vfs target).events := by
  have start : showTarget target ⟨vfsSetRoot vfs (some target.root.str), 0, [], [], [], false⟩ =
      bootStart vfs target := rfl
  rw [bootTarget]
  dsimp only
  rw [start]
  obtain ⟨s, done, fits, is_args⟩ | ⟨⟨stop, failed, -⟩, many⟩ := argvTarget_cases host vfs target
  · rw [done]
    dsimp only
    cases forked : host.forkError with
    | some errno =>
      -- the arguments are there, but no child
      refine .inr ⟨?_, rfl⟩
      rintro ⟨_, -, -, no_error⟩
      cases forked.symm.trans no_error
    | none =>
      refine .inl ⟨s.argv, is_args, fits.argv, forked, ?_⟩
      by_cases well : host.status = .exited 0
      · simp only [if_pos well]
        rfl
      · simp only [if_neg well]
        rfl
  · rw [failed]
    have none : ¬∃ args, KexecArgs host vfs target args ∧ args.length ≤ 255 ∧ host.forkError = none := by
      rintro ⟨args, is_args, fit, -⟩
      exact absurd fit (Nat.not_le.mpr (many args is_args))
    cases stop with
    | cleanup s => exact .inr ⟨none, rfl⟩
    | crash s => exact .inr ⟨none, rfl⟩

theorem bootTarget_slots : ∀ i ∈ (bootTarget host vfs target).state.slots, i < MAX_ARGV := by
  have start : showTarget target ⟨vfsSetRoot vfs (some target.root.str), 0, [], [], [], false⟩ =
      bootStart vfs target := rfl
  rw [bootTarget]
  dsimp only
  rw [start]
  obtain ⟨s, done, fits, -⟩ | ⟨⟨stop, failed, stopped⟩, -⟩ := argvTarget_cases host vfs target
  · rw [done]
    dsimp only
    cases host.forkError with
    | some errno => exact fits.slots
    | none =>
      dsimp only
      split <;> exact fits.slots
  · rw [failed]
    cases stop with
    | cleanup s => exact stopped.slots
    | crash s => exact stopped.slots

/-- The translations are functions, so that the arguments are determined. -/
theorem KexecArgs.unique {args other : List Str} (is_args : KexecArgs host vfs target args)
    (also : KexecArgs host vfs target other) : args = other := by
  obtain ⟨reals, found, rfl⟩ := (kexecArgs_iff host vfs target args).mp is_args
  obtain ⟨reals', found', rfl⟩ := (kexecArgs_iff host vfs target other).mp also
  rw [Option.some.inj (found.symm.trans found')]

theorem Attempt.unique {made other : List BootEvent} (attempt : Attempt host vfs target made)
    (again : Attempt host vfs target other) : made = other := by
  obtain ⟨args, is_args, fit, forked, rfl⟩ | ⟨none, rfl⟩ := attempt
  · obtain ⟨args', is_args', -, -, rfl⟩ | ⟨none, -⟩ := again
    · rw [is_args.unique host vfs target is_args']
    · exact absurd ⟨args, is_args, fit, forked⟩ none
  · obtain ⟨args, is_args, fit, forked, -⟩ | ⟨-, rfl⟩ := again
    · exact absurd ⟨args, is_args, fit, forked⟩ none
    · rfl

end

/-- A child runs kexec with the arguments of the target, exactly if all its paths
translate, there are at most 255 arguments, and `fork` succeeds. A reboot is attempted
only behind that, and only if `wait` has stored exit status 0, whichever child it took. -/
theorem bootTarget_kexec (host : BootHost) (vfs : Vfs) (target : KlTarget) :
    ((∃ args, KexecArgs host vfs target args ∧ args.length ≤ 255 ∧ host.forkError = none ∧
        (bootTarget host vfs target).events =
          .kexec args :: if host.status = .exited 0 then [.reboot] else []) ∨
      (¬∃ args, KexecArgs host vfs target args ∧ args.length ≤ 255 ∧ host.forkError = none) ∧
        (bootTarget host vfs target).events = []) ∧
    ∀ i ∈ (bootTarget host vfs target).state.slots, i < MAX_ARGV :=
  ⟨bootTarget_attempt host vfs target, bootTarget_slots host vfs target⟩

/-- No process can be started here. -/
def forklessHost : BootHost where
  access _ := (sampleDisks, fun _ _ _ => none)
  stack := []
  strerror _ := []
  forkError := some 11
  status := .exited 0
  rebootError := 0

def vmlinuz : KlTarget :=
  { initTarget with root := strlcpy (bytes "debug"), kernel := strlcpy (bytes "/vmlinuz") }

/-- All paths translate and the arguments fit, but no child is started. -/
theorem bootTarget_forkless :
    KexecArgs forklessHost ⟨none, none, []⟩ vmlinuz [bytes "kexec", bytes "-l", bytes "/vmlinuz"] ∧
      (bootTarget forklessHost ⟨none, none, []⟩ vmlinuz).events = [] :=
  ⟨⟨bytes "/vmlinuz", [], [], by decide, by decide, by decide, by decide⟩, by decide⟩

end KexecLoader
