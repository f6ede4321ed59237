import KexecLoader.Vfs

/-!
# A translated path stays below the device root and the jail

`append_path` edits one growing string; the invariant is that the string is the
starting directory followed by the rendered component stack of this call, whose
height is the counter. Removing at the last slash then removes a component of
this call only.
-/
namespace KexecLoader

def render (components : List Str) : Str := components.flatMap fun c => slash :: c

/-- The components `append_path` leaves of a string. -/
def remaining (path : Str) : List Str := PathStack.resolve dotdot (pathComponents path)

@[simp] theorem render_nil : render [] = [] := rfl

@[simp] theorem render_append (xs ys : List Str) : render (xs ++ ys) = render xs ++ render ys :=
  List.flatMap_append

@[simp] theorem render_singleton (c : Str) : render [c] = slash :: c := by simp [render]

/-- What one round of the loop takes: the node up to the next slash, and the
slashes that follow it, at least one unless the string ends. -/
structure Round (pathIn node rest : Str) : Prop where
  plain : slash ∉ node
  components : pathComponents pathIn =
    (if node = [] then [] else [node]) ++ pathComponents rest
  length : rest = [] ∧ pathIn.length = node.length ∨
    node.length + 1 + rest.length ≤ pathIn.length

theorem round_of_loop (pathIn : Str) :
    Round pathIn (pathIn.take (strcspn pathIn [slash]))
      ((pathIn.drop (strcspn pathIn [slash])).drop
        (strspn (pathIn.drop (strcspn pathIn [slash])) [slash])) := by
  rw [drop_strspn, take_strcspn, drop_strcspn]
  have whole := List.takeWhile_append_dropWhile (p := fun c => decide (c ∉ [slash])) (l := pathIn)
  have stops := dropWhile_head_fails (p := fun c => decide (c ∉ [slash])) (s := pathIn)
  have plain : slash ∉ pathIn.takeWhile fun c => decide (c ∉ [slash]) := by
    intro member
    simpa using List.mem_takeWhile_imp member
  generalize pathIn.takeWhile (fun c => decide (c ∉ [slash])) = node at whole plain
  generalize pathIn.dropWhile (fun c => decide (c ∉ [slash])) = tail at whole stops
  subst whole
  have slashes := List.takeWhile_append_dropWhile (p := fun c => decide (c ∈ [slash])) (l := tail)
  have all : ∀ c ∈ tail.takeWhile (fun c => decide (c ∈ [slash])), c = slash := by
    intro c member
    simpa using List.mem_takeWhile_imp member
  cases tail with
  | nil =>
    -- the last node: the string ends behind it
    refine ⟨plain, ?_, Or.inl ⟨rfl, by simp⟩⟩
    simpa using pathComponents_plain node plain
  | cons c tail =>
    -- a node ends at a slash, and all slashes behind it are taken as well
    have first : c = slash := by simpa using stops c rfl
    subst first
    have rest_components := pathComponents_slashes
      (tail.takeWhile fun c => decide (c ∈ [slash])) (tail.dropWhile fun c => decide (c ∈ [slash]))
    rw [List.takeWhile_append_dropWhile] at rest_components
    refine ⟨plain, ?_, Or.inr ?_⟩
    · rw [pathComponents_slash, pathComponents_plain node plain, rest_components]
      · simp
      · intro c member
        simpa using List.mem_takeWhile_imp member
    · have shorter := length_dropWhile_le (fun c => decide (c ∈ [slash])) tail
      simp only [List.mem_singleton, decide_true, List.dropWhile_cons_of_pos, List.length_append,
        List.length_cons] at shorter ⊢
      omega

theorem mem_pathComponents (path c : Str) (member : c ∈ pathComponents path) :
    c ≠ [] ∧ slash ∉ c := by
  have of_plain (node : Str) (plain : slash ∉ node) (member : c ∈ pathComponents node) :
      c ≠ [] ∧ slash ∉ c := by
    rw [pathComponents_plain node plain] at member
    split at member
    · cases member
    next nonempty =>
      have same := List.mem_singleton.mp member
      exact same ▸ ⟨nonempty, plain⟩
  induction path using separated_induction slash with
  | last piece plain => exact of_plain piece plain member
  | more piece rest plain ih =>
    rw [pathComponents_slash, List.mem_append] at member
    exact member.elim (of_plain piece plain) ih

/-- How long the string can get while the rest of `path_in` is appended. -/
def reach (path pathIn : Str) : Nat :=
  path.length + if pathIn = [] then 0 else pathIn.length + 1

theorem reach_le (path pathIn : Str) : reach path pathIn ≤ path.length + pathIn.length + 1 := by
  unfold reach
  split <;> omega

/-- A round that appends nothing leaves at least as much room. -/
theorem Round.reach_skip {pathIn node rest : Str} (round : Round pathIn node rest)
    (nonempty : pathIn ≠ []) (before after : Str) (shrinks : after.length ≤ before.length) :
    reach after rest ≤ reach before pathIn := by
  have pos := List.length_pos_of_ne_nil nonempty
  unfold reach
  rw [if_neg nonempty]
  rcases round.length with ⟨rfl, _⟩ | taken
  · simp only [if_true]
    omega
  · split <;> omega

/-- A round that appends a node uses up what it takes from `path_in`. -/
theorem Round.reach_append {pathIn node rest : Str} (round : Round pathIn node rest)
    (nonempty : pathIn ≠ []) (path : Str) :
    reach (path ++ [slash] ++ node) rest ≤ reach path pathIn ∧
      (path ++ [slash] ++ node).length ≤ reach path pathIn := by
  unfold reach
  rw [if_neg nonempty]
  simp only [List.length_append, List.length_singleton]
  rcases round.length with ⟨rfl, all⟩ | taken
  · simp only [if_true]
    omega
  · split <;> omega

/-- What the loop leaves of `path` when it goes on with `path_in`: the starting
directory and the rendered stack, in a block that held no string longer than what
was left to read allowed. -/
structure Appended (base : Str) (stack : List Str) (pathIn : Str) (path out : HeapStr) : Prop where
  size : out.size = path.size
  str : out.str = base ++ render (PathStack.resolveFrom dotdot stack (pathComponents pathIn))
  long : out.str.length ≤ reach path.str pathIn
  seen : ∀ s ∈ out.seen, s ∈ path.seen ∨ s.length ≤ reach path.str pathIn

theorem appended_nil {base : Str} {stack : List Str} {path : HeapStr}
    (held : path.str = base ++ render stack) : Appended base stack [] path path :=
  ⟨rfl, by simpa using held, by simp [reach], fun _ member => .inl member⟩

/-- One round: it leaves room for the rest, and what it has written is no longer
than that. -/
theorem Appended.round {base : Str} {stack stack' : List Str} {pathIn rest : Str}
    {path path' out : HeapStr} (later : Appended base stack' rest path' out)
    (size : path'.size = path.size)
    (components : PathStack.resolveFrom dotdot stack' (pathComponents rest) =
      PathStack.resolveFrom dotdot stack (pathComponents pathIn))
    (room : reach path'.str rest ≤ reach path.str pathIn)
    (wrote : ∀ s ∈ path'.seen, s ∈ path.seen ∨ s.length ≤ reach path.str pathIn) :
    Appended base stack pathIn path out := by
  constructor
  · exact later.size.trans size
  · rw [later.str, components]
  · exact later.long.trans room
  · intro s member
    obtain old | bound := later.seen s member
    · exact wrote s old
    · exact .inr (bound.trans room)

/-- The string at the last slash, when the stack is not empty. -/
theorem strrchr_render {path base top : Str} {below : List Str}
    (held : path = base ++ render (below ++ [top])) (plain : slash ∉ top) :
    strrchr path slash = some (base ++ render below).length ∧
      path.take (base ++ render below).length = base ++ render below := by
  have shape : path = (base ++ render below) ++ slash :: top := by
    rw [held, render_append, render_singleton, List.append_assoc]
  rw [shape]
  exact ⟨strrchr_append _ top slash plain, List.take_left⟩

/-- The invariant of the loop: the string is the starting directory and the
rendered stack, and the counter is the height of the stack. -/
theorem appendPathLoop_spec (fuel : Nat) (path : HeapStr) (base : Str) (stack : List Str)
    (pathIn : Str) (enough : pathIn.length ≤ fuel) (held : path.str = base ++ render stack)
    (plain : ∀ c ∈ stack, slash ∉ c) :
    ∃ out, appendPathLoop fuel path stack.length pathIn = some out ∧
      Appended base stack pathIn path out := by
  induction fuel generalizing path stack pathIn with
  | zero =>
    obtain rfl := List.eq_nil_of_length_eq_zero (Nat.le_zero.mp enough)
    exact ⟨path, rfl, appended_nil held⟩
  | succ fuel ih =>
    by_cases ended : pathIn = []
    · subst ended
      exact ⟨path, by simp [appendPathLoop], appended_nil held⟩
    · have round := round_of_loop pathIn
      have len : strcspn pathIn [slash] = (pathIn.take (strcspn pathIn [slash])).length := by
        rw [take_strcspn]
        rfl
      simp only [appendPathLoop, ended, if_false]
      generalize (pathIn.drop (strcspn pathIn [slash])).drop
        (strspn (pathIn.drop (strcspn pathIn [slash])) [slash]) = rest at round ⊢
      generalize pathIn.take (strcspn pathIn [slash]) = node at round len ⊢
      rw [len]
      have shorter : rest.length ≤ fuel := by
        have nonempty := List.length_pos_of_ne_nil ended
        rcases round.length with ⟨rfl, _⟩ | taken
        · simp
        · omega
      have components := round.components
      have same_room := round.reach_skip ended path.str path.str le_rfl
      by_cases empty : node = []
      · -- slashes in front: nothing is appended
        subst empty
        obtain ⟨out, run, later⟩ := ih path stack rest shorter held plain
        refine ⟨out, by simpa using run, later.round rfl ?_ same_room fun _ => .inl⟩
        rw [components, if_pos rfl, List.nil_append]
      · have pos : node.length ≠ 0 := by simpa using empty
        simp only [pos, if_false]
        rw [if_neg empty, List.singleton_append] at components
        by_cases up : node = dotdot
        · have same : klStreq node dotdot = true := (klStreq_iff _ _).mpr up
          simp only [same, Bool.not_true, Bool.false_eq_true, if_false]
          rcases List.eq_nil_or_concat stack with rfl | ⟨below, top, rfl⟩
          · -- the counter is zero: `..` is dropped at the starting directory
            obtain ⟨out, run, later⟩ := ih path [] rest shorter held plain
            refine ⟨out, by simpa using run, later.round rfl ?_ same_room fun _ => .inl⟩
            simp [components, PathStack.push, up]
          · -- the newest component of this call is cut off at its slash
            rw [List.concat_eq_append] at held plain ⊢
            obtain ⟨last, cut⟩ := strrchr_render held (plain top (by simp))
            have shrinks : (base ++ render below).length ≤ path.str.length := by
              rw [← cut]
              exact List.length_take_le' _ _
            obtain ⟨out, run, later⟩ := ih (path.write (base ++ render below)) below rest shorter
              rfl fun c member => plain c (List.mem_append_left _ member)
            refine ⟨out, ?_, later.round rfl ?_
              (round.reach_skip ended path.str _ shrinks) fun s member => ?_⟩
            · simp only [last, cut]
              simpa using run
            · simp [components, PathStack.push, up]
            · obtain rfl | older := List.mem_cons.mp member
              · exact .inr (shrinks.trans (Nat.le_add_right _ _))
              · exact .inl older
        · -- any other component is appended and counted
          have differs : klStreq node dotdot = false := (klStreq_eq_false _ _).mpr up
          simp only [differs, Bool.not_false, if_true]
          have plain' : ∀ c ∈ stack ++ [node], slash ∉ c := by
            intro c member
            rcases List.mem_append.mp member with old | new
            · exact plain c old
            · exact List.mem_singleton.mp new ▸ round.plain
          obtain ⟨out, run, later⟩ := ih ((path.strcat [slash]).strcat node) (stack ++ [node]) rest
            shorter (by simp [held]) plain'
          obtain ⟨room, fits⟩ := round.reach_append ended path.str
          refine ⟨out, by simpa using run, later.round rfl ?_ room fun s member => ?_⟩
          · simp [components, PathStack.push, up]
          · simp only [HeapStr.strcat_seen, HeapStr.strcat_str, List.mem_cons] at member
            rcases member with rfl | rfl | older
            · exact .inr fits
            · have first := fits
              simp only [List.length_append, List.length_singleton] at first ⊢
              exact .inr (by omega)
            · exact .inl older

/-- One call from an empty stack. -/
theorem appendPath_spec (path : HeapStr) (pathIn : Str) :
    ∃ out, appendPath path pathIn = some out ∧ Appended path.str [] pathIn path out :=
  appendPathLoop_spec pathIn.length path path.str [] pathIn le_rfl (by simp) (by simp)

/-- The buffer ends up with root, jail and path, and every string on the way
fits in it with its terminator. -/
theorem buildPath_spec (diskR jail pathIn : Str) :
    ∃ out, buildPath diskR jail pathIn = some out ∧
      out.size = diskR.length + pathIn.length + jail.length + 3 ∧
      out.str = diskR ++ render (remaining jail) ++ render (remaining pathIn) ∧
      ∀ s ∈ out.seen, s.length + 1 ≤ out.size := by
  let path := HeapStr.create (diskR.length + pathIn.length + jail.length + 3) diskR
  have jailed : (if jail.length ≠ 0 then appendPath path jail else some path) =
      appendPath path jail := by
    cases jail <;> simp [appendPath, appendPathLoop]
  obtain ⟨first, first_run, in_jail⟩ := appendPath_spec path jail
  obtain ⟨out, run, in_path⟩ := appendPath_spec first pathIn
  have start : path.str = diskR ∧ path.seen = [diskR] := ⟨rfl, rfl⟩
  have size : out.size = diskR.length + pathIn.length + jail.length + 3 :=
    in_path.size.trans in_jail.size
  -- the bound is met with room for the terminator by the longest string of each call
  have jail_reach := reach_le path.str jail
  have path_reach := reach_le first.str pathIn
  have jail_long := in_jail.long
  rw [start.1] at jail_reach jail_long
  refine ⟨out, ?_, size, by rw [in_path.str, in_jail.str]; rfl, fun s member => ?_⟩
  · simp only [buildPath]
    rw [jailed, first_run]
    exact run
  · obtain old | bound := in_path.seen s member
    · obtain oldest | early := in_jail.seen s old
      · have same : s = diskR := by simpa [start.2] using oldest
        rw [same]
        omega
      · rw [start.1] at early
        omega
    · omega

theorem remaining_good {path c : Str} (member : c ∈ remaining path) :
    c ≠ [] ∧ slash ∉ c ∧ c ≠ dotdot := by
  obtain ⟨present, not_up⟩ := PathStack.mem_resolve dotdot member
  obtain ⟨nonempty, plain⟩ := mem_pathComponents path c present
  exact ⟨nonempty, plain, not_up⟩

/-- How a translation that goes on to a device ends. -/
theorem vfsTranslatePath_built {os : DiskOs} {mount : MountCall} {vfs : Vfs} {stack pathIn device rest : Str}
    {real : HeapStr} (chosen : splitDevice vfs stack pathIn = .ok (some device, rest))
    (not_debug : deviceName device ≠ bytes "debug")
    (succeeds : (vfsTranslatePath os mount vfs stack pathIn).1 = .ok real) :
    ∃ root, (diskRoot os mount vfs.mounts (deviceName device)).1 = .ok root ∧
      buildPath root (jailFor vfs device) rest = some real := by
  have name_differs : klStreq (deviceName device) (bytes "debug") = false :=
    (klStreq_eq_false _ _).mpr not_debug
  cases device with
  | nil => simp [vfsTranslatePath, chosen] at succeeds
  | cons first more =>
    simp only [vfsTranslatePath, chosen, name_differs, Bool.false_eq_true, if_false] at succeeds
    cases mounted : diskRoot os mount vfs.mounts (deviceName (first :: more)) with
    | mk result after =>
      cases result with
      | fail errno => simp [mounted] at succeeds
      | crash => simp [mounted] at succeeds
      | ok root =>
        cases built : buildPath root (jailFor vfs (first :: more)) rest with
        | none => simp [mounted, built] at succeeds
        | some out =>
          simp only [mounted, built, Outcome.ok.injEq] at succeeds
          exact ⟨root, rfl, by rw [built, succeeds]⟩

/-! ### Sequences of calls -/

inductive VfsCall where
  | setRoot (root : Option Str)
  | setJail (jail : Option Str)

def VfsCall.apply (vfs : Vfs) : VfsCall → Vfs
  | .setRoot root => vfsSetRoot vfs root
  | .setJail jail => vfsSetJail vfs jail

/-- The state after a sequence of calls, from the two NULL pointers. -/
def runVfsCalls (mounts : List KlDisk) (calls : List VfsCall) : Vfs :=
  calls.foldl VfsCall.apply ⟨none, none, mounts⟩

/-- The result is the directory of the device, the components left of the jail
and components of the path, and the buffer was never overrun. -/
def Contained (os : DiskOs) (mount : MountCall) (vfs : Vfs) (device rest : Str)
    (path : HeapStr) : Prop :=
  ∃ root jail components,
    (diskRoot os mount vfs.mounts (deviceName device)).1 = .ok root ∧
    path.str = root ++ render jail ++ render components ∧
    jail = remaining (jailFor vfs device) ∧ components ⊆ pathComponents rest ∧
    (∀ c ∈ jail ++ components, c ≠ [] ∧ slash ∉ c ∧ c ≠ dotdot) ∧
    path.size = root.length + rest.length + (jailFor vfs device).length + 3 ∧
    ∀ s ∈ path.seen, s.length + 1 ≤ path.size

/-- Jail containment, after any calls that set the root and the jail. -/
theorem vfsTranslatePath_contained (os : DiskOs) (mount : MountCall) (mounts : List KlDisk)
    (calls : List VfsCall) (stack pathIn device rest : Str) (path : HeapStr)
    (chosen : splitDevice (runVfsCalls mounts calls) stack pathIn = .ok (some device, rest))
    (not_debug : deviceName device ≠ bytes "debug")
    (succeeds : (vfsTranslatePath os mount (runVfsCalls mounts calls) stack pathIn).1 = .ok path) :
    Contained os mount (runVfsCalls mounts calls) device rest path := by
  generalize runVfsCalls mounts calls = vfs at chosen succeeds ⊢
  obtain ⟨root, mounted, built⟩ := vfsTranslatePath_built chosen not_debug succeeds
  obtain ⟨out, run, size, str, seen⟩ := buildPath_spec root (jailFor vfs device) rest
  obtain rfl : out = path := Option.some.inj (run.symm.trans built)
  refine ⟨root, _, remaining rest, mounted, str, rfl, fun c hc => ?_, fun c hc => ?_, size, seen⟩
  · exact (PathStack.mem_resolve dotdot hc).1
  · rcases List.mem_append.mp hc with in_jail | in_path
    · exact remaining_good in_jail
    · exact remaining_good in_path

theorem vfsTranslatePath_contained_jailed :
    Contained ⟨none, fun _ => false, fun _ _ => none, fun _ => []⟩ (fun _ _ _ => none)
      (runVfsCalls [] [.setRoot (some (bytes "rootfs")), .setJail (some (bytes "/k"))])
      (bytes "rootfs") (bytes "../x")
      ⟨10, bytes "//k/x", [bytes "//k/x", bytes "//k/", bytes "//k", bytes "//", bytes "/"]⟩ :=
  vfsTranslatePath_contained _ _ _ _ [] (bytes "../x") _ _ _ (by decide) (by decide) (by decide)

end KexecLoader
