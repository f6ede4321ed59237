import KexecLoader.TarFidelity

/-!
# tar_mkdirs makes the directories of a path one after another

The recursion cuts the path at its last slash and comes back to make what it has cut
off, so that the shortest prefix is made first.
-/
namespace KexecLoader

open FileTree

/-- The prefixes of a path that end in front of a slash, but for a slash at its start;
the shortest comes first. -/
def parentPrefixes (path : Str) : List Str :=
  ((List.range path.length).filter fun i => 0 < i ∧ path[i]? = some slash).map path.take

/-- One `mkdir` after another, up to the first that fails with another error than
EEXIST. -/
def makeDirs : List Str → Os → Bool × Os
  | [], os => (true, os)
  | dir :: dirs, os =>
    match mkdir dir os with
    | (none, os) => makeDirs dirs os
    | (some errno, os) =>
      if errno = EEXIST then makeDirs dirs os
      else (false, os.printD (bytes "Error creating " ++ dir ++ bytes ": " ++ os.strerror errno))

/-- EEXIST is what `mkdir` finds out, and no failure. -/
def Os.Honest (os : Os) : Prop := ∀ n, ∀ fault ∈ os.faults n, fault.errno ≠ EEXIST

/-- A path leads to something: to a directory, or to a file that was there before. -/
def Present (path : Str) (before after : Os) : Prop :=
  ∃ loc, namei after.tree path = .ok loc ∧ (after.tree loc = some .dir ∨
    ∃ content, after.tree loc = some (.file content) ∧ before.tree loc = some (.file content))

/-! ### The prefixes -/

theorem parentPrefixes_plain {path : Str} (plain : slash ∉ path) : parentPrefixes path = [] := by
  rw [parentPrefixes, List.map_eq_nil_iff, List.filter_eq_nil_iff]
  intro i _ found
  exact plain (List.mem_of_getElem? (of_decide_eq_true found).2)

theorem parentPrefixes_root {tail : Str} (plain : slash ∉ tail) :
    parentPrefixes (slash :: tail) = [] := by
  rw [parentPrefixes, List.map_eq_nil_iff, List.filter_eq_nil_iff]
  intro i _ found
  obtain ⟨pos, at_i⟩ := of_decide_eq_true found
  obtain ⟨i, rfl⟩ : ∃ k, i = k + 1 := ⟨i - 1, by omega⟩
  rw [List.getElem?_cons_succ] at at_i
  exact plain (List.mem_of_getElem? at_i)

/-- The longest prefix ends in front of the last slash. -/
theorem parentPrefixes_last {front tail : Str} (nonempty : front ≠ []) (plain : slash ∉ tail) :
    parentPrefixes (front ++ slash :: tail) = parentPrefixes front ++ [front] := by
  have size : (front ++ slash :: tail).length = front.length + 1 + tail.length := by
    simp only [List.length_append, List.length_cons]
    omega
  have before : ∀ i ∈ List.range front.length, (front ++ slash :: tail)[i]? = front[i]? ∧
      (front ++ slash :: tail).take i = front.take i := by
    intro i member
    have inside := List.mem_range.mp member
    exact ⟨List.getElem?_append_left inside, List.take_append_of_le_length (Nat.le_of_lt inside)⟩
  have behind : ((List.range tail.length).map (front.length + 1 + ·)).filter
      (fun i => decide (0 < i ∧ (front ++ slash :: tail)[i]? = some slash)) = [] := by
    rw [List.filter_eq_nil_iff]
    intro i member found
    obtain ⟨j, -, rfl⟩ := List.mem_map.mp member
    have at_j := (of_decide_eq_true found).2
    rw [Nat.add_assoc, List.getElem?_append_right (by omega), Nat.add_sub_cancel_left, Nat.add_comm 1,
      List.getElem?_cons_succ] at at_j
    exact plain (List.mem_of_getElem? at_j)
  have here : [front.length].filter
      (fun i => decide (0 < i ∧ (front ++ slash :: tail)[i]? = some slash)) = [front.length] := by
    simp [List.length_pos_iff, nonempty]
  rw [parentPrefixes, size, List.range_add, List.range_succ, List.filter_append, List.filter_append,
    behind, List.append_nil, here, List.map_append, List.map_cons, List.map_nil, List.take_left,
    parentPrefixes]
  congr 1
  rw [List.filter_congr fun i member => by rw [(before i member).1]]
  exact List.map_congr_left fun i member => (before i (List.mem_of_mem_filter member)).2

/-- From the end of a path: a last component without a slash, behind what is left when
the path is cut at its last slash. -/
@[elab_as_elim]
theorem path_induction {motive : Str → Prop} (plain : ∀ path, slash ∉ path → motive path)
    (last : ∀ front tail, slash ∉ tail → motive front → motive (front ++ slash :: tail))
    (path : Str) : motive path := by
  induction len : path.length using Nat.strongRecOn generalizing path with
  | _ n ih =>
    by_cases slashes : slash ∈ path
    · obtain ⟨front, tail, rfl, no_slash⟩ := split_at_last slashes
      rw [List.length_append, List.length_cons] at len
      exact last front tail no_slash (ih front.length (by omega) front rfl)
    · exact plain path slashes

/-- The prefixes of a prefix are those before it. -/
theorem parentPrefixes_before (path : Str) {before after : List Str} {dir : Str}
    (split : parentPrefixes path = before ++ dir :: after) : parentPrefixes dir = before := by
  induction path using path_induction generalizing after with
  | plain path plain => simp [parentPrefixes_plain plain] at split
  | last front tail plain ih =>
    by_cases root : front = []
    · subst root
      simp [parentPrefixes_root plain] at split
    · rw [parentPrefixes_last root plain] at split
      obtain rfl | ⟨after, last, rfl⟩ := List.eq_nil_or_concat' after
      · obtain ⟨same, last⟩ := List.append_inj' split rfl
        obtain rfl : front = dir := List.singleton_injective last
        exact same
      · rw [← List.cons_append, ← List.append_assoc] at split
        exact ih (List.append_inj' split rfl).1

theorem parentPrefixes_components {path dir : Str} (member : dir ∈ parentPrefixes path) :
    pathComponents dir <+: pathComponents path := by
  induction path using path_induction with
  | plain path plain => simp [parentPrefixes_plain plain] at member
  | last front tail plain ih =>
    by_cases root : front = []
    · subst root
      simp [parentPrefixes_root plain] at member
    · rw [parentPrefixes_last root plain] at member
      rw [pathComponents_slash]
      obtain above | here := List.mem_append.mp member
      · exact (ih above).trans (List.prefix_append _ _)
      · rw [List.mem_singleton.mp here]
        exact List.prefix_append _ _

/-! ### The recursion -/

theorem makeDirs_append (first last : List Str) (os : Os) :
    makeDirs (first ++ last) os =
      match makeDirs first os with
      | (false, os) => (false, os)
      | (true, os) => makeDirs last os := by
  induction first generalizing os with
  | nil => rfl
  | cons dir first ih =>
    rw [List.cons_append, makeDirs, makeDirs]
    cases mkdir dir os with
    | mk err os₁ =>
      cases err with
      | none => exact ih os₁
      | some errno =>
        dsimp only
        split
        · exact ih os₁
        · rfl

theorem strrchr_none {path : Str} (plain : slash ∉ path) : strrchr path slash = none := by
  induction path with
  | nil => rfl
  | cons c path ih =>
    simp only [List.mem_cons, not_or] at plain
    simp [strrchr, ih plain.2, Ne.symm plain.1]

/-- What fuel there is does not matter, if there is enough for the path. -/
theorem tarMkdirsRec_makeDirs (fuel : Nat) (path : Str) (short : path.length < 128)
    (enough : path.length < fuel) (os : Os) :
    tarMkdirsRec fuel path os = makeDirs (parentPrefixes path) os := by
  induction fuel generalizing path os with
  | zero => omega
  | succ fuel ih =>
    have whole : path.take 128 = path := List.take_of_length_le (by omega)
    by_cases slashes : slash ∈ path
    · obtain ⟨front, tail, rfl, plain⟩ := split_at_last slashes
      simp only [tarMkdirsRec, whole, strrchr_append front tail slash plain]
      by_cases root : front = []
      · subst root
        rw [List.nil_append, parentPrefixes_root plain]
        rfl
      · have pos : front.length ≠ 0 := mt List.eq_nil_of_length_eq_zero root
        rw [List.length_append, List.length_cons] at short enough
        rw [if_neg pos, List.take_left, parentPrefixes_last root plain, makeDirs_append]
        -- without a slash there is nothing above
        have above : (if slash ∈ front then tarMkdirsRec fuel front os else (true, os)) =
            makeDirs (parentPrefixes front) os := by
          split
          next => exact ih front (by omega) (by omega) os
          next plain_front =>
            rw [parentPrefixes_plain plain_front]
            rfl
        rw [above]
        cases makeDirs (parentPrefixes front) os with
        | mk made os₁ =>
          cases made with
          | false => rfl
          | true =>
            dsimp only
            rw [makeDirs]
            cases mkdir front os₁ with
            | mk err os₂ => cases err <;> rfl
    · simp only [tarMkdirsRec, whole, strrchr_none slashes, parentPrefixes_plain slashes]
      rfl

/-! ### Walking a path -/

/-- On the way to where a path leads are the root and the places that its prefixes
lead to. -/
theorem walk_parents (path : Str) : ∀ i < (pathComponents path).length,
    lexical dot dotdot ((pathComponents path).take i) = [] ∨
      ∃ dir ∈ parentPrefixes path, lexical dot dotdot ((pathComponents path).take i) = location dir := by
  induction path using path_induction with
  | plain path plain =>
    intro i inside
    rw [pathComponents_plain path plain] at inside ⊢
    split at inside
    next => simp at inside
    next nonempty =>
      obtain rfl : i = 0 := by simpa using inside
      exact .inl rfl
  | last front tail plain ih =>
    intro i inside
    have behind := pathComponents_plain tail plain
    have few : (pathComponents tail).length ≤ 1 := by
      rw [behind]
      split <;> simp
    rw [pathComponents_slash, List.length_append] at inside
    rw [pathComponents_slash, List.take_append_of_le_length (by omega)]
    by_cases root : front = []
    · subst root
      simp [lexical, PathStack.resolve]
    · rw [parentPrefixes_last root plain]
      by_cases all : i = (pathComponents front).length
      · rw [all, List.take_length]
        exact .inr ⟨front, by simp, rfl⟩
      · obtain here | ⟨dir, member, same⟩ := ih i (by omega)
        · exact .inl here
        · exact .inr ⟨dir, List.mem_append_left _ member, same⟩

/-- A path whose prefixes lead to directories leads where its text says. -/
theorem namei_of_parents {tree : FsTree} (root : tree [] = some .dir) {path : Str}
    (dirs : ∀ dir ∈ parentPrefixes path, tree (location dir) = some .dir) :
    namei tree path = .ok (location path) := by
  refine walk_of_lexical dot dotdot _ fun i inside => ?_
  obtain top | ⟨dir, member, same⟩ := walk_parents path i inside
  · rw [top, root]
  · rw [same, dirs dir member]

/-! ### What is there afterwards -/

/-- A call of `mkdir` leaves directories and files as they are. -/
theorem mkdir_keeps (path : Str) (os : Os) (l : List Str) (content : Str) :
    (mkdir path os).2.tree l = some (.file content) → os.tree l = some (.file content) := by
  unfold mkdir
  split
  · exact id
  · exact id
  next loc _ _ =>
    split
    · exact id
    · intro found
      rw [Os.update_tree] at found
      by_cases same : l = loc
      · simp [same] at found
      · rwa [Tree.set_other _ _ same] at found

theorem mkdir_faults (path : Str) (os : Os) : (mkdir path os).2.faults = os.faults := by
  unfold mkdir
  split
  · rfl
  · rfl
  · dsimp only
    split <;> rfl

/-- A call that does not fail, or finds the path taken, leaves something there. -/
theorem mkdir_present {path : Str} {os os' : Os} {err : Option Nat} (honest : os.Honest)
    (called : mkdir path os = (err, os')) (harmless : err = none ∨ err = some EEXIST) :
    Present path os os' := by
  unfold mkdir at called
  split at called
  next fault struck =>
    -- a failure that has struck is not EEXIST
    cases called
    obtain no_error | same := harmless
    · cases no_error
    · exact absurd (Option.some.inj same) (honest _ fault struck)
  next obstacle _ _ =>
    cases called
    cases obstacle <;> exact absurd harmless (by decide)
  next loc _ found =>
    dsimp only at called
    split at called
    next taken =>
      cases called
      refine ⟨loc, found, ?_⟩
      obtain ⟨node, there⟩ := Option.isSome_iff_exists.mp taken
      cases node with
      | dir => exact .inl there
      | file content => exact .inr ⟨content, there, there⟩
    next free =>
      cases called
      have empty : os.tree loc = none := by simpa using free
      refine ⟨loc, walk_mono dot dotdot _ (fun l dir => ?_) found, .inl (Tree.set_same _ _ _)⟩
      rw [Os.update_tree, Tree.set_other _ _ fun same => ?_]
      · exact dir
      · rw [same, empty] at dir
        cases dir

theorem makeDirs_present (dirs : List Str) (os : Os) (honest : os.Honest)
    (made : (makeDirs dirs os).1 = true) :
    ∀ dir ∈ dirs.getLast?, Present dir os (makeDirs dirs os).2 := by
  induction dirs generalizing os with
  | nil => simp
  | cons dir dirs ih =>
    rw [makeDirs] at made ⊢
    have kept := mkdir_keeps dir os
    have faults := mkdir_faults dir os
    cases called : mkdir dir os with
    | mk err os₁ =>
      rw [called] at made kept faults
      have honest₁ : os₁.Honest := fun n => by rw [faults]; exact honest n
      -- the rest of the list, behind a call that does no harm
      have rest (harmless : err = none ∨ err = some EEXIST) (made : (makeDirs dirs os₁).1 = true) :
          ∀ last ∈ (dir :: dirs).getLast?, Present last os (makeDirs dirs os₁).2 := by
        intro last member
        cases dirs with
        | nil =>
          obtain rfl : dir = last := by simpa using member
          exact mkdir_present honest called harmless
        | cons next dirs =>
          rw [List.getLast?_cons_cons] at member
          obtain ⟨loc, found, there⟩ := ih os₁ honest₁ made last member
          exact ⟨loc, found, there.imp_right fun ⟨content, now, before⟩ =>
            ⟨content, now, kept loc content before⟩⟩
      cases err with
      | none => exact rest (.inl rfl) made
      | some errno =>
        dsimp only at made ⊢
        split at made
        next same =>
          rw [if_pos same]
          exact rest (.inr (by rw [same])) made
        next => cases made

/-- `tar_mkdirs` comes to an end: it is one call of `mkdir` for each prefix, the
shortest first, and after a success the directory part of the path exists. -/
theorem tarMkdirs_parents (path : Str) (short : path.length < 128) (os : Os) (honest : os.Honest) :
    (∀ fuel, path.length < fuel → tarMkdirsRec fuel path os = tarMkdirs path os) ∧
      tarMkdirs path os = makeDirs (parentPrefixes path) os ∧
      ((tarMkdirs path os).1 = true →
        ∀ dir ∈ (parentPrefixes path).getLast?, Present dir os (tarMkdirs path os).2) := by
  have same : tarMkdirs path os = makeDirs (parentPrefixes path) os :=
    tarMkdirsRec_makeDirs _ path short (Nat.lt_succ_self _) os
  refine ⟨fun fuel enough => ?_, same, fun made => ?_⟩
  · rw [same, tarMkdirsRec_makeDirs fuel path short enough]
  · rw [same] at made ⊢
    exact makeDirs_present _ os honest made

/-- A doubled slash makes `mkdir` see the same directory again. -/
theorem tarMkdirs_parents_doubled :
    parentPrefixes (bytes "/a//b/c") = [bytes "/a", bytes "/a/", bytes "/a//b"] ∧
      Present (bytes "/a//b") (archiveOs []) (tarMkdirs (bytes "/a//b/c") (archiveOs [])).2 :=
  ⟨by decide, (tarMkdirs_parents (bytes "/a//b/c") (by decide) (archiveOs [])
    (fun _ _ struck => by cases struck)).2.2 (by decide) _ (by decide)⟩

end KexecLoader
