import KexecLoader.Library.PathStack
import Mathlib.Data.List.Infix

/-!
# A tree of directories and files

A tree says what stands at each location, the list of the components that lead
there from the root. Walking a path passes through directories only; `here`
stays where it is and `up` leads to the parent.
-/
namespace KexecLoader.FileTree

inductive Node (β : Type*) where
  | dir
  | file (content : β)
deriving DecidableEq

/-- What stands at each location. -/
abbrev Tree (α β : Type*) := List α → Option (Node β)

/-- Why a walk ends early. -/
inductive Obstacle where
  | missing
  | notDir
deriving DecidableEq

section
variable {α β : Type*} [DecidableEq α]

def Tree.set (tree : Tree α β) (loc : List α) (node : Option (Node β)) : Tree α β :=
  fun l => if l = loc then node else tree l

@[simp] theorem Tree.set_same (tree : Tree α β) (loc : List α) (node : Option (Node β)) :
    tree.set loc node loc = node := by simp [Tree.set]

theorem Tree.set_other (tree : Tree α β) {loc l : List α} (node : Option (Node β))
    (other : l ≠ loc) : tree.set loc node l = tree l := by simp [Tree.set, other]

@[simp] theorem Tree.set_self (tree : Tree α β) (loc : List α) : tree.set loc (tree loc) = tree := by
  funext l
  by_cases same : l = loc <;> simp [Tree.set, same]

@[simp] theorem Tree.set_set (tree : Tree α β) (loc : List α) (old node : Option (Node β)) :
    (tree.set loc old).set loc node = tree.set loc node := by
  funext l
  by_cases same : l = loc <;> simp [Tree.set, same]

/-! ### Walking -/

variable (here up : α)

def walkStep (tree : Tree α β) (cur : List α) (c : α) : Except Obstacle (List α) :=
  match tree cur with
  | none => .error .missing
  | some (.file _) => .error .notDir
  | some .dir => .ok (if c = here then cur else PathStack.push up cur c)

/-- Where a path leads: the location need not exist, but all before it has to be
directories. -/
def walk (tree : Tree α β) (path : List α) : Except Obstacle (List α) :=
  path.foldlM (walkStep here up tree) []

/-- Where a path leads by its text alone. -/
def lexical (path : List α) : List α := PathStack.resolve up (path.filter (· ≠ here))

theorem walk_concat (tree : Tree α β) (path : List α) (c : α) :
    walk here up tree (path ++ [c]) =
      (walk here up tree path).bind fun cur => walkStep here up tree cur c := by
  rw [walk, walk, List.foldlM_append]
  simp only [List.foldlM_cons, List.foldlM_nil, bind_pure]
  rfl

theorem lexical_concat (path : List α) (c : α) : lexical here up (path ++ [c]) =
    if c = here then lexical here up path else PathStack.push up (lexical here up path) c := by
  rw [lexical, List.filter_append, PathStack.resolve, PathStack.resolveFrom, List.foldl_append]
  by_cases same : c = here <;> simp [same, lexical, PathStack.resolve, PathStack.resolveFrom]

/-- A walk that succeeds leads where the text of the path says. -/
theorem walk_lexical (tree : Tree α β) (path : List α) {loc : List α}
    (walked : walk here up tree path = .ok loc) : loc = lexical here up path := by
  induction path using List.reverseRecOn generalizing loc with
  | nil => cases walked; rfl
  | append_singleton path c ih =>
    rw [walk_concat] at walked
    obtain ⟨cur, sofar, step⟩ : ∃ cur, walk here up tree path = .ok cur ∧
        walkStep here up tree cur c = .ok loc := by
      cases found : walk here up tree path with
      | error e => rw [found] at walked; cases walked
      | ok cur => exact ⟨cur, rfl, by rwa [found] at walked⟩
    have at_cur := ih sofar
    unfold walkStep at step
    split at step
    next => cases step
    next => cases step
    next =>
      obtain rfl := Except.ok.inj step
      rw [lexical_concat, at_cur]

/-- A walk needs the directories on its way and nothing else of the tree. -/
theorem walk_mono {tree tree' : Tree α β} (path : List α) {loc : List α}
    (dirs : ∀ l, tree l = some .dir → tree' l = some .dir)
    (walked : walk here up tree path = .ok loc) : walk here up tree' path = .ok loc := by
  induction path using List.reverseRecOn generalizing loc with
  | nil => exact walked
  | append_singleton path c ih =>
    rw [walk_concat] at walked ⊢
    cases found : walk here up tree path with
    | error e => rw [found] at walked; cases walked
    | ok cur =>
      rw [found] at walked
      rw [ih found]
      simp only [Except.bind, walkStep] at walked ⊢
      cases at_cur : tree cur with
      | none => rw [at_cur] at walked; cases walked
      | some node =>
        rw [at_cur] at walked
        cases node with
        | file content => cases walked
        | dir => rw [dirs cur at_cur]; exact walked

/-- A walk through directories goes where the text says, also upward. -/
theorem walk_of_lexical {tree : Tree α β} (path : List α)
    (dirs : ∀ i < path.length, tree (lexical here up (path.take i)) = some .dir) :
    walk here up tree path = .ok (lexical here up path) := by
  induction path using List.reverseRecOn with
  | nil => rfl
  | append_singleton path c ih =>
    rw [List.length_append, List.length_singleton] at dirs
    have sofar := ih fun i inside => by
      rw [← List.take_append_of_le_length (Nat.le_of_lt inside)]
      exact dirs i (by omega)
    have cur := dirs path.length (Nat.lt_succ_self _)
    rw [List.take_left] at cur
    rw [walk_concat, sofar, lexical_concat]
    simp [Except.bind, walkStep, cur]

theorem lexical_of_no_up {path : List α} (no_up : up ∉ path) :
    lexical here up path = path.filter (· ≠ here) := by
  rw [lexical, PathStack.resolve, PathStack.resolveFrom_of_not_mem, List.nil_append]
  exact fun member => no_up (List.mem_of_mem_filter member)

/-- Every location on the way, the last one included, is a directory. -/
def DirsTo (tree : Tree α β) (loc : List α) : Prop := ∀ l, l <+: loc → tree l = some .dir

omit [DecidableEq α] in
theorem DirsTo.upward {tree : Tree α β} {loc l : List α} (dirs : DirsTo tree loc)
    (below : l <+: loc) : DirsTo tree l := fun k h => dirs k (h.trans below)

variable {here up}

/-- The step from a directory, for a component that does not lead up. -/
theorem walkStep_dir {tree : Tree α β} {cur : List α} {c : α} (dir : tree cur = some .dir)
    (no_up : c ≠ up) :
    walkStep here up tree cur c = .ok (if c = here then cur else cur ++ [c]) := by
  simp [walkStep, dir, PathStack.push, no_up]

/-- Without `up`, a path through directories leads where its text says. -/
theorem walk_of_dirs {tree : Tree α β} (path : List α) (no_up : up ∉ path)
    (dirs : DirsTo tree (path.filter (· ≠ here))) :
    walk here up tree path = .ok (path.filter (· ≠ here)) := by
  -- from the end: the components before the last lead to a directory
  induction path using List.reverseRecOn with
  | nil => rfl
  | append_singleton path c ih =>
    simp only [List.mem_append, List.mem_singleton, not_or] at no_up
    rw [List.filter_append] at dirs
    have sofar := ih no_up.1 (dirs.upward (List.prefix_append _ _))
    have cur := dirs (path.filter (· ≠ here)) (List.prefix_append _ _)
    rw [walk_concat, sofar, Except.bind, walkStep_dir cur (Ne.symm no_up.2), List.filter_append]
    by_cases same : c = here <;> simp [same]

/-- The same when only the last component may be missing or a file. -/
theorem walk_concat_of_dirs {tree : Tree α β} (path : List α) (c : α) (no_up : up ∉ path ++ [c])
    (dirs : DirsTo tree (path.filter (· ≠ here))) :
    walk here up tree (path ++ [c]) = .ok ((path ++ [c]).filter (· ≠ here)) := by
  simp only [List.mem_append, List.mem_singleton, not_or] at no_up
  have cur := dirs _ (List.prefix_refl _)
  rw [walk_concat, walk_of_dirs path no_up.1 dirs, Except.bind,
    walkStep_dir cur (Ne.symm no_up.2), List.filter_append]
  by_cases same : c = here <;> simp [same]

/-! ### Making the directories on the way -/

/-- The tree with a directory at every location on the way to `loc` and at `loc`. -/
def ensureDirs (tree : Tree α β) (loc : List α) : Tree α β :=
  fun l => if l <+: loc then some .dir else tree l

/-- No location on the way is taken by a file. -/
def Unobstructed (tree : Tree α β) (loc : List α) : Prop :=
  ∀ l, l <+: loc → tree l = none ∨ tree l = some .dir

omit [DecidableEq α] in
theorem Unobstructed.upward {tree : Tree α β} {loc l : List α} (unobstructed : Unobstructed tree loc)
    (below : l <+: loc) : Unobstructed tree l := fun k h => unobstructed k (h.trans below)

theorem ensureDirs_dirsTo (tree : Tree α β) (loc : List α) : DirsTo (ensureDirs tree loc) loc :=
  fun _ below => if_pos below

theorem ensureDirs_apart {tree : Tree α β} {loc l : List α} (apart : ¬ l <+: loc) :
    ensureDirs tree loc l = tree l := if_neg apart

theorem ensureDirs_of_dirsTo {tree : Tree α β} {loc : List α} (dirs : DirsTo tree loc) :
    ensureDirs tree loc = tree := by
  funext l
  by_cases below : l <+: loc
  · rw [ensureDirs, if_pos below, dirs l below]
  · exact ensureDirs_apart below

/-- The last directory is made after those before it. -/
theorem ensureDirs_concat (tree : Tree α β) (loc : List α) (c : α) :
    ensureDirs tree (loc ++ [c]) = (ensureDirs tree loc).set (loc ++ [c]) (some .dir) := by
  funext l
  by_cases same : l = loc ++ [c]
  · simp [ensureDirs, same]
  · simp only [ensureDirs, List.prefix_concat_iff, same, false_or, Tree.set, if_false]

theorem ensureDirs_set (tree : Tree α β) (loc : List α) :
    (ensureDirs tree loc).set loc (some .dir) = ensureDirs tree loc := by
  rw [← ensureDirs_dirsTo tree loc loc (List.prefix_refl _), Tree.set_self]

theorem ensureDirs_unobstructed {tree : Tree α β} {loc : List α} (unobstructed : Unobstructed tree loc)
    (made : List α) : Unobstructed (ensureDirs tree made) loc := by
  intro l below
  rw [ensureDirs]
  split
  · exact .inr rfl
  · exact unobstructed l below

instance [DecidableEq β] (tree : Tree α β) (loc : List α) : Decidable (DirsTo tree loc) :=
  decidable_of_iff (∀ l ∈ loc.inits, tree l = some .dir) (by simp [DirsTo])

instance [DecidableEq β] (tree : Tree α β) (loc : List α) : Decidable (Unobstructed tree loc) :=
  decidable_of_iff (∀ l ∈ loc.inits, tree l = none ∨ tree l = some .dir) (by simp [Unobstructed])

/-! ### Placing files -/

/-- A new file and the directories on its way; `scratch` is where it stood before.
A location that is taken keeps what it has. -/
def place (scratch : List α) (tree : Tree α β) (file : List α × β) : Tree α β :=
  let made := ensureDirs tree file.1.dropLast
  if (made file.1).isSome then made
  else (made.set file.1 (some (.file file.2))).set scratch none

/-- The files, one after another. -/
def placeAll (scratch : List α) (tree : Tree α β) (files : List (List α × β)) : Tree α β :=
  files.foldl (place scratch) tree

/-- A location that is not the root and is not reached through `scratch`. -/
structure Placeable (scratch loc : List α) : Prop where
  below_root : loc ≠ []
  apart : ¬ scratch <+: loc

section
variable {scratch : List α} {tree : Tree α β} {file : List α × β}

omit [DecidableEq α] in
theorem Placeable.ne_scratch {loc l : List α} (ok : Placeable scratch loc) (below : l <+: loc) :
    l ≠ scratch := fun same => ok.apart (same ▸ below)

omit [DecidableEq α] in
theorem Placeable.not_below_parent {loc : List α} (ok : Placeable scratch loc) :
    ¬ loc <+: loc.dropLast := by
  intro below
  have shorter := below.length_le
  have pos := List.length_pos_iff.mpr ok.below_root
  rw [List.length_dropLast] at shorter
  omega

theorem Placeable.ensureDirs_parent {loc : List α} (ok : Placeable scratch loc) :
    ensureDirs tree loc.dropLast loc = tree loc := ensureDirs_apart ok.not_below_parent

/-- The directories on the way may be made before. -/
theorem place_ensureDirs (loc : List α) (content : β) :
    place scratch (ensureDirs tree loc.dropLast) (loc, content) =
      place scratch tree (loc, content) := by
  simp only [place, ensureDirs_of_dirsTo (ensureDirs_dirsTo tree loc.dropLast)]

theorem place_taken (ok : Placeable scratch file.1) (taken : (tree file.1).isSome = true) :
    place scratch tree file = ensureDirs tree file.1.dropLast := by
  rw [place, ok.ensureDirs_parent, if_pos taken]

theorem place_free (ok : Placeable scratch file.1) (free : tree file.1 = none) :
    place scratch tree file =
      ((ensureDirs tree file.1.dropLast).set file.1 (some (.file file.2))).set scratch none := by
  rw [place, ok.ensureDirs_parent, free]
  rfl

/-- Renaming the file away from `scratch` is the last step of a place. -/
theorem place_by_rename {loc : List α} (content : β) (ok : Placeable scratch loc)
    (free : tree loc = none) (dirs : DirsTo tree loc.dropLast) :
    ((tree.set scratch (some (.file content))).set loc (some (.file content))).set scratch none =
      place scratch tree (loc, content) := by
  rw [place_free ok free, ensureDirs_of_dirsTo dirs]
  funext l
  by_cases gone : l = scratch
  · simp [gone]
  · simp [Tree.set, gone]

theorem place_at (ok : Placeable scratch file.1) (free : tree file.1 = none) :
    place scratch tree file file.1 = some (.file file.2) := by
  rw [place_free ok free, Tree.set_other _ _ (ok.ne_scratch (List.prefix_refl _)), Tree.set_same]

theorem place_scratch (ok : Placeable scratch file.1) :
    place scratch tree file scratch =
      if (tree file.1).isSome then tree scratch else none := by
  have apart : ¬ scratch <+: file.1.dropLast := fun h =>
    ok.apart (h.trans (List.dropLast_prefix _))
  cases free : tree file.1 with
  | none => simp [place_free ok free]
  | some node =>
    rw [place_taken ok (by simp [free]), ensureDirs_apart apart]
    rfl

/-- Away from the file a place changes only by becoming a directory. -/
theorem place_other {l : List α} (other : l ≠ file.1) (kept : l ≠ scratch) :
    place scratch tree file l = if l <+: file.1.dropLast then some .dir else tree l := by
  rw [place]
  split
  · rfl
  · rw [Tree.set_other _ _ kept, Tree.set_other _ _ other, ensureDirs]

theorem place_apart {l : List α} (apart : ¬ l <+: file.1) (kept : l ≠ scratch) :
    place scratch tree file l = tree l := by
  rw [place_other (fun same => apart (same ▸ List.prefix_refl _)) kept,
    if_neg fun below => apart (below.trans (List.dropLast_prefix _))]

theorem place_dirsTo_parent (ok : Placeable scratch file.1) :
    DirsTo (place scratch tree file) file.1.dropLast := by
  intro l below
  have other : l ≠ file.1 := fun same => ok.not_below_parent (same ▸ below)
  rw [place_other other (ok.ne_scratch (below.trans (List.dropLast_prefix _))), if_pos below]

theorem place_dir (ok : Placeable scratch file.1) {l : List α} (dir : tree l = some .dir)
    (kept : l ≠ scratch) : place scratch tree file l = some .dir := by
  by_cases other : l = file.1
  · -- the location is taken, so that nothing is placed there
    subst other
    rw [place_taken ok (by simp [dir]), ok.ensureDirs_parent, dir]
  · rw [place_other other kept, dir, ite_self]

theorem place_keeps_file {l : List α} {content : β} (ok : Placeable scratch file.1)
    (there : tree l = some (.file content)) (kept : l ≠ scratch)
    (last : l <+: file.1 → l = file.1) : place scratch tree file l = some (.file content) := by
  by_cases below : l <+: file.1
  · obtain rfl := last below
    rw [place_taken ok (by simp [there]), ok.ensureDirs_parent, there]
  · rw [place_apart below kept, there]

theorem place_unobstructed {loc : List α} (unobstructed : Unobstructed tree loc)
    (clear : ¬ file.1 <+: loc) (apart : ¬ scratch <+: loc) :
    Unobstructed (place scratch tree file) loc := by
  intro l below
  have other : l ≠ file.1 := fun same => clear (same ▸ below)
  have kept : l ≠ scratch := fun same => apart (same ▸ below)
  rw [place_other other kept]
  split
  · exact .inr rfl
  · exact unobstructed l below

end

/-- Files that do not stand in each other's way. -/
structure Disjoint (scratch : List α) (files : List (List α × β)) : Prop where
  placeable : ∀ file ∈ files, Placeable scratch file.1
  prefix_free : ∀ file ∈ files, ∀ other ∈ files, file.1 <+: other.1 → file.1 = other.1

section
variable {scratch : List α}

omit [DecidableEq α] in
theorem Disjoint.tail {file : List α × β} {files : List (List α × β)}
    (disjoint : Disjoint scratch (file :: files)) : Disjoint scratch files :=
  ⟨fun f member => disjoint.placeable f (.tail _ member),
    fun f hf g hg => disjoint.prefix_free f (.tail _ hf) g (.tail _ hg)⟩

omit [DecidableEq α] in
theorem Disjoint.front {files more : List (List α × β)} (disjoint : Disjoint scratch (files ++ more)) :
    Disjoint scratch files :=
  ⟨fun f member => disjoint.placeable f (List.mem_append_left _ member), fun f hf g hg =>
    disjoint.prefix_free f (List.mem_append_left _ hf) g (List.mem_append_left _ hg)⟩

omit [DecidableEq α] in
theorem Disjoint.back {files more : List (List α × β)} (disjoint : Disjoint scratch (files ++ more)) :
    Disjoint scratch more :=
  ⟨fun f member => disjoint.placeable f (List.mem_append_right _ member), fun f hf g hg =>
    disjoint.prefix_free f (List.mem_append_right _ hf) g (List.mem_append_right _ hg)⟩

omit [DecidableEq α] in
/-- No file lies on the way to another. -/
theorem Disjoint.not_below_parent {files : List (List α × β)} (disjoint : Disjoint scratch files)
    {file other : List α × β} (hf : file ∈ files) (ho : other ∈ files) :
    ¬ file.1 <+: other.1.dropLast := by
  intro below
  have same := disjoint.prefix_free file hf other ho (below.trans (List.dropLast_prefix _))
  exact (disjoint.placeable other ho).not_below_parent (same ▸ below)

theorem placeAll_apart {l : List α} (kept : l ≠ scratch) (files : List (List α × β))
    (tree : Tree α β) (apart : ∀ file ∈ files, ¬ l <+: file.1) :
    placeAll scratch tree files l = tree l := by
  induction files generalizing tree with
  | nil => rfl
  | cons file files ih =>
    rw [placeAll, List.foldl_cons, ← placeAll, ih _ fun f member => apart f (.tail _ member),
      place_apart (apart file (.head _)) kept]

theorem placeAll_dir {l : List α} (kept : l ≠ scratch) (files : List (List α × β))
    (tree : Tree α β) (ok : ∀ file ∈ files, Placeable scratch file.1) (dir : tree l = some .dir) :
    placeAll scratch tree files l = some .dir := by
  induction files generalizing tree with
  | nil => exact dir
  | cons file files ih =>
    exact ih _ (fun f member => ok f (.tail _ member)) (place_dir (ok file (.head _)) dir kept)

theorem placeAll_keeps_file {l : List α} {content : β} (kept : l ≠ scratch)
    (files : List (List α × β)) (tree : Tree α β)
    (ok : ∀ file ∈ files, Placeable scratch file.1)
    (last : ∀ file ∈ files, l <+: file.1 → l = file.1) (there : tree l = some (.file content)) :
    placeAll scratch tree files l = some (.file content) := by
  induction files generalizing tree with
  | nil => exact there
  | cons file files ih =>
    exact ih _ (fun f member => ok f (.tail _ member)) (fun f member => last f (.tail _ member))
      (place_keeps_file (ok file (.head _)) there kept (last file (.head _)))

theorem placeAll_append (tree : Tree α β) (before after : List (List α × β)) :
    placeAll scratch tree (before ++ after) =
      placeAll scratch (placeAll scratch tree before) after := List.foldl_append

/-- The first file for a location that was free is the one that stays. -/
theorem placeAll_first {before after : List (List α × β)} {loc : List α} {content : β}
    {tree : Tree α β} (disjoint : Disjoint scratch (before ++ (loc, content) :: after))
    (free : tree loc = none) (first : ∀ file ∈ before, file.1 ≠ loc) :
    placeAll scratch tree (before ++ (loc, content) :: after) loc = some (.file content) := by
  have member : (loc, content) ∈ before ++ (loc, content) :: after := by simp
  have ok := disjoint.placeable _ member
  have kept := ok.ne_scratch (List.prefix_refl loc)
  -- a file for this location would have to be the same, and there is none before
  have still_free : placeAll scratch tree before loc = none := by
    rw [placeAll_apart kept before tree, free]
    intro file earlier below
    have both : file ∈ before ++ (loc, content) :: after := List.mem_append_left _ earlier
    exact first file earlier (disjoint.prefix_free _ member file both below).symm
  have later : ∀ file ∈ after, file ∈ before ++ (loc, content) :: after :=
    fun file member => List.mem_append_right _ (.tail _ member)
  -- its own place fills the location, and the later files leave it alone
  rw [placeAll_append]
  exact placeAll_keeps_file kept after _
    (fun file hf => disjoint.placeable file (later file hf))
    (fun file hf => disjoint.prefix_free _ member file (later file hf))
    (place_at ok still_free)

theorem placeAll_scratch (files : List (List α × β)) (tree : Tree α β)
    (ok : ∀ file ∈ files, Placeable scratch file.1) (gone : tree scratch = none) :
    placeAll scratch tree files scratch = none := by
  induction files generalizing tree with
  | nil => exact gone
  | cons file files ih =>
    apply ih _ (fun f member => ok f (.tail _ member))
    rw [place_scratch (ok file (.head _)), gone, ite_self]

theorem placeAll_parents (files : List (List α × β)) (tree : Tree α β)
    (ok : ∀ file ∈ files, Placeable scratch file.1) :
    ∀ file ∈ files, DirsTo (placeAll scratch tree files) file.1.dropLast := by
  induction files generalizing tree with
  | nil => simp
  | cons file files ih =>
    have tail_ok : ∀ f ∈ files, Placeable scratch f.1 := fun f member => ok f (.tail _ member)
    intro f member
    obtain rfl | member := List.mem_cons.mp member
    · -- made with the file, and kept by the files after it
      intro l below
      refine placeAll_dir ?_ files _ tail_ok (place_dirsTo_parent (ok f (.head _)) l below)
      exact (ok f (.head _)).ne_scratch (below.trans (List.dropLast_prefix _))
    · exact ih _ tail_ok f member

end

/-! ### First come, first served -/

/-- The tree with nodes at the locations that were free; of several for one location
the first. -/
def filled (tree : Tree α β) (nodes : List (List α × Node β)) : Tree α β :=
  fun l => (tree l).or (nodes.lookup l)

section
variable {tree tree' : Tree α β} {l loc : List α} {node : Node β}

@[simp] theorem filled_nil : filled tree [] = tree := by
  funext l
  simp [filled]

theorem filled_kept (nodes : List (List α × Node β)) (taken : tree l = some node) :
    filled tree nodes l = some node := by simp [filled, taken]

/-- What fills a location does not depend on the tree. -/
theorem filled_agree (nodes : List (List α × Node β)) (free : tree l = none) (free' : tree' l = none) :
    filled tree nodes l = filled tree' nodes l := by simp [filled, free, free']

theorem filled_congr (nodes : List (List α × Node β)) (same : tree l = tree' l) :
    filled tree nodes l = filled tree' nodes l := by simp [filled, same]

theorem filled_append (nodes more : List (List α × Node β)) :
    filled tree (nodes ++ more) = filled (filled tree nodes) more := by
  funext l
  simp only [filled, List.lookup_append, Option.or_assoc]

theorem filled_other (other : l ≠ loc) : filled tree [(loc, node)] l = tree l := by
  simp [filled, List.lookup_cons, beq_eq_false_iff_ne.mpr other]

theorem filled_taken (taken : (tree loc).isSome = true) : filled tree [(loc, node)] = tree := by
  funext l
  by_cases same : l = loc
  · obtain ⟨old, there⟩ := Option.isSome_iff_exists.mp taken
    simp [filled, same, there]
  · exact filled_other same

theorem filled_free (free : tree loc = none) :
    filled tree [(loc, node)] = tree.set loc (some node) := by
  funext l
  by_cases same : l = loc
  · simp [filled, same, free]
  · rw [filled_other same, Tree.set_other _ _ same]

end

end

end KexecLoader.FileTree
