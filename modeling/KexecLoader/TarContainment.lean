import KexecLoader.TarPlaces

/-!
# Archives that stay inside their destination

A name is put behind the destination as it stands, so that its `..` components lead
out of it. An archive stays inside exactly if none of its names climbs above the
destination and goes on elsewhere.
-/
namespace KexecLoader

open FileTree

/-- Under a directory, or on the way to it. -/
def Inside (dir l : List Str) : Prop := dir <+: l ∨ l <+: dir

instance (dir l : List Str) : Decidable (Inside dir l) := inferInstanceAs (Decidable (_ ∨ _))

/-- What was not there before is inside the destination. -/
def StaysInside (dest : Str) (os os' : Os) : Prop :=
  ∀ l, l ≠ tmpLocation → os.tree l = none → os'.tree l ≠ none → Inside (location dest) l

/-- A destination that is named without `..` and not through the temporary file. -/
structure Destination (dest : Str) : Prop where
  no_up : dotdot ∉ pathComponents dest
  apart : ¬ tmpLocation <+: location dest

/-! ### The directories of the destination -/

section
variable {dest : Str} (ok : Destination dest)
include ok

/-- The directories on the way to the destination are inside. -/
theorem Destination.above {dir : Str} (member : dir ∈ parentPrefixes dest ++ [dest]) :
    location dir <+: location dest := by
  have front : pathComponents dir <+: pathComponents dest := by
    obtain member | same := List.mem_append.mp member
    · exact parentPrefixes_components member
    · rw [List.mem_singleton.mp same]
  rw [location_eq ok.no_up, location_eq fun up => ok.no_up (front.subset up)]
  exact front.filter _

omit ok in
theorem entryPath_short {entry : Str} (short : (entryPath dest entry).length < 128) :
    entryPath dest entry = dest ++ slash :: entry := by
  simp only [entryPath, List.length_append, List.length_take] at short
  rw [entryPath, List.take_of_length_le (by omega), List.take_of_length_le (by omega),
    List.append_assoc]
  rfl

/-- A name without slashes has the directories of the destination only. -/
theorem Destination.plain {entry dir : Str} (plain : slash ∉ entry)
    (short : (entryPath dest entry).length < 128)
    (member : dir ∈ parentPrefixes (entryPath dest entry)) : location dir <+: location dest := by
  rw [entryPath_short short] at member
  refine ok.above ?_
  by_cases empty : dest = []
  · rw [empty, List.nil_append, parentPrefixes_root plain] at member
    cases member
  · rwa [parentPrefixes_last empty plain] at member

end

/-! ### A tree around a place outside -/

/-- Everything is a directory, but for a place, what is below it, and the temporary
file. -/
def treeAround (place : List Str) : FsTree :=
  fun l => if place <+: l ∨ l = tmpLocation then none else some .dir

def osAround (place : List Str) : Os :=
  { tree := treeAround place, faults := fun _ => none, strerror := fun _ => [], calls := [], shown := [] }

section
variable {dest : Str} {place : List Str} (outside : ¬ Inside (location dest) place)
include outside

/-- What is inside is not below a place that is not. -/
theorem treeAround_inside {l : List Str} (inside : Inside (location dest) l) (apart : l ≠ tmpLocation) :
    treeAround place l = some .dir := by
  refine if_neg (not_or.mpr ⟨fun below => outside ?_, apart⟩)
  obtain under | above := inside
  · exact List.prefix_or_prefix_of_prefix under below
  · exact .inr (below.trans above)

theorem treeAround_root : treeAround place [] = some .dir :=
  treeAround_inside outside (.inr (List.nil_prefix)) (by decide)

end

section
variable {os : Os} (quiet : os.Quiet) (root : os.tree [] = some .dir)
include quiet root

/-- Where all directories exist, none is made. -/
theorem makeDirs_there (path : Str)
    (dirs : ∀ dir ∈ parentPrefixes path, os.tree (location dir) = some .dir) :
    ∃ os', makeDirs (parentPrefixes path) os = (true, os') ∧ os.Becomes os.tree os' := by
  induction path using path_induction with
  | plain path plain =>
    rw [parentPrefixes_plain plain]
    exact ⟨os, rfl, .refl os⟩
  | last front tail plain ih =>
    by_cases empty : front = []
    · subst empty
      rw [List.nil_append, parentPrefixes_root plain]
      exact ⟨os, rfl, .refl os⟩
    · rw [parentPrefixes_last empty plain] at dirs ⊢
      have above (dir : Str) (member : dir ∈ parentPrefixes front) :
          os.tree (location dir) = some .dir := dirs dir (List.mem_append_left _ member)
      have here := dirs front (by simp)
      obtain ⟨os₁, made, becomes₁⟩ := ih above
      have there : namei os₁.tree front = .ok (location front) := by
        rw [becomes₁.tree]
        exact namei_of_parents root above
      obtain ⟨err, os₂, called, harmless, becomes₂⟩ := mkdir_quiet (becomes₁.quiet quiet) there
        (.inr (by rw [becomes₁.tree, here]))
      rw [becomes₁.tree, ← here, Tree.set_self] at becomes₂
      refine ⟨os₂, ?_, becomes₁.trans becomes₂⟩
      rw [makeDirs_append, made]
      dsimp only
      rw [makeDirs, called]
      obtain rfl | rfl := harmless <;> rfl

/-- The first directory that does not exist is made. -/
theorem makeDirs_first (path : Str) {before after : List Str} {dir : Str}
    (split : parentPrefixes path = before ++ dir :: after)
    (dirs : ∀ dir ∈ before, os.tree (location dir) = some .dir) (free : os.tree (location dir) = none)
    (apart : location dir ≠ tmpLocation) :
    (makeDirs (parentPrefixes path) os).2.tree (location dir) ≠ none := by
  have above := parentPrefixes_before path split
  subst above
  obtain ⟨os₁, made, becomes₁⟩ := makeDirs_there quiet root dir dirs
  have there : namei os₁.tree dir = .ok (location dir) := by
    rw [becomes₁.tree]
    exact namei_of_parents root dirs
  obtain ⟨err, os₂, called, harmless, becomes₂⟩ := mkdir_quiet (becomes₁.quiet quiet) there
    (.inl (by rw [becomes₁.tree, free]))
  have new : os₂.tree (location dir) ≠ none := by
    rw [becomes₂.tree, Tree.set_same]
    simp
  have kept := (makeDirs_grows after os₂).kept _ apart new
  rw [split, makeDirs_append, made]
  dsimp only
  rw [makeDirs, called]
  obtain rfl | rfl := harmless <;> exact kept

end

/-! ### A file in such a tree -/

theorem behindBlocks_padded {size : Nat} {handle next : Handle}
    (behind : behindBlocks size handle = some next) : ∃ content padding : Str,
      handle = ⟨content ++ padding ++ next.rest, next.ending⟩ ∧ content.length = size ∧
        Padded content padding := by
  unfold behindBlocks at behind
  split at behind
  next whole =>
    cases behind
    have blocks : size ≤ blockBytes size ∧ blockBytes size < size + 512 ∧ 512 ∣ blockBytes size := by
      unfold blockBytes
      exact ⟨by omega, by omega, Nat.dvd_mul_left _ _⟩
    refine ⟨handle.rest.take size, (handle.rest.drop size).take (blockBytes size - size), ?_, ?_, ?_, ?_⟩
    · have parts : handle.rest.take size ++ (handle.rest.drop size).take (blockBytes size - size) =
          handle.rest.take (blockBytes size) := by
        rw [← List.take_add, Nat.add_sub_cancel' blocks.1]
      dsimp only
      rw [parts, List.take_append_drop]
    · rw [List.length_take]
      omega
    · rw [List.length_take]
      omega
    · have sum : (handle.rest.take size).length +
          ((handle.rest.drop size).take (blockBytes size - size)).length = blockBytes size := by
        rw [List.length_take, List.length_take, List.length_drop]
        omega
      rw [sum]
      exact blocks.2.2
  next => cases behind

section
variable {os : Os} (quiet : os.Quiet) (name : Str) {path : Str} {size : Nat} {handle next : Handle}
  (behind : behindBlocks size handle = some next) (led : namei os.tree path = .ok (location path))
include quiet behind led

/-- A file that exists is read over. -/
theorem extractFile_there (there : os.tree (location path) ≠ none) :
    ∃ os', extractFile name path size handle os = .ok (next, os') ∧ os.Becomes os.tree os' := by
  obtain ⟨content, padding, rfl, rfl, padded⟩ := behindBlocks_padded behind
  obtain ⟨os₁, checked, becomes⟩ := checkFile_quiet quiet led
  have found : (os.tree (location path)).isSome = true := Option.isSome_iff_ne_none.mpr there
  rw [found] at checked
  refine ⟨os₁, ?_, becomes⟩
  rw [extractFile, checked]
  exact extractBlocks_skip name next.rest next.ending _ content padding os₁ padded (Nat.le_refl _)

/-- A file that does not exist is made. -/
theorem extractFile_new (root : os.tree [] = some .dir) (free : os.tree (location path) = none)
    (apart : location path ≠ tmpLocation) (tmp : os.tree tmpLocation = none) :
    ∃ os', extractFile name path size handle os = .ok (next, os') ∧
      os'.tree (location path) ≠ none := by
  obtain ⟨content, padding, rfl, rfl, padded⟩ := behindBlocks_padded behind
  obtain ⟨os₁, checked, becomes₁⟩ := checkFile_quiet quiet led
  rw [free] at checked
  have quiet₁ := becomes₁.quiet quiet
  have tmp_led : namei os₁.tree tarfileTmp = .ok tmpLocation :=
    namei_tarfileTmp (by rw [becomes₁.tree, root])
  obtain ⟨os₂, opened, becomes₂⟩ := fopenWb_quiet quiet₁ tmp_led (by rw [becomes₁.tree, tmp]; simp)
  have quiet₂ := becomes₂.quiet quiet₁
  have empty : os₂.tree tmpLocation = some (.file []) := by rw [becomes₂.tree, Tree.set_same]
  obtain ⟨os₃, written, becomes₃⟩ := extractBlocks_write name next.rest next.ending content.length
    content padding os₂ padded (Nat.le_refl _) quiet₂ empty
  have quiet₃ := becomes₃.quiet quiet₂
  have closed := fclose_quiet quiet₃ tmpLocation
  -- the tree before the file is moved
  have tree₄ : (fclose tmpLocation os₃).tree = os.tree.set tmpLocation (some (.file content)) := by
    rw [closed.tree, becomes₃.tree, becomes₂.tree, becomes₁.tree, Tree.set_set, List.nil_append]
  have dirs : ∀ l, os.tree l = some .dir → (fclose tmpLocation os₃).tree l = some .dir := by
    intro l dir
    rw [tree₄, Tree.set_other _ _ fun same => ?_]
    · exact dir
    · rw [same, tmp] at dir
      cases dir
  obtain ⟨os₅, moved, becomes₅⟩ := rename_quiet (closed.quiet quiet₃)
    (namei_tarfileTmp (dirs [] root)) (walk_mono dot dotdot _ dirs led) (Ne.symm apart)
    (by rw [tree₄, Tree.set_same]; simp) (by rw [tree₄, Tree.set_other _ _ apart, free]; simp)
  refine ⟨os₅, ?_, ?_⟩
  · rw [extractFile, checked]
    dsimp only [Option.isSome]
    rw [opened]
    dsimp only
    rw [written]
    dsimp only
    rw [moved]
  · rw [becomes₅.tree, Tree.set_other _ _ apart, Tree.set_same, tree₄, Tree.set_same]
    simp

end

/-- An element of two lists in a row is in one of them. -/
theorem split_append {α : Type*} {xs ys before after : List α} {a : α}
    (split : xs ++ ys = before ++ a :: after) :
    (∃ rest, before = xs ++ rest ∧ ys = rest ++ a :: after) ∨ ∃ tail, xs = before ++ a :: tail := by
  obtain ⟨rest, front, back⟩ | ⟨rest, front, back⟩ := List.append_eq_append_iff.mp split
  · exact .inl ⟨rest, front, back⟩
  · cases rest with
    | nil => exact .inl ⟨[], by simpa using front.symm, back.symm⟩
    | cons b rest =>
      obtain ⟨rfl, -⟩ := List.cons.inj back
      exact .inr ⟨rest, front⟩

/-- A file behind its directories, which are made only for a name with slashes. -/
def extractAt (name path : Str) (slashes : Bool) (size : Nat) (handle : Handle) (os : Os) :
    Except Ended (Handle × Os) :=
  match if slashes then tarMkdirs path os else (true, os) with
  | (false, os) => .error ⟨0, some handle, false, os⟩
  | (true, os) => extractFile name path size handle os

def nodesAt (path : Str) (slashes : Bool) (size : Nat) (handle : Handle) :
    List (List Str × Node Str) :=
  (if slashes then madeDirs (path.length + 1) path else []) ++ fileNodes path size handle

section
variable {os : Os} (quiet : os.Quiet) (root : os.tree [] = some .dir) (name : Str) {path : Str}
  (short : path.length < 128) (slashes : Bool) {size : Nat} {handle : Handle}
include quiet root short

theorem extractAt_dirs (dirs : ∀ dir ∈ parentPrefixes path, os.tree (location dir) = some .dir) :
    ∃ os₁, extractAt name path slashes size handle os = extractFile name path size handle os₁ ∧
      os.Becomes os.tree os₁ := by
  cases slashes with
  | false => exact ⟨os, rfl, .refl os⟩
  | true =>
    obtain ⟨os₁, made, becomes⟩ := makeDirs_there quiet root path dirs
    rw [← tarMkdirsRec_makeDirs _ path short (Nat.lt_succ_self _) os] at made
    refine ⟨os₁, ?_, becomes⟩
    rw [extractAt, if_pos rfl, tarMkdirs, made]

/-- Where all the nodes exist, nothing changes. -/
theorem extractAt_there {next : Handle} (behind : behindBlocks size handle = some next)
    (dirs : ∀ dir ∈ parentPrefixes path, os.tree (location dir) = some .dir)
    (there : os.tree (location path) ≠ none) :
    ∃ os', extractAt name path slashes size handle os = .ok (next, os') ∧ os.Becomes os.tree os' := by
  obtain ⟨os₁, same, becomes₁⟩ := extractAt_dirs quiet root name short slashes dirs
  have led : namei os₁.tree path = .ok (location path) := by
    rw [becomes₁.tree]
    exact namei_of_parents root dirs
  obtain ⟨os₂, done, becomes₂⟩ := extractFile_there (becomes₁.quiet quiet) name behind led
    (by rwa [becomes₁.tree])
  rw [becomes₁.tree] at becomes₂
  exact ⟨os₂, same.trans done, becomes₁.trans becomes₂⟩

/-- The first node that does not exist is made. -/
theorem extractAt_makes {place : List Str} {node : Node Str} {before after : List (List Str × Node Str)}
    (split : nodesAt path slashes size handle = before ++ (place, node) :: after)
    (free : os.tree place = none) (apart : place ≠ tmpLocation) (tmp : os.tree tmpLocation = none)
    (dirs : ∀ node ∈ before, os.tree node.1 = some .dir)
    (slashless : slashes = false → ∀ dir ∈ parentPrefixes path, os.tree (location dir) = some .dir) :
    (afterPart (extractAt name path slashes size handle os)).tree place ≠ none := by
  have parent (dir : Str) (slashed : slashes = true) (member : dir ∈ parentPrefixes path) :
      (location dir, .dir) ∈ if slashes then madeDirs (path.length + 1) path else [] := by
    rw [if_pos slashed, madeDirs_eq _ path short (Nat.lt_succ_self _)]
    exact List.mem_map_of_mem (f := fun dir => (location dir, Node.dir)) member
  obtain ⟨rest, front, file⟩ | ⟨tail, front⟩ := split_append split
  · -- the file itself, behind directories that exist
    have parents : ∀ dir ∈ parentPrefixes path, os.tree (location dir) = some .dir := by
      intro dir member
      cases slashed : slashes with
      | false => exact slashless slashed dir member
      | true =>
        refine dirs (location dir, .dir) ?_
        rw [front]
        exact List.mem_append_left _ (parent dir slashed member)
    cases behind : behindBlocks size handle with
    | none => simp [fileNodes, behind] at file
    | some next =>
      obtain rfl : location path = place := by
        rw [fileNodes, behind] at file
        cases rest with
        | nil => exact (Prod.mk.inj (List.cons.inj file).1).1
        | cons x rest => simp at file
      obtain ⟨os₁, step, becomes₁⟩ := extractAt_dirs quiet root name short slashes parents
      rw [← becomes₁.tree] at root parents free tmp
      obtain ⟨os₂, done, new⟩ := extractFile_new (becomes₁.quiet quiet) name behind
        (namei_of_parents root parents) root free apart tmp
      rw [step, done]
      exact new
  · -- one of the directories
    cases slashes with
    | false => simp at front
    | true =>
      rw [if_pos rfl, madeDirs_eq _ path short (Nat.lt_succ_self _)] at front
      obtain ⟨above, below, parts, rfl, behind⟩ := List.map_eq_append_iff.mp front
      obtain ⟨dir, last, rfl, same, -⟩ := List.map_eq_cons_iff.mp behind
      obtain rfl : location dir = place := (Prod.mk.inj same).1
      have made := makeDirs_first quiet root path parts
        (fun dir member => dirs (location dir, .dir) (List.mem_map_of_mem member)) free apart
      rw [← tarMkdirsRec_makeDirs _ path short (Nat.lt_succ_self _) os] at made
      rw [extractAt, if_pos rfl, tarMkdirs]
      cases called : tarMkdirsRec (path.length + 1) path os with
      | mk ok os₁ =>
        rw [called] at made
        cases ok with
        | false => exact made
        | true =>
          have grown := extractFile_goes name path size handle os₁
          dsimp only
          cases result : extractFile name path size handle os₁ with
          | error ended =>
            rw [result] at grown
            exact grown.kept _ apart made
          | ok after =>
            rw [result] at grown
            exact grown.2.kept _ apart made

end

/-! ### The first place outside -/

/-- A node that belongs inside. -/
def Within (dest : Str) (node : List Str × Node Str) : Prop :=
  Inside (location dest) node.1 ∧ node.1 ≠ tmpLocation

section
variable {dest : Str} (ok : Destination dest) {place : List Str}
  (outside : ¬ Inside (location dest) place) (name : Str)
include ok outside

omit ok in
theorem treeAround_within {node : List Str × Node Str} (within : Within dest node) :
    treeAround place node.1 = some .dir := treeAround_inside outside within.1 within.2

theorem treeAround_plain {entry : Str} (plain : slash ∉ entry)
    (short : (entryPath dest entry).length < 128) :
    ∀ dir ∈ parentPrefixes (entryPath dest entry), treeAround place (location dir) = some .dir := by
  intro dir member
  have below := ok.plain plain short member
  exact treeAround_inside outside (.inr below) fun same => ok.apart (same ▸ below)

variable {os : Os} (quiet : os.Quiet) (tree : os.tree = treeAround place)
include quiet tree

omit ok outside quiet tree in
theorem extractMember_at {stack : Stack} {header : Str} {handle : Handle}
    (kept : ¬ (lastOfName stack (headerStr stack header 0) = slash ∨
      header[linkflagOffset]? = some 49)) :
    extractMember name dest stack header handle os =
      extractAt name (entryPath dest (headerStr stack header 0))
        (decide (slash ∈ headerStr stack header 0)) (strtoul 8 (headerStr stack header sizeOffset))
        handle os := by
  obtain ⟨directory, link⟩ := not_or.mp kept
  rw [extractMember, extractAt]
  dsimp only
  rw [if_neg directory, if_neg link]
  have made : (if decide (slash ∈ headerStr stack header 0) = true then
      tarMkdirs (entryPath dest (headerStr stack header 0)) os else (true, os)) =
      if slash ∈ headerStr stack header 0 then tarMkdirs (entryPath dest (headerStr stack header 0)) os
      else (true, os) := by simp only [decide_eq_true_eq]
  exact made ▸ rfl

/-- A member whose nodes are inside is passed. -/
theorem extractMember_passes {stack : Stack} {header : Str} {handle next : Handle}
    (fits : Fits (readMember dest stack header handle).1.toList)
    (goes_on : (memberNodes dest stack header handle).2 = some next)
    (within : ∀ node ∈ (memberNodes dest stack header handle).1, Within dest node) :
    ∃ os', extractMember name dest stack header handle os = .ok (next, os') ∧
      os'.Quiet ∧ os'.tree = treeAround place := by
  by_cases skipped : lastOfName stack (headerStr stack header 0) = slash ∨
      header[linkflagOffset]? = some 49
  · -- a directory or a hard link: only its header is read
    rw [memberNodes] at goes_on
    dsimp only at goes_on
    rw [if_pos skipped] at goes_on
    cases goes_on
    exact ⟨os, extractMember_skipped name dest handle os skipped, quiet, tree⟩
  · obtain ⟨directory, link⟩ := not_or.mp skipped
    rw [readMember, if_neg skipped] at fits
    have short := fits _ (List.mem_singleton_self _)
    rw [memberNodes] at goes_on within
    dsimp only at goes_on within short
    rw [if_neg skipped] at goes_on within
    dsimp only at goes_on within
    have root : os.tree [] = some .dir := by
      rw [tree]
      exact treeAround_root outside
    have dirs : ∀ dir ∈ parentPrefixes (entryPath dest (headerStr stack header 0)),
        os.tree (location dir) = some .dir := by
      intro dir member
      rw [tree]
      by_cases slashes : slash ∈ headerStr stack header 0
      · refine treeAround_within outside (within (location dir, .dir) ?_)
        rw [if_pos slashes, madeDirs_eq _ _ short (Nat.lt_succ_self _)]
        exact List.mem_append_left _ (List.mem_map_of_mem (f := fun dir => (location dir, Node.dir)) member)
      · exact treeAround_plain ok outside slashes short dir member
    have there : os.tree (location (entryPath dest (headerStr stack header 0))) ≠ none := by
      have node := within (location (entryPath dest (headerStr stack header 0)), _)
        (List.mem_append_right _ (by rw [fileNodes, goes_on]; exact List.mem_singleton_self _))
      rw [tree, treeAround_within outside node]
      simp
    obtain ⟨os', passed, becomes⟩ := extractAt_there quiet root name short
      (decide (slash ∈ headerStr stack header 0)) goes_on dirs there
    refine ⟨os', ?_, becomes.quiet quiet, becomes.tree.trans tree⟩
    rw [extractMember_at name skipped, passed]

/-- A member with a node outside makes it. -/
theorem extractMember_escapes {stack : Stack} {header : Str} {handle : Handle} {node : Node Str}
    {before after : List (List Str × Node Str)}
    (fits : Fits (readMember dest stack header handle).1.toList)
    (split : (memberNodes dest stack header handle).1 = before ++ (place, node) :: after)
    (within : ∀ node ∈ before, Within dest node) (apart : place ≠ tmpLocation) :
    (afterPart (extractMember name dest stack header handle os)).tree place ≠ none := by
  by_cases skipped : lastOfName stack (headerStr stack header 0) = slash ∨
      header[linkflagOffset]? = some 49
  · rw [memberNodes] at split
    dsimp only at split
    rw [if_pos skipped] at split
    simp at split
  · obtain ⟨directory, link⟩ := not_or.mp skipped
    rw [readMember, if_neg skipped] at fits
    have short := fits _ (List.mem_singleton_self _)
    rw [memberNodes] at split
    dsimp only at split short
    rw [if_neg skipped] at split
    have root : os.tree [] = some .dir := by
      rw [tree]
      exact treeAround_root outside
    have made := extractAt_makes quiet root name short (decide (slash ∈ headerStr stack header 0))
      (by simpa only [nodesAt, decide_eq_true_eq] using split) (by simp [tree, treeAround]) apart
      (by simp [tree, treeAround])
      (fun node member => by rw [tree, treeAround_within outside (within node member)])
      (fun plain dir member => by
        rw [tree]
        exact treeAround_plain ok outside (of_decide_eq_false plain) short dir member)
    rw [extractMember_at name skipped]
    exact made

/-- The first node of the archive that is outside is made. -/
theorem extractEntries_escapes (stack : Nat → Stack) (fuel : Nat) (handle : Handle) {ended : Ended}
    {node : Node Str} {before after : List (List Str × Node Str)}
    (fits : Fits (archiveEntries dest stack fuel handle))
    (split : archiveNodes dest stack fuel handle = before ++ (place, node) :: after)
    (within : ∀ node ∈ before, Within dest node) (apart : place ≠ tmpLocation)
    (run : extractEntries name dest stack fuel handle os = some ended) :
    ended.os.tree place ≠ none := by
  induction fuel generalizing handle os before with
  | zero => cases run
  | succ fuel ih =>
    obtain ⟨here, later⟩ := fits.round
    obtain ⟨nodes, -⟩ | ⟨header, handle₁, nodes, read, same⟩ := round_cases name dest stack handle
    · rw [archiveNodes, nodes] at split
      simp at split
    · rw [archiveNodes, nodes] at split
      rw [extractEntries, same] at run
      rw [nodes] at later
      have goes := extractMember_goes name dest _ header handle₁ os (here _ _ read)
      -- what this member has made is kept
      have escapes {tail : List (List Str × Node Str)}
          (front : (memberNodes dest (stack handle₁.rest.length) header handle₁).1 =
            before ++ (place, node) :: tail) : ended.os.tree place ≠ none := by
        have made := extractMember_escapes ok outside name quiet tree (here _ _ read) front within apart
        cases result : extractMember name dest (stack handle₁.rest.length) header handle₁ os with
        | error last =>
          rw [result] at run made
          cases run
          exact made
        | ok after =>
          rw [result] at run made goes
          exact (extractEntries_grows name dest stack fuel _ _ ended (later _ goes.1) run).kept _ apart made
      cases goes_on : (memberNodes dest (stack handle₁.rest.length) header handle₁).2 with
      | none =>
        rw [← Prod.mk.eta (p := memberNodes dest (stack handle₁.rest.length) header handle₁),
          goes_on] at split
        exact escapes split
      | some next =>
        rw [← Prod.mk.eta (p := memberNodes dest (stack handle₁.rest.length) header handle₁),
          goes_on] at split
        obtain ⟨rest, rfl, behind⟩ | ⟨tail, front⟩ := split_append split
        · obtain ⟨os₁, passed, quiet₁, tree₁⟩ := extractMember_passes ok outside name quiet tree
            (here _ _ read) goes_on fun node member => within node (List.mem_append_left _ member)
          rw [passed] at run
          exact ih quiet₁ tree₁ next (later _ goes_on) behind
            (fun node member => within node (List.mem_append_right _ member)) run
        · exact escapes front

end

/-! ### Names that lead out -/

/-- A path climbs above the directory by `..` and goes on by another name than its own;
the list before it is where it has led so far. -/
def leaves (dir : List Str) : List Str → List Str → Bool
  | _, [] => false
  | loc, c :: path =>
    if c = dot then leaves dir loc path
    else if c = dotdot then leaves dir loc.dropLast path
    else if loc.length < dir.length ∧ dir[loc.length]? ≠ some c then true
    else leaves dir (loc ++ [c]) path

theorem Inside.up {dir loc : List Str} (inside : Inside dir loc) : Inside dir loc.dropLast := by
  obtain ⟨tail, rfl⟩ | above := inside
  · cases tail using List.reverseRecOn with
    | nil =>
      rw [List.append_nil]
      exact .inr (List.dropLast_prefix dir)
    | append_singleton tail c =>
      rw [← List.append_assoc, List.dropLast_concat]
      exact .inl (List.prefix_append _ _)
  · exact .inr ((List.dropLast_prefix loc).trans above)

theorem inside_concat {dir loc : List Str} (inside : Inside dir loc) (c : Str) :
    Inside dir (loc ++ [c]) ↔ ¬ (loc.length < dir.length ∧ dir[loc.length]? ≠ some c) := by
  obtain ⟨tail, rfl⟩ | ⟨tail, rfl⟩ := inside
  · refine iff_of_true (.inl ?_) fun below => ?_
    · rw [List.append_assoc]
      exact List.prefix_append _ _
    · rw [List.length_append] at below
      omega
  · cases tail with
    | nil =>
      rw [List.append_nil]
      exact iff_of_true (.inl (List.prefix_append _ _)) fun below => Nat.lt_irrefl _ below.1
    | cons d tail =>
      have next : (loc ++ d :: tail)[loc.length]? = some d := by simp
      have short : loc.length < (loc ++ d :: tail).length := by simp
      rw [next]
      constructor
      · rintro (below | above) ⟨-, other⟩
        · rw [List.prefix_append_right_inj, List.cons_prefix_cons] at below
          exact other (congrArg some below.1)
        · rw [List.prefix_append_right_inj, List.cons_prefix_cons] at above
          exact other (congrArg some above.1.symm)
      · intro same
        obtain rfl : d = c := by
          by_contra other
          exact same ⟨short, fun eq => other (Option.some.inj eq)⟩
        refine .inr ?_
        rw [List.prefix_append_right_inj]
        exact List.cons_prefix_cons.mpr ⟨rfl, List.nil_prefix⟩

/-- A path that never leads out is inside all the way. -/
theorem leaves_eq_false (dir : List Str) {loc : List Str} (inside : Inside dir loc) (path : List Str) :
    leaves dir loc path = false ↔
      ∀ front, front <+: path → Inside dir (PathStack.resolveFrom dotdot loc (front.filter (· ≠ dot))) := by
  induction path generalizing loc with
  | nil =>
    refine iff_of_true rfl fun front empty => ?_
    rw [List.prefix_nil.mp empty]
    exact inside
  | cons c path ih =>
    -- the first component, and then the rest
    have first (loc' : List Str) (step : ∀ front : List Str,
        PathStack.resolveFrom dotdot loc ((c :: front).filter (· ≠ dot)) =
          PathStack.resolveFrom dotdot loc' (front.filter (· ≠ dot))) :
        (∀ front, front <+: c :: path →
          Inside dir (PathStack.resolveFrom dotdot loc (front.filter (· ≠ dot)))) ↔
        ∀ front, front <+: path →
          Inside dir (PathStack.resolveFrom dotdot loc' (front.filter (· ≠ dot))) := by
      constructor
      · intro all front below
        rw [← step]
        exact all _ (List.cons_prefix_cons.mpr ⟨rfl, below⟩)
      · intro all front below
        obtain rfl | ⟨rest, rfl, behind⟩ := List.prefix_cons_iff.mp below
        · exact inside
        · rw [step]
          exact all rest behind
    unfold leaves
    split
    next same => rw [ih inside, first loc fun front => by simp [same]]
    next other =>
      split
      next same =>
        rw [ih inside.up, first loc.dropLast fun front => by
          simp [same, PathStack.push, show dotdot ≠ dot by decide]]
      next down =>
        have pushed (front : List Str) :
            PathStack.resolveFrom dotdot loc ((c :: front).filter (· ≠ dot)) =
              PathStack.resolveFrom dotdot (loc ++ [c]) (front.filter (· ≠ dot)) := by
          simp [other, PathStack.push, down]
        split
        next out =>
          refine iff_of_false (by simp) fun all => ?_
          have here := all [c] (List.cons_prefix_cons.mpr ⟨rfl, List.nil_prefix⟩)
          rw [pushed []] at here
          exact (inside_concat inside c).mp here out
        next stays => rw [ih ((inside_concat inside c).mpr stays), first (loc ++ [c]) pushed]

theorem leaves_lexical (dir path : List Str) : leaves dir [] path = false ↔
    ∀ front, front <+: path → Inside dir (lexical dot dotdot front) :=
  leaves_eq_false dir (.inr List.nil_prefix) path

section
variable (dest : Str)

/-- The components of the path of a member. The file itself does not count when its
blocks are not all there. -/
def memberPath (stack : Stack) (header : Str) (handle : Handle) : Option (List Str) :=
  let entry := headerStr stack header 0
  let size := strtoul 8 (headerStr stack header sizeOffset)
  if lastOfName stack entry = slash ∨ header[linkflagOffset]? = some 49 then none
  else
    let path := pathComponents (entryPath dest entry)
    some (if (behindBlocks size handle).isSome then path else path.dropLast)

/-- The paths of the files of an archive, by their components. -/
def archivePaths (stack : Nat → Stack) : Nat → Handle → List (List Str)
  | 0, _ => []
  | fuel + 1, handle =>
    match rawFileRead headerSize handle with
    | (_, some _, _) => []
    | (header, none, handle) =>
      if headerSize ≤ header.length ∧ header ≠ List.replicate headerSize 0 ∧
          testChecksum (stack handle.rest.length) header = true then
        (memberPath dest (stack handle.rest.length) header handle).toList ++
          match (memberNodes dest (stack handle.rest.length) header handle).2 with
          | none => []
          | some handle => archivePaths stack fuel handle
      else []

variable {dest}

/-- The directories of a path that names a file are above its last component. -/
theorem parentPrefixes_above {path dir : Str} (named : path.getLast? ≠ some slash)
    (member : dir ∈ parentPrefixes path) : pathComponents dir <+: (pathComponents path).dropLast := by
  by_cases slashes : slash ∈ path
  · obtain ⟨front, tail, rfl, plain⟩ := split_at_last slashes
    have file : tail ≠ [] := by
      rintro rfl
      simp at named
    rw [pathComponents_last plain file, List.dropLast_concat]
    by_cases root : front = []
    · rw [root, List.nil_append, parentPrefixes_root plain] at member
      cases member
    · rw [parentPrefixes_last root plain] at member
      obtain member | same := List.mem_append.mp member
      · exact parentPrefixes_components member
      · rw [List.mem_singleton.mp same]
  · rw [parentPrefixes_plain slashes] at member
    cases member

/-- The directories of a path, and the path itself if it counts, are inside exactly if
all prefixes of its components lead inside. -/
theorem inside_components (ok : Destination dest) {entry : Str}
    (short : (entryPath dest entry).length < 128) (named : slash ∈ entry → entry.getLast? ≠ some slash)
    (file : Prop) [Decidable file] :
    ((slash ∈ entry → ∀ dir ∈ parentPrefixes (entryPath dest entry),
        Inside (location dest) (location dir)) ∧
      (file → Inside (location dest) (location (entryPath dest entry)))) ↔
    ∀ front, front <+: (if file then pathComponents (entryPath dest entry)
        else (pathComponents (entryPath dest entry)).dropLast) →
      Inside (location dest) (lexical dot dotdot front) := by
  constructor
  · rintro ⟨dirs, here⟩ front below
    by_cases last : front = pathComponents (entryPath dest entry) ∧ file
    · rw [last.1]
      exact here last.2
    · -- a proper prefix is one of the directories
      have proper : front <+: pathComponents (entryPath dest entry) ∧ (front = [] ∨
          front.length < (pathComponents (entryPath dest entry)).length) := by
        split at below
        next counts =>
          refine ⟨below, .inr (Nat.lt_of_le_of_ne below.length_le fun same => last ⟨?_, counts⟩)⟩
          exact below.eq_of_length same
        next =>
          refine ⟨below.trans (List.dropLast_prefix _), ?_⟩
          have := below.length_le
          rw [List.length_dropLast] at this
          by_cases empty : front = []
          · exact .inl empty
          · have := List.length_pos_iff.mpr empty
            exact .inr (by omega)
      obtain ⟨below, empty | less⟩ := proper
      · rw [empty]
        exact .inr List.nil_prefix
      · obtain top | ⟨dir, member, same⟩ := walk_parents (entryPath dest entry) front.length less
        · rw [← List.prefix_iff_eq_take.mp below] at top
          rw [top]
          exact .inr List.nil_prefix
        · rw [← List.prefix_iff_eq_take.mp below] at same
          rw [same]
          by_cases slashes : slash ∈ entry
          · exact dirs slashes dir member
          · exact .inr (ok.plain slashes short member)
  · intro all
    refine ⟨fun slashes dir member => all _ ?_, fun counts => all _ ?_⟩
    · have path_named : (entryPath dest entry).getLast? ≠ some slash := by
        rw [entryPath_short short, List.getLast?_append_of_ne_nil _ (List.cons_ne_nil _ _),
          List.getLast?_cons_of_ne_nil (List.ne_nil_of_mem slashes)]
        exact named slashes
      have above := parentPrefixes_above path_named member
      split
      · exact above.trans (List.dropLast_prefix _)
      · exact above
    · rw [if_pos counts]

/-- The nodes of a member are inside exactly if its path never leads out. -/
theorem memberNodes_inside (ok : Destination dest) {stack : Stack} {header : Str} {handle : Handle}
    (fits : Fits (readMember dest stack header handle).1.toList) :
    (∀ node ∈ (memberNodes dest stack header handle).1, Inside (location dest) node.1) ↔
      ∀ path ∈ memberPath dest stack header handle, leaves (location dest) [] path = false := by
  by_cases skipped : lastOfName stack (headerStr stack header 0) = slash ∨
      header[linkflagOffset]? = some 49
  · rw [memberNodes, memberPath]
    dsimp only
    rw [if_pos skipped, if_pos skipped]
    simp
  · rw [readMember, if_neg skipped] at fits
    have short := fits _ (List.mem_singleton_self _)
    dsimp only at short
    rw [memberNodes, memberPath]
    dsimp only
    rw [if_neg skipped, if_neg skipped]
    have named (slashes : slash ∈ headerStr stack header 0) :
        (headerStr stack header 0).getLast? ≠ some slash := by
      intro last
      rw [lastOfName, last] at skipped
      exact skipped (.inl rfl)
    simp only [Option.mem_def, Option.some.injEq, forall_eq', leaves_lexical]
    rw [← inside_components ok short named, List.forall_mem_append]
    refine and_congr ?_ ?_
    · split
      next slashes =>
        rw [madeDirs_eq _ _ short (Nat.lt_succ_self _), List.forall_mem_map]
        exact ⟨fun dirs _ => dirs, fun dirs => dirs slashes⟩
      next plain => simp [plain]
    · unfold fileNodes
      cases behindBlocks (strtoul 8 (headerStr stack header sizeOffset)) handle <;> simp

/-- The nodes of an archive are inside exactly if no path of it leads out. -/
theorem archiveNodes_inside (ok : Destination dest) (stack : Nat → Stack) (fuel : Nat)
    (handle : Handle) (fits : Fits (archiveEntries dest stack fuel handle)) :
    (∀ node ∈ archiveNodes dest stack fuel handle, Inside (location dest) node.1) ↔
      ∀ path ∈ archivePaths dest stack fuel handle, leaves (location dest) [] path = false := by
  induction fuel generalizing handle with
  | zero => simp [archiveNodes, archivePaths]
  | succ fuel ih =>
    obtain ⟨here, later⟩ := fits.round
    rw [archiveNodes, archivePaths]
    unfold roundNodes at later ⊢
    unfold readEntry at here
    generalize rawFileRead headerSize handle = got at here later ⊢
    obtain ⟨header, error, handle₁⟩ := got
    cases error with
    | some error => simp
    | none =>
      dsimp only at here later ⊢
      by_cases accepted : headerSize ≤ header.length ∧ header ≠ List.replicate headerSize 0 ∧
          testChecksum (stack handle₁.rest.length) header = true
      · rw [if_pos accepted] at here later
        rw [if_pos accepted, if_pos accepted]
        have member := memberNodes_inside ok (here _ _ rfl)
        generalize memberNodes dest (stack handle₁.rest.length) header handle₁ = plan at later member ⊢
        obtain ⟨nodes, next⟩ := plan
        cases next with
        | none => simpa [List.forall_mem_append] using member
        | some next =>
          rw [List.forall_mem_append, List.forall_mem_append, ih next (later next rfl), member]
          simp
      · rw [if_neg accepted, if_neg accepted]
        simp

end

/-! ### Archives that stay inside -/

/-- However the archive is opened, and wherever it is extracted, nothing new is
outside. -/
def ArchiveContained (dest : Str) (stack : Nat → Stack) (archive : Handle) : Prop :=
  ∀ name haveLzma openLib os ended, openTar name haveLzma openLib os = some archive →
    extractTar name dest haveLzma openLib stack os = some ended → StaysInside dest os ended.os

/-- An archive stays inside exactly if no path of it climbs above the destination and
goes on elsewhere; paths fit in the array of `tar_mkdirs`, and none is that of the
temporary file. -/
theorem extractTar_contained_iff {dest : Str} (ok : Destination dest) (stack : Nat → Stack)
    (archive : Handle)
    (fits : Fits (archiveEntries dest stack (archive.rest.length + 1) archive))
    (apart : ∀ node ∈ archiveNodes dest stack (archive.rest.length + 1) archive,
      node.1 ≠ tmpLocation) :
    ArchiveContained dest stack archive ↔
      ∀ path ∈ archivePaths dest stack (archive.rest.length + 1) archive,
        leaves (location dest) [] path = false := by
  rw [← archiveNodes_inside ok stack _ archive fits]
  constructor
  · intro contained
    by_contra out
    -- a tree where the first node that is not inside can be made
    obtain ⟨node, escapes, before, after, split, inside⟩ :
        ∃ node, ¬ Inside (location dest) node.1 ∧ ∃ before after,
          archiveNodes dest stack (archive.rest.length + 1) archive = before ++ node :: after ∧
          ∀ node ∈ before, Inside (location dest) node.1 := by
      cases found : (archiveNodes dest stack (archive.rest.length + 1) archive).find?
          fun node => ¬ Inside (location dest) node.1 with
      | none =>
        refine absurd (fun node member => ?_) out
        simpa using List.find?_eq_none.mp found node member
      | some node =>
        obtain ⟨here, before, after, split, earlier⟩ := List.find?_eq_some_iff_append.mp found
        exact ⟨node, by simpa using here, before, after, split, by simpa using earlier⟩
    obtain ⟨place, node⟩ := node
    have opened : openTar (bytes "/a.tgz") false (fun _ _ _ => .ok archive) (osAround place) =
        some archive := rfl
    obtain ⟨ended, run⟩ := Option.isSome_iff_exists.mp
      (extractTar_ends (bytes "/a.tgz") dest false (fun _ _ _ => .ok archive) stack (osAround place))
    have other : place ≠ tmpLocation := apart (place, node) (by simp [split])
    refine escapes (contained _ _ _ _ ended opened run place other (by simp [osAround, treeAround]) ?_)
    rw [extractTar_opened stack opened] at run
    exact extractEntries_escapes ok escapes (bytes "/a.tgz") (fun _ => rfl) rfl stack _ archive fits
      split (fun node member => ⟨inside node member, apart node (by simp [split, member])⟩) other run
  · intro inside name haveLzma openLib os ended opened run l other free new
    rw [extractTar_opened stack opened] at run
    obtain old | place := (extractEntries_grows name dest stack _ archive os ended fits run).made l other new
    · exact absurd free old
    · obtain ⟨node, member, rfl⟩ := List.mem_map.mp place
      exact inside node member

/-- Names that climb no higher than the destination, or go down again into it. -/
def tameArchive : Handle :=
  ⟨writeArchive [.file (bytes "d/../x") (bytes "one"), .file (bytes "../modules/y") (bytes "two")] [], none⟩

theorem extractTar_contained_tame : ArchiveContained modulesDir (fun _ => ⟨0, []⟩) tameArchive :=
  (extractTar_contained_iff ⟨by decide, by decide⟩ (fun _ => ⟨0, []⟩) tameArchive
    (by decide +kernel) (by decide +kernel)).mpr (by decide +kernel)

/-- A file that is put beside the destination. -/
theorem extractTar_escapes :
    ∃ ended, extractTar (bytes "/a.tar") modulesDir false (fun _ _ _ => .error [])
        (fun _ => ⟨0, []⟩) (archiveOs (writeArchive [.file (bytes "../x") (bytes "hello")] [])) =
        some ended ∧ ended.os.tree [bytes "x"] = some (.file (bytes "hello")) ∧
      ¬ StaysInside modulesDir (archiveOs (writeArchive [.file (bytes "../x") (bytes "hello")] []))
        ended.os := by
  have made : ((extractTar (bytes "/a.tar") modulesDir false (fun _ _ _ => .error [])
      (fun _ => ⟨0, []⟩) (archiveOs (writeArchive [.file (bytes "../x") (bytes "hello")] []))).map
      fun ended => ended.os.tree [bytes "x"]) = some (some (.file (bytes "hello"))) := by
    decide +kernel
  obtain ⟨ended, run, created⟩ := Option.map_eq_some_iff.mp made
  refine ⟨ended, run, created, fun inside => ?_⟩
  exact absurd (inside [bytes "x"] (by decide) (by decide) (by simp [created])) (by decide)

end KexecLoader
