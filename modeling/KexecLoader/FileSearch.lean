import KexecLoader.VfsFiles
import KexecLoader.GlobMatching

/-!
# The file commands of the shell

`ls`, `find` and `cat`. The search of `find` goes through the directories below a path by
paths of its own making; what it prints is told by the tree the system holds there.
-/
namespace KexecLoader

def S_IFMT : Nat := 61440

def S_IFDIR : Nat := 16384

/-- The test of `ls` and `find`: a block device and a socket have the bit too. -/
def isDirectory (mode : Nat) : Bool := hasFlag mode S_IFDIR

/-- A node is a directory. -/
def S_ISDIR (mode : Nat) : Prop := mode &&& S_IFMT = S_IFDIR

instance (mode : Nat) : Decidable (S_ISDIR mode) := inferInstanceAs (Decidable (_ = _))

/-- A name as `ls` and `find` print it. -/
def nodeLine (name : Str) (directory : Bool) : Str := name ++ if directory then [slash, lf] else [lf]

def findFlags : Nat := GLOB_IGNCASE ||| GLOB_STAR ||| GLOB_SINGLE

section
variable (host : VfsHost)

/-- "Cannot open" or "Cannot stat". -/
def cannot (what path : Str) (errno : Nat) : Str :=
  bytes "Cannot " ++ what ++ [space] ++ path ++ bytes ": " ++ klStrerror host.strerror errno ++ [lf]

/-- The loop of `cmd_ls`, which ends at the first node without status. -/
def lsNodes (args : Str) : List Str → VfsState → Except Stuck VfsState
  | [], st => .ok st
  | node :: nodes, st =>
    if klStreq node dot || klStreq node dotdot then lsNodes args nodes st
    else do
      let filename := (args ++ [slash] ++ node).take 1023
      let (stbuf, st) ← vfsLstat host st filename
      match stbuf with
      | .error errno => .ok (st.print (cannot host (bytes "stat") args errno))
      | .ok mode => lsNodes args nodes (st.print (nodeLine node (isDirectory mode)))

def cmdLs (st : VfsState) (args : Str) : Except Stuck VfsState :=
  if args = [] then .ok (st.print (bytes "Usage: ls <path>\n"))
  else do
    let (dir, st) ← vfsOpendir host st args
    match dir with
    | .error errno => .ok (st.print (cannot host (bytes "open") args errno))
    | .ok nodes => lsNodes host args nodes st

/-- One round of the loop of `find_files`; `search` is the call of itself. -/
def findNode (search : VfsState → Str → Except Stuck VfsState) (path name : Str) (st : VfsState)
    (node : Str) : Except Stuck VfsState :=
  if klStreq node dot || klStreq node dotdot then .ok st
  else do
    let npath := path ++ slash :: node
    let (stbuf, st) ← vfsStat host st npath
    match stbuf with
    | .error errno => .ok (st.print (cannot host (bytes "stat") npath errno))
    | .ok mode =>
      match globcmp findFlags node name with
      | none => .error .crash
      | some found =>
        let st := if found then st.print (nodeLine npath (isDirectory mode)) else st
        if isDirectory mode then search st npath else .ok st

def findFiles (name : Str) : Nat → VfsState → Str → Except Stuck VfsState
  | 0, _, _ => .error .unfinished
  | rounds + 1, st, path => do
    let (dir, st) ← vfsOpendir host st path
    match dir with
    | .error errno => .ok (st.print (cannot host (bytes "open") path errno))
    | .ok nodes => nodes.foldlM (findNode host (findFiles name rounds) path name) st

def cmdFind (rounds : Nat) (st : VfsState) (args : Str) : Except Stuck VfsState :=
  let (name, dir) := nextValue args
  if name = [] ∨ dir = [] then .ok (st.print (bytes "Usage: find <filename> <directory>\n"))
  else findFiles host name rounds st dir

/-- What `cmd_cat` prints of a file; none where it looks at a `buf` nothing was read into, or
in front of it. -/
def catText (content : Str) : Option Str := do
  let lines := (pieces 1024 content).map cstr
  let buf ← lines.getLast?
  let last ← buf.getLast?
  some (lines.flatten ++ if last ≠ lf then [lf] else [])

/-- "Cannot read", if `ferror` says so. -/
def readError (args : Str) (ferror : Option Nat) : Str :=
  ferror.elim [] fun errno => bytes "Cannot read " ++ args ++ bytes ": " ++ host.strerror errno ++ [lf]

def cmdCat (st : VfsState) (args : Str) : Except Stuck VfsState :=
  if args = [] then .ok (st.print (bytes "Usage: cat <file>\n"))
  else do
    -- `vfs_fopen`, with what `ferror` will say
    let (fh, st) ← vfsCall host (fun real => (host.fopen real).map (·, host.ferror real)) st args
    match fh with
    | .error errno => .ok (st.print (cannot host (bytes "open") args errno))
    | .ok (content, ferror) =>
      match catText content with
      | none => .error .crash
      | some text => .ok ((st.print text).print (readError host args ferror))

end

/-! ### What stands below a directory -/

/-- A name in a directory leads to nothing one can ask the status of, to a file, to a block
device or a socket, to a directory that cannot be opened, or to one with names of its own. -/
inductive DirTree where
  | missing (errno : Nat)
  | file
  | special (errno : Nat)
  | closed (errno : Nat)
  | dir (entries : List (Str × DirTree))

mutual

/-- The nodes in the order in which a search meets them, each with the names that lead to it. -/
def DirTree.nodes : DirTree → List (List Str × DirTree)
  | .dir entries => ([], .dir entries) :: nodesBelow entries
  | .missing errno => [([], .missing errno)]
  | .file => [([], .file)]
  | .special errno => [([], .special errno)]
  | .closed errno => [([], .closed errno)]

def nodesBelow : List (Str × DirTree) → List (List Str × DirTree)
  | [] => []
  | (name, tree) :: entries => (tree.nodes.map fun node => (name :: node.1, node.2)) ++ nodesBelow entries

end

mutual

/-- How many calls of `find_files` are open at once. -/
def DirTree.depth : DirTree → Nat
  | .dir entries => depthBelow entries + 1
  | .closed _ => 1
  | .special _ => 1
  | .missing _ => 0
  | .file => 0

def depthBelow : List (Str × DirTree) → Nat
  | [] => 0
  | (_, tree) :: entries => max tree.depth (depthBelow entries)

end

section
variable (host : VfsHost)

mutual

/-- What `stat` and then `opendir` say of a real path. -/
inductive Stands : Str → DirTree → Prop
  | missing {real : Str} {errno : Nat} : host.stat real = .error errno → Stands real (.missing errno)
  | file {real : Str} {mode : Nat} : host.stat real = .ok mode → isDirectory mode = false → Stands real .file
  | special {real : Str} {mode errno : Nat} : host.stat real = .ok mode → isDirectory mode = true →
    ¬ S_ISDIR mode → host.opendir real = .error errno → Stands real (.special errno)
  | dir {real : Str} {mode : Nat} {tree : DirTree} : host.stat real = .ok mode → S_ISDIR mode →
    Opens real tree → Stands real tree

/-- What `opendir` says of a real path. -/
inductive Opens : Str → DirTree → Prop
  | closed {real : Str} {errno : Nat} : host.opendir real = .error errno → Opens real (.closed errno)
  | dir {real : Str} {names : List Str} {entries : List (Str × DirTree)} : host.opendir real = .ok names →
    names.filter (fun name => name ≠ dot ∧ name ≠ dotdot) = entries.map Prod.fst →
    (∀ entry ∈ entries, FileName entry.1) →
    (∀ entry ∈ entries, Stands (real ++ slash :: entry.1) entry.2) → Opens real (.dir entries)

end

/-- What a search below `path` prints of one node. -/
def visit (path name : Str) (node : List Str × DirTree) : Str :=
  let shown := path ++ render node.1
  let line := fun directory =>
    if globcmp findFlags (node.1.getLastD []) name = some true then nodeLine shown directory else []
  match node.2 with
  | .missing errno => cannot host (bytes "stat") shown errno
  | .file => line false
  -- a device is taken for a directory
  | .special errno => line true ++ cannot host (bytes "open") shown errno
  | .closed errno => line true ++ cannot host (bytes "open") shown errno
  | .dir _ => line true

/-- What a search of `path` prints. -/
def searchText (path name : Str) : DirTree → Str
  | .dir entries => (nodesBelow entries).flatMap (visit host path name)
  | .closed errno => cannot host (bytes "open") path errno
  | .missing _ => []
  | .file => []
  | .special _ => []

end

/-! ### The search -/

theorem isDirectory_of_dir {mode : Nat} (directory : S_ISDIR mode) : isDirectory mode = true := by
  have bit : mode &&& S_IFDIR = S_IFDIR := by
    calc mode &&& S_IFDIR = mode &&& (S_IFMT &&& S_IFDIR) := rfl
      _ = mode &&& S_IFMT &&& S_IFDIR := (Nat.and_assoc _ _ _).symm
      _ = S_IFDIR := by rw [show mode &&& S_IFMT = S_IFDIR from directory]; rfl
  rw [isDirectory, hasFlag, bit]
  rfl

theorem depth_le_below {entries : List (Str × DirTree)} {entry : Str × DirTree} (member : entry ∈ entries) :
    entry.2.depth ≤ depthBelow entries := by
  induction entries with
  | nil => cases member
  | cons first entries ih =>
    rw [depthBelow]
    rcases List.mem_cons.mp member with rfl | later
    · exact Nat.le_max_left _ _
    · exact (ih later).trans (Nat.le_max_right _ _)

/-- The search has printed this text, mounted nothing, and looked at nothing outside. -/
structure Printed (real : Str) (st st' : VfsState) (text : Str) : Prop where
  vfs : st'.vfs = st.vfs
  printed : st'.printed = st.printed ++ text
  asked : ∃ more, st'.asked = st.asked ++ more ∧ ∀ other ∈ more, Beneath real other

namespace Printed

variable {real : Str} {st st' st'' : VfsState} {text text' : Str}

theorem refl (real : Str) (st : VfsState) : Printed real st st [] :=
  ⟨rfl, (List.append_nil _).symm, [], (List.append_nil _).symm, fun _ member => absurd member List.not_mem_nil⟩

theorem trans (first : Printed real st st' text) (second : Printed real st' st'' text') :
    Printed real st st'' (text ++ text') := by
  obtain ⟨more, asked, inside⟩ := first.asked
  obtain ⟨more', asked', inside'⟩ := second.asked
  refine ⟨second.vfs.trans first.vfs, ?_, more ++ more', ?_, fun other member => ?_⟩
  · rw [second.printed, first.printed, List.append_assoc]
  · rw [asked', asked, List.append_assoc]
  · exact (List.mem_append.mp member).elim (inside other) (inside' other)

theorem print (done : Printed real st st' text) (more : Str) :
    Printed real st (st'.print more) (text ++ more) :=
  ⟨done.vfs, by simp [VfsState.print, done.printed], done.asked⟩

theorem ask (st : VfsState) {below : Str} (inside : Beneath real below) : Printed real st (st.ask below) [] := by
  refine ⟨rfl, (List.append_nil _).symm, [below], rfl, fun other member => ?_⟩
  rwa [List.mem_singleton.mp member]

theorem outside {front : Str} (inside : Beneath front real) (done : Printed real st st' text) :
    Printed front st st' text := by
  obtain ⟨more, asked, below⟩ := done.asked
  exact ⟨done.vfs, done.printed, more, asked, fun other member => inside.trans (below other member)⟩

end Printed

section
variable {host : VfsHost} {name : Str}

/-- The names in a directory lead to what is below the real path of it. -/
def LeadsBelow (vfs : Vfs) (path real : Str) : Prop :=
  ∀ ⦃node⦄, FileName node → Leads vfs (path ++ slash :: node) (real ++ slash :: node)

theorem globcmp_decides {node : Str} (file : FileName node) (no_nul : 0 ∉ name) :
    ∃ found, globcmp findFlags node name = some found := by
  obtain ⟨found, run, -⟩ := globcmp_spec findFlags ⟨node, file.no_nul⟩ ⟨name, no_nul⟩
  exact ⟨found, run⟩

theorem nodesBelow_named {entries : List (Str × DirTree)} {node : List Str × DirTree}
    (member : node ∈ nodesBelow entries) : node.1 ≠ [] := by
  induction entries with
  | nil => simp [nodesBelow] at member
  | cons entry entries ih =>
    rw [nodesBelow, List.mem_append] at member
    rcases member with here | later
    · obtain ⟨below, -, rfl⟩ := List.mem_map.mp here
      exact List.cons_ne_nil _ _
    · exact ih later

/-- A node is shown alike in a search that starts above it and in one that starts there. -/
theorem visit_below (host : VfsHost) (path name first : Str) {node : List Str × DirTree} (named : node.1 ≠ []) :
    visit host path name (first :: node.1, node.2) = visit host (path ++ slash :: first) name node := by
  obtain ⟨below, tree⟩ := node
  have last : (first :: below).getLastD [] = below.getLastD [] := by
    obtain ⟨c, more, rfl⟩ := List.exists_cons_of_ne_nil named
    rfl
  have shown : path ++ render (first :: below) = path ++ slash :: first ++ render below := by
    simp [render]
  simp only [visit, last, shown]

theorem flatMap_visit_dir (host : VfsHost) (path name node : Str) (entries : List (Str × DirTree)) :
    ((DirTree.dir entries).nodes.map fun below => (node :: below.1, below.2)).flatMap (visit host path name) =
      visit host path name ([node], .dir entries) ++
        searchText host (path ++ slash :: node) name (.dir entries) := by
  rw [DirTree.nodes, List.map_cons, List.flatMap_cons, List.flatMap_map, searchText]
  congr 1
  exact List.flatMap_congr fun below member => visit_below host path name node (nodesBelow_named member)

section
variable {search : VfsState → Str → Except Stuck VfsState} {rounds : Nat} {path real : Str}

/-- The calls of itself do what they should in trees that are less deep. -/
def Searches (host : VfsHost) (name : Str) (search : VfsState → Str → Except Stuck VfsState)
    (rounds : Nat) : Prop :=
  ∀ ⦃st path real tree⦄, Leads st.vfs path real → Opens host real tree → tree.depth ≤ rounds →
    ∃ st', search st path = .ok st' ∧ Printed real st st' (searchText host path name tree)

theorem ordinary_name {node : Str} (file : FileName node) : (klStreq node dot || klStreq node dotdot) = false := by
  rw [Bool.or_eq_false_iff, klStreq_eq_false, klStreq_eq_false]
  exact ⟨file.not_here, file.not_up⟩

/-- A node whose mode has the bit gets its line, and is searched. -/
theorem findNode_enters (searches : Searches host name search rounds) {st : VfsState} {node : Str} {tree : DirTree}
    (file : FileName node) (below : LeadsBelow st.vfs path real) {found : Bool}
    (matched : globcmp findFlags node name = some found) {mode : Nat}
    (present : host.stat (real ++ slash :: node) = .ok mode) (bit : isDirectory mode = true)
    (opens : Opens host (real ++ slash :: node) tree) (deep : tree.depth ≤ rounds) :
    ∃ st', findNode host search path name st node = .ok st' ∧
      Printed real st st' ((if found = true then nodeLine (path ++ slash :: node) true else []) ++
        searchText host (path ++ slash :: node) name tree) := by
  have leads := below file
  have inside : Beneath real (real ++ slash :: node) := .name file.not_up
  have asked : Printed real st (st.ask (real ++ slash :: node)) [] := .ask st inside
  have status : vfsStat host st (path ++ slash :: node) = _ := vfsCall_leads host.stat leads
  unfold findNode
  simp only [ordinary_name file, status, present, bit, matched, bind, Except.bind, Bool.false_eq_true, if_false,
    if_true]
  -- its line comes first
  have line : ∃ st₁, (if found = true then (st.ask (real ++ slash :: node)).print
      (nodeLine (path ++ slash :: node) true) else st.ask (real ++ slash :: node)) = st₁ ∧
      Printed real st st₁ (if found = true then nodeLine (path ++ slash :: node) true else []) := by
    refine ⟨_, rfl, ?_⟩
    cases found with
    | true => simpa using asked.print (nodeLine (path ++ slash :: node) true)
    | false => simpa using asked
  obtain ⟨st₁, same, printed⟩ := line
  rw [same]
  have leads₁ : Leads st₁.vfs (path ++ slash :: node) (real ++ slash :: node) := printed.vfs ▸ leads
  obtain ⟨st', run, rest⟩ := searches leads₁ opens deep
  exact ⟨st', run, printed.trans (rest.outside inside)⟩

theorem findNode_prints (searches : Searches host name search rounds) (no_nul : 0 ∉ name) {st : VfsState}
    {node : Str} {tree : DirTree} (file : FileName node) (below : LeadsBelow st.vfs path real)
    (stands : Stands host (real ++ slash :: node) tree) (deep : tree.depth ≤ rounds) :
    ∃ st', findNode host search path name st node = .ok st' ∧
      Printed real st st'
        ((tree.nodes.map fun below => (node :: below.1, below.2)).flatMap (visit host path name)) := by
  have asked : Printed real st (st.ask (real ++ slash :: node)) [] := .ask st (.name file.not_up)
  have status : vfsStat host st (path ++ slash :: node) = _ := vfsCall_leads host.stat (below file)
  have shown : path ++ render [node] = path ++ slash :: node := by rw [render_singleton]
  obtain ⟨found, matched⟩ := globcmp_decides file no_nul
  cases stands with
  | @missing _ errno missing =>
    refine ⟨(st.ask (real ++ slash :: node)).print (cannot host (bytes "stat") (path ++ slash :: node) errno), ?_, ?_⟩
    · simp only [findNode, ordinary_name file, status, missing, bind, Except.bind, Bool.false_eq_true, if_false]
    · simpa [DirTree.nodes, visit, shown] using asked.print (cannot host (bytes "stat") (path ++ slash :: node) _)
  | file present plain =>
    refine ⟨if found = true then (st.ask (real ++ slash :: node)).print (nodeLine (path ++ slash :: node) false)
      else st.ask (real ++ slash :: node), ?_, ?_⟩
    · simp only [findNode, ordinary_name file, status, present, plain, matched, bind, Except.bind,
        Bool.false_eq_true, if_false]
    · cases found with
      | true => simpa [DirTree.nodes, visit, matched] using asked.print (nodeLine (path ++ slash :: node) false)
      | false => simpa [DirTree.nodes, visit, matched] using asked
  | special present bit device refused =>
    -- the search of it fails at once
    obtain ⟨st', run, printed⟩ :=
      findNode_enters searches file below matched present bit (.closed refused) deep
    refine ⟨st', run, ?_⟩
    simpa [DirTree.nodes, visit, matched, searchText] using printed
  | dir present directory opens =>
    obtain ⟨st', run, printed⟩ :=
      findNode_enters searches file below matched present (isDirectory_of_dir directory) opens deep
    refine ⟨st', run, ?_⟩
    cases opens with
    | closed refused => simpa [DirTree.nodes, visit, matched, searchText] using printed
    | dir listed names files stands =>
      rw [flatMap_visit_dir]
      simpa [visit, matched] using printed

theorem special_iff (node : Str) :
    (klStreq node dot || klStreq node dotdot) = true ↔ ¬ (node ≠ dot ∧ node ≠ dotdot) := by
  rw [Bool.or_eq_true, klStreq_iff, klStreq_iff, not_and_or, not_not, not_not]

/-- The loop over the names of one directory. -/
theorem findNodes_print (searches : Searches host name search rounds) (no_nul : 0 ∉ name) {vfs : Vfs}
    (below : LeadsBelow vfs path real) (names : List Str) {entries : List (Str × DirTree)}
    (listed : names.filter (fun name => name ≠ dot ∧ name ≠ dotdot) = entries.map Prod.fst)
    (files : ∀ entry ∈ entries, FileName entry.1)
    (stands : ∀ entry ∈ entries, Stands host (real ++ slash :: entry.1) entry.2)
    (deep : ∀ entry ∈ entries, entry.2.depth ≤ rounds) {st : VfsState} (same : st.vfs = vfs) :
    ∃ st', names.foldlM (findNode host search path name) st = .ok st' ∧
      Printed real st st' ((nodesBelow entries).flatMap (visit host path name)) := by
  induction names generalizing entries st with
  | nil =>
    obtain rfl : entries = [] := List.map_eq_nil_iff.mp listed.symm
    exact ⟨st, rfl, .refl real st⟩
  | cons node names ih =>
    rw [List.foldlM_cons]
    by_cases ordinary : node ≠ dot ∧ node ≠ dotdot
    · rw [List.filter_cons_of_pos (by simpa using ordinary)] at listed
      obtain ⟨⟨first, tree⟩, entries, rfl, rfl, later⟩ := List.map_eq_cons_iff.mp listed.symm
      simp only [List.forall_mem_cons] at files stands deep
      obtain ⟨st₁, run, printed⟩ :=
        findNode_prints searches no_nul files.1 (same ▸ below) stands.1 deep.1
      obtain ⟨st', rest, printed'⟩ := ih later.symm files.2 stands.2 deep.2 (printed.vfs.trans same)
      refine ⟨st', by rw [run]; exact rest, ?_⟩
      rw [nodesBelow, List.flatMap_append]
      exact printed.trans printed'
    · -- `.` and `..` are passed over
      rw [List.filter_cons_of_neg (by simpa using ordinary)] at listed
      have skipped : findNode host search path name st node = .ok st := by
        rw [findNode, if_pos ((special_iff node).mpr ordinary)]
      obtain ⟨st', rest, printed⟩ := ih listed files stands deep same
      exact ⟨st', by rw [skipped]; exact rest, printed⟩

end

theorem findFiles_prints (no_nul : 0 ∉ name) (rounds : Nat) {st st₁ : VfsState} {path real : Str}
    {tree : DirTree} (opened : vfsOpendir host st path = .ok (host.opendir real, st₁))
    (below : LeadsBelow st₁.vfs path real) (opens : Opens host real tree) (deep : tree.depth ≤ rounds) :
    ∃ st', findFiles host name rounds st path = .ok st' ∧
      Printed real st₁ st' (searchText host path name tree) := by
  induction rounds generalizing st st₁ path real tree with
  | zero => cases opens <;> simp [DirTree.depth] at deep
  | succ rounds ih =>
    simp only [findFiles, opened, bind, Except.bind]
    cases opens with
    | closed refused =>
      refine ⟨_, by rw [refused], ?_⟩
      simpa [searchText] using (Printed.refl real st₁).print (cannot host (bytes "open") path _)
    | dir listed names files stands =>
      rw [DirTree.depth] at deep
      rw [listed]
      have searches : Searches host name (findFiles host name rounds) rounds := by
        intro st path real tree leads opens deep
        have called : vfsOpendir host st path = _ := vfsCall_leads host.opendir leads
        obtain ⟨st', run, printed⟩ := ih called (fun node file => leads.longer file) opens deep
        refine ⟨st', run, ?_⟩
        simpa using (Printed.ask st (.refl real)).trans printed
      exact findNodes_print searches no_nul below _ names files stands
        (fun entry member => (depth_le_below member).trans (by omega)) rfl

end

/-- Bytes that take two calls of `fgets`. -/
def longLine : Str := List.replicate 1500 97

/-- The directory /d with a file of a long line, a socket, and a directory that holds an empty
file. -/
def sampleFiles : VfsHost where
  access _ := ⟨⟨none, fun _ => false, fun _ _ => none, fun _ => []⟩, fun _ _ _ => none, []⟩
  opendir real :=
    if real = bytes "//d" then .ok [dot, dotdot, bytes "a.c", bytes "s.c", bytes "sub"]
    else if real = bytes "//d/sub" then .ok [bytes "B.C"]
    else .error ENOTDIR
  stat real :=
    if real = bytes "//d/sub" then .ok 16877 else if real = bytes "//d/s.c" then .ok 49645 else .ok 33188
  lstat real := if real = bytes "//d/sub" then .ok 16877 else .ok 33188
  fopen real := .ok (if real = bytes "//d/a.c" then longLine ++ [lf] ++ bytes "text" else [])
  ferror _ := none
  strerror _ := bytes "Not a directory"

def sampleTree : DirTree :=
  .dir [(bytes "a.c", .file), (bytes "s.c", .special ENOTDIR), (bytes "sub", .dir [(bytes "B.C", .file)])]

def freshState : VfsState := ⟨⟨none, none, []⟩, 0, [], []⟩

theorem sampleTree_opens : Opens sampleFiles (bytes "//d") sampleTree := by
  have below : Opens sampleFiles (bytes "//d/sub") (.dir [(bytes "B.C", .file)]) := by
    refine .dir (show sampleFiles.opendir (bytes "//d/sub") = .ok [bytes "B.C"] by decide) (by decide)
      (by decide) (List.forall_mem_singleton.mpr ?_)
    exact .file (show sampleFiles.stat (bytes "//d/sub/B.C") = .ok 33188 by decide) (by decide)
  refine .dir (show sampleFiles.opendir (bytes "//d") = .ok [dot, dotdot, bytes "a.c", bytes "s.c", bytes "sub"]
    by decide) (by decide) (by decide)
    (List.forall_mem_cons.mpr ⟨?_, List.forall_mem_cons.mpr ⟨?_, List.forall_mem_singleton.mpr ?_⟩⟩)
  · exact .file (show sampleFiles.stat (bytes "//d/a.c") = .ok 33188 by decide) (by decide)
  · exact .special (show sampleFiles.stat (bytes "//d/s.c") = .ok 49645 by decide) (by decide) (by decide)
      (show sampleFiles.opendir (bytes "//d/s.c") = .error ENOTDIR by decide)
  · exact .dir (show sampleFiles.stat (bytes "//d/sub") = .ok 16877 by decide) (by decide) below

section
variable {host : VfsHost}

/-- The directory bit of a node, if it has a status. -/
def lstatDirectory (host : VfsHost) (real : Str) : Bool :=
  match host.lstat real with
  | .ok mode => isDirectory mode
  | .error _ => false

variable (host) in
theorem lsNodes_print {args real : Str} {vfs : Vfs} (below : LeadsBelow vfs args real) (names : List Str)
    (listed : ∀ node ∈ names, node ≠ dot → node ≠ dotdot → FileName node ∧
      (args ++ [slash] ++ node).length ≤ 1023 ∧ ∃ mode, host.lstat (real ++ slash :: node) = .ok mode)
    {st : VfsState} (same : st.vfs = vfs) :
    ∃ st', lsNodes host args names st = .ok st' ∧
      Printed real st st' ((names.filter fun name => name ≠ dot ∧ name ≠ dotdot).flatMap fun node =>
        nodeLine node (lstatDirectory host (real ++ slash :: node))) := by
  induction names generalizing st with
  | nil => exact ⟨st, rfl, .refl real st⟩
  | cons node names ih =>
    simp only [List.forall_mem_cons] at listed
    obtain ⟨here, listed⟩ := listed
    by_cases ordinary : node ≠ dot ∧ node ≠ dotdot
    · obtain ⟨file, short, mode, status⟩ := here ordinary.1 ordinary.2
      have plain := ordinary_name file
      have whole : (args ++ [slash] ++ node).take 1023 = args ++ slash :: node := by
        rw [List.take_of_length_le short, List.append_assoc]
        rfl
      have called : vfsLstat host st (args ++ slash :: node) = _ :=
        vfsCall_leads host.lstat (same ▸ below file : Leads st.vfs _ _)
      have asked := Printed.ask st (.name file.not_up : Beneath real (real ++ slash :: node))
      obtain ⟨st', run, printed⟩ := ih listed
        (show ((st.ask (real ++ slash :: node)).print (nodeLine node (isDirectory mode))).vfs = vfs from same)
      refine ⟨st', ?_, ?_⟩
      · simp only [lsNodes, plain, whole, called, status, bind, Except.bind, Bool.false_eq_true, if_false]
        exact run
      · rw [List.filter_cons_of_pos (by simpa using ordinary), List.flatMap_cons, lstatDirectory, status]
        simpa using (asked.print (nodeLine node (isDirectory mode))).trans printed
    · obtain ⟨st', run, printed⟩ := ih listed same
      refine ⟨st', by rw [lsNodes, if_pos ((special_iff node).mpr ordinary)]; exact run, ?_⟩
      rw [List.filter_cons_of_neg (by simpa using ordinary)]
      exact printed

/-- `ls` prints each name of a directory on a line of its own, in the order of the directory. -/
theorem cmdLs_prints (st : VfsState) {args : Str} {real : HeapStr} {after : Vfs} {names : List Str}
    (given : args ≠ []) (fits : DeviceFits args) (ran : host.translate st args = (.ok real, after))
    (opens : host.opendir real.str = .ok names)
    (listed : ∀ node ∈ names, node ≠ dot → node ≠ dotdot → FileName node ∧
      (args ++ [slash] ++ node).length ≤ 1023 ∧ ∃ mode, host.lstat (real.str ++ slash :: node) = .ok mode) :
    ∃ st', cmdLs host st args = .ok st' ∧ st'.vfs = after ∧
      st'.printed = st.printed ++ ((names.filter fun name => name ≠ dot ∧ name ≠ dotdot).flatMap fun node =>
        nodeLine node (lstatDirectory host (real.str ++ slash :: node))) := by
  have opened : vfsOpendir host st args = _ := vfsCall_ok host.opendir ran
  obtain ⟨st', run, printed⟩ := lsNodes_print host (fun node file => leads_longer fits ran file)
    names listed (rfl : ({ st with vfs := after }.ask real.str).vfs = after)
  refine ⟨st', ?_, printed.vfs, printed.printed⟩
  simp only [cmdLs, given, if_false, opened, opens, bind, Except.bind]
  exact run

end

/-! ### Showing a file -/

/-- The file, and a line feed behind a last line that has none. -/
def shownFile (content : Str) : Str := content ++ if content.getLast? = some lf then [] else [lf]

/-- What is printed comes from C strings, and holds no NUL. -/
theorem catText_no_nul {content text : Str} (shown : catText content = some text) : 0 ∉ text := by
  unfold catText at shown
  generalize lines : (pieces 1024 content).map cstr = texts at shown
  have clean : 0 ∉ texts.flatten := by
    rw [← lines, List.mem_flatten]
    rintro ⟨text, member, inside⟩
    obtain ⟨piece, -, rfl⟩ := List.mem_map.mp member
    exact no_nul_cstr piece inside
  simp only [Option.bind_eq_bind, Option.bind_eq_some_iff] at shown
  obtain ⟨buf, -, last, -, same⟩ := shown
  rw [← Option.some.inj same, List.mem_append]
  rintro (inside | added)
  · exact clean inside
  · split at added <;> simp [lf] at added

/-- The pieces of a file without NULs are the lines that are printed, and the last of them
ends as the file does. -/
theorem catText_shown {content : Str} (nonempty : content ≠ []) (no_nul : 0 ∉ content) :
    catText content = some (shownFile content) := by
  have plain : (pieces 1024 content).map cstr = pieces 1024 content := by
    refine (List.map_congr_left fun piece member => ?_).trans (List.map_id _)
    exact cstr_of_no_nul fun inside => no_nul (mem_of_mem_pieces 1022 content piece member 0 inside)
  have whole := pieces_flatten 1022 content
  rcases List.eq_nil_or_concat (pieces 1024 content) with none | ⟨front, buf, split⟩
  · rw [none] at whole
    exact absurd whole.symm nonempty
  · rw [List.concat_eq_append] at split
    have some_left : buf ≠ [] := piece_ne_nil 1022 content (by rw [split]; simp)
    obtain ⟨start, last, rfl⟩ := (List.eq_nil_or_concat buf).resolve_left some_left
    rw [List.concat_eq_append] at split
    have ends : content.getLast? = some last := by
      rw [← whole, split]
      simp
    simp only [catText, plain, Option.bind_eq_bind]
    rw [whole, split]
    simp only [List.getLast?_append, List.getLast?_singleton, Option.some_or, Option.bind_some, shownFile, ends]
    by_cases fed : last = lf <;> simp [fed]

theorem catText_iff (content : Str) :
    catText content = some (shownFile content) ↔ content ≠ [] ∧ 0 ∉ content := by
  constructor
  · intro shown
    refine ⟨?_, fun nul => catText_no_nul shown (List.mem_append_left _ nul)⟩
    rintro rfl
    simp [catText, pieces_nil] at shown
  · rintro ⟨nonempty, no_nul⟩
    exact catText_shown nonempty no_nul

end KexecLoader
