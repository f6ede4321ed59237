import KexecLoader.TarFidelity
import KexecLoader.VfsFiles

/-!
# The archives of the boot disk

`extract_module_tars` extracts every archive in the modules directory of the boot disk into
the one of the root file system. However the files are spread over archives, and whichever
of these are compressed, what comes of them is what one archive with all the items would
leave.
-/
namespace KexecLoader

open FileTree

section
variable (host : VfsHost) (haveLzma : Bool) (openLib : CompType → Str → Os → Except Str Handle)
  (stack : Nat → Nat → Stack)

/-- What is done with a name in the directory. -/
def extractNode (s : VfsState × Os) (node : Str) : Except Stuck (VfsState × Os) :=
  let (st, os) := s
  if !isTarExtension node then .ok (st, os)
  else
    match host.translate st (bytes "/modules/" ++ node) with
    | (.crash, _) => .error .crash
    -- only `debug` hears of it
    | (.fail _, vfs) => .ok ({ st with vfs := vfs, translations := st.translations + 1 }, os)
    | (.ok rpath, vfs) =>
      match extractTar rpath.str (bytes "/modules/") haveLzma openLib (stack st.translations) os with
      | none => .error .unfinished
      | some ended => .ok ({ st with vfs := vfs }.ask rpath.str, ended.os)

def extractModuleTars (bootDisk : Option KlDisk) (st : VfsState) (os : Os) :
    Except Stuck (VfsState × Os) :=
  if bootDisk = none then .ok (st, os)
  else do
    let (opened, st) ← vfsOpendir host st (bytes "/modules/")
    match opened with
    | .error errno =>
      .ok (st, os.printD (bytes "Error opening modules directory: " ++ host.strerror errno))
    | .ok names => names.foldlM (extractNode host haveLzma openLib stack) (st, os)

end

/-! ### Archives on the disk -/

/-- The libraries read what a file is packed from, wherever it lies. -/
def Unpacks (openLib : CompType → Str → Os → Except Str Handle) (unpack : CompType → Str → Option Str) :
    Prop :=
  ∀ format path os loc packed plain, namei os.tree path = .ok loc → os.tree loc = some (.file packed) →
    unpack format packed = some plain → openLib format path os = .ok ⟨plain, none⟩

/-- The bytes of the archive in a file. -/
def unpacked (unpack : CompType → Str → Option Str) (format : CompType) (packed : Str) : Option Str :=
  if format = .raw then some packed else unpack format packed

/-- A path leads to an archive of these items, outside of the modules directory. -/
def Stored (haveLzma : Bool) (unpack : CompType → Str → Option Str) (tree : FsTree) (path : Str)
    (items : List Item) : Prop :=
  ∃ format loc packed plain rest, compType haveLzma path = some format ∧
    namei tree path = .ok loc ∧ tree loc = some (.file packed) ∧
    unpacked unpack format packed = some plain ∧ Encodes items plain rest ∧
    ¬ location modulesDir <+: loc ∧ loc ≠ tmpLocation

/-! ### One archive after another -/

theorem entries_append (items more : List Item) : entries (items ++ more) = entries items ++ entries more :=
  List.filterMap_append ..

theorem entryFiles_append (items more : List Item) :
    entryFiles (items ++ more) = entryFiles items ++ entryFiles more := by
  rw [entryFiles, entries_append, List.map_append]
  rfl

/-- The files of an archive leave room for those of the next ones. -/
theorem Stage.places {items more : List Item} {tree : FsTree}
    (stage : Stage tree ((entries (items ++ more)).map Prod.fst))
    (disjoint : Disjoint tmpLocation (entryFiles (items ++ more))) :
    Stage (placeAll tmpLocation tree (entryFiles items)) ((entries more).map Prod.fst) := by
  induction items generalizing tree with
  | nil => exact stage
  | cons item items ih =>
    cases item with
    | file name content => exact ih (Stage.next stage disjoint) disjoint.tail
    | directory name => exact ih stage disjoint
    | hardLink => exact ih stage disjoint

theorem Stage.front {items more : List Item} {tree : FsTree}
    (stage : Stage tree ((entries (items ++ more)).map Prod.fst)) :
    Stage tree ((entries items).map Prod.fst) :=
  ⟨stage.destination, stage.tmp, fun name member => stage.unobstructed name (by
    rw [entries_append, List.map_append]
    exact List.mem_append_left _ member)⟩

section
variable {haveLzma : Bool} {openLib : CompType → Str → Os → Except Str Handle}
  {unpack : CompType → Str → Option Str}

/-- An archive stays what it is while files are placed in the modules directory. -/
theorem Stored.placed {tree : FsTree} {path : Str} {items placed : List Item} {names : List Str}
    (stored : Stored haveLzma unpack tree path items) (stage : Stage tree names)
    (valid : ∀ e ∈ entries placed, EntryName e.1 ∧ NamesFile e.1) :
    Stored haveLzma unpack (placeAll tmpLocation tree (entryFiles placed)) path items := by
  obtain ⟨format, loc, packed, plain, rest, known, found, there, unpacks, encodes, outside, kept⟩ :=
    stored
  have placeable : ∀ file ∈ entryFiles placed, Placeable tmpLocation file.1 := fun file member => by
    obtain ⟨e, entry, rfl⟩ := List.mem_map.mp member
    exact placeable_entryLocation (valid e entry).1 (valid e entry).2
  refine ⟨format, loc, packed, plain, rest, known, ?_, ?_, unpacks, encodes, outside, kept⟩
  · refine walk_mono dot dotdot _ (fun l dir => ?_) found
    refine placeAll_dir ?_ _ _ placeable dir
    rintro rfl
    exact stage.tmp dir
  · refine placeAll_keeps_file kept _ _ placeable (fun file member below => ?_) there
    obtain ⟨e, entry, rfl⟩ := List.mem_map.mp member
    obtain ⟨front, tail, split⟩ := (valid e entry).1.split (valid e entry).2
    have under : location modulesDir <+: entryLocation e.1 := by
      rw [split.location]
      exact split.inside.trans (List.prefix_append _ _)
    -- on the way to the modules directory there are directories only
    rcases List.prefix_or_prefix_of_prefix below under with above | inside
    · rw [stage.destination loc above] at there
      cases there
    · exact absurd inside outside

/-- An archive is extracted as if its bytes were not packed. -/
theorem extractTar_stored (unpacks : Unpacks openLib unpack) (stack : Nat → Stack) {path : Str} {os : Os}
    {items : List Item} (stored : Stored haveLzma unpack os.tree path items)
    (valid : ∀ e ∈ entries items, EntryName e.1 ∧ NamesFile e.1 ∧ e.2.length < 2 ^ 31)
    (directories : ∀ name, .directory name ∈ items → DirectoryName name)
    (disjoint : Disjoint tmpLocation (entryFiles items)) (quiet : os.Quiet)
    (stage : Stage os.tree ((entries items).map Prod.fst)) :
    ∃ ended, extractTar path modulesDir haveLzma openLib stack os = some ended ∧
      os.Becomes (placeAll tmpLocation os.tree (entryFiles items)) ended.os := by
  obtain ⟨format, loc, packed, plain, rest, known, found, there, bytes_eq, ⟨parts, encodes, rfl⟩, -, -⟩ :=
    stored
  have opened : (if format = .raw then rawFileOpen path os else openLib format path os) =
      .ok ⟨parts.flatten ++ (List.replicate headerSize 0 ++ rest), none⟩ := by
    unfold unpacked at bytes_eq
    split at bytes_eq
    next raw =>
      rw [if_pos raw, rawFileOpen, found]
      dsimp only
      rw [there, Option.some.inj bytes_eq]
    next packed_format =>
      rw [if_neg packed_format]
      exact unpacks format path os loc packed _ found there bytes_eq
  have rounds := Item.Encodes.length_le encodes
  obtain ⟨os', run, becomes⟩ := extractEntries_places path rest stack items parts encodes os valid
    directories disjoint quiet stage
    ((parts.flatten ++ (List.replicate headerSize 0 ++ rest)).length + 1)
    (by rw [List.length_append]; omega)
  exact ⟨⟨1, some ⟨rest, none⟩, true, os'⟩, by simp only [extractTar, known, opened, run], becomes⟩

end

/-! ### The directory -/

section
variable {host : VfsHost} {haveLzma : Bool} {openLib : CompType → Str → Os → Except Str Handle}
  {unpack : CompType → Str → Option Str} {archives : Str → List Item}

/-- The items of the archives among some names. -/
def archived (archives : Str → List Item) (names : List Str) : List Item :=
  (names.filter isTarExtension).flatMap archives

variable (host haveLzma) in
theorem extractNodes_places (unpacks : Unpacks openLib unpack) (stack : Nat → Nat → Stack) {real : Str}
    (names : List Str) {st : VfsState} {os : Os}
    (leads : ∀ node ∈ names, isTarExtension node = true →
      Leads st.vfs (bytes "/modules/" ++ node) (real ++ slash :: node))
    (stored : ∀ node ∈ names, isTarExtension node = true →
      Stored haveLzma unpack os.tree (real ++ slash :: node) (archives node))
    (valid : ∀ e ∈ entries (archived archives names), EntryName e.1 ∧ NamesFile e.1 ∧ e.2.length < 2 ^ 31)
    (directories : ∀ name, .directory name ∈ archived archives names → DirectoryName name)
    (disjoint : Disjoint tmpLocation (entryFiles (archived archives names))) (quiet : os.Quiet)
    (stage : Stage os.tree ((entries (archived archives names)).map Prod.fst)) :
    ∃ st' os', names.foldlM (extractNode host haveLzma openLib stack) (st, os) = .ok (st', os') ∧
      st'.vfs = st.vfs ∧ os.Becomes (placeAll tmpLocation os.tree (entryFiles (archived archives names))) os' := by
  -- on the names: the archives that are left stay readable while those before are extracted
  induction names generalizing st os with
  | nil => exact ⟨st, os, rfl, rfl, .refl os⟩
  | cons node names ih =>
    obtain ⟨leads_here, leads⟩ := List.forall_mem_cons.mp leads
    obtain ⟨stored_here, stored⟩ := List.forall_mem_cons.mp stored
    by_cases archive : isTarExtension node = true
    · have split : archived archives (node :: names) = archives node ++ archived archives names := by
        rw [archived, List.filter_cons_of_pos archive, List.flatMap_cons]
        rfl
      rw [split] at valid directories disjoint stage ⊢
      rw [entryFiles_append] at disjoint ⊢
      have front : ∀ e ∈ entries (archives node), EntryName e.1 ∧ NamesFile e.1 ∧ e.2.length < 2 ^ 31 :=
        fun e member => valid e (by
          rw [entries_append]
          exact List.mem_append_left _ member)
      obtain ⟨str, translated, same⟩ := (leads_here archive).2 (host.access st.translations)
      obtain ⟨ended, run, becomes⟩ := extractTar_stored unpacks (stack st.translations) (stored_here archive)
        front (fun name member => directories name (List.mem_append_left _ member)) disjoint.front quiet
        stage.front
      have step : extractNode host haveLzma openLib stack (st, os) node =
          .ok (st.ask (real ++ slash :: node), ended.os) := by
        have translate : host.translate st (bytes "/modules/" ++ node) = (.ok str, st.vfs) := translated
        have extracted : extractTar (real ++ slash :: node) (bytes "/modules/") haveLzma openLib
            (stack st.translations) os = some ended := run
        simp only [extractNode, archive, Bool.not_true, Bool.false_eq_true, if_false, translate, same, extracted]
      obtain ⟨st', os', rest, vfs, becomes'⟩ := @ih (st.ask (real ++ slash :: node)) ended.os leads
        (fun other member tar => by
          rw [becomes.tree]
          exact (stored other member tar).placed stage fun e entry => ⟨(front e entry).1, (front e entry).2.1⟩)
        (fun e member => valid e (by
          rw [entries_append]
          exact List.mem_append_right _ member))
        (fun name member => directories name (List.mem_append_right _ member)) disjoint.back
        (becomes.quiet quiet) (by
          rw [becomes.tree]
          exact Stage.places stage (by rwa [entryFiles_append]))
      refine ⟨st', os', ?_, vfs, ?_⟩
      · rw [List.foldlM_cons, step]
        exact rest
      · have both := becomes.trans becomes'
        rwa [becomes.tree, ← placeAll_append] at both
    · have split : archived archives (node :: names) = archived archives names := by
        rw [archived, List.filter_cons_of_neg archive]
        rfl
      rw [split] at valid directories disjoint stage ⊢
      obtain ⟨st', os', rest, vfs, becomes⟩ := ih leads stored valid directories disjoint quiet stage
      refine ⟨st', os', ?_, vfs, becomes⟩
      have step : extractNode host haveLzma openLib stack (st, os) node = .ok (st, os) := by
        simp [extractNode, archive]
      rw [List.foldlM_cons, step]
      exact rest

/-- A path with a slash at its end leads where it does without. -/
theorem vfsTranslatePath_slash {os : DiskOs} {mount : MountCall} {vfs after : Vfs} {stack : Str}
    {device : Str} {real : HeapStr} (root : vfs.root = some device)
    (plain : klStreq (deviceName device) (bytes "debug") = false)
    (ran : vfsTranslatePath os mount vfs stack (bytes "/modules/") = (.ok real, after)) :
    ∃ real', vfsTranslatePath os mount vfs stack (bytes "/modules") = (.ok real', after) ∧
      real'.str = real.str := by
  have slashed : splitDevice vfs stack (bytes "/modules/") = .ok (some device, bytes "/modules/") := by
    rw [← root]
    rfl
  have bare : splitDevice vfs stack (bytes "/modules") = .ok (some device, bytes "/modules") := by
    rw [← root]
    rfl
  have same : remaining (bytes "/modules/") = remaining (bytes "/modules") := by decide
  unfold vfsTranslatePath at ran ⊢
  rw [slashed] at ran
  rw [bare]
  rcases device with _ | ⟨c, more⟩
  · simp at ran
  · simp only [plain, Bool.false_eq_true, if_false] at ran ⊢
    rcases found : diskRoot os mount vfs.mounts (deviceName (c :: more)) with ⟨diskR | errno | _, mounts⟩
    · obtain ⟨first, built, -, str, -⟩ := buildPath_spec diskR (jailFor vfs (c :: more)) (bytes "/modules/")
      obtain ⟨second, built', -, str', -⟩ := buildPath_spec diskR (jailFor vfs (c :: more)) (bytes "/modules")
      simp only [found, built] at ran
      simp only [built']
      obtain ⟨same_real, rfl⟩ := Prod.mk.inj ran
      obtain rfl := Outcome.ok.inj same_real
      exact ⟨second, rfl, by rw [str', str, same]⟩
    · simp [found] at ran
    · simp [found] at ran

/-- Extracting all archives of the boot disk, where no call fails and none of the files
exists yet, leaves what a single archive with the items of all of them would: of several
files for a name the first, in the order of the directory and in that of each archive. -/
theorem extractModuleTars_faithful (unpacks : Unpacks openLib unpack) (stack : Nat → Nat → Stack)
    {disk : KlDisk} {st : VfsState} {os : Os} {device : Str} {real : HeapStr} {after : Vfs} {names : List Str}
    (root : st.vfs.root = some device) (plain : klStreq (deviceName device) (bytes "debug") = false)
    (ran : host.translate st (bytes "/modules/") = (.ok real, after))
    (listed : host.opendir real.str = .ok names)
    (files : ∀ node ∈ names, isTarExtension node = true → FileName node)
    (stored : ∀ node ∈ names, isTarExtension node = true →
      Stored haveLzma unpack os.tree (real.str ++ slash :: node) (archives node))
    (ready : Extractable (archived archives names) os)
    (regular : ∀ e ∈ entries (archived archives names), NamesFile e.1) :
    ∃ st' os', extractModuleTars host haveLzma openLib stack (some disk) st os = .ok (st', os') ∧
      st'.vfs = after ∧ Extracted (archived archives names) os os' := by
  obtain ⟨real', bare, same⟩ := vfsTranslatePath_slash root plain ran
  have opened : vfsOpendir host st (bytes "/modules/") = _ := vfsCall_ok host.opendir ran
  obtain ⟨st', os', run, vfs, becomes⟩ := extractNodes_places host haveLzma unpacks stack names
    (show ∀ node ∈ names, isTarExtension node = true →
        Leads ({ st with vfs := after }.ask real.str).vfs (bytes "/modules/" ++ node)
          (real.str ++ slash :: node) from fun node member tar => by
      have leads := leads_longer (fun opens => absurd opens (by decide)) bare (files node member tar)
      rw [same] at leads
      exact leads)
    stored (fun e member => ⟨ready.names e member, regular e member, ready.sizes e member⟩) ready.directories
    (ready.disjoint regular) ready.quiet
    ⟨ready.destination, ready.tmp, fun name member => by
      obtain ⟨e, entry, rfl⟩ := List.mem_map.mp member
      exact ready.unobstructed e entry⟩
  refine ⟨st', os', ?_, vfs, ready.extracted regular becomes⟩
  simp only [extractModuleTars, opened, listed, bind, Except.bind]
  exact run

end

/-! ### Two archives, one of them behind the library -/

def bootDevice : KlDisk := { initDisk with name := strlcpy (bytes "sda1") }

/-- A disk that is mounted and has archives in its modules directory. -/
def tarsHost : VfsHost where
  access _ := ⟨⟨none, fun _ => false, fun _ _ => none, fun _ => []⟩, fun _ _ _ => none, []⟩
  opendir _ := .ok [bytes "b.tar", bytes "notes", bytes "a.tgz"]
  stat _ := .error ENOENT
  lstat _ := .error ENOENT
  fopen _ := .error ENOENT
  ferror _ := none
  strerror _ := []

def tarsState : VfsState := ⟨⟨some (bytes "sda1"), none, [bootDevice]⟩, 0, [], []⟩

def tarsItems (node : Str) : List Item :=
  if node = bytes "b.tar" then [.file (bytes "x") (bytes "old"), .directory (bytes "d/")]
  else [.file (bytes "x") (bytes "new"), .file (bytes "d/y") []]

def tarsOs : Os where
  tree := fun l =>
    if l ∈ [[], [bytes "modules"], [bytes "mnt"], [bytes "mnt", bytes "sda1"],
      [bytes "mnt", bytes "sda1", bytes "modules"]] then some .dir
    else if l = [bytes "mnt", bytes "sda1", bytes "modules", bytes "b.tar"] then
      some (.file (writeArchive (tarsItems (bytes "b.tar")) []))
    else if l = [bytes "mnt", bytes "sda1", bytes "modules", bytes "a.tgz"] then
      some (.file (writeArchive (tarsItems (bytes "a.tgz")) []))
    else none
  faults := fun _ => none
  strerror := fun _ => []
  calls := []
  shown := []

/-- A file without the magic number of gzip is read as it is. -/
def plainGzip (format : CompType) (packed : Str) : Option Str :=
  if format = .gzip ∧ ¬ [31, 139] <+: packed then some packed else none

def openPlain (format : CompType) (path : Str) (os : Os) : Except Str Handle :=
  match namei os.tree path with
  | .error _ => .error []
  | .ok loc =>
    match os.tree loc with
    | some (.file packed) =>
      match plainGzip format packed with
      | none => .error []
      | some plain => .ok ⟨plain, none⟩
    | _ => .error []

theorem openPlain_unpacks : Unpacks openPlain plainGzip := by
  intro format path os loc packed plain found there unpacked
  simp only [openPlain, found, there, unpacked]

def tarsReal : HeapStr :=
  ⟨21, bytes "/mnt/sda1/modules", [bytes "/mnt/sda1/modules", bytes "/mnt/sda1/", bytes "/mnt/sda1"]⟩

theorem tarsState_leads :
    tarsHost.translate tarsState (bytes "/modules/") = (.ok tarsReal, tarsState.vfs) := rfl

theorem tarsStored (node : Str) (member : node ∈ [bytes "b.tar", bytes "notes", bytes "a.tgz"])
    (tar : isTarExtension node = true) :
    Stored false plainGzip tarsOs.tree (tarsReal.str ++ slash :: node) (tarsItems node) := by
  simp only [List.mem_cons, List.not_mem_nil, or_false] at member
  rcases member with rfl | rfl | rfl
  · exact ⟨.raw, [bytes "mnt", bytes "sda1", bytes "modules", bytes "b.tar"], _, _, [], by decide, by decide,
      rfl, rfl, writeArchive_encodes _ [] (by decide), by decide, by decide⟩
  · exact absurd tar (by decide)
  · exact ⟨.gzip, [bytes "mnt", bytes "sda1", bytes "modules", bytes "a.tgz"], _,
      writeArchive (tarsItems (bytes "a.tgz")) [], [], by decide, by decide,
      rfl, by decide +kernel, writeArchive_encodes _ [] (by decide), by decide, by decide⟩

theorem tarsItems_archived : archived tarsItems [bytes "b.tar", bytes "notes", bytes "a.tgz"] =
    [.file (bytes "x") (bytes "old"), .directory (bytes "d/"), .file (bytes "x") (bytes "new"),
      .file (bytes "d/y") []] := by decide

theorem extractModuleTars_sample :
    ∃ st' os', extractModuleTars tarsHost false openPlain (fun _ _ => ⟨0, []⟩) (some bootDevice)
        tarsState tarsOs = .ok (st', os') ∧ st'.vfs = tarsState.vfs ∧
      Extracted (archived tarsItems [bytes "b.tar", bytes "notes", bytes "a.tgz"]) tarsOs os' := by
  have directories : ∀ name,
      .directory name ∈ archived tarsItems [bytes "b.tar", bytes "notes", bytes "a.tgz"] →
        DirectoryName name := by
    intro name member
    rw [tarsItems_archived] at member
    obtain rfl : name = bytes "d/" := by simpa using member
    exact ⟨by decide, by decide⟩
  exact extractModuleTars_faithful openPlain_unpacks (fun _ _ => ⟨0, []⟩) rfl (by decide)
    tarsState_leads rfl (by decide) tarsStored
    ⟨by decide, by decide, directories, by decide, by decide, by decide, by decide, by decide,
      by decide, fun _ => rfl⟩ (by decide)

end KexecLoader
