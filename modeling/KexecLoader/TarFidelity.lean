import KexecLoader.TarFormat

/-!
# Extraction is faithful

Every item of an archive is read back as it was written, so that the reader
stands at the next header after it; on the tree, the extraction of a file is a
`place` of the library, and the archive a `placeAll`.
-/
namespace KexecLoader

open FileTree

/-! ### Reading -/

theorem rawFileRead_block {block rest : Str} (ending : Option Str) (size : Nat)
    (length : block.length = size) (pos : 0 < size) :
    rawFileRead size ⟨block ++ rest, ending⟩ = (block, none, ⟨rest, ending⟩) := by
  obtain ⟨fuel, rfl⟩ : ∃ fuel, size = fuel + 1 := ⟨size - 1, by omega⟩
  have nonempty : block ≠ [] := List.ne_nil_of_length_pos (by omega)
  have taken : (block ++ rest).take (fuel + 1) = block := by rw [← length, List.take_left]
  have dropped : (block ++ rest).drop (fuel + 1) = rest := by rw [← length, List.drop_left]
  simp only [rawFileRead, rawFileReadLoop, List.length_nil, Nat.sub_zero, taken, dropped, length,
    nonempty, List.nil_append]
  simp

/-- The bytes of a file are taken block by block. -/
theorem Padded.next {content padding : Str} (padded : Padded content padding)
    (nonempty : content ≠ []) :
    ∃ block padding', content ++ padding = block ++ (content.drop 512 ++ padding') ∧
      block.length = 512 ∧ block.take (min content.length 512) = content.take 512 ∧
      Padded (content.drop 512) padding' := by
  have pos := List.length_pos_iff.mpr nonempty
  have short := padded.short
  obtain ⟨k, whole⟩ := padded.whole
  by_cases long : 512 ≤ content.length
  · -- a full block, and the padding stays behind the rest
    refine ⟨content.take 512, padding, ?_, ?_, ?_, short, ?_⟩
    · rw [← List.append_assoc, List.take_append_drop]
    · rw [List.length_take]
      omega
    · rw [Nat.min_eq_right long, List.take_take, Nat.min_self]
    · refine ⟨k - 1, ?_⟩
      rw [List.length_drop]
      omega
  · -- the last block, padded to its size
    refine ⟨content ++ padding, [], ?_, ?_, ?_, by simp, ?_⟩
    · rw [List.drop_of_length_le (by omega)]
      simp
    · rw [List.length_append]
      omega
    · rw [Nat.min_eq_left (by omega), List.take_left, List.take_of_length_le (by omega)]
    · rw [List.drop_of_length_le (by omega)]
      simp

theorem Padded.nil {padding : Str} (padded : Padded [] padding) : padding = [] := by
  obtain ⟨k, whole⟩ := padded.whole
  have short := padded.short
  simp only [List.length_nil] at whole
  exact List.eq_nil_of_length_eq_zero (by omega)

/-! ### The fields of a header -/

/-- A number field is read back as the number, whatever stands behind it. -/
theorem strtoul_octalField {field : Str} {n : Nat} (octal : OctalField field n)
    (small : n < 2 ^ 32) (behind : Str) : strtoul 8 (cstr (field ++ behind)) = n := by
  obtain ⟨spaces, digits, stop, rest, rfl, all_space, some_digit, digit, rfl, stops⟩ := octal
  -- the string ends at the stop byte, or goes on with a space that strtoul does not read
  have no_nul : 0 ∉ spaces ++ digits := by
    intro member
    obtain member | member := List.mem_append.mp member
    · exact absurd (all_space 0 member) (by decide)
    · exact absurd (digit 0 member) (by decide)
  have ends : ∀ c ∈ (cstr (stop :: (rest ++ behind))).head?, isDigitOf 8 c = false := by
    obtain rfl | rfl := stops
    · simp
    · intro c head
      obtain rfl : space = c := by simpa [cstr, space] using head
      decide
  rw [show spaces ++ (digits ++ stop :: rest) ++ behind =
      (spaces ++ digits) ++ stop :: (rest ++ behind) by simp, cstr_append _ no_nul,
    List.append_assoc, strtoul_skip _ fun c member => by rw [all_space c member]; decide]
  exact strtoul_digits some_digit digit ends small

/-- The same for a field of a header. -/
theorem strtoul_headerStr (stack : Stack) {header : Str} {offset width n : Nat}
    (octal : OctalField ((header.drop offset).take width) n) (small : n < 2 ^ 32) :
    strtoul 8 (headerStr stack header offset) = n := by
  have field := List.take_append_drop width (header.drop offset)
  rw [headerStr, ← field, List.append_assoc]
  exact strtoul_octalField octal small _

theorem HeaderRecord.testChecksum {header : Str} (record : HeaderRecord header) (stack : Stack) :
    testChecksum stack header = true := by
  simp only [KexecLoader.testChecksum, decide_eq_true_eq]
  exact strtoul_headerStr stack record.checksum
    (Nat.lt_of_le_of_lt (checksum_le record.length) (by decide))

theorem NameField.headerStr {header name : Str} (named : NameField header name)
    (no_nul : 0 ∉ name) (stack : Stack) : headerStr stack header 0 = name := by
  obtain ⟨junk, field⟩ := named
  rw [KexecLoader.headerStr, List.drop_zero, ← List.take_append_drop nameSize header, field,
    List.append_assoc, List.append_assoc, cstr_append _ no_nul]
  simp

theorem NameField.not_zero {header name : Str} (named : NameField header name)
    (no_nul : 0 ∉ name) (nonempty : name ≠ []) : header ≠ List.replicate headerSize 0 := by
  rintro rfl
  obtain ⟨c, tail, rfl⟩ := List.exists_cons_of_ne_nil nonempty
  obtain ⟨junk, field⟩ := named
  have member : c ∈ (List.replicate headerSize (0 : UInt8)).take nameSize := by
    rw [field]
    simp
  obtain rfl := List.eq_of_mem_replicate (List.mem_of_mem_take member)
  simp at no_nul

/-! ### Paths -/

theorem location_eq {path : Str} (no_up : dotdot ∉ pathComponents path) :
    location path = (pathComponents path).filter (· ≠ dot) := lexical_of_no_up dot dotdot no_up

section
variable {front tail : Str} (plain : slash ∉ tail)
include plain

theorem pathComponents_last (nonempty : tail ≠ []) :
    pathComponents (front ++ slash :: tail) = pathComponents front ++ [tail] := by
  rw [pathComponents_slash, pathComponents_plain tail plain, if_neg nonempty]

variable (no_up : dotdot ∉ pathComponents (front ++ slash :: tail))
include no_up

omit plain in
theorem no_up_front : dotdot ∉ pathComponents front := by
  rw [pathComponents_slash] at no_up
  exact fun member => no_up (List.mem_append_left _ member)

theorem location_last (nonempty : tail ≠ []) (no_dot : tail ≠ dot) :
    location (front ++ slash :: tail) = location front ++ [tail] := by
  rw [location_eq no_up, location_eq (no_up_front no_up), pathComponents_last plain nonempty,
    List.filter_append]
  simp [no_dot]

theorem location_here (stays : tail = [] ∨ tail = dot) :
    location (front ++ slash :: tail) = location front := by
  rw [location_eq no_up, location_eq (no_up_front no_up), pathComponents_slash,
    pathComponents_plain tail plain, List.filter_append]
  obtain rfl | rfl := stays
  · simp
  · simp [show dot ≠ [] by decide]

theorem location_front_above : location front <+: location (front ++ slash :: tail) := by
  by_cases stays : tail = [] ∨ tail = dot
  · rw [location_here plain no_up stays]
  · simp only [not_or] at stays
    rw [location_last plain no_up stays.1 stays.2]
    exact List.prefix_append _ _

/-- A path through directories leads where its text says. -/
theorem namei_of_dirs {tree : FsTree} (dirs : DirsTo tree (location front)) :
    namei tree (front ++ slash :: tail) = .ok (location (front ++ slash :: tail)) := by
  rw [location_eq (no_up_front no_up)] at dirs
  rw [location_eq no_up, namei]
  by_cases nonempty : tail = []
  · -- a slash at the end adds no component
    have same : pathComponents (front ++ slash :: tail) = pathComponents front := by
      rw [pathComponents_slash, nonempty, pathComponents_nil, List.append_nil]
    rw [same] at no_up ⊢
    exact walk_of_dirs _ no_up dirs
  · rw [pathComponents_last plain nonempty] at no_up ⊢
    exact walk_concat_of_dirs _ tail no_up dirs

end

/-! ### Parent directories -/

/-- One more directory, behind those on the way to it. -/
theorem ensureDirs_location {front tail : Str} (tree : FsTree) (plain : slash ∉ tail)
    (no_up : dotdot ∉ pathComponents (front ++ slash :: tail)) :
    (ensureDirs tree (location front)).set (location (front ++ slash :: tail)) (some .dir) =
      ensureDirs tree (location (front ++ slash :: tail)) := by
  by_cases stays : tail = [] ∨ tail = dot
  · rw [location_here plain no_up stays, ensureDirs_set]
  · simp only [not_or] at stays
    rw [location_last plain no_up stays.1 stays.2, ensureDirs_concat]

/-- `tar_mkdirs` makes the directories on the way to the last component of the
path: the recursion those before the last slash but one, `mkdir` the last. -/
theorem tarMkdirsRec_ensures (fuel : Nat) (dir tail : Str) (os : Os) (plain : slash ∉ tail)
    (short : (dir ++ slash :: tail).length < 128) (absolute : dir = [] ∨ dir.head? = some slash)
    (enough : dir.length < fuel) (no_up : dotdot ∉ pathComponents dir) (quiet : os.Quiet)
    (root : os.tree [] = some .dir) (unobstructed : Unobstructed os.tree (location dir)) :
    ∃ os', tarMkdirsRec fuel (dir ++ slash :: tail) os = (true, os') ∧
      os.Becomes (ensureDirs os.tree (location dir)) os' := by
  induction fuel generalizing dir tail with
  | zero => omega
  | succ fuel ih =>
    have whole : (dir ++ slash :: tail).take 128 = dir ++ slash :: tail :=
      List.take_of_length_le (by omega)
    simp only [tarMkdirsRec, whole, strrchr_append dir tail slash plain]
    by_cases empty : dir = []
    · -- the slash is the first byte of the path: there is nothing to make
      subst empty
      have dirs : DirsTo os.tree (location []) := by
        intro l below
        rw [List.prefix_nil.mp below, root]
      rw [ensureDirs_of_dirsTo dirs]
      exact ⟨os, rfl, .refl os⟩
    · have starts := absolute.resolve_left empty
      have has_slash : slash ∈ dir := List.mem_of_mem_head? starts
      obtain ⟨front, last, rfl, last_plain⟩ := split_at_last has_slash
      have front_absolute : front = [] ∨ front.head? = some slash := by
        cases front with
        | nil => exact .inl rfl
        | cons c front => exact .inr starts
      simp only [List.length_append, List.length_cons] at short enough
      -- the recursion makes the directories in front of the last slash of dir
      obtain ⟨os₁, made, becomes⟩ := ih front last last_plain
        (by simp only [List.length_append, List.length_cons]; omega) front_absolute (by omega)
        (no_up_front no_up) (unobstructed.upward (location_front_above last_plain no_up))
      -- so that mkdir finds its parent; EEXIST is no failure
      have there : namei os₁.tree (front ++ slash :: last) = .ok (location (front ++ slash :: last)) := by
        apply namei_of_dirs last_plain no_up
        rw [becomes.tree]
        exact ensureDirs_dirsTo _ _
      have free := ensureDirs_unobstructed unobstructed (location front) _ (List.prefix_refl _)
      rw [← becomes.tree] at free
      obtain ⟨err, os₂, called, harmless, becomes₂⟩ := mkdir_quiet (becomes.quiet quiet) there free
      rw [becomes.tree, ensureDirs_location _ last_plain no_up] at becomes₂
      refine ⟨os₂, ?_, becomes.trans becomes₂⟩
      simp only [List.length_eq_zero_iff, empty, if_false, List.take_left, has_slash, if_true, made,
        called]
      obtain rfl | rfl := harmless <;> rfl

theorem tarMkdirs_ensures {front tail : Str} {os : Os} (plain : slash ∉ tail)
    (short : (front ++ slash :: tail).length < 128) (absolute : front.head? = some slash)
    (no_up : dotdot ∉ pathComponents front) (quiet : os.Quiet) (root : os.tree [] = some .dir)
    (unobstructed : Unobstructed os.tree (location front)) :
    ∃ os', tarMkdirs (front ++ slash :: tail) os = (true, os') ∧
      os.Becomes (ensureDirs os.tree (location front)) os' :=
  tarMkdirsRec_ensures _ front tail os plain short (.inr absolute)
    (by simp only [List.length_append]; omega) no_up quiet root unobstructed

/-! ### The blocks of a file -/

section
variable (name : Str) (rest : Str) (ending : Option Str)

theorem extractBlocks_skip (fuel : Nat) (content padding : Str) (os : Os)
    (padded : Padded content padding) (enough : content.length ≤ fuel) :
    extractBlocks name none fuel content.length ⟨content ++ padding ++ rest, ending⟩ os =
      .ok (⟨rest, ending⟩, os) := by
  induction fuel generalizing content padding with
  | zero =>
    obtain rfl := List.eq_nil_of_length_eq_zero (Nat.le_zero.mp enough)
    rw [padded.nil]
    rfl
  | succ fuel ih =>
    by_cases empty : content = []
    · subst empty
      rw [padded.nil]
      rfl
    · obtain ⟨block, padding', split, length, -, padded'⟩ := padded.next empty
      have pos := List.length_pos_iff.mpr empty
      have left : content.length - min content.length 512 = (content.drop 512).length := by
        rw [List.length_drop]
        omega
      rw [split, List.append_assoc]
      simp only [extractBlocks, rawFileRead_block ending 512 length (by decide), length,
        Nat.ne_of_gt pos, Nat.lt_irrefl, if_false, left]
      exact ih _ _ padded' (by rw [List.length_drop]; omega)

/-- The blocks written so far are the file so far. -/
theorem extractBlocks_write (fuel : Nat) (content padding : Str) (os : Os)
    (padded : Padded content padding) (enough : content.length ≤ fuel) (quiet : os.Quiet)
    {out : List Str} {written : Str} (there : os.tree out = some (.file written)) :
    ∃ os', extractBlocks name (some out) fuel content.length
        ⟨content ++ padding ++ rest, ending⟩ os = .ok (⟨rest, ending⟩, os') ∧
      os.Becomes (os.tree.set out (some (.file (written ++ content)))) os' := by
  have nothing : os.Becomes (os.tree.set out (some (.file (written ++ [])))) os := by
    rw [List.append_nil, ← there, Tree.set_self]
    exact .refl os
  induction fuel generalizing content padding os written with
  | zero =>
    obtain rfl := List.eq_nil_of_length_eq_zero (Nat.le_zero.mp enough)
    rw [padded.nil]
    exact ⟨os, rfl, nothing⟩
  | succ fuel ih =>
    by_cases empty : content = []
    · subst empty
      rw [padded.nil]
      exact ⟨os, rfl, nothing⟩
    · obtain ⟨block, padding', split, length, data, padded'⟩ := padded.next empty
      have pos := List.length_pos_iff.mpr empty
      have left : content.length - min content.length 512 = (content.drop 512).length := by
        rw [List.length_drop]
        omega
      obtain ⟨os₁, wrote, becomes⟩ := fwrite_quiet quiet written (content.take 512) there
      have there₁ : os₁.tree out = some (.file (written ++ content.take 512)) := by
        rw [becomes.tree, Tree.set_same]
      have nothing₁ : os₁.Becomes
          (os₁.tree.set out (some (.file (written ++ content.take 512 ++ [])))) os₁ := by
        rw [List.append_nil, ← there₁, Tree.set_self]
        exact .refl os₁
      obtain ⟨os₂, done, becomes₂⟩ := ih (content.drop 512) padding' os₁ padded'
        (by rw [List.length_drop]; omega) (becomes.quiet quiet) there₁ nothing₁
      refine ⟨os₂, ?_, ?_⟩
      · rw [split, List.append_assoc]
        simp only [extractBlocks, rawFileRead_block ending 512 length (by decide), length,
          Nat.ne_of_gt pos, Nat.lt_irrefl, if_false, data, wrote, left]
        exact done
      · have both := becomes.trans becomes₂
        rwa [becomes.tree, Tree.set_set, List.append_assoc, List.take_append_drop] at both

end

/-! ### One file -/

theorem namei_tarfileTmp {tree : FsTree} (root : tree [] = some .dir) :
    namei tree tarfileTmp = .ok tmpLocation := by
  have path : tarfileTmp = [] ++ slash :: bytes "tarfile.tmp" := by decide
  have dirs : DirsTo tree (location []) := by
    intro l below
    rw [List.prefix_nil.mp below, root]
  rw [path]
  exact namei_of_dirs (by decide) (by decide) dirs

/-- A file whose directories exist is placed, and read to its last block. -/
theorem extractFile_places (name rest : Str) (ending : Option Str) {front tail content padding : Str}
    {os : Os} (plain : slash ∉ tail) (no_up : dotdot ∉ pathComponents (front ++ slash :: tail))
    (nonempty : tail ≠ []) (no_dot : tail ≠ dot) (padded : Padded content padding)
    (quiet : os.Quiet) (dirs : DirsTo os.tree (location front))
    (tmp : os.tree tmpLocation ≠ some .dir)
    (ok : Placeable tmpLocation (location (front ++ slash :: tail))) :
    ∃ os', extractFile name (front ++ slash :: tail) content.length
        ⟨content ++ padding ++ rest, ending⟩ os = .ok (⟨rest, ending⟩, os') ∧
      os.Becomes (place tmpLocation os.tree (location (front ++ slash :: tail), content)) os' := by
  have parent : (location (front ++ slash :: tail)).dropLast = location front := by
    rw [location_last plain no_up nonempty no_dot, List.dropLast_concat]
  have there : ∀ tree : FsTree, DirsTo tree (location front) →
      namei tree (front ++ slash :: tail) = .ok (location (front ++ slash :: tail)) :=
    fun _ => namei_of_dirs plain no_up
  generalize location (front ++ slash :: tail) = loc at *
  obtain ⟨os₁, checked, becomes₁⟩ := checkFile_quiet quiet (there os.tree dirs)
  have quiet₁ := becomes₁.quiet quiet
  simp only [extractFile, checked]
  cases found : os.tree loc with
  | some node =>
    -- the name is taken, and the blocks are read and dropped
    have same : place tmpLocation os.tree (loc, content) = os.tree := by
      rw [place_taken ok (by simp [found]), parent, ensureDirs_of_dirsTo dirs]
    rw [same]
    exact ⟨os₁, extractBlocks_skip name rest ending _ content padding os₁ padded (Nat.le_refl _),
      becomes₁⟩
  | none =>
    have root := dirs [] (List.nil_prefix)
    have apart := ok.ne_scratch (List.prefix_refl loc)
    -- fopen
    obtain ⟨os₂, opened, becomes₂⟩ := fopenWb_quiet quiet₁
      (namei_tarfileTmp (by rw [becomes₁.tree, root])) (by rwa [becomes₁.tree])
    replace becomes₂ := becomes₁.trans becomes₂
    rw [becomes₁.tree] at becomes₂
    have scratch₂ : os₂.tree tmpLocation = some (.file []) := by
      rw [becomes₂.tree, Tree.set_same]
    -- the blocks
    obtain ⟨os₃, written, becomes₃⟩ := extractBlocks_write name rest ending content.length content
      padding os₂ padded (Nat.le_refl _) (becomes₂.quiet quiet) scratch₂
    replace becomes₃ := becomes₂.trans becomes₃
    rw [becomes₂.tree, Tree.set_set, List.nil_append] at becomes₃
    -- fclose
    have becomes₄ := becomes₃.trans (fclose_quiet (becomes₃.quiet quiet) tmpLocation)
    rw [becomes₃.tree] at becomes₄
    -- rename
    have dirs₄ : DirsTo (fclose tmpLocation os₃).tree (location front) := by
      intro l below
      have kept := ok.ne_scratch (below.trans (parent ▸ List.dropLast_prefix loc))
      rw [becomes₄.tree, Tree.set_other _ _ kept, dirs l below]
    have scratch : (fclose tmpLocation os₃).tree tmpLocation = some (.file content) := by
      rw [becomes₄.tree, Tree.set_same]
    have free : (fclose tmpLocation os₃).tree loc = none := by
      rw [becomes₄.tree, Tree.set_other _ _ apart, found]
    obtain ⟨os₅, renamed, becomes₅⟩ := rename_quiet (becomes₄.quiet quiet)
      (namei_tarfileTmp (dirs₄ [] List.nil_prefix)) (there _ dirs₄) apart.symm
      (by simp [scratch]) (by simp [free])
    replace becomes₅ := becomes₄.trans becomes₅
    rw [scratch, becomes₄.tree, place_by_rename content ok found (by rwa [parent])]
      at becomes₅
    refine ⟨os₅, ?_, becomes₅⟩
    simp only [Option.isSome_none, opened, written, renamed]

/-! ### One entry -/

/-- The path of an entry at its last slash. -/
structure EntrySplit (name front tail : Str) : Prop where
  path : entryPath modulesDir name = front ++ slash :: tail
  plain : slash ∉ tail
  nonempty : tail ≠ []
  no_dot : tail ≠ dot
  no_up : dotdot ∉ pathComponents (front ++ slash :: tail)
  absolute : front.head? = some slash
  short : (front ++ slash :: tail).length < 128
  inside : location modulesDir <+: location front
  flat : slash ∉ name → front = modulesDir

theorem EntryName.path {name : Str} (valid : EntryName name) :
    entryPath modulesDir name = modulesDir ++ slash :: name := by
  have whole : name.take 256 = name := List.take_of_length_le (by have := valid.fits; omega)
  simp only [entryPath, whole]
  rfl

theorem EntryName.split {name : Str} (valid : EntryName name) (file : NamesFile name) :
    ∃ front tail, EntrySplit name front tail := by
  have no_up : dotdot ∉ pathComponents (modulesDir ++ slash :: name) := by
    rw [pathComponents_slash, List.mem_append, not_or]
    exact ⟨by decide, valid.no_dotdot⟩
  have short : (modulesDir ++ slash :: name).length < 128 := by
    have fits := valid.fits
    simp [modulesDir, bytes]
    omega
  by_cases nested : slash ∈ name
  · obtain ⟨front, tail, rfl, plain⟩ := split_at_last nested
    have nonempty : tail ≠ [] := by
      rintro rfl
      exact valid.no_slash_last (by simp)
    have assoc : modulesDir ++ slash :: (front ++ slash :: tail) =
        (modulesDir ++ slash :: front) ++ slash :: tail := by simp
    rw [assoc] at no_up short
    refine ⟨modulesDir ++ slash :: front, tail, valid.path.trans assoc, plain, nonempty, ?_, no_up,
      rfl, short, ?_, fun flat => absurd nested flat⟩
    · rintro rfl
      exact file (by rw [pathComponents_last plain nonempty, List.getLast?_concat])
    · have no_up_front := no_up_front no_up
      rw [location_eq no_up_front, pathComponents_slash, List.filter_append]
      exact List.prefix_append _ _
  · refine ⟨modulesDir, name, valid.path, nested, valid.nonempty, ?_, no_up, rfl, short,
      List.prefix_refl _, fun _ => rfl⟩
    rintro rfl
    exact file (by decide)

theorem EntrySplit.location {name front tail : Str} (split : EntrySplit name front tail) :
    entryLocation name = location front ++ [tail] := by
  rw [entryLocation, split.path, location_last split.plain split.no_up split.nonempty split.no_dot]

theorem placeable_entryLocation {name : Str} (valid : EntryName name) (file : NamesFile name) :
    Placeable tmpLocation (entryLocation name) := by
  obtain ⟨front, tail, split⟩ := valid.split file
  rw [split.location]
  refine ⟨by simp, fun below => ?_⟩
  -- the temporary file lies outside of the destination
  have inside := split.inside.trans (List.prefix_append _ [tail])
  have same := List.prefix_of_prefix_length_le below inside (by decide)
  exact absurd same (by decide)

/-- The state of the tree in which an entry can be extracted. -/
structure Stage (tree : FsTree) (names : List Str) : Prop where
  destination : DirsTo tree (location modulesDir)
  tmp : tree tmpLocation ≠ some .dir
  unobstructed : ∀ name ∈ names, Unobstructed tree (entryLocation name).dropLast

section
variable (tarName rest : Str) (stack : Nat → Stack) (os : Os)

/-- A header is taken off the archive and passes its checks. -/
theorem extractEntry_header {header : Str} (record : HeaderRecord header)
    (not_zero : header ≠ List.replicate headerSize 0) :
    extractEntry tarName modulesDir stack ⟨header ++ rest, none⟩ os =
      extractMember tarName modulesDir (stack rest.length) header ⟨rest, none⟩ os := by
  simp only [extractEntry, rawFileRead_block none headerSize record.length (by decide),
    record.length, Nat.lt_irrefl, if_false, not_zero, record.testChecksum, Bool.not_true,
    Bool.false_eq_true]

theorem extractEntry_zero :
    extractEntry tarName modulesDir stack ⟨List.replicate headerSize 0 ++ rest, none⟩ os =
      .error ⟨1, some ⟨rest, none⟩, true, os⟩ := by
  simp only [extractEntry, rawFileRead_block none headerSize List.length_replicate (by decide),
    List.length_replicate, Nat.lt_irrefl, if_false, if_true]

theorem extractEntry_directory {name part : Str} (encoded : (Item.directory name).Encodes part)
    (valid : DirectoryName name) :
    extractEntry tarName modulesDir stack ⟨part ++ rest, none⟩ os = .ok (⟨rest, none⟩, os) := by
  cases encoded with
  | directory record named =>
    have nonempty : name ≠ [] := by
      rintro rfl
      simpa using valid.slash_last
    rw [extractEntry_header tarName rest stack os record (named.not_zero valid.no_nul nonempty)]
    simp only [extractMember, named.headerStr valid.no_nul, lastOfName, valid.slash_last,
      Option.getD_some, if_true]

theorem extractEntry_hardLink {part : Str} (encoded : Item.hardLink.Encodes part) :
    extractEntry tarName modulesDir stack ⟨part ++ rest, none⟩ os = .ok (⟨rest, none⟩, os) := by
  cases encoded with
  | hardLink record flag =>
    have not_zero : part ≠ List.replicate headerSize 0 := by
      rintro rfl
      exact absurd flag (by decide)
    rw [extractEntry_header tarName rest stack os record not_zero]
    simp only [extractMember, flag, if_true, ite_self]

/-- The parent directories, made if the name has a slash and given if not. -/
theorem tarMkdirs_entry {name front tail : Str} (split : EntrySplit name front tail)
    (quiet : os.Quiet) (destination : DirsTo os.tree (location modulesDir))
    (unobstructed : Unobstructed os.tree (location front)) :
    ∃ os', (if slash ∈ name then tarMkdirs (front ++ slash :: tail) os else (true, os)) =
      (true, os') ∧ os.Becomes (ensureDirs os.tree (location front)) os' := by
  -- without a slash in the name the file goes into the destination itself
  by_cases nested : slash ∈ name
  · rw [if_pos nested]
    exact tarMkdirs_ensures split.plain split.short split.absolute (no_up_front split.no_up) quiet
      (destination [] List.nil_prefix) unobstructed
  · rw [if_neg nested, split.flat nested, ensureDirs_of_dirsTo destination]
    exact ⟨os, rfl, .refl os⟩

theorem extractEntry_file {name content part : Str} (encoded : (Item.file name content).Encodes part)
    (valid : EntryName name) (file : NamesFile name) (small : content.length < 2 ^ 31)
    (quiet : os.Quiet) (stage : Stage os.tree [name]) :
    ∃ os', extractEntry tarName modulesDir stack ⟨part ++ rest, none⟩ os =
        .ok (⟨rest, none⟩, os') ∧
      os.Becomes (place tmpLocation os.tree (entryLocation name, content)) os' := by
  obtain ⟨front, tail, split⟩ := valid.split file
  have parent : (entryLocation name).dropLast = location front := by
    rw [split.location, List.dropLast_concat]
  have whole : entryLocation name = location (front ++ slash :: tail) := by
    rw [entryLocation, split.path]
  have placeable := placeable_entryLocation valid file
  obtain ⟨os₁, made, becomes₁⟩ := tarMkdirs_entry os split quiet stage.destination
    (parent ▸ stage.unobstructed name (.head _))
  -- the directories made for it do not stand in the way of the temporary file
  have tmp₁ : os₁.tree tmpLocation ≠ some .dir := by
    rw [becomes₁.tree, ← parent, ensureDirs_apart]
    · exact stage.tmp
    · exact fun below => placeable.apart (below.trans (List.dropLast_prefix _))
  cases encoded with
  | @file name content header padding record named flag size padded =>
    obtain ⟨os₂, extracted, becomes₂⟩ := extractFile_places tarName rest none split.plain
      split.no_up split.nonempty split.no_dot padded (becomes₁.quiet quiet)
      (by rw [becomes₁.tree]; exact ensureDirs_dirsTo _ _) tmp₁ (whole ▸ placeable)
    refine ⟨os₂, ?_, ?_⟩
    · have last : lastOfName (stack (content ++ padding ++ rest).length) name ≠ slash := by
        obtain ⟨c, tail, rfl⟩ := List.exists_cons_of_ne_nil valid.nonempty
        have := valid.no_slash_last
        simpa [lastOfName, List.getLast?_cons] using this
      rw [List.append_assoc, extractEntry_header tarName _ stack os record
        (named.not_zero valid.no_nul valid.nonempty)]
      simp only [extractMember, named.headerStr valid.no_nul, last, flag, if_false, split.path,
        made, strtoul_headerStr _ size (Nat.lt_trans small (by decide))]
      exact extracted
    · have both := becomes₁.trans becomes₂
      rwa [becomes₁.tree, ← whole, ← parent,
        place_ensureDirs] at both

end

/-! ### The archive -/

/-- The files and where they go. -/
def entryFiles (items : List Item) : List (List Str × Str) :=
  (entries items).map fun e => (entryLocation e.1, e.2)

theorem Stage.next {tree : FsTree} {name content : Str} {items : List Item}
    (stage : Stage tree (name :: (entries items).map Prod.fst))
    (disjoint : Disjoint tmpLocation (entryFiles (.file name content :: items))) :
    Stage (place tmpLocation tree (entryLocation name, content))
      ((entries items).map Prod.fst) := by
  have ok := disjoint.placeable (entryLocation name, content) (.head _)
  constructor
  · intro l below
    refine place_dir ok (stage.destination l below) ?_
    rintro rfl
    exact absurd below (by decide)
  · -- the temporary file is as it was, or renamed away
    rw [place_scratch ok]
    split
    · exact stage.tmp
    · simp
  · intro other member
    obtain ⟨e, entry, rfl⟩ := List.mem_map.mp member
    have file : (entryLocation e.1, e.2) ∈ entryFiles (.file name content :: items) :=
      List.mem_cons_of_mem _ (List.mem_map_of_mem entry)
    refine place_unobstructed (stage.unobstructed e.1 (List.mem_cons_of_mem _ member))
      (disjoint.not_below_parent (.head _) file) ?_
    exact fun below => (disjoint.placeable _ file).apart (below.trans (List.dropLast_prefix _))

/-- The loop reads the items one after another and stops at the zero record. -/
theorem extractEntries_places (tarName rest : Str) (stack : Nat → Stack) (items : List Item)
    (parts : List Str) (encoded : List.Forall₂ Item.Encodes items parts) (os : Os)
    (names : ∀ e ∈ entries items, EntryName e.1 ∧ NamesFile e.1 ∧ e.2.length < 2 ^ 31)
    (directories : ∀ name, .directory name ∈ items → DirectoryName name)
    (disjoint : Disjoint tmpLocation (entryFiles items)) (quiet : os.Quiet)
    (stage : Stage os.tree ((entries items).map Prod.fst)) (fuel : Nat)
    (enough : items.length < fuel) :
    ∃ os', extractEntries tarName modulesDir stack fuel
        ⟨parts.flatten ++ (List.replicate headerSize 0 ++ rest), none⟩ os =
        some ⟨1, some ⟨rest, none⟩, true, os'⟩ ∧
      os.Becomes (placeAll tmpLocation os.tree (entryFiles items)) os' := by
  -- on the items: each leaves the reader at the next header and the stage set
  induction encoded generalizing os fuel with
  | nil =>
    obtain ⟨fuel, rfl⟩ : ∃ n, fuel = n + 1 := ⟨fuel - 1, by simp at enough; omega⟩
    refine ⟨os, ?_, .refl os⟩
    simp only [extractEntries, List.flatten_nil, List.nil_append, extractEntry_zero]
  | @cons item part items parts head _ ih =>
    obtain ⟨fuel, rfl⟩ : ∃ n, fuel = n + 1 := ⟨fuel - 1, by simp at enough; omega⟩
    have rounds : items.length < fuel := by simpa using enough
    have directories' : ∀ name, .directory name ∈ items → DirectoryName name :=
      fun name member => directories name (.tail _ member)
    rw [List.flatten_cons, List.append_assoc]
    cases item with
    | file name content =>
      obtain ⟨valid, file, small⟩ := names (name, content) (.head _)
      obtain ⟨os₁, extracted, becomes₁⟩ := extractEntry_file tarName
        (parts.flatten ++ (List.replicate headerSize 0 ++ rest)) stack os head valid file small
        quiet ⟨stage.destination, stage.tmp, by
          simpa using stage.unobstructed name (.head _)⟩
      obtain ⟨os₂, done, becomes₂⟩ := ih os₁ (fun e member => names e (.tail _ member)) directories'
        disjoint.tail (becomes₁.quiet quiet) (becomes₁.tree ▸ Stage.next stage disjoint) fuel rounds
      refine ⟨os₂, ?_, ?_⟩
      · simp only [extractEntries, extracted, done]
      · have both := becomes₁.trans becomes₂
        rwa [becomes₁.tree] at both
    | directory name =>
      obtain ⟨os₁, done, becomes₁⟩ := ih os names directories' disjoint quiet stage fuel rounds
      refine ⟨os₁, ?_, becomes₁⟩
      simp only [extractEntries, done,
        extractEntry_directory tarName _ stack os head (directories name (.head _))]
    | hardLink =>
      obtain ⟨os₁, done, becomes₁⟩ := ih os names directories' disjoint quiet stage fuel rounds
      refine ⟨os₁, ?_, becomes₁⟩
      simp only [extractEntries, done, extractEntry_hardLink tarName _ stack os head]

theorem Item.Encodes.length_le {items : List Item} {parts : List Str}
    (encoded : List.Forall₂ Item.Encodes items parts) : items.length ≤ parts.flatten.length := by
  have part_pos : ∀ {item : Item} {part : Str}, item.Encodes part → 1 ≤ part.length := by
    intro item part encodes
    have size : 1 ≤ headerSize := by decide
    cases encodes with
    | file record => rw [List.length_append, record.length]; omega
    | directory record => rwa [record.length]
    | hardLink record => rwa [record.length]
  induction encoded with
  | nil => simp
  | cons head _ ih =>
    have pos := part_pos head
    simp only [List.length_cons, List.flatten_cons, List.length_append]
    omega

section
variable {items : List Item} {os : Os} (ready : Extractable items os)
  (regular : ∀ e ∈ entries items, NamesFile e.1)
include ready regular

theorem Extractable.disjoint : Disjoint tmpLocation (entryFiles items) := by
  constructor
  · intro file member
    obtain ⟨e, entry, rfl⟩ := List.mem_map.mp member
    exact placeable_entryLocation (ready.names e entry) (regular e entry)
  · intro file hf other ho
    obtain ⟨e, he, rfl⟩ := List.mem_map.mp hf
    obtain ⟨f, hf, rfl⟩ := List.mem_map.mp ho
    exact ready.prefix_free e he f hf

/-- What a `placeAll` leaves is what the archive stands for. -/
theorem Extractable.extracted {os' : Os}
    (becomes : os.Becomes (placeAll tmpLocation os.tree (entryFiles items)) os') :
    Extracted items os os' := by
  have disjoint := ready.disjoint regular
  constructor
  · intro name content found
    -- the entry that is looked up is the first of its name
    obtain ⟨before, after, split, apart⟩ := List.lookup_eq_some_iff.mp found
    have member : (name, content) ∈ entries items := by simp [split]
    rw [becomes.tree]
    rw [entryFiles, split, List.map_append, List.map_cons] at disjoint ⊢
    refine placeAll_first disjoint (ready.fresh _ member) fun file earlier same => ?_
    obtain ⟨e, entry, rfl⟩ := List.mem_map.mp earlier
    have equal := ready.distinct e (by rw [split]; exact List.mem_append_left _ entry) _ member same
    simpa [equal] using apart e entry
  · intro e entry
    rw [becomes.tree]
    exact placeAll_parents _ _ disjoint.placeable (entryLocation e.1, e.2)
      (List.mem_map_of_mem entry)
  · intro l apart kept
    rw [becomes.tree]
    apply placeAll_apart kept
    intro file member
    obtain ⟨e, entry, rfl⟩ := List.mem_map.mp member
    exact apart e entry
  · rw [becomes.tree]
    cases files : entries items with
    | nil =>
      rw [entryFiles, files]
      rfl
    | cons e es =>
      -- the first file is new, so that its extraction removes the temporary file
      have free := ready.fresh e (by simp [files])
      rw [entryFiles, files, List.map_cons] at disjoint ⊢
      have ok := disjoint.placeable (entryLocation e.1, e.2) (.head _)
      have gone : place tmpLocation os.tree (entryLocation e.1, e.2) tmpLocation = none := by
        rw [place_scratch ok, free]
        rfl
      rw [if_neg (List.cons_ne_nil _ _)]
      exact placeAll_scratch _ (place tmpLocation os.tree _) disjoint.tail.placeable gone
  · exact becomes.shown

end

/-- Extracting an archive into the modules directory, where none of its files
exists yet and no call fails, creates each of them with its bytes, nothing for
the other headers, and stops at the zero record. -/
theorem extractTar_faithful (haveLzma : Bool)
    (openLib : CompType → Str → Os → Except Str Handle) (stack : Nat → Stack) (tarName : Str)
    (os : Os) (loc : List Str) (items : List Item) (archive rest : Str)
    (raw : bytes ".tar" <:+ tarName) (found : namei os.tree tarName = .ok loc)
    (stored : os.tree loc = some (.file archive)) (encoded : Encodes items archive rest)
    (ready : Extractable items os) (regular : ∀ e ∈ entries items, NamesFile e.1) :
    ∃ os', extractTar tarName modulesDir haveLzma openLib stack os =
        some ⟨1, some ⟨rest, none⟩, true, os'⟩ ∧ Extracted items os os' := by
  obtain ⟨parts, encodes, rfl⟩ := encoded
  have rounds := Item.Encodes.length_le encodes
  obtain ⟨os', run, becomes⟩ := extractEntries_places tarName rest stack items parts encodes os
    (fun e member => ⟨ready.names e member, regular e member, ready.sizes e member⟩)
    ready.directories (ready.disjoint regular) ready.quiet
    ⟨ready.destination, ready.tmp, fun name member => by
      obtain ⟨e, entry, rfl⟩ := List.mem_map.mp member
      exact ready.unobstructed e entry⟩
    ((parts.flatten ++ (List.replicate headerSize 0 ++ rest)).length + 1)
    (by rw [List.length_append]; omega)
  refine ⟨os', ?_, ready.extracted regular becomes⟩
  have format : compType haveLzma tarName = some .raw := by
    rw [compType, if_pos ((klStreqEnd_iff _ _).mpr raw)]
  simp only [extractTar, format, if_true, rawFileOpen, found, stored, run]

/-- A root file system with an archive and an empty modules directory. -/
def archiveOs (archive : Str) : Os where
  tree := fun l =>
    if l = [] ∨ l = [bytes "modules"] then some .dir
    else if l = [bytes "a.tar"] then some (.file archive)
    else none
  faults := fun _ => none
  strerror := fun _ => []
  calls := []
  shown := []

def sampleItems : List Item :=
  [.directory (bytes "d/"), .file (bytes "d/x") (bytes "old"), .hardLink,
    .file (bytes "./y") [], .file (bytes "d/x") (bytes "new")]

theorem extractTar_faithful_sample :
    ∃ os', extractTar (bytes "/a.tar") modulesDir false (fun _ _ _ => .error [])
        (fun _ => ⟨0, []⟩) (archiveOs (writeArchive sampleItems (bytes "end"))) =
        some ⟨1, some ⟨bytes "end", none⟩, true, os'⟩ ∧
      Extracted sampleItems (archiveOs (writeArchive sampleItems (bytes "end"))) os' := by
  have directories : ∀ name, .directory name ∈ sampleItems → DirectoryName name := by
    intro name member
    obtain rfl : name = bytes "d/" := by simpa [sampleItems] using member
    exact ⟨by decide, by decide⟩
  exact extractTar_faithful false _ _ _ _ [bytes "a.tar"] sampleItems _ _ (by decide) (by decide)
    rfl (writeArchive_encodes sampleItems (bytes "end") (by decide))
    ⟨by decide, by decide, directories, by decide, by decide, by decide, by decide, by decide,
      by decide, fun _ => rfl⟩ (by decide)

/-- A directory header whose name fills its field, with the mode behind it. -/
def wideDirectory : Str :=
  List.replicate 99 100 ++ (bytes "/0000755" ++ (List.replicate 17 0 ++
    (fill 12 (bytes "0") ++ (List.replicate 12 0 ++ (fill checksumSize (bytes "24641") ++
      53 :: List.replicate 355 0)))))

/-- A name whose last component is the dot is taken for its directory, which
exists by then, so that nothing is extracted. A directory whose name fills its
field is taken for a file, with the mode behind its name. -/
theorem extractTar_unfaithful :
    (∃ items archive, Extractable items (archiveOs archive) ∧ Encodes items archive [] ∧
      ¬ ∃ os', extractTar (bytes "/a.tar") modulesDir false (fun _ _ _ => .error [])
          (fun _ => ⟨0, []⟩) (archiveOs archive) = some ⟨1, some ⟨[], none⟩, true, os'⟩ ∧
        Extracted items (archiveOs archive) os') ∧
    HeaderRecord wideDirectory ∧ wideDirectory[nameSize - 1]? = some slash ∧
      ∃ ended created, extractTar (bytes "/a.tar") modulesDir false (fun _ _ _ => .error [])
        (fun _ => ⟨0, []⟩) (archiveOs (wideDirectory ++ List.replicate headerSize 0)) =
          some ended ∧ ended.os.tree created = some (.file []) := by
  have lost : ((extractTar (bytes "/a.tar") modulesDir false (fun _ _ _ => .error [])
      (fun _ => ⟨0, []⟩) (archiveOs (writeArchive [.file (bytes "a/.") (bytes "x")] []))).map
      fun ended => ended.os.tree (entryLocation (bytes "a/."))) = some (some .dir) := by
    decide +kernel
  have made : ((extractTar (bytes "/a.tar") modulesDir false (fun _ _ _ => .error [])
      (fun _ => ⟨0, []⟩) (archiveOs (wideDirectory ++ List.replicate headerSize 0))).map
      fun ended => ended.os.tree [bytes "modules", List.replicate 99 100, bytes "0000755"]) =
        some (some (.file [])) := by
    decide +kernel
  refine ⟨⟨[.file (bytes "a/.") (bytes "x")], _, ?_, writeArchive_encodes _ [] (by decide), ?_⟩, ?_⟩
  · exact ⟨by decide, by decide, by simp, by decide, by decide, by decide, by decide, by decide,
      by decide, fun _ => rfl⟩
  · rintro ⟨os', run, extracted⟩
    rw [run] at lost
    have file := extracted.files (bytes "a/.") (bytes "x") (by decide)
    simp [file] at lost
  · obtain ⟨ended, run, created⟩ := Option.map_eq_some_iff.mp made
    refine ⟨⟨by decide +kernel, ?_⟩, by decide +kernel, ended, _, run, created⟩
    exact ⟨[], bytes "24641", 0, [0, 0], by decide +kernel, by simp, by decide, by decide,
      by decide +kernel, .inl rfl⟩

end KexecLoader
