import KexecLoader.TarFailures

/-!
# What an archive makes of a tree does not depend on the tree

While no call fails, a file that exists is skipped and nothing else is different: the
same headers are read at the same places, and each location that was free gets the
first node the archive has for it.
-/
namespace KexecLoader

open FileTree

/-! ### What the archive alone says -/

/-- The directories that are made for a path, in their order. -/
def madeDirs : Nat → Str → List (List Str × Node Str)
  | 0, _ => []
  | fuel + 1, rpath =>
    let path := rpath.take 128
    match strrchr path slash with
    | none => []
    | some last =>
      if last = 0 then []
      else
        let path := path.take last
        (if slash ∈ path then madeDirs fuel path else []) ++ [(location path, .dir)]

/-- What is left of the archive behind the blocks of a file, if they are all there. -/
def behindBlocks (size : Nat) (handle : Handle) : Option Handle :=
  if blockBytes size ≤ handle.rest.length then
    some { handle with rest := handle.rest.drop (blockBytes size) }
  else none

/-- The nodes of a file whose directories are made. -/
def fileNodes (path : Str) (size : Nat) (handle : Handle) : List (List Str × Node Str) :=
  match behindBlocks size handle with
  | none => []
  | some _ => [(location path, .file (handle.rest.take size))]

section
variable (dest : Str)

/-- The nodes of a member, and what is left of the archive behind it. -/
def memberNodes (stack : Stack) (header : Str) (handle : Handle) :
    List (List Str × Node Str) × Option Handle :=
  let entry := headerStr stack header 0
  let size := strtoul 8 (headerStr stack header sizeOffset)
  if lastOfName stack entry = slash ∨ header[linkflagOffset]? = some 49 then ([], some handle)
  else
    let path := entryPath dest entry
    let dirs := if slash ∈ entry then madeDirs (path.length + 1) path else []
    (dirs ++ fileNodes path size handle, behindBlocks size handle)

def roundNodes (stack : Nat → Stack) (handle : Handle) :
    List (List Str × Node Str) × Option Handle :=
  match rawFileRead headerSize handle with
  | (_, some _, _) => ([], none)
  | (header, none, handle) =>
    if headerSize ≤ header.length ∧ header ≠ List.replicate headerSize 0 ∧
        testChecksum (stack handle.rest.length) header = true then
      memberNodes dest (stack handle.rest.length) header handle
    else ([], none)

def archiveNodes (stack : Nat → Stack) : Nat → Handle → List (List Str × Node Str)
  | 0, _ => []
  | fuel + 1, handle =>
    match roundNodes dest stack handle with
    | (nodes, none) => nodes
    | (nodes, some handle) => nodes ++ archiveNodes stack fuel handle

/-- The headers, each with what is left of the archive in front of it. -/
def archiveHeaders (stack : Nat → Stack) : Nat → Handle → List (Nat × Str)
  | 0, _ => []
  | fuel + 1, handle =>
    (handle.rest.length, (rawFileRead headerSize handle).1) ::
      match (roundNodes dest stack handle).2 with
      | none => []
      | some handle => archiveHeaders stack fuel handle

/-- The headers that a run reads. -/
def headersRead (name : Str) (stack : Nat → Stack) : Nat → Handle → Os → List (Nat × Str)
  | 0, _, _ => []
  | fuel + 1, handle, os =>
    (handle.rest.length, (rawFileRead headerSize handle).1) ::
      match extractEntry name dest stack handle os with
      | .error _ => []
      | .ok (handle, os) => headersRead name stack fuel handle os

end

/-! ### Errors of the system -/

/-- The beginnings of the messages for calls that have failed. -/
def systemErrors : List Str :=
  [bytes "Error creating ", bytes "Error opening tarfile.tmp: ", bytes "Error writing tarfile.tmp: ",
    bytes "Error moving file to "]

def IsSystemError (text : Str) : Prop := ∃ front ∈ systemErrors, front <+: text

instance (text : Str) : Decidable (IsSystemError text) :=
  inferInstanceAs (Decidable (∃ front ∈ systemErrors, front <+: text))

/-- The message for a call that has failed is the last. -/
def Failed (os os' : Os) : Prop := ∃ text, os'.shown = os.shown ++ [text] ∧ IsSystemError text

/-- The message of a call names what it was for, and the reason behind it. -/
theorem failed_printD {os os' : Os} (shown : os'.shown = os.shown) {front tail : Str}
    (listed : front ∈ systemErrors) : Failed os (os'.printD (front ++ tail)) :=
  ⟨front ++ tail, by rw [Os.printD, shown], front, listed, List.prefix_append _ _⟩

/-- Away from the temporary file, nodes were filled in. -/
structure Fills (os os' : Os) (nodes : List (List Str × Node Str)) : Prop where
  tree : ∀ l, l ≠ tmpLocation → os'.tree l = filled os.tree nodes l
  faults : os'.faults = os.faults

/-- A part of the extraction does what the archive says, or a call has failed. -/
def Does (os : Os) (nodes : List (List Str × Node Str)) :
    Option Handle → Except Ended (Handle × Os) → Prop
  | some handle, .ok (handle', os') => handle' = handle ∧ os'.shown = os.shown ∧ Fills os os' nodes
  | some _, .error ended => Failed os ended.os
  | none, .ok _ => False
  | none, .error ended => Failed os ended.os ∨ Fills os ended.os nodes

theorem Fills.trans {os os₁ os₂ : Os} {nodes more : List (List Str × Node Str)}
    (first : Fills os os₁ nodes) (second : Fills os₁ os₂ more) : Fills os os₂ (nodes ++ more) :=
  ⟨fun l apart => by rw [second.tree l apart, filled_append, filled_congr more (first.tree l apart)],
    second.faults.trans first.faults⟩

theorem Fills.quiet {os os' : Os} {nodes : List (List Str × Node Str)} (fills : Fills os os' nodes)
    (quiet : os.Quiet) : os'.Quiet := fun n => by rw [fills.faults, quiet n]

/-- A part of the extraction behind one that shows nothing. -/
theorem Does.after {os os₁ : Os} {nodes more : List (List Str × Node Str)} {next : Option Handle}
    {result : Except Ended (Handle × Os)} (fills : Fills os os₁ nodes) (shown : os₁.shown = os.shown)
    (does : Does os₁ more next result) : Does os (nodes ++ more) next result := by
  have failed {os' : Os} : Failed os₁ os' → Failed os os' := fun ⟨text, last, error⟩ =>
    ⟨text, shown ▸ last, error⟩
  match next, result, does with
  | some _, .ok (_, _), ⟨same, quiet, rest⟩ => exact ⟨same, quiet.trans shown, fills.trans rest⟩
  | some _, .error _, error => exact failed error
  | none, .error _, .inl error => exact .inl (failed error)
  | none, .error _, .inr rest => exact .inr (fills.trans rest)

theorem Does.failed {os : Os} (nodes : List (List Str × Node Str)) (next : Option Handle)
    {ended : Ended} (failed : Failed os ended.os) : Does os nodes next (.error ended) :=
  match next with
  | none => .inl failed
  | some _ => failed

/-- A node for a location that is taken makes no difference. -/
theorem Does.taken {os : Os} {loc : List Str} (node : Node Str) {next : Option Handle}
    {result : Except Ended (Handle × Os)} (taken : (os.tree loc).isSome = true)
    (does : Does os [] next result) : Does os [(loc, node)] next result := by
  have same {os' : Os} (fills : Fills os os' []) : Fills os os' [(loc, node)] :=
    ⟨fun l apart => by rw [filled_taken taken, fills.tree l apart, filled_nil], fills.faults⟩
  match next, result, does with
  | some _, .ok (_, _), ⟨handle, shown, fills⟩ => exact ⟨handle, shown, same fills⟩
  | some _, .error _, error => exact error
  | none, .error _, .inl error => exact .inl error
  | none, .error _, .inr fills => exact .inr (same fills)

/-! ### Directories -/

/-- The directories are made one after another, or one of them cannot be made. -/
def MakesDirs (os : Os) (nodes : List (List Str × Node Str)) : Bool × Os → Prop
  | (true, os') => os.Becomes (filled os.tree nodes) os'
  | (false, os') => Failed os os'

section
variable {os : Os} (quiet : os.Quiet)
include quiet

/-- A location that is taken is no error, whatever stands there. -/
theorem mkdir_filled (path : Str) : ∃ err os', mkdir path os = (err, os') ∧
    (err = none ∨ err = some EEXIST → os.Becomes (filled os.tree [(location path, .dir)]) os') ∧
    os'.shown = os.shown := by
  unfold mkdir
  rw [quiet.fault]
  cases found : namei os.tree path with
  | error obstacle =>
    refine ⟨_, _, rfl, fun harmless => ?_, rfl⟩
    cases obstacle <;> exact absurd harmless (by decide)
  | ok loc =>
    obtain rfl := location_of_namei found
    dsimp only
    split
    next taken =>
      refine ⟨_, _, rfl, fun _ => ?_, rfl⟩
      rw [filled_taken taken]
      exact .log os _
    next free =>
      refine ⟨_, _, rfl, fun _ => ?_, rfl⟩
      rw [filled_free (by simpa using free)]
      exact .update os _ _

omit quiet in
theorem MakesDirs.nothing : MakesDirs os [] (true, os) := by
  rw [MakesDirs, filled_nil]
  exact .refl os

omit quiet in
/-- Where there is nothing to make, nothing is done. -/
theorem MakesDirs.ite {p : Prop} [Decidable p] {nodes : List (List Str × Node Str)}
    {result : Bool × Os} (makes : MakesDirs os nodes result) :
    MakesDirs os (if p then nodes else []) (if p then result else (true, os)) := by
  split
  · exact makes
  · exact .nothing

theorem tarMkdirsRec_makes (fuel : Nat) (rpath : Str) :
    MakesDirs os (madeDirs fuel rpath) (tarMkdirsRec fuel rpath os) := by
  induction fuel generalizing rpath with
  | zero => exact .nothing
  | succ fuel ih =>
    simp only [tarMkdirsRec, madeDirs]
    cases strrchr (rpath.take 128) slash with
    | none => exact .nothing
    | some last =>
      dsimp only
      by_cases root : last = 0
      · rw [if_pos root, if_pos root]
        exact .nothing
      · rw [if_neg root, if_neg root]
        generalize (rpath.take 128).take last = path
        -- the directories above are made first
        have above := (ih path).ite (p := slash ∈ path)
        generalize (if slash ∈ path then tarMkdirsRec fuel path os else (true, os)) = result at above ⊢
        obtain ⟨made, os₁⟩ := result
        cases made with
        | false => exact above
        | true =>
          obtain ⟨err, os₂, called, harmless, shown⟩ := mkdir_filled (above.quiet quiet) path
          have both (no_error : err = none ∨ err = some EEXIST) := above.trans (harmless no_error)
          rw [above.tree, ← filled_append] at both
          dsimp only
          rw [called]
          cases err with
          | none => exact both (.inl rfl)
          | some errno =>
            dsimp only
            by_cases exists_already : errno = EEXIST
            · rw [if_pos exists_already]
              exact both (.inr (by rw [exists_already]))
            · rw [if_neg exists_already, List.append_assoc, List.append_assoc]
              exact failed_printD (shown.trans above.shown) (by decide)

end

/-! ### One file -/

theorem rawFileRead_short {size : Nat} {handle : Handle} (short : handle.rest.length < size) :
    (∃ buf error handle', rawFileRead size handle = (buf, some error, handle')) ∨
      ∃ buf handle', rawFileRead size handle = (buf, none, handle') ∧ buf.length < size := by
  cases read : rawFileRead size handle with
  | mk buf result =>
    obtain ⟨error, handle'⟩ := result
    cases error with
    | some error => exact .inl ⟨_, _, _, rfl⟩
    | none =>
      refine .inr ⟨_, _, rfl, ?_⟩
      by_contra full
      have whole := (rawFileRead_full read (Nat.not_lt.mp full)).1
      omega

theorem rawFileRead_whole {size : Nat} (pos : 0 < size) {handle : Handle}
    (whole : size ≤ handle.rest.length) : rawFileRead size handle =
      (handle.rest.take size, none, { handle with rest := handle.rest.drop size }) := by
  have length : (handle.rest.take size).length = size := by
    rw [List.length_take, Nat.min_eq_left whole]
  have read : rawFileRead size ⟨handle.rest.take size ++ handle.rest.drop size, handle.ending⟩ =
      (handle.rest.take size, none, ⟨handle.rest.drop size, handle.ending⟩) :=
    rawFileRead_block handle.ending size length pos
  rwa [List.take_append_drop] at read

theorem Fills.nothing {os os' : Os} (tree : ∀ l, l ≠ tmpLocation → os'.tree l = os.tree l)
    (faults : os'.faults = os.faults) : Fills os os' [] :=
  ⟨fun l apart => by rw [filled_nil, tree l apart], faults⟩

theorem fwrite_unstruck {os : Os} (quiet : os.Quiet) (data : Str) :
    ∃ os', fwrite tmpLocation data os = (none, os') ∧ os'.shown = os.shown ∧ Fills os os' [] := by
  unfold fwrite
  rw [quiet.fault]
  exact ⟨_, rfl, rfl, .nothing (fun l apart => Tree.set_other _ _ apart) rfl⟩

theorem behindBlocks_step {left : Nat} (more : left ≠ 0) {handle : Handle}
    (block : 512 ≤ handle.rest.length) : behindBlocks left handle =
      behindBlocks (left - min left 512) { handle with rest := handle.rest.drop 512 } := by
  have step := blockBytes_step more
  have same : blockBytes left ≤ handle.rest.length ↔
      blockBytes (left - min left 512) ≤ (handle.rest.drop 512).length := by
    rw [List.length_drop]
    omega
  simp only [behindBlocks, same, List.drop_drop, step]

theorem behindBlocks_short {left : Nat} (more : left ≠ 0) {handle : Handle}
    (short : handle.rest.length < 512) : behindBlocks left handle = none := by
  have step := blockBytes_step more
  exact if_neg (by omega)

/-- The blocks are read to their end exactly if they are all there. -/
theorem extractBlocks_does (name : Str) (outfh : Option (List Str))
    (tmp : ∀ out ∈ outfh, out = tmpLocation) (fuel left : Nat) (enough : left ≤ fuel)
    (handle : Handle) (os : Os) (quiet : os.Quiet) :
    Does os [] (behindBlocks left handle) (extractBlocks name outfh fuel left handle os) := by
  have finished (handle : Handle) (os : Os) : Does os [] (behindBlocks 0 handle) (.ok (handle, os)) :=
    ⟨rfl, rfl, .nothing (fun _ _ => rfl) rfl⟩
  induction fuel generalizing left handle os with
  | zero =>
    obtain rfl : left = 0 := by omega
    exact finished handle os
  | succ fuel ih =>
    unfold extractBlocks
    by_cases done : left = 0
    · subst done
      exact finished handle os
    · rw [if_neg done]
      by_cases block : 512 ≤ handle.rest.length
      · have length : ¬ (handle.rest.take 512).length < 512 := by
          rw [List.length_take]
          omega
        rw [rawFileRead_whole (by decide) block, behindBlocks_step done block]
        dsimp only
        rw [if_neg length]
        cases outfh with
        | none => exact ih _ (by omega) _ os quiet
        | some out =>
          obtain rfl := tmp out rfl
          obtain ⟨os₁, wrote, shown, fills⟩ :=
            fwrite_unstruck quiet ((handle.rest.take 512).take (min left 512))
          dsimp only
          rw [wrote]
          exact (ih _ (by omega) _ os₁ (fills.quiet quiet)).after fills shown
      · rw [behindBlocks_short done (by omega)]
        obtain ⟨_, _, _, read⟩ | ⟨_, _, read, few⟩ := rawFileRead_short (Nat.not_le.mp block)
        · rw [read]
          exact .inr (.nothing (fun _ _ => rfl) rfl)
        · rw [read]
          dsimp only
          rw [if_pos few]
          exact .inr (.nothing (fun _ _ => rfl) rfl)

theorem checkFile_found {os : Os} (quiet : os.Quiet) (path : Str) :
    ∃ found, checkFile path os = (found, os.log (.access path)) ∧
      (found = true → (os.tree (location path)).isSome = true) ∧
      (found = false → namei os.tree path = .ok (location path) → os.tree (location path) = none) := by
  unfold checkFile
  rw [quiet.fault]
  cases led : namei os.tree path with
  | error obstacle => exact ⟨false, rfl, nofun, nofun⟩
  | ok loc =>
    obtain rfl := location_of_namei led
    exact ⟨_, rfl, id, fun absent _ => by simpa using absent⟩

theorem fopenWb_shown (path : Str) (os : Os) : (fopenWb path os).2.shown = os.shown := by
  unfold fopenWb
  split
  · rfl
  · rfl
  · dsimp only
    split <;> rfl

theorem rename_shown (source target : Str) (os : Os) :
    (rename source target os).2.shown = os.shown := by
  unfold rename
  split
  · rfl
  · rfl
  · rfl
  · dsimp only
    split_ifs <;> rfl

/-- A path that a file is moved to leads there before the temporary file is made. -/
theorem rename_leads {source target : Str} {os os' : Os}
    (renamed : rename source target os = (none, os')) :
    namei os.tree target = .ok (location target) := by
  unfold rename at renamed
  split at renamed
  next => cases renamed
  next => cases renamed
  next => cases renamed
  next old new _ _ found =>
    rw [found, location_of_namei found]

theorem namei_file {tree : FsTree} {loc scratch : List Str} {content path : Str}
    (led : namei (tree.set scratch (some (.file content))) path = .ok loc) :
    namei tree path = .ok loc := by
  refine walk_mono dot dotdot _ (fun l dir => ?_) led
  by_cases same : l = scratch
  · simp [same] at dir
  · rwa [Tree.set_other _ _ same] at dir

/-- The data are moved to a path where nothing was. -/
theorem rename_fills {os os' : Os} {path data : Str} {tree : FsTree}
    (tree_eq : os.tree = tree.set tmpLocation (some (.file data)))
    (free : namei tree path = .ok (location path) → tree (location path) = none)
    (renamed : rename tarfileTmp path os = (none, os')) (l : List Str) (apart : l ≠ tmpLocation) :
    os'.tree l = filled tree [(location path, .file data)] l := by
  have led := rename_leads renamed
  rw [tree_eq] at led
  have absent := free (namei_file led)
  obtain ⟨-, -, -, moved⟩ := rename_ok renamed
  rw [show location tarfileTmp = tmpLocation from rfl, tree_eq, Tree.set_same] at moved
  obtain ⟨kept, same⟩ | moved := moved
  · rw [kept, Tree.set_other _ _ apart, filled_other (same ▸ apart)]
  · rw [moved, Tree.set_other _ _ apart]
    by_cases here : l = location path
    · rw [here, Tree.set_same, filled_free absent, Tree.set_same]
    · rw [Tree.set_other _ _ here, Tree.set_other _ _ apart, filled_other here]

/-- The end of a file that has been written. -/
theorem move_does {os os₃ : Os} (quiet : os.Quiet) (path : Str) {data : Str} (rest : Handle)
    (shown : os₃.shown = os.shown) (faults : os₃.faults = os.faults)
    (tree_eq : os₃.tree = os.tree.set tmpLocation (some (.file data)))
    (free : namei os.tree path = .ok (location path) → os.tree (location path) = none) :
    Does os [(location path, .file data)] (some rest)
      (match rename tarfileTmp path (fclose tmpLocation os₃) with
      | (some errno, os) => .error (tarFail (bytes "Error moving file to " ++ path ++ bytes ": " ++
          os.strerror errno) rest os)
      | (none, os) => .ok (rest, os)) := by
  have quiet₃ : os₃.Quiet := fun n => by rw [faults, quiet n]
  have closed := fclose_quiet quiet₃ tmpLocation
  have shown₅ := rename_shown tarfileTmp path (fclose tmpLocation os₃)
  rw [closed.shown, shown] at shown₅
  cases moved : rename tarfileTmp path (fclose tmpLocation os₃) with
  | mk err os₅ =>
    rw [moved] at shown₅
    cases err with
    | some errno =>
      dsimp only
      rw [List.append_assoc, List.append_assoc]
      exact failed_printD shown₅ (by decide)
    | none =>
      have faults₅ := (rename_ok moved).2.2.1.trans (closed.faults.trans faults)
      exact ⟨rfl, shown₅, rename_fills (closed.tree.trans tree_eq) free moved, faults₅⟩

theorem extractFile_does (name path : Str) (size : Nat) (handle : Handle) (os : Os)
    (quiet : os.Quiet) : Does os (fileNodes path size handle) (behindBlocks size handle)
      (extractFile name path size handle os) := by
  obtain ⟨found, checked, taken, free⟩ := checkFile_found quiet path
  have start : Fills os (os.log (.access path)) [] := .nothing (fun _ _ => rfl) rfl
  unfold extractFile fileNodes
  rw [checked]
  cases found with
  | true =>
    -- the blocks are read and thrown away
    have blocks := (extractBlocks_does name none nofun size size (Nat.le_refl _) handle _
      (start.quiet quiet)).after start rfl
    generalize behindBlocks size handle = next at blocks ⊢
    cases next with
    | none => exact blocks
    | some rest => exact blocks.taken _ (taken rfl)
  | false =>
    have shown₂ := fopenWb_shown tarfileTmp (os.log (.access path))
    dsimp only
    cases called : fopenWb tarfileTmp (os.log (.access path)) with
    | mk result os₂ =>
      rw [called] at shown₂
      cases result with
      | error errno => exact .failed _ _ (failed_printD shown₂ (by decide))
      | ok out =>
        obtain ⟨rfl, -, faults₂, tree₂⟩ := fopenTmp_ok called
        have fills₂ : Fills os os₂ [] := .nothing (fun l apart => by
          rw [tree₂, Tree.set_other _ _ apart]
          rfl) faults₂
        have blocks := (extractBlocks_does name (some tmpLocation) (by simp) size size
          (Nat.le_refl _) handle os₂ (fills₂.quiet quiet)).after fills₂ shown₂
        dsimp only
        cases read : extractBlocks name (some tmpLocation) size size handle os₂ with
        | error ended =>
          rw [read] at blocks
          generalize behindBlocks size handle = next at blocks ⊢
          cases next with
          | none => exact blocks
          | some rest => exact .failed _ _ blocks
        | ok after =>
          obtain ⟨handle₃, os₃⟩ := after
          obtain ⟨-, -, -, writes⟩ := extractBlocks_ok name _ size size handle _ os₂ os₃
            (Nat.le_refl _) read
          obtain ⟨-, -, -, -, tree₃⟩ := writes tmpLocation rfl
          replace tree₃ := tree₃ [] (by rw [tree₂, Tree.set_same])
          rw [tree₂, Tree.set_set, List.nil_append] at tree₃
          rw [read] at blocks
          generalize behindBlocks size handle = next at blocks ⊢
          cases next with
          | none => exact blocks.elim
          | some rest =>
            obtain ⟨rfl, shown₃, fills₃⟩ := blocks
            exact move_does quiet path handle₃ shown₃ fills₃.faults tree₃ (free rfl)

/-! ### The whole archive -/

section
variable (name dest : Str)

theorem extractMember_does (stack : Stack) (header : Str) (handle : Handle) (os : Os)
    (quiet : os.Quiet) : Does os (memberNodes dest stack header handle).1
      (memberNodes dest stack header handle).2 (extractMember name dest stack header handle os) := by
  by_cases skipped : lastOfName stack (headerStr stack header 0) = slash ∨
      header[linkflagOffset]? = some 49
  · rw [extractMember_skipped name dest handle os skipped, memberNodes]
    dsimp only
    rw [if_pos skipped]
    exact ⟨rfl, rfl, .nothing (fun _ _ => rfl) rfl⟩
  · obtain ⟨directory, link⟩ := not_or.mp skipped
    rw [extractMember, memberNodes]
    dsimp only
    rw [if_neg directory, if_neg link, if_neg skipped]
    generalize entryPath dest (headerStr stack header 0) = path
    have dirs := (tarMkdirsRec_makes quiet (path.length + 1) path).ite
      (p := slash ∈ headerStr stack header 0)
    rw [← tarMkdirs] at dirs
    generalize (if slash ∈ headerStr stack header 0 then tarMkdirs path os else (true, os)) = result
      at dirs ⊢
    obtain ⟨made, os₁⟩ := result
    cases made with
    | false => exact .failed _ _ dirs
    | true =>
      have fills : Fills os os₁ _ := ⟨fun l _ => congrFun dirs.tree l, dirs.faults⟩
      exact (extractFile_does name path _ handle os₁ (fills.quiet quiet)).after fills dirs.shown

/-- A round does what the archive says of it. -/
theorem extractEntry_does (stack : Nat → Stack) (handle : Handle) (os : Os) (quiet : os.Quiet) :
    Does os (roundNodes dest stack handle).1 (roundNodes dest stack handle).2
      (extractEntry name dest stack handle os) := by
  unfold roundNodes extractEntry
  generalize rawFileRead headerSize handle = got
  obtain ⟨header, error, handle₁⟩ := got
  cases error with
  | some error => exact .inr (.nothing (fun _ _ => rfl) rfl)
  | none =>
    dsimp only
    by_cases accepted : headerSize ≤ header.length ∧ header ≠ List.replicate headerSize 0 ∧
        testChecksum (stack handle₁.rest.length) header = true
    · obtain ⟨length, last, checked⟩ := accepted
      rw [if_pos ⟨length, last, checked⟩, if_neg (by omega), if_neg last, if_neg (by simp [checked])]
      exact extractMember_does name dest _ header handle₁ os quiet
    · rw [if_neg accepted]
      split_ifs with short last corrupt
      · exact .inr (.nothing (fun _ _ => rfl) rfl)
      · exact .inr (.nothing (fun _ _ => rfl) rfl)
      · exact .inr (.nothing (fun _ _ => rfl) rfl)
      · exact absurd ⟨by omega, last, by simpa using corrupt⟩ accepted

/-- A run without an error reads the headers of the archive and fills in its nodes. -/
theorem extractEntries_fills (stack : Nat → Stack) (fuel : Nat) (handle : Handle) (os : Os)
    (ended : Ended) (quiet : os.Quiet)
    (run : extractEntries name dest stack fuel handle os = some ended)
    (no_error : ¬ Failed os ended.os) :
    headersRead dest name stack fuel handle os = archiveHeaders dest stack fuel handle ∧
      Fills os ended.os (archiveNodes dest stack fuel handle) := by
  induction fuel generalizing handle os with
  | zero => cases run
  | succ fuel ih =>
    have round := extractEntry_does name dest stack handle os quiet
    rw [extractEntries] at run
    rw [headersRead, archiveHeaders, archiveNodes]
    generalize roundNodes dest stack handle = plan at round ⊢
    obtain ⟨nodes, next⟩ := plan
    cases result : extractEntry name dest stack handle os with
    | error last =>
      rw [result] at run round
      cases run
      cases next with
      | none => exact ⟨rfl, round.resolve_left no_error⟩
      | some rest => exact absurd round no_error
    | ok after =>
      obtain ⟨handle₁, os₁⟩ := after
      rw [result] at run round
      cases next with
      | none => exact round.elim
      | some rest =>
        obtain ⟨rfl, shown, fills⟩ := round
        have still : ¬ Failed os₁ ended.os := fun failed => by
          obtain ⟨text, last, error⟩ := failed
          exact no_error ⟨text, shown ▸ last, error⟩
        obtain ⟨headers, later⟩ := ih handle₁ os₁ (fills.quiet quiet) run still
        exact ⟨congrArg _ headers, fills.trans later⟩

end

/-! ### Two runs -/

section
variable (name dest : Str) (haveLzma : Bool) (openLib : CompType → Str → Os → Except Str Handle)
  (stack : Nat → Stack)

/-- The archive that is opened. -/
def openTar (os : Os) : Option Handle :=
  match compType haveLzma name with
  | none => none
  | some format =>
    match if format = .raw then rawFileOpen name os else openLib format name os with
    | .error _ => none
    | .ok handle => some handle

/-- An extraction of an archive in which no call fails and no error of the system is
shown. -/
structure SmoothRun (archive : Handle) where
  os : Os
  ended : Ended
  opened : openTar name haveLzma openLib os = some archive
  run : extractTar name dest haveLzma openLib stack os = some ended
  quiet : os.Quiet
  no_error : ∀ text ∈ ended.os.shown.drop os.shown.length, ¬ IsSystemError text

end

theorem extractTar_opened {name dest : Str} {haveLzma : Bool}
    {openLib : CompType → Str → Os → Except Str Handle} (stack : Nat → Stack) {os : Os}
    {archive : Handle} (opened : openTar name haveLzma openLib os = some archive) :
    extractTar name dest haveLzma openLib stack os =
      extractEntries name dest stack (archive.rest.length + 1) archive os := by
  unfold openTar at opened
  unfold extractTar
  cases format : compType haveLzma name with
  | none =>
    rw [format] at opened
    cases opened
  | some format' =>
    rw [format] at opened
    dsimp only at opened ⊢
    cases found : (if format' = CompType.raw then rawFileOpen name os else openLib format' name os) with
    | error text =>
      rw [found] at opened
      cases opened
    | ok handle =>
      rw [found] at opened
      cases opened
      rfl

section
variable {name dest : Str} {haveLzma : Bool} {openLib : CompType → Str → Os → Except Str Handle}
  {stack : Nat → Stack} {archive : Handle}

namespace SmoothRun

variable (run : SmoothRun name dest haveLzma openLib stack archive)

/-- The headers, each with its offset in the archive. -/
def headers : List (Nat × Str) :=
  (headersRead dest name stack (archive.rest.length + 1) archive run.os).map
    fun (left, header) => (archive.rest.length - left, header)

def entries : List ArchiveEntry := tarEntries name dest haveLzma openLib stack run.os

theorem rounds : extractEntries name dest stack (archive.rest.length + 1) archive run.os =
    some run.ended := by
  rw [← extractTar_opened stack run.opened, run.run]

theorem not_failed : ¬ Failed run.os run.ended.os := by
  rintro ⟨text, last, error⟩
  refine run.no_error text ?_ error
  rw [last, List.drop_left]
  exact List.mem_singleton_self text

/-- What is read and what is filled in is a matter of the archive. -/
theorem archive_alone :
    headersRead dest name stack (archive.rest.length + 1) archive run.os =
      archiveHeaders dest stack (archive.rest.length + 1) archive ∧
    Fills run.os run.ended.os (archiveNodes dest stack (archive.rest.length + 1) archive) :=
  extractEntries_fills name dest stack _ archive run.os run.ended run.quiet run.rounds run.not_failed

/-- A file that existed keeps its contents, the temporary one apart. -/
def Keeps : Prop := ∀ l, l ≠ tmpLocation → ∀ content, run.os.tree l = some (.file content) →
  run.ended.os.tree l = some (.file content)

end SmoothRun

/-- The same headers are read, no file is lost, and the entries that are covered and
whose path did not exist end up the same. -/
structure Undisturbed (a b : SmoothRun name dest haveLzma openLib stack archive)
    (covered : ArchiveEntry → Prop) : Prop where
  headers : a.headers = b.headers
  keeps : a.Keeps ∧ b.Keeps
  same : ∀ e ∈ a.entries, covered e → a.os.tree (location e.path) = none →
    b.os.tree (location e.path) = none →
    a.ended.os.tree (location e.path) = b.ended.os.tree (location e.path)

theorem SmoothRun.keeps (run : SmoothRun name dest haveLzma openLib stack archive) : run.Keeps :=
  fun l apart content there => by rw [run.archive_alone.2.tree l apart, filled_kept _ there]

/-- Which files exist does not disturb the rest of the extraction; the entries for the
temporary file are not covered. -/
theorem extractTar_undisturbed (a b : SmoothRun name dest haveLzma openLib stack archive) :
    Undisturbed a b fun e => location e.path ≠ tmpLocation where
  headers := by rw [SmoothRun.headers, SmoothRun.headers, a.archive_alone.1, b.archive_alone.1]
  keeps := ⟨a.keeps, b.keeps⟩
  same := fun e _ apart free free' => by
    rw [a.archive_alone.2.tree _ apart, b.archive_alone.2.tree _ apart,
      filled_agree _ free free']

end

/-! ### An archive with a file that exists -/

/-- The root file system with an archive, and what else is there. -/
def withNodes (archive : Str) (nodes : List (List Str × Node Str)) : Os :=
  { archiveOs archive with tree := filled (archiveOs archive).tree nodes }

theorem extractTar_ends (name dest : Str) (haveLzma : Bool)
    (openLib : CompType → Str → Os → Except Str Handle) (stack : Nat → Stack) (os : Os) :
    (extractTar name dest haveLzma openLib stack os).isSome = true := by
  obtain ⟨ended, run, -⟩ := extractTar_extracts name dest haveLzma openLib stack os
  rw [run]
  rfl

abbrev SampleRun (archive : Str) : Type :=
  SmoothRun (bytes "/a.tar") modulesDir false (fun _ _ _ => .error []) (fun _ => ⟨0, []⟩)
    ⟨archive, none⟩

def sampleEnded (os : Os) : Ended :=
  (extractTar (bytes "/a.tar") modulesDir false (fun _ _ _ => .error []) (fun _ => ⟨0, []⟩) os).get
    (extractTar_ends _ _ _ _ _ _)

def sampleRun (archive : Str) (nodes : List (List Str × Node Str))
    (opened : openTar (bytes "/a.tar") false (fun _ _ _ => .error []) (withNodes archive nodes) =
      some ⟨archive, none⟩)
    (shown : (sampleEnded (withNodes archive nodes)).os.shown = []) : SampleRun archive where
  os := withNodes archive nodes
  ended := sampleEnded (withNodes archive nodes)
  opened := opened
  run := (Option.some_get _).symm
  quiet := fun _ => rfl
  no_error := by simp [shown]

/-- A file of two blocks, and one behind it. -/
def blocksArchive : Str :=
  writeArchive [.file (bytes "x") (List.replicate 600 97), .file (bytes "y") (bytes "new")] []

def oldFile : List (List Str × Node Str) := [([bytes "modules", bytes "x"], .file (bytes "old"))]

/-- The file of two blocks is extracted, or skipped because there is one of its name; the one
behind it ends up the same. -/
theorem extractTar_undisturbed_blocks :
    ∃ a b : SampleRun blocksArchive, (Undisturbed a b fun e => location e.path ≠ tmpLocation) ∧
      b.headers.map Prod.fst = [0, 1536, 2560] ∧
      a.ended.os.tree [bytes "modules", bytes "x"] = some (.file (List.replicate 600 97)) ∧
      b.ended.os.tree [bytes "modules", bytes "x"] = some (.file (bytes "old")) ∧
      b.ended.os.tree [bytes "modules", bytes "y"] = some (.file (bytes "new")) := by
  let a : SampleRun blocksArchive := sampleRun blocksArchive [] rfl (by decide +kernel)
  let b : SampleRun blocksArchive := sampleRun blocksArchive oldFile rfl (by decide +kernel)
  exact ⟨a, b, extractTar_undisturbed a b, by decide +kernel⟩

/-- An entry that stands for the temporary file. -/
def tmpEntry : Str :=
  writeArchive [.file (bytes "../tarfile.tmp") [], .file (bytes "x") []] []

/-- An entry with a directory that is left again. -/
def detour : Str := writeArchive [.file (bytes "d/../x") []] []

/-- The temporary file is what an entry made of it, unless a later entry is extracted.
A path through a directory that is made for it does not exist before, although the
file it leads to may. -/
theorem entries_disturbed :
    (∃ a b : SampleRun tmpEntry, ¬ Undisturbed a b fun _ => True) ∧
    ∃ a b : SampleRun detour, ∃ e ∈ a.entries, (checkFile e.path a.os).1 = false ∧
      (checkFile e.path b.os).1 = false ∧ location e.path ≠ tmpLocation ∧
      a.ended.os.tree (location e.path) ≠ b.ended.os.tree (location e.path) := by
  constructor
  · refine ⟨sampleRun tmpEntry [] rfl (by decide +kernel),
      sampleRun tmpEntry oldFile rfl (by decide +kernel), fun undisturbed => ?_⟩
    have same := undisturbed.same ⟨bytes "/modules//../tarfile.tmp", some []⟩
      (by decide +kernel) trivial (by decide +kernel) (by decide +kernel)
    exact absurd same (by decide +kernel)
  · exact ⟨sampleRun detour [] rfl (by decide +kernel),
      sampleRun detour oldFile rfl (by decide +kernel),
      ⟨bytes "/modules//d/../x", some []⟩, by decide +kernel, by decide +kernel,
      by decide +kernel, by decide +kernel, by decide +kernel⟩

end KexecLoader
