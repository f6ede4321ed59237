import KexecLoader.TarFidelity

/-!
# Extraction under failures

Any call may fail. Each failure ends the extraction before the file is moved to its
path, but for one: what `fclose` cannot write is lost without notice. The theorem
at the end says that nothing else leaves a truncated file behind.
-/
namespace KexecLoader

open FileTree

/-- The bytes written since the file was opened. -/
def written (calls : List Call) : Nat :=
  calls.foldl (fun n call =>
    match call with
    | .fopen _ => 0
    | .fwrite data => n + data.length
    | _ => n) 0

/-- A call of `fclose` that loses nothing, or after which the file is not moved. -/
def LosslessAt (os : Os) (n : Nat) : Prop :=
  os.calls[n]? = some .fclose → ∀ fault ∈ os.faults n,
    written (os.calls.take n) ≤ fault.kept ∨ (os.faults (n + 1)).isSome = true

/-- An entry as the reader meets it: its path, and its data if the archive holds all
of them. -/
structure ArchiveEntry where
  path : Str
  data : Option Str
deriving DecidableEq

/-- The data of an entry, if the archive holds all of them. -/
def memberData (size : Nat) (rest : Str) : Option Str :=
  if size ≤ rest.length then some (rest.take size) else none

/-- The bytes of the blocks of a file. -/
def blockBytes (size : Nat) : Nat := (size + 511) / 512 * 512

/-- The entry of a header that has passed its checks, and what is left behind it.
Directories and hard links are no entries. -/
def readMember (dest : Str) (stack : Stack) (header : Str) (handle : Handle) :
    Option ArchiveEntry × Handle :=
  -- the size counts for files only
  let entry := headerStr stack header 0
  let size := strtoul 8 (headerStr stack header sizeOffset)
  if lastOfName stack entry = slash ∨ header[linkflagOffset]? = some 49 then (none, handle)
  else
    (some ⟨entryPath dest entry, memberData size handle.rest⟩,
      { handle with rest := handle.rest.drop (blockBytes size) })

/-- One round: an entry, if the member is one, and what is left; none at the end of
the archive or at a header that is none. -/
def readEntry (dest : Str) (stack : Nat → Stack) (handle : Handle) :
    Option (Option ArchiveEntry × Handle) :=
  match rawFileRead headerSize handle with
  | (_, some _, _) => none
  | (header, none, handle) =>
    if headerSize ≤ header.length ∧ header ≠ List.replicate headerSize 0 ∧
        testChecksum (stack handle.rest.length) header = true then
      some (readMember dest (stack handle.rest.length) header handle)
    else none

/-- The entries of an archive. -/
def archiveEntries (dest : Str) (stack : Nat → Stack) : Nat → Handle → List ArchiveEntry
  | 0, _ => []
  | fuel + 1, handle =>
    match readEntry dest stack handle with
    | none => []
    | some (entry, handle) => entry.toList ++ archiveEntries dest stack fuel handle

/-- The entries of the archive that is opened. -/
def tarEntries (name dest : Str) (haveLzma : Bool)
    (openLib : CompType → Str → Os → Except Str Handle) (stack : Nat → Stack) (os : Os) :
    List ArchiveEntry :=
  match compType haveLzma name with
  | none => []
  | some format =>
    match if format = .raw then rawFileOpen name os else openLib format name os with
    | .error _ => []
    | .ok handle => archiveEntries dest stack (handle.rest.length + 1) handle

/-- A path that did not exist holds no file but the data of one of its entries. -/
def Intact (es : List ArchiveEntry) (os os' : Os) : Prop :=
  ∀ e ∈ es, os.tree (location e.path) = none →
    ∀ content, os'.tree (location e.path) = some (.file content) →
      ∃ e' ∈ es, location e'.path = location e.path ∧ e'.data = some content

/-! ### What a part of the extraction can do -/

/-- A part of the extraction: the log grows, and a file that is new was moved to its
path with the data of an entry, if no `fclose` has lost any and no entry stands for the
temporary file. -/
structure Extracts (es : List ArchiveEntry) (os os' : Os) : Prop where
  log : os.calls <+: os'.calls
  faults : os'.faults = os.faults
  files : (∀ n, LosslessAt os' n) → (∀ e ∈ es, location e.path ≠ tmpLocation) →
    ∀ l, l ≠ tmpLocation → ∀ content,
    os'.tree l = some (.file content) → os.tree l = some (.file content) ∨
      ∃ e ∈ es, location e.path = l ∧ e.data = some content

/-- What a call found to be without loss stays so. -/
theorem LosslessAt.earlier {os os' : Os} (log : os.calls <+: os'.calls)
    (faults : os'.faults = os.faults) {n : Nat} (lossless : LosslessAt os' n) :
    LosslessAt os n := by
  obtain ⟨later, calls⟩ := log
  intro closed
  -- the call and what was written before it are in the shorter log already
  have inside : n < os.calls.length := (List.getElem?_eq_some_iff.mp closed).1
  have kept := lossless (by rw [← calls, List.getElem?_append_left inside, closed])
  rwa [← calls, List.take_append_of_le_length (Nat.le_of_lt inside), faults] at kept

namespace Extracts

theorem refl (es : List ArchiveEntry) (os : Os) : Extracts es os os :=
  ⟨List.prefix_refl _, rfl, fun _ _ _ _ _ found => .inl found⟩

theorem mono {es es' : List ArchiveEntry} {os os' : Os} (part : Extracts es os os')
    (more : es ⊆ es') : Extracts es' os os' := by
  refine ⟨part.log, part.faults, fun lossless apart l tmp content found => ?_⟩
  obtain old | ⟨e, member, new⟩ := part.files lossless (fun e member => apart e (more member))
    l tmp content found
  · exact .inl old
  · exact .inr ⟨e, more member, new⟩

theorem trans {es : List ArchiveEntry} {os os₁ os₂ : Os} (first : Extracts es os os₁)
    (second : Extracts es os₁ os₂) : Extracts es os os₂ := by
  refine ⟨first.log.trans second.log, second.faults.trans first.faults,
    fun lossless apart l tmp content found => ?_⟩
  obtain between | new := second.files lossless apart l tmp content found
  · exact first.files (fun n => (lossless n).earlier second.log second.faults) apart l tmp
      content between
  · exact .inr new

/-- A call that changes nothing but the temporary file. -/
theorem of_call {es : List ArchiveEntry} {os os' : Os} (log : os.calls <+: os'.calls)
    (faults : os'.faults = os.faults)
    (tree : ∀ l, l ≠ tmpLocation → ∀ content, os'.tree l = some (.file content) →
      os.tree l = some (.file content)) : Extracts es os os' :=
  ⟨log, faults, fun _ _ l tmp content found => .inl (tree l tmp content found)⟩

theorem printD (es : List ArchiveEntry) (os : Os) (text : Str) : Extracts es os (os.printD text) :=
  of_call (List.prefix_refl _) rfl fun _ _ _ found => found

theorem log_call (es : List ArchiveEntry) (os : Os) (call : Call) : Extracts es os (os.log call) :=
  of_call (List.prefix_append _ _) rfl fun _ _ _ found => found

theorem tmp_update (es : List ArchiveEntry) (os : Os) (call : Call) (node : Option (Node Str)) :
    Extracts es os (os.update call (os.tree.set tmpLocation node)) :=
  of_call (List.prefix_append _ _) rfl fun l apart content found => by
    rwa [Os.update_tree, Tree.set_other _ _ apart] at found

end Extracts

section
variable (es : List ArchiveEntry) (os : Os)

theorem checkFile_extracts (path : Str) : Extracts es os (checkFile path os).2 := by
  unfold checkFile
  split <;> exact Extracts.log_call es os _

theorem mkdir_extracts (path : Str) : Extracts es os (mkdir path os).2 := by
  unfold mkdir
  split
  · exact Extracts.log_call es os _
  · exact Extracts.log_call es os _
  next loc _ _ =>
    split
    · exact Extracts.log_call es os _
    · refine Extracts.of_call (List.prefix_append _ _) rfl fun l _ content found => ?_
      rw [Os.update_tree] at found
      -- a new directory is no file, and nothing else changes
      by_cases same : l = loc
      · simp [same] at found
      · rwa [Tree.set_other _ _ same] at found

theorem tarMkdirsRec_extracts (fuel : Nat) (rpath : Str) :
    Extracts es os (tarMkdirsRec fuel rpath os).2 := by
  induction fuel generalizing rpath os with
  | zero => exact Extracts.refl es os
  | succ fuel ih =>
    simp only [tarMkdirsRec]
    split
    · exact Extracts.refl es os
    next last _ =>
      split
      · exact Extracts.refl es os
      -- the directories above are made first
      · have above : Extracts es os (if slash ∈ (rpath.take 128).take last then
            tarMkdirsRec fuel ((rpath.take 128).take last) os else (true, os)).2 := by
          split
          · exact ih os _
          · exact Extracts.refl es os
        split
        next os₁ made =>
          rw [made] at above
          exact above
        next os₁ made =>
          rw [made] at above
          have here := mkdir_extracts es os₁ ((rpath.take 128).take last)
          split
          next os₂ called =>
            rw [called] at here
            exact above.trans here
          next errno os₂ called =>
            rw [called] at here
            split
            · exact above.trans here
            · exact (above.trans here).trans (Extracts.printD es os₂ _)

theorem location_of_namei {tree : FsTree} {path : Str} {loc : List Str}
    (found : namei tree path = .ok loc) : loc = location path := 
  walk_lexical dot dotdot tree _ found

theorem fopenTmp_extracts : Extracts es os (fopenWb tarfileTmp os).2 := by
  unfold fopenWb
  split
  · exact Extracts.log_call es os _
  · exact Extracts.log_call es os _
  next loc _ found =>
    obtain rfl : loc = tmpLocation := location_of_namei found
    split
    · exact Extracts.log_call es os _
    · exact Extracts.tmp_update es os _ _

theorem fwrite_extracts (data : Str) : Extracts es os (fwrite tmpLocation data os).2 := by
  unfold fwrite
  split <;> exact Extracts.tmp_update es os _ _

theorem fclose_extracts : Extracts es os (fclose tmpLocation os) := by
  unfold fclose
  split
  · exact Extracts.log_call es os _
  · exact Extracts.tmp_update es os _ _

end

/-! ### The blocks of a file -/

theorem rawFileReadLoop_full (fuel size : Nat) (got : Str) (handle handle' : Handle) (buf : Str)
    (read : rawFileReadLoop fuel size got handle = (buf, none, handle'))
    (full : size ≤ buf.length) (room : got.length ≤ size) :
    size - got.length ≤ handle.rest.length ∧
      buf = got ++ handle.rest.take (size - got.length) ∧
      handle' = { handle with rest := handle.rest.drop (size - got.length) } := by
  have nothing : size ≤ got.length → size - got.length = 0 := fun done => by omega
  induction fuel generalizing got handle with
  | zero =>
    cases read
    rw [nothing full]
    simp
  | succ fuel ih =>
    simp only [rawFileReadLoop] at read
    split at read
    next done =>
      cases read
      rw [nothing full]
      simp
    next more =>
      split at read
      next short =>
        cases read
        omega
      next long =>
        split at read
        next empty =>
          -- the error that follows the last bytes
          simp only [Prod.mk.injEq] at read
          obtain ⟨rfl, -, -⟩ := read
          omega
        next nonempty =>
          have taken := List.length_take (l := handle.rest) (i := size - got.length)
          obtain ⟨enough, bytes, after⟩ := ih _ _ read
            (by rw [List.length_append, taken]; omega) fun done => by omega
          simp only [List.length_append, List.length_drop, taken] at enough bytes after
          -- had the archive ended, the next round would have stopped short
          have whole : size - got.length ≤ handle.rest.length := by
            by_contra few
            have pos := List.length_pos_iff.mpr nonempty
            rw [taken] at pos
            omega
          have last : size - (got.length + min (size - got.length) handle.rest.length) = 0 := by
            omega
          rw [last] at bytes after
          exact ⟨whole, by simpa using bytes, by simpa using after⟩

theorem rawFileRead_full {size : Nat} {handle handle' : Handle} {buf : Str}
    (read : rawFileRead size handle = (buf, none, handle')) (full : size ≤ buf.length) :
    size ≤ handle.rest.length ∧ buf = handle.rest.take size ∧
      handle' = { handle with rest := handle.rest.drop size } := by
  simpa using rawFileReadLoop_full (size + 1) size [] handle handle' buf read full (Nat.zero_le _)

theorem blockBytes_step {left : Nat} (more : left ≠ 0) :
    512 + blockBytes (left - min left 512) = blockBytes left := by
  unfold blockBytes
  omega

theorem take_block (rest : Str) (left : Nat) :
    rest.take left = (rest.take 512).take (min left 512) ++
      (rest.drop 512).take (left - min left 512) := by
  by_cases last : left ≤ 512
  · rw [Nat.min_eq_left last, Nat.sub_self, List.take_zero, List.append_nil, List.take_take,
      Nat.min_eq_left last]
  · rw [Nat.min_eq_right (by omega), List.take_take, Nat.min_self, ← List.take_add,
      Nat.add_sub_cancel' (by omega)]

theorem fwrite_ok {loc : List Str} {data : Str} {os os' : Os}
    (wrote : fwrite loc data os = (none, os')) : os'.calls = os.calls ++ [.fwrite data] ∧
      os'.faults = os.faults ∧
      os'.tree = os.tree.set loc (some (.file (contentAt os.tree loc ++ data))) := by
  unfold fwrite at wrote
  split at wrote
  · cases wrote
    exact ⟨rfl, rfl, rfl⟩
  · cases wrote

/-- Blocks that are read to their end: what is left of the archive, and what has been
written. -/
theorem extractBlocks_ok (name : Str) (outfh : Option (List Str)) (fuel left : Nat)
    (handle handle' : Handle) (os os' : Os) (enough : left ≤ fuel)
    (done : extractBlocks name outfh fuel left handle os = .ok (handle', os')) :
    left ≤ handle.rest.length ∧
      handle' = { handle with rest := handle.rest.drop (blockBytes left) } ∧
      (outfh = none → os' = os) ∧
      ∀ out, outfh = some out → ∃ blocks : List Str, blocks.flatten = handle.rest.take left ∧
        os'.calls = os.calls ++ blocks.map .fwrite ∧ os'.faults = os.faults ∧
        ∀ before, os.tree out = some (.file before) →
          os'.tree = os.tree.set out (some (.file (before ++ handle.rest.take left))) := by
  induction fuel generalizing left handle os with
  | zero =>
    obtain rfl : left = 0 := by omega
    cases done
    refine ⟨Nat.zero_le _, by simp [blockBytes], fun _ => rfl, fun out _ => ⟨[], rfl, ?_, rfl, ?_⟩⟩
    · simp
    · intro before there
      simp [← there]
  | succ fuel ih =>
    unfold extractBlocks at done
    split at done
    next finished =>
      subst finished
      cases done
      refine ⟨Nat.zero_le _, by simp [blockBytes], fun _ => rfl, fun out _ => ⟨[], rfl, ?_, rfl, ?_⟩⟩
      · simp
      · intro before there
        simp [← there]
    next more =>
      split at done
      next => cases done
      next buf handle₁ read =>
        split at done
        next => cases done
        next full =>
          -- a block that is read is read whole, the last one with its padding
          obtain ⟨block, rfl, rfl⟩ := rawFileRead_full read (by omega)
          have step := blockBytes_step more
          split at done
          next =>
            obtain ⟨fits, rest, same, -⟩ := ih _ _ _ (by omega) done
            simp only [List.length_drop, List.drop_drop, step] at fits rest
            exact ⟨by omega, rest, same, by simp⟩
          next out =>
            dsimp only at done
            split at done
            next => cases done
            next os₁ wrote =>
              obtain ⟨calls₁, faults₁, tree₁⟩ := fwrite_ok wrote
              obtain ⟨fits, rest, -, writes⟩ := ih _ _ _ (by omega) done
              simp only [List.length_drop, List.drop_drop, step] at fits rest
              refine ⟨by omega, rest, by simp, ?_⟩
              rintro _ ⟨rfl⟩
              obtain ⟨blocks, data, calls, faults, tree⟩ := writes out rfl
              refine ⟨(handle.rest.take 512).take (min left 512) :: blocks, ?_, ?_,
                faults.trans faults₁, fun before there => ?_⟩
              · rw [List.flatten_cons, data, take_block handle.rest left]
              · rw [calls, calls₁]
                simp
              · have content : contentAt os.tree out = before := by simp [contentAt, there]
                rw [content] at tree₁
                rw [tree _ (by rw [tree₁, Tree.set_same]), tree₁, Tree.set_set, List.append_assoc,
                  ← take_block]

/-- The system after a part of the extraction, whether or not it has ended. -/
def afterPart : Except Ended (Handle × Os) → Os
  | .error ended => ended.os
  | .ok (_, os) => os

theorem extractBlocks_extracts (name : Str) (es : List ArchiveEntry) (outfh : Option (List Str))
    (tmp : ∀ out ∈ outfh, out = tmpLocation) (fuel left : Nat) (handle : Handle) (os : Os) :
    Extracts es os (afterPart (extractBlocks name outfh fuel left handle os)) := by
  induction fuel generalizing left handle os with
  | zero => exact Extracts.refl es os
  | succ fuel ih =>
    unfold extractBlocks
    split
    · exact Extracts.refl es os
    · split
      next => exact Extracts.printD es os _
      next =>
        split
        next => exact Extracts.printD es os _
        next buf _ _ _ =>
          split
          next => exact ih _ _ _
          next out =>
            obtain rfl := tmp out rfl
            -- what is written changes the temporary file only
            have here := fwrite_extracts es os (buf.take (min left 512))
            dsimp only
            split
            next errno os₁ wrote =>
              rw [wrote] at here
              exact here.trans (Extracts.printD es os₁ _)
            next os₁ wrote =>
              rw [wrote] at here
              exact here.trans (ih _ _ _)

/-! ### One file -/

theorem rename_ok {source target : Str} {os os' : Os}
    (renamed : rename source target os = (none, os')) :
    os.fault = none ∧ os'.calls = os.calls ++ [.rename source target] ∧ os'.faults = os.faults ∧
      (os'.tree = os.tree ∧ location source = location target ∨
        os'.tree = (os.tree.set (location target) (os.tree (location source))).set
          (location source) none) := by
  unfold rename at renamed
  split at renamed
  next => cases renamed
  next => cases renamed
  next => cases renamed
  next old new no_fault found_old found_new =>
    obtain rfl := location_of_namei found_old
    obtain rfl := location_of_namei found_new
    dsimp only at renamed
    split_ifs at renamed with missing dir same
    · cases renamed
    · cases renamed
    · cases renamed
      exact ⟨no_fault, rfl, rfl, .inl ⟨rfl, same⟩⟩
    · cases renamed
      exact ⟨no_fault, rfl, rfl, .inr rfl⟩

theorem rename_failed {source target : Str} {os os' : Os} {errno : Nat}
    (failed : rename source target os = (some errno, os')) : os' = os.log (.rename source target) := by
  unfold rename at failed
  split at failed
  next => cases failed; rfl
  next => cases failed; rfl
  next => cases failed; rfl
  next =>
    dsimp only at failed
    split_ifs at failed <;> cases failed <;> rfl

theorem fclose_calls (loc : List Str) (os : Os) : (fclose loc os).calls = os.calls ++ [.fclose] := by
  unfold fclose
  split <;> rfl

theorem written_blocks (calls : List Call) (path : Str) (blocks : List Str) :
    written (calls ++ .fopen path :: blocks.map .fwrite) = blocks.flatten.length := by
  -- the blocks add up from what was written before them
  have count : ∀ (blocks : List Str) (n : Nat), (blocks.map Call.fwrite).foldl (fun n call =>
      match call with
      | .fopen _ => 0
      | .fwrite data => n + data.length
      | _ => n) n = n + blocks.flatten.length := by
    intro blocks
    induction blocks with
    | nil => simp
    | cons block blocks ih =>
      intro n
      rw [List.map_cons, List.foldl_cons, ih]
      simp [Nat.add_assoc]
  simp only [written, List.foldl_append, List.foldl_cons, count, Nat.zero_add]

theorem fopenTmp_ok {loc : List Str} {os os' : Os} (opened : fopenWb tarfileTmp os = (.ok loc, os')) :
    loc = tmpLocation ∧ os'.calls = os.calls ++ [.fopen tarfileTmp] ∧ os'.faults = os.faults ∧
      os'.tree = os.tree.set tmpLocation (some (.file [])) := by
  unfold fopenWb at opened
  split at opened
  next => cases opened
  next => cases opened
  next out _ found =>
    -- relative paths start at the root, where the temporary file is
    obtain rfl : out = tmpLocation := location_of_namei found
    dsimp only at opened
    split_ifs at opened
    · cases opened
    · cases opened
      exact ⟨rfl, rfl, rfl, rfl⟩

/-- What `fclose` leaves of the data in the temporary file. -/
theorem fclose_kept {os : Os} {data : Str} (there : os.tree tmpLocation = some (.file data)) :
    ∃ kept, (fclose tmpLocation os).tree = os.tree.set tmpLocation (some (.file (data.take kept))) ∧
      (fclose tmpLocation os).faults = os.faults ∧
      ((∀ fault ∈ os.fault, data.length ≤ fault.kept) ↔ data.length ≤ kept) := by
  unfold fclose
  cases struck : os.fault with
  | none =>
    refine ⟨data.length, ?_, rfl, by simp⟩
    rw [List.take_length, ← there, Tree.set_self]
    rfl
  | some fault =>
    refine ⟨fault.kept, ?_, rfl, by simp⟩
    rw [Os.update_tree, contentAt, there]

/-- A file that is moved to its path: what the path holds, and the call of `fclose`
on which this depends. -/
theorem extractFile_moved (name path : Str) (size : Nat) (handle handle' : Handle) (os os' : Os)
    (fresh : (checkFile path os).1 = false)
    (done : extractFile name path size handle os = .ok (handle', os')) :
    ∃ n kept, os'.calls.length = n + 2 ∧ size ≤ handle.rest.length ∧
      (LosslessAt os' n ↔ size ≤ kept) ∧
      (location path ≠ tmpLocation →
        os'.tree (location path) = some (.file ((handle.rest.take size).take kept))) ∧
      ∀ l, l ≠ tmpLocation → l ≠ location path → os'.tree l = os.tree l := by
  have checked : (checkFile path os).2 = os.log (.access path) := by
    unfold checkFile
    split <;> rfl
  unfold extractFile at done
  generalize checkFile path os = access at fresh checked done
  obtain ⟨found, os₁⟩ := access
  dsimp only at fresh checked
  subst fresh checked
  dsimp only at done
  split at done
  next => cases done
  next out os₂ opened =>
    obtain ⟨rfl, calls₂, faults₂, tree₂⟩ := fopenTmp_ok opened
    split at done
    next => cases done
    next handle₃ os₃ read =>
      obtain ⟨fits, -, -, writes⟩ := extractBlocks_ok name _ size size handle _ os₂ os₃
        (Nat.le_refl _) read
      obtain ⟨blocks, data, calls₃, faults₃, tree₃⟩ := writes tmpLocation rfl
      replace tree₃ := tree₃ [] (by rw [tree₂, Tree.set_same])
      rw [tree₂, Tree.set_set, List.nil_append] at tree₃
      obtain ⟨kept, tree₄, faults₄, lossless⟩ :=
        fclose_kept (show os₃.tree tmpLocation = _ by rw [tree₃, Tree.set_same])
      split at done
      next => cases done
      next os₅ renamed =>
        cases done
        obtain ⟨struck, calls₅, faults₅, tree₅⟩ := rename_ok renamed
        have length : (handle.rest.take size).length = size := by
          rw [List.length_take, Nat.min_eq_left fits]
        -- all that was written since the temporary file was opened are the blocks
        have count : written os₃.calls = size := by
          rw [calls₃, calls₂, List.append_assoc, List.singleton_append, written_blocks, data, length]
        rw [fclose_calls, List.append_assoc] at calls₅
        have source : location tarfileTmp = tmpLocation := rfl
        rw [source, tree₄, tree₃, Tree.set_set] at tree₅
        rw [length] at lossless
        refine ⟨os₃.calls.length, kept, by rw [calls₅]; simp, fits, ?_, fun apart => ?_, ?_⟩
        · -- the call that comes after the last write, with the file still to be moved
          rw [← lossless]
          have closed : os'.calls[os₃.calls.length]? = some .fclose := by rw [calls₅]; simp
          have before : os'.calls.take os₃.calls.length = os₃.calls := by rw [calls₅]; simp
          have unstruck : os'.faults (os₃.calls.length + 1) = none := by
            rw [faults₅]
            have := struck
            rw [Os.fault, fclose_calls] at this
            simpa using this
          have same : os'.faults os₃.calls.length = os₃.fault := by rw [faults₅, faults₄, Os.fault]
          simp only [LosslessAt, closed, before, count, unstruck, same]
          simp
        -- the source of the move is not its target
        · obtain ⟨-, same⟩ | moved := tree₅
          · exact absurd same.symm apart
          · rw [moved, Tree.set_other _ _ apart, Tree.set_same, Tree.set_same]
        · intro l tmp other
          obtain ⟨kept, -⟩ | moved := tree₅
          · rw [kept, Tree.set_other _ _ tmp]
            rfl
          · rw [moved, Tree.set_other _ _ tmp, Tree.set_other _ _ other, Tree.set_other _ _ tmp]
            rfl

theorem extractFile_extracts (es : List ArchiveEntry) (name path : Str) (size : Nat)
    (handle : Handle) (os : Os) (entry : ⟨path, memberData size handle.rest⟩ ∈ es) :
    Extracts es os (afterPart (extractFile name path size handle os)) ∧
      ∀ handle' os', extractFile name path size handle os = .ok (handle', os') →
        handle' = { handle with rest := handle.rest.drop (blockBytes size) } := by
  have here := checkFile_extracts es os path
  have moved := fun handle' os' => extractFile_moved name path size handle handle' os os'
  unfold extractFile at moved ⊢
  generalize checkFile path os = access at here moved ⊢
  obtain ⟨found, os₁⟩ := access
  cases found with
  | true =>
    -- the blocks are read and thrown away
    refine ⟨here.trans (extractBlocks_extracts name es none (by simp) size size handle os₁),
      fun handle' os' done => ?_⟩
    exact (extractBlocks_ok name none size size handle handle' os₁ os' (Nat.le_refl _) done).2.1
  | false =>
    have tmp := fopenTmp_extracts es os₁
    dsimp only at here moved ⊢
    split at moved
    next errno os₂ opened =>
      rw [opened] at tmp
      exact ⟨(here.trans tmp).trans (Extracts.printD es os₂ _), fun handle' os' done => by cases done⟩
    next out os₂ opened =>
      rw [opened] at tmp
      obtain ⟨rfl, -⟩ := fopenTmp_ok opened
      have blocks := extractBlocks_extracts name es (some tmpLocation) (by simp) size size handle os₂
      split at moved
      next ended failed =>
        rw [failed] at blocks
        exact ⟨(here.trans tmp).trans blocks, fun handle' os' done => by cases done⟩
      next handle₃ os₃ read =>
        rw [read] at blocks
        -- up to here only the temporary file has changed
        have before := ((here.trans tmp).trans blocks).trans (fclose_extracts es os₃)
        split at moved
        next errno os₅ failed =>
          refine ⟨before.trans ?_, fun handle' os' done => by cases done⟩
          rw [rename_failed failed]
          exact (Extracts.log_call es _ _).trans (Extracts.printD es _ _)
        next os₅ renamed =>
          obtain ⟨-, calls₅, faults₅, -⟩ := rename_ok renamed
          obtain ⟨n, kept, -, fits, lossless, content, others⟩ := moved _ _ rfl rfl
          refine ⟨⟨before.log.trans ⟨_, calls₅.symm⟩, faults₅.trans before.faults,
            fun all apart l tmp data there => ?_⟩, fun handle' os' done => ?_⟩
          · by_cases this : l = location path
            · subst this
              rw [afterPart, content (apart _ entry)] at there
              cases there
              refine .inr ⟨_, entry, rfl, ?_⟩
              have whole : size ≤ kept := lossless.mp (all n)
              rw [memberData, if_pos fits, List.take_take, Nat.min_eq_right whole]
            · rw [afterPart, others l tmp this] at there
              exact .inl there
          · cases done
            exact (extractBlocks_ok name _ size size handle _ os₂ os₃ (Nat.le_refl _) read).2.1

/-! ### The whole archive -/

theorem tarMkdirs_extracts (es : List ArchiveEntry) (os : Os) (entry path : Str) :
    Extracts es os (if slash ∈ entry then tarMkdirs path os else (true, os)).2 := by
  split
  · exact tarMkdirsRec_extracts es os _ path
  · exact Extracts.refl es os

/-- A member that is skipped. -/
theorem extractMember_skipped {stack : Stack} {header : Str} (name dest : Str) (handle : Handle)
    (os : Os) (skipped : lastOfName stack (headerStr stack header 0) = slash ∨
      header[linkflagOffset]? = some 49) :
    extractMember name dest stack header handle os = .ok (handle, os) := by
  unfold extractMember
  dsimp only
  obtain directory | link := skipped
  · rw [if_pos directory]
  · rw [if_pos link, ite_self]

theorem extractMember_extracts (es : List ArchiveEntry) (name dest : Str) (stack : Stack)
    (header : Str) (handle : Handle) (os : Os)
    (entries : (readMember dest stack header handle).1.toList ⊆ es) :
    Extracts es os (afterPart (extractMember name dest stack header handle os)) ∧
      ∀ handle' os', extractMember name dest stack header handle os = .ok (handle', os') →
        handle' = (readMember dest stack header handle).2 := by
  unfold readMember at entries ⊢
  -- directories and hard links leave everything as it is
  by_cases skipped : lastOfName stack (headerStr stack header 0) = slash ∨
      header[linkflagOffset]? = some 49
  · rw [extractMember_skipped name dest handle os skipped, if_pos skipped]
    exact ⟨Extracts.refl es os, fun handle' os' done => by cases done; rfl⟩
  · rw [if_neg skipped] at entries ⊢
    obtain ⟨directory, link⟩ := not_or.mp skipped
    have member := entries (List.mem_singleton.mpr rfl)
    unfold extractMember
    rw [if_neg directory, if_neg link]
    have made := tarMkdirs_extracts es os (headerStr stack header 0)
      (entryPath dest (headerStr stack header 0))
    dsimp only
    split
    next os₁ failed =>
      rw [failed] at made
      exact ⟨made, fun handle' os' done => by cases done⟩
    next os₁ called =>
      rw [called] at made
      obtain ⟨file, rest⟩ := extractFile_extracts es name _ _ handle os₁ member
      exact ⟨made.trans file, rest⟩

theorem readMember_shorter (dest : Str) (stack : Stack) (header : Str) (handle : Handle) :
    (readMember dest stack header handle).2.rest.length ≤ handle.rest.length := by
  unfold readMember
  dsimp only
  split
  · exact Nat.le_refl _
  · simp

/-- A round takes a record at least. -/
theorem readEntry_shorter {dest : Str} {stack : Nat → Stack} {handle handle' : Handle}
    {entry : Option ArchiveEntry} (read : readEntry dest stack handle = some (entry, handle')) :
    handle'.rest.length < handle.rest.length := by
  unfold readEntry at read
  split at read
  next => cases read
  next header handle₁ got =>
    split at read
    next accepted =>
      obtain ⟨fits, -, rfl⟩ := rawFileRead_full got accepted.1
      dsimp only at read
      -- the header alone has 512 bytes
      have shorter := readMember_shorter dest (stack (handle.rest.drop headerSize).length) header
        { handle with rest := handle.rest.drop headerSize }
      rw [Option.some.inj read, List.length_drop] at shorter
      dsimp only at shorter
      have : 0 < headerSize := by decide
      omega
    next => cases read

theorem extractEntry_end (es : List ArchiveEntry) {dest : Str} {stack : Nat → Stack}
    {handle : Handle} (name : Str) (os : Os) (read : readEntry dest stack handle = none) :
    ∃ ended, extractEntry name dest stack handle os = .error ended ∧ Extracts es os ended.os := by
  unfold readEntry at read
  unfold extractEntry
  generalize rawFileRead headerSize handle = got at read ⊢
  obtain ⟨header, error, handle₁⟩ := got
  cases error with
  | some error => exact ⟨_, rfl, Extracts.printD es os _⟩
  | none =>
    dsimp only at read ⊢
    split_ifs with short last corrupt
    · exact ⟨_, rfl, Extracts.printD es os _⟩
    · exact ⟨_, rfl, Extracts.refl es os⟩
    · exact ⟨_, rfl, Extracts.printD es os _⟩
    · rw [if_pos ⟨by omega, last, by simpa using corrupt⟩] at read
      cases read

theorem extractEntry_extracts (es : List ArchiveEntry) {dest : Str} {stack : Nat → Stack}
    {handle rest : Handle} {entry : Option ArchiveEntry} (name : Str) (os : Os)
    (read : readEntry dest stack handle = some (entry, rest)) (entries : entry.toList ⊆ es) :
    Extracts es os (afterPart (extractEntry name dest stack handle os)) ∧
      ∀ handle' os', extractEntry name dest stack handle os = .ok (handle', os') →
        handle' = rest := by
  unfold readEntry at read
  unfold extractEntry
  generalize rawFileRead headerSize handle = got at read ⊢
  obtain ⟨header, error, handle₁⟩ := got
  cases error with
  | some error => cases read
  | none =>
    dsimp only at read ⊢
    split at read
    next accepted =>
      obtain ⟨length, last, checked⟩ := accepted
      have member := Option.some.inj read
      rw [if_neg (by omega), if_neg last, if_neg (by simp [checked])]
      have part := extractMember_extracts es name dest (stack handle₁.rest.length) header handle₁ os
      rw [member] at part
      exact part entries
    next => cases read

/-- The rounds suffice, and what they leave behind. -/
theorem extractEntries_extracts (name dest : Str) (stack : Nat → Stack) (fuel : Nat)
    (handle : Handle) (os : Os) (enough : handle.rest.length < fuel) :
    ∃ ended, extractEntries name dest stack fuel handle os = some ended ∧
      Extracts (archiveEntries dest stack fuel handle) os ended.os := by
  induction fuel generalizing handle os with
  | zero => omega
  | succ fuel ih =>
    unfold extractEntries
    generalize entries : archiveEntries dest stack (fuel + 1) handle = es
    unfold archiveEntries at entries
    split at entries
    next done =>
      obtain ⟨ended, failed, part⟩ := extractEntry_end es name os done
      simp only [failed]
      exact ⟨ended, rfl, part⟩
    next entry rest read =>
      subst entries
      -- the round extracts the first entry, the others are left to the rounds behind it
      obtain ⟨part, next⟩ := extractEntry_extracts _ name os read (List.subset_append_left _ _)
      split
      next ended failed =>
        rw [failed] at part
        exact ⟨ended, rfl, part⟩
      next handle' os' called =>
        obtain rfl := next _ _ called
        rw [called] at part
        have shorter := readEntry_shorter read
        obtain ⟨ended, rounds, later⟩ := ih handle' os' (by omega)
        exact ⟨ended, rounds, part.trans (later.mono (List.subset_append_right _ _))⟩

theorem extractTar_extracts (name dest : Str) (haveLzma : Bool)
    (openLib : CompType → Str → Os → Except Str Handle) (stack : Nat → Stack) (os : Os) :
    ∃ ended, extractTar name dest haveLzma openLib stack os = some ended ∧
      Extracts (tarEntries name dest haveLzma openLib stack os) os ended.os := by
  unfold extractTar tarEntries
  cases compType haveLzma name with
  | none => exact ⟨_, rfl, List.prefix_refl _, rfl, fun _ _ _ _ _ found => .inl found⟩
  | some format =>
    dsimp only
    cases (if format = .raw then rawFileOpen name os else openLib format name os) with
    | error _ => exact ⟨_, rfl, List.prefix_refl _, rfl, fun _ _ _ _ _ found => .inl found⟩
    | ok handle =>
      exact extractEntries_extracts name dest stack (handle.rest.length + 1) handle os (Nat.lt_succ_self _)

/-- No truncated file becomes visible if no `fclose` loses any of the data, or the
file is not moved after it, and no entry stands for the temporary file itself. -/
theorem extractTar_intact (name dest : Str) (haveLzma : Bool)
    (openLib : CompType → Str → Os → Except Str Handle) (stack : Nat → Stack) (os : Os) :
    ∃ ended, extractTar name dest haveLzma openLib stack os = some ended ∧
      ((∀ n, LosslessAt ended.os n) →
        (∀ e ∈ tarEntries name dest haveLzma openLib stack os, location e.path ≠ tmpLocation) →
        Intact (tarEntries name dest haveLzma openLib stack os) os ended.os) := by
  obtain ⟨ended, done, part⟩ := extractTar_extracts name dest haveLzma openLib stack os
  refine ⟨ended, done, fun lossless apart e member fresh content there => ?_⟩
  -- what was not there before has come with an entry
  obtain old | new := part.files lossless apart _ (apart e member) content there
  · rw [fresh] at old
    cases old
  · exact new

/-- A disk that is full in the middle of the second of two files. -/
def fullMidway : Os :=
  { archiveOs (writeArchive [.file (bytes "x") (bytes "hello"), .file (bytes "y") (bytes "world")] []) with
    faults := fun n => if n = 7 then some ⟨28, 2⟩ else none }

/-- The first file is there, whole, and of the second one there is nothing to be seen. -/
theorem extractTar_intact_midway :
    ∃ ended, extractTar (bytes "/a.tar") modulesDir false (fun _ _ _ => .error [])
        (fun _ => ⟨0, []⟩) fullMidway = some ended ∧
      Intact (tarEntries (bytes "/a.tar") modulesDir false (fun _ _ _ => .error [])
        (fun _ => ⟨0, []⟩) fullMidway) fullMidway ended.os ∧
      ended.os.tree [bytes "modules", bytes "x"] = some (.file (bytes "hello")) ∧
      ended.os.tree [bytes "modules", bytes "y"] = none := by
  have left : ((extractTar (bytes "/a.tar") modulesDir false (fun _ _ _ => .error [])
      (fun _ => ⟨0, []⟩) fullMidway).map fun ended => (ended.os.calls[7]?,
        ended.os.tree [bytes "modules", bytes "x"], ended.os.tree [bytes "modules", bytes "y"])) =
        some (some (.fwrite (bytes "wo")), some (.file (bytes "hello")), none) := by
    decide +kernel
  have apart : ∀ e ∈ tarEntries (bytes "/a.tar") modulesDir false (fun _ _ _ => .error [])
      (fun _ => ⟨0, []⟩) fullMidway, location e.path ≠ tmpLocation := by
    decide +kernel
  obtain ⟨ended, run, part⟩ := extractTar_extracts (bytes "/a.tar") modulesDir false
    (fun _ _ _ => .error []) (fun _ => ⟨0, []⟩) fullMidway
  obtain ⟨ended', run', intact⟩ := extractTar_intact (bytes "/a.tar") modulesDir false
    (fun _ _ _ => .error []) (fun _ => ⟨0, []⟩) fullMidway
  obtain rfl : ended = ended' := Option.some.inj (run.symm.trans run')
  rw [run, Option.map_some, Option.some.injEq, Prod.mk.injEq, Prod.mk.injEq] at left
  obtain ⟨struck, first, second⟩ := left
  refine ⟨ended, run, intact (fun n closed fault given => ?_) apart, first, second⟩
  -- the call that fails is no `fclose`
  rw [part.faults] at given
  by_cases here : n = 7
  · rw [here, struck] at closed
    cases closed
  · simp [fullMidway, here] at given

/-- A full disk, which is found out only when the buffers are flushed. -/
def fullDisk : Os :=
  { archiveOs (writeArchive [.file (bytes "x") (bytes "hello")] []) with
    faults := fun n => if n = 3 then some ⟨28, 0⟩ else none }

/-- The result of `fclose` is not looked at, and the empty file is moved to its path. -/
theorem truncated_file_visible :
    ∃ ended, extractTar (bytes "/a.tar") modulesDir false (fun _ _ _ => .error [])
        (fun _ => ⟨0, []⟩) fullDisk = some ended ∧
      ¬ Intact (tarEntries (bytes "/a.tar") modulesDir false (fun _ _ _ => .error [])
        (fun _ => ⟨0, []⟩) fullDisk) fullDisk ended.os := by
  have moved : ((extractTar (bytes "/a.tar") modulesDir false (fun _ _ _ => .error [])
      (fun _ => ⟨0, []⟩) fullDisk).map fun ended => ended.os.tree [bytes "modules", bytes "x"]) =
        some (some (.file [])) := by
    decide +kernel
  have entries : tarEntries (bytes "/a.tar") modulesDir false (fun _ _ _ => .error [])
      (fun _ => ⟨0, []⟩) fullDisk = [⟨bytes "/modules//x", some (bytes "hello")⟩] := by
    decide +kernel
  obtain ⟨ended, run, empty⟩ := Option.map_eq_some_iff.mp moved
  refine ⟨ended, run, fun intact => ?_⟩
  rw [entries] at intact
  obtain ⟨e, member, -, data⟩ := intact _ (.head _) (by decide +kernel) [] empty
  obtain rfl := List.mem_singleton.mp member
  exact absurd data (by decide)

end KexecLoader
