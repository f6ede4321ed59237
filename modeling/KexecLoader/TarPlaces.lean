import KexecLoader.ParentDirs
import KexecLoader.TarSkipping

/-!
# Where an archive puts its files

Whatever fails, an extraction takes nothing away, and what it makes is at the places
that its archive names; the temporary file is a matter of its own.
-/
namespace KexecLoader

open FileTree

/-! ### What can appear -/

/-- Nothing goes, and what appears is at one of the places; the temporary file apart. -/
structure Grows (os os' : Os) (places : List (List Str)) : Prop where
  kept : ∀ l, l ≠ tmpLocation → os.tree l ≠ none → os'.tree l ≠ none
  made : ∀ l, l ≠ tmpLocation → os'.tree l ≠ none → os.tree l ≠ none ∨ l ∈ places

namespace Grows

variable {os os₁ os₂ : Os} {places more : List (List Str)}

/-- A part of the extraction that leaves the tree alone. -/
theorem still (same : ∀ l, l ≠ tmpLocation → os₁.tree l = os.tree l) : Grows os os₁ places :=
  ⟨fun l apart there => by rwa [same l apart], fun l apart there => by
    rw [same l apart] at there
    exact .inl there⟩

theorem refl (os : Os) : Grows os os places := still fun _ _ => rfl

theorem mono (grows : Grows os os₁ places) (sub : places ⊆ more) : Grows os os₁ more :=
  ⟨grows.kept, fun l apart there => (grows.made l apart there).imp_right fun member => sub member⟩

theorem trans (first : Grows os os₁ places) (second : Grows os₁ os₂ more) :
    Grows os os₂ (places ++ more) := by
  refine ⟨fun l apart there => second.kept l apart (first.kept l apart there), fun l apart there => ?_⟩
  obtain between | new := second.made l apart there
  · exact (first.made l apart between).imp_right (List.mem_append_left _)
  · exact .inr (List.mem_append_right _ new)

/-- One place is filled. -/
theorem one {loc : List Str} {node : Node Str}
    (tree : ∀ l, l ≠ tmpLocation → os₁.tree l = os.tree.set loc (some node) l) :
    Grows os os₁ [loc] := by
  refine ⟨fun l apart there => ?_, fun l apart there => ?_⟩
  · rw [tree l apart]
    by_cases same : l = loc
    · simp [same]
    · rwa [Tree.set_other _ _ same]
  · rw [tree l apart] at there
    by_cases same : l = loc
    · exact .inr (by simp [same])
    · rw [Tree.set_other _ _ same] at there
      exact .inl there

end Grows

theorem mkdir_grows (path : Str) (os : Os) : Grows os (mkdir path os).2 [location path] := by
  unfold mkdir
  split
  · exact .still fun _ _ => rfl
  · exact .still fun _ _ => rfl
  next loc _ found =>
    obtain rfl := location_of_namei found
    split
    · exact .still fun _ _ => rfl
    · exact .one fun l _ => rfl

theorem makeDirs_grows (dirs : List Str) (os : Os) :
    Grows os (makeDirs dirs os).2 (dirs.map location) := by
  induction dirs generalizing os with
  | nil => exact .refl os
  | cons dir dirs ih =>
    have first := mkdir_grows dir os
    rw [makeDirs]
    cases called : mkdir dir os with
    | mk err os₁ =>
      rw [called] at first
      cases err with
      | none => exact first.trans (ih os₁)
      | some errno =>
        dsimp only
        split
        · exact first.trans (ih os₁)
        · exact first.trans (.still fun _ _ => rfl)

/-- The directories an archive has for a path are those `tar_mkdirs` asks for. -/
theorem madeDirs_eq (fuel : Nat) (path : Str) (short : path.length < 128) (enough : path.length < fuel) :
    madeDirs fuel path = (parentPrefixes path).map fun dir => (location dir, .dir) := by
  induction fuel generalizing path with
  | zero => omega
  | succ fuel ih =>
    have whole : path.take 128 = path := List.take_of_length_le (by omega)
    by_cases slashes : slash ∈ path
    · obtain ⟨front, tail, rfl, plain⟩ := split_at_last slashes
      simp only [madeDirs, whole, strrchr_append front tail slash plain]
      by_cases root : front = []
      · subst root
        rw [List.nil_append, parentPrefixes_root plain]
        rfl
      · rw [List.length_append, List.length_cons] at short enough
        rw [if_neg (mt List.eq_nil_of_length_eq_zero root), List.take_left,
          parentPrefixes_last root plain, List.map_append]
        congr 1
        split
        next => exact ih front (by omega) (by omega)
        next plain_front => rw [parentPrefixes_plain plain_front, List.map_nil]
    · simp only [madeDirs, whole, strrchr_none slashes, parentPrefixes_plain slashes, List.map_nil]

/-- Blocks are written to the temporary file, whatever fails. -/
theorem extractBlocks_apart (name : Str) (outfh : Option (List Str))
    (tmp : ∀ out ∈ outfh, out = tmpLocation) (fuel left : Nat) (handle : Handle) (os : Os) :
    ∀ l, l ≠ tmpLocation →
      (afterPart (extractBlocks name outfh fuel left handle os)).tree l = os.tree l := by
  intro l apart
  induction fuel generalizing left handle os with
  | zero => rfl
  | succ fuel ih =>
    unfold extractBlocks
    split
    · rfl
    · split
      next => rfl
      next =>
        split
        next => rfl
        next buf _ _ _ =>
          split
          next => exact ih _ _ _
          next out =>
            obtain rfl := tmp out rfl
            have here : (fwrite tmpLocation (buf.take (min left 512)) os).2.tree l = os.tree l := by
              unfold fwrite
              split <;> exact Tree.set_other _ _ apart
            dsimp only
            split
            next errno os₁ wrote =>
              rw [wrote] at here
              exact here
            next os₁ wrote =>
              rw [wrote] at here
              exact (ih _ _ _).trans here

/-- Blocks that are read to their end were all there. -/
theorem extractBlocks_whole (name : Str) (outfh : Option (List Str)) (fuel left : Nat)
    (handle handle' : Handle) (os os' : Os) (enough : left ≤ fuel)
    (done : extractBlocks name outfh fuel left handle os = .ok (handle', os')) :
    blockBytes left ≤ handle.rest.length := by
  induction fuel generalizing left handle os with
  | zero =>
    obtain rfl : left = 0 := by omega
    exact Nat.zero_le _
  | succ fuel ih =>
    unfold extractBlocks at done
    split at done
    next finished =>
      subst finished
      exact Nat.zero_le _
    next more =>
      split at done
      next => cases done
      next buf handle₁ read =>
        split at done
        next => cases done
        next full =>
          obtain ⟨block, -, rfl⟩ := rawFileRead_full read (by omega)
          have step := blockBytes_step more
          have later {os₁ : Os} (rest : extractBlocks name outfh fuel (left - min left 512)
              { handle with rest := handle.rest.drop 512 } os₁ = .ok (handle', os')) :
              blockBytes left ≤ handle.rest.length := by
            have behind := ih _ _ os₁ (by omega) rest
            rw [List.length_drop] at behind
            omega
          cases outfh with
          | none => exact later done
          | some out =>
            dsimp only at done
            split at done
            next => cases done
            next => exact later done

/-- A part of the extraction fills places, and if it does not end the extraction the
archive goes on where its bytes say. -/
def Goes (os : Os) (places : List (List Str)) (next : Option Handle) :
    Except Ended (Handle × Os) → Prop
  | .ok (handle', os') => next = some handle' ∧ Grows os os' places
  | .error ended => Grows os ended.os places

theorem Goes.after {os os₁ : Os} {places more : List (List Str)} {next : Option Handle}
    {result : Except Ended (Handle × Os)} (grows : Grows os os₁ places)
    (goes : Goes os₁ more next result) : Goes os (places ++ more) next result := by
  cases result with
  | error ended => exact grows.trans goes
  | ok after => exact ⟨goes.1, grows.trans goes.2⟩

theorem checkFile_tree (path : Str) (os : Os) : (checkFile path os).2.tree = os.tree := by
  unfold checkFile
  split <;> rfl

theorem fopenTmp_apart (os : Os) (l : List Str) (apart : l ≠ tmpLocation) :
    (fopenWb tarfileTmp os).2.tree l = os.tree l := by
  unfold fopenWb
  split
  · rfl
  · rfl
  next loc _ found =>
    obtain rfl : loc = tmpLocation := location_of_namei found
    split
    · rfl
    · exact Tree.set_other _ _ apart

theorem fclose_apart (os : Os) (l : List Str) (apart : l ≠ tmpLocation) :
    (fclose tmpLocation os).tree l = os.tree l := by
  unfold fclose
  split
  · rfl
  · exact Tree.set_other _ _ apart

/-- A file that is moved to its path fills no other place. -/
theorem rename_grows (path : Str) (os : Os) :
    Grows os (rename tarfileTmp path os).2 [location path] := by
  unfold rename
  split
  · exact .still fun _ _ => rfl
  · exact .still fun _ _ => rfl
  · exact .still fun _ _ => rfl
  next old new _ source target =>
    obtain rfl : old = tmpLocation := location_of_namei source
    obtain rfl := location_of_namei target
    dsimp only
    split_ifs with missing dir same
    · exact .still fun _ _ => rfl
    · exact .still fun _ _ => rfl
    · exact .still fun _ _ => rfl
    · obtain ⟨node, there⟩ := Option.ne_none_iff_exists'.mp missing
      have filled (l : List Str) (apart : l ≠ tmpLocation) :
          (os.update (.rename tarfileTmp path) ((os.tree.set (location path) (os.tree tmpLocation)).set
            tmpLocation none)).tree l = os.tree.set (location path) (some node) l := by
        rw [Os.update_tree, Tree.set_other _ _ apart, there]
      exact .one filled

theorem extractFile_goes (name path : Str) (size : Nat) (handle : Handle) (os : Os) :
    Goes os ((fileNodes path size handle).map Prod.fst) (behindBlocks size handle)
      (extractFile name path size handle os) := by
  have checked := checkFile_tree path os
  unfold extractFile
  cases check : checkFile path os with
  | mk found os₁ =>
    rw [check] at checked
    -- the blocks end where the bytes of the archive say
    have behind {outfh : Option (List Str)} {os₂ os₃ : Os} {handle' : Handle}
        (read : extractBlocks name outfh size size handle os₂ = .ok (handle', os₃)) :
        behindBlocks size handle = some handle' := by
      obtain ⟨-, rest, -⟩ := extractBlocks_ok name outfh size size handle handle' os₂ os₃
        (Nat.le_refl _) read
      have whole := extractBlocks_whole name outfh size size handle handle' os₂ os₃
        (Nat.le_refl _) read
      rw [behindBlocks, if_pos whole, rest]
    cases found with
    | true =>
      have apart := extractBlocks_apart name none (by simp) size size handle os₁
      dsimp only
      cases read : extractBlocks name none size size handle os₁ with
      | error ended =>
        rw [read] at apart
        exact .still fun l other => (apart l other).trans (congrFun checked l)
      | ok after =>
        rw [read] at apart
        exact ⟨behind read, .still fun l other => (apart l other).trans (congrFun checked l)⟩
    | false =>
      have opened := fopenTmp_apart os₁
      dsimp only
      cases called : fopenWb tarfileTmp os₁ with
      | mk result os₂ =>
        rw [called] at opened
        cases result with
        | error errno => exact .still fun l other => (opened l other).trans (congrFun checked l)
        | ok out =>
          obtain ⟨rfl, -⟩ := fopenTmp_ok called
          have apart := extractBlocks_apart name (some tmpLocation) (by simp) size size handle os₂
          dsimp only
          cases read : extractBlocks name (some tmpLocation) size size handle os₂ with
          | error ended =>
            rw [read] at apart
            exact .still fun l other =>
              ((apart l other).trans (opened l other)).trans (congrFun checked l)
          | ok after =>
            obtain ⟨handle₃, os₃⟩ := after
            rw [read] at apart
            have moved := rename_grows path (fclose tmpLocation os₃)
            have sofar : Grows os (fclose tmpLocation os₃) [] := .still fun l other =>
              (((fclose_apart os₃ l other).trans (apart l other)).trans (opened l other)).trans
                (congrFun checked l)
            have next := behind read
            have node : (fileNodes path size handle).map Prod.fst = [location path] := by
              rw [fileNodes, next]
              rfl
            rw [node, next]
            dsimp only
            cases renamed : rename tarfileTmp path (fclose tmpLocation os₃) with
            | mk err os₄ =>
              rw [renamed] at moved
              cases err with
              | none => exact ⟨rfl, sofar.trans moved⟩
              | some errno =>
                have shown : Grows os₄ (os₄.printD (bytes "Error moving file to " ++ path ++
                    bytes ": " ++ os₄.strerror errno)) [] := .still fun _ _ => rfl
                exact (sofar.trans moved).trans shown

/-! ### The members -/

section
variable (name dest : Str)

/-- The path of a member fits in the array of `tar_mkdirs`. -/
def Fits (es : List ArchiveEntry) : Prop := ∀ e ∈ es, e.path.length < 128

instance (es : List ArchiveEntry) : Decidable (Fits es) :=
  inferInstanceAs (Decidable (∀ e ∈ es, e.path.length < 128))

theorem extractMember_goes (stack : Stack) (header : Str) (handle : Handle) (os : Os)
    (fits : Fits (readMember dest stack header handle).1.toList) :
    Goes os ((memberNodes dest stack header handle).1.map Prod.fst)
      (memberNodes dest stack header handle).2 (extractMember name dest stack header handle os) := by
  by_cases skipped : lastOfName stack (headerStr stack header 0) = slash ∨
      header[linkflagOffset]? = some 49
  · rw [extractMember_skipped name dest handle os skipped, memberNodes]
    dsimp only
    rw [if_pos skipped]
    exact ⟨rfl, .refl os⟩
  · obtain ⟨directory, link⟩ := not_or.mp skipped
    rw [readMember, if_neg skipped] at fits
    have short := fits _ (List.mem_singleton_self _)
    rw [extractMember, memberNodes]
    dsimp only at short ⊢
    rw [if_neg directory, if_neg link, if_neg skipped]
    generalize entryPath dest (headerStr stack header 0) = path at short ⊢
    have dirs : Grows os (if slash ∈ headerStr stack header 0 then tarMkdirs path os else (true, os)).2
        ((if slash ∈ headerStr stack header 0 then madeDirs (path.length + 1) path else []).map
          Prod.fst) := by
      split
      · rw [tarMkdirs, tarMkdirsRec_makeDirs _ path short (Nat.lt_succ_self _),
          madeDirs_eq _ path short (Nat.lt_succ_self _), List.map_map]
        exact makeDirs_grows _ os
      · exact .refl os
    rw [List.map_append]
    generalize (if slash ∈ headerStr stack header 0 then tarMkdirs path os else (true, os)) = result
      at dirs ⊢
    obtain ⟨made, os₁⟩ := result
    cases made with
    | false => exact dirs.mono (List.subset_append_left _ _)
    | true => exact .after dirs (extractFile_goes name path _ handle os₁)

/-- A round ends the extraction or is one of a member. -/
theorem round_cases (stack : Nat → Stack) (handle : Handle) :
    (roundNodes dest stack handle = ([], none) ∧ ∀ os, ∃ ended,
      extractEntry name dest stack handle os = .error ended ∧ ended.os.tree = os.tree) ∨
    ∃ header handle₁,
      roundNodes dest stack handle = memberNodes dest (stack handle₁.rest.length) header handle₁ ∧
      readEntry dest stack handle = some (readMember dest (stack handle₁.rest.length) header handle₁) ∧
      ∀ os, extractEntry name dest stack handle os =
        extractMember name dest (stack handle₁.rest.length) header handle₁ os := by
  unfold roundNodes readEntry extractEntry
  generalize rawFileRead headerSize handle = got
  obtain ⟨header, error, handle₁⟩ := got
  cases error with
  | some error => exact .inl ⟨rfl, fun os => ⟨_, rfl, rfl⟩⟩
  | none =>
    dsimp only
    by_cases accepted : headerSize ≤ header.length ∧ header ≠ List.replicate headerSize 0 ∧
        testChecksum (stack handle₁.rest.length) header = true
    · obtain ⟨length, last, checked⟩ := accepted
      rw [if_pos ⟨length, last, checked⟩, if_pos ⟨length, last, checked⟩]
      refine .inr ⟨header, handle₁, rfl, rfl, fun os => ?_⟩
      rw [if_neg (by omega), if_neg last, if_neg (by simp [checked])]
    · rw [if_neg accepted]
      refine .inl ⟨rfl, fun os => ?_⟩
      split_ifs with short last corrupt
      · exact ⟨_, rfl, rfl⟩
      · exact ⟨_, rfl, rfl⟩
      · exact ⟨_, rfl, rfl⟩
      · exact absurd ⟨by omega, last, by simpa using corrupt⟩ accepted

theorem extractEntry_goes (stack : Nat → Stack) (handle : Handle) (os : Os)
    (fits : ∀ entry rest, readEntry dest stack handle = some (entry, rest) → Fits entry.toList) :
    Goes os ((roundNodes dest stack handle).1.map Prod.fst) (roundNodes dest stack handle).2
      (extractEntry name dest stack handle os) := by
  obtain ⟨nodes, ends⟩ | ⟨header, handle₁, nodes, read, same⟩ := round_cases name dest stack handle
  · obtain ⟨ended, result, tree⟩ := ends os
    rw [result]
    exact .still fun l _ => congrFun tree l
  · rw [nodes, same]
    exact extractMember_goes name dest _ header handle₁ os (fits _ _ read)

/-- Behind a member whose blocks are all there the archive goes on as its entries do. -/
theorem readEntry_next {stack : Nat → Stack} {handle next : Handle}
    (goes_on : (roundNodes dest stack handle).2 = some next) :
    ∃ entry, readEntry dest stack handle = some (entry, next) := by
  obtain ⟨nodes, -⟩ | ⟨header, handle₁, nodes, read, -⟩ := round_cases [] dest stack handle
  · rw [nodes] at goes_on
    cases goes_on
  · rw [nodes, memberNodes] at goes_on
    rw [read, readMember]
    dsimp only at goes_on ⊢
    split at goes_on
    next skipped =>
      cases goes_on
      exact ⟨none, by rw [if_pos skipped]⟩
    next kept =>
      rw [if_neg kept]
      dsimp only [behindBlocks] at goes_on
      split at goes_on
      · cases goes_on
        exact ⟨_, rfl⟩
      · cases goes_on

theorem Fits.round {stack : Nat → Stack} {fuel : Nat} {handle : Handle}
    (fits : Fits (archiveEntries dest stack (fuel + 1) handle)) :
    (∀ entry rest, readEntry dest stack handle = some (entry, rest) → Fits entry.toList) ∧
      ∀ next, (roundNodes dest stack handle).2 = some next →
        Fits (archiveEntries dest stack fuel next) := by
  rw [archiveEntries] at fits
  constructor
  · intro entry rest read e member
    rw [read] at fits
    exact fits e (List.mem_append_left _ member)
  · intro next goes_on e member
    obtain ⟨entry, read⟩ := readEntry_next dest goes_on
    rw [read] at fits
    exact fits e (List.mem_append_right _ member)

/-- What an extraction makes is at the places of the archive, whatever fails. -/
theorem extractEntries_grows (stack : Nat → Stack) (fuel : Nat) (handle : Handle) (os : Os)
    (ended : Ended) (fits : Fits (archiveEntries dest stack fuel handle))
    (run : extractEntries name dest stack fuel handle os = some ended) :
    Grows os ended.os ((archiveNodes dest stack fuel handle).map Prod.fst) := by
  induction fuel generalizing handle os with
  | zero => cases run
  | succ fuel ih =>
    obtain ⟨here, later⟩ := fits.round
    have round := extractEntry_goes name dest stack handle os here
    rw [extractEntries] at run
    rw [archiveNodes]
    generalize roundNodes dest stack handle = plan at round later ⊢
    obtain ⟨nodes, next⟩ := plan
    cases result : extractEntry name dest stack handle os with
    | error last =>
      rw [result] at run round
      cases run
      cases next with
      | none => exact round
      | some next =>
        rw [List.map_append]
        exact Grows.mono round (List.subset_append_left _ _)
    | ok after =>
      rw [result] at run round
      obtain ⟨rfl, grows⟩ := round
      rw [List.map_append]
      exact grows.trans (ih _ _ (later _ rfl) run)

end

end KexecLoader
