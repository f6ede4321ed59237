import KexecLoader.CompletionContexts

/-!
# Where completion goes wrong

Each condition for the completions to be right is also needed. For the names of disks this
takes that none of them looks like an id behind its mark.
-/
namespace KexecLoader

/-! ### How long a completed word gets -/

theorem acAdd_length (a1 : CharPtr) (a2 d1 d2 : Str) :
    (acAdd a1 a2 d1 d2).append.str.length ≤ a1.str.length + a2.length := by
  simp only [acAdd, strlcat, strlcpy_str, List.length_take, List.length_append]
  omega

theorem bracketField_length {size : Nat} (mark : Str) (field : Buf size) :
    (bracketField mark field).length + 1 ≤ size := by
  have fits := field.fits
  unfold bracketField
  split
  · simp only [List.length_nil]
    omega
  · rw [List.length_take]
    omega

/-- A word that passes the comparison with a string is not longer. -/
theorem stored_length {word stored : Str} {entry : AcEntry} {d1 d2 : Str}
    (long : word.length ≤ stored.length) (added : entry = acAdd ⟨stored, word.length⟩ [] d1 d2) :
    word.length + entry.append.str.length ≤ stored.length := by
  have length := acAdd_length ⟨stored, word.length⟩ [] d1 d2
  rw [CharPtr.str, List.length_drop, List.length_nil] at length
  dsimp only at length
  rw [added]
  omega

theorem acMark_length {mark shown word : Str} {entry : AcEntry}
    (member : entry ∈ acMark mark shown word word.length) :
    word.length + entry.append.str.length ≤ mark.length := by
  obtain ⟨passed, added⟩ := mem_acAddIf.mp member
  rw [Bool.and_eq_true, decide_eq_true_eq] at passed
  exact stored_length (Nat.le_of_lt passed.2) added

/-- In brackets a word is completed to no more than an array holds. -/
theorem acBrackets_length {disks : List KlDisk} {word : Str} {entry : AcEntry}
    (member : entry ∈ acBrackets disks word word.length) :
    word.length + entry.append.str.length < 256 ∧
      (¬bytes "(UUID=" <+: word → ¬bytes "(LABEL=" <+: word →
        word.length + entry.append.str.length < 32) := by
  rw [acBrackets, List.mem_append, List.mem_append, List.mem_flatMap] at member
  obtain (uuid | label) | ⟨disk, -, member⟩ := member
  · have length := acMark_length uuid
    have mark : (bytes "(UUID=").length = 6 := rfl
    omega
  · have length := acMark_length label
    have mark : (bytes "(LABEL=").length = 7 := rfl
    omega
  simp only [List.mem_append, mem_acAddIf, Bool.and_eq_true, decide_eq_true_eq] at member
  obtain (⟨⟨⟨-, typed⟩, same⟩, added⟩ | ⟨⟨⟨-, typed⟩, same⟩, added⟩) | ⟨same, added⟩ := member
  · rw [klStrnceq_iff] at same
    have length := stored_length (by simpa using same.length_le) added
    have stored := bracketField_length (bytes "(UUID=") disk.uuid
    exact ⟨by omega, fun untyped _ => absurd ((klStrneq_iff word (bytes "(UUID=")).mp typed) untyped⟩
  · rw [klStrneq_iff] at same
    have length := stored_length same.length_le added
    have stored := bracketField_length (bytes "(LABEL=") disk.label
    exact ⟨by omega, fun _ untyped => absurd ((klStrneq_iff word (bytes "(LABEL=")).mp typed) untyped⟩
  · rw [klStrneq_iff] at same
    have length := stored_length same.length_le added
    have stored := bracketField_length (bytes "(") disk.name
    exact ⟨by omega, fun _ _ => by omega⟩

theorem mem_given {α : Type} {field : Str} {x y : α} (member : y ∈ given field x) : y = x := by
  unfold given at member
  split at member
  · cases member
  · exact List.mem_singleton.mp member

theorem mem_bracketForms {disk : KlDisk} {word : Str} {form : Candidate UInt8 × Nat}
    (member : form ∈ bracketForms disk word) : (∃ front, form.1.text = front ++ bytes ")") ∧
      (form.2 = 256 ∨ form = (plainCandidate (bytes "(" ++ disk.name.str ++ bytes ")") [], 32)) := by
  rw [bracketForms, List.mem_append, List.mem_append] at member
  obtain (uuid | label) | name := member
  · split at uuid
    · obtain rfl := mem_given uuid
      exact ⟨⟨_, rfl⟩, .inl rfl⟩
    · cases uuid
  · split at label
    · obtain rfl := mem_given label
      exact ⟨⟨_, rfl⟩, .inl rfl⟩
    · cases label
  · obtain rfl := mem_given name
    exact ⟨⟨_, rfl⟩, .inr rfl⟩

theorem markCandidate_some {mark word : Str} {c : Candidate UInt8} (member : c ∈ markCandidate mark word) :
    0 < c.text.length := by
  unfold markCandidate at member
  split at member
  next typed =>
    obtain rfl := List.mem_singleton.mp member
    exact Nat.zero_lt_of_lt typed
  next => cases member

theorem bracketCandidates_some {disks : List KlDisk} {word : Str} {c : Candidate UInt8}
    (member : c ∈ bracketCandidates disks word) : 0 < c.text.length := by
  rw [bracketCandidates, List.mem_append, List.mem_append, List.mem_flatMap] at member
  obtain (uuid | label) | ⟨disk, -, member⟩ := member
  · exact markCandidate_some uuid
  · exact markCandidate_some label
  · obtain ⟨form, listed, rfl⟩ := List.mem_map.mp member
    obtain ⟨front, text⟩ := (mem_bracketForms listed).1
    rw [text, List.length_append]
    exact Nat.lt_of_lt_of_le Nat.one_pos (Nat.le_add_left _ _)

/-- A long name in brackets begins with a mark only if the name itself does. -/
theorem mark_of_brackets {mark name word : Str} (extends_ : word <+: bytes "(" ++ name ++ bytes ")")
    (typed : bytes "(" ++ mark <+: word) (long : mark.length ≤ name.length) : mark <+: name := by
  have whole := typed.trans extends_
  rw [List.append_assoc, List.prefix_append_right_inj] at whole
  exact List.prefix_of_prefix_length_le whole (List.prefix_append _ _) long

/-! ### The conditions, one by one -/

/-- A name of a disk that is not taken for a mark with an id. -/
def PlainName (disk : KlDisk) : Prop :=
  ¬bytes "UUID=" <+: disk.name.str ∧ ¬bytes "LABEL=" <+: disk.name.str

section
variable {host : AcHost} {cmd : Str} {offset : Nat} {word : Str} {mode : AcMode}

/-- Without a bracket that is closed there is no path yet but the root directory. -/
theorem mem_acContext_brackets {len : Nat} {entry : AcEntry} (context : InBrackets mode word)
    (member : entry ∈ acContext host ⟨mode, word, len⟩) :
    entry ∈ acBrackets host.disks word len ∨
      word = [] ∧ entry = acAdd ⟨bytes "/", 0⟩ [] (bytes "/") [] := by
  rw [acContext_files context.1, if_pos context.2, List.mem_append] at member
  refine member.imp_right fun path => ?_
  obtain rfl | opened := context.2
  · exact ⟨rfl, List.mem_singleton.mp path⟩
  · rw [opened] at path
    cases path

theorem nothing_for_find {len : Nat} (completes : Completes host cmd offset mode word)
    (search : acSearch host cmd offset = acContext host ⟨mode, word, len⟩) (some : word ≠ [])
    (long : word.length < len) (context : InBrackets mode word) :
    ∀ c ∈ candidates host mode word, ¬c.Extends word := by
  intro c listed extends_
  obtain ⟨entry, found, -⟩ := completes.complete c listed extends_
  have inside := completes.inside entry found
  rw [search] at found
  obtain member | ⟨empty, -⟩ := mem_acContext_brackets context found
  · exact (acBrackets_long host some long member).1 inside
  · exact some empty

theorem all_fit (completes : Completes host cmd offset mode word)
    (search : acSearch host cmd offset = acContext host ⟨mode, word, word.length⟩)
    (context : InBrackets mode word) (plain : ∀ disk ∈ host.disks, PlainName disk) :
    ∀ disk ∈ host.disks, ∀ form ∈ bracketForms disk word,
      form.1.Extends word → form.1.text.length < form.2 := by
  intro disk listed form member extends_
  have listed' : form.1 ∈ candidates host mode word := by
    rw [candidates_files context.1, if_pos context.2]
    exact List.mem_append_left _ (form_candidate listed member)
  obtain ⟨entry, found, completed⟩ := completes.complete form.1 listed' extends_
  have length := completed.length
  rw [search] at found
  have short : word.length + entry.append.str.length < 256 ∧
      (¬bytes "(UUID=" <+: word → ¬bytes "(LABEL=" <+: word →
        word.length + entry.append.str.length < 32) := by
    obtain inside | ⟨rfl, rfl⟩ := mem_acContext_brackets context found
    · exact acBrackets_length inside
    · exact ⟨by decide, fun _ _ => by decide⟩
  obtain large | rfl := (mem_bracketForms member).2
  · -- nothing that is offered gets as long as the array of an id
    omega
  · by_contra long
    have text : (bytes "(" ++ disk.name.str ++ bytes ")").length = disk.name.str.length + 2 := by
      simp only [List.length_append]
      have one : (bytes "(").length = 1 ∧ (bytes ")").length = 1 := ⟨rfl, rfl⟩
      omega
    dsimp only [plainCandidate] at long length
    rw [plain_extends] at extends_
    rw [text] at long length
    -- a longer name could only be offered as an id, which it does not look like
    have uuid (typed : bytes "(UUID=" <+: word) : False := (plain disk listed).1
      (mark_of_brackets extends_ typed (by have mark : (bytes "UUID=").length = 5 := rfl; omega))
    have label (typed : bytes "(LABEL=" <+: word) : False := (plain disk listed).2
      (mark_of_brackets extends_ typed (by have mark : (bytes "LABEL=").length = 6 := rfl; omega))
    have bound := short.2 uuid label
    rw [List.length_nil] at length
    omega

/-- A disk without a name adds an entry to the empty word that nothing stands behind. -/
theorem all_named (completes : Completes host cmd offset mode [])
    (search : acSearch host cmd offset = acContext host ⟨mode, [], 0⟩) (context : InBrackets mode []) :
    ∀ disk ∈ host.disks, disk.name.str ≠ [] := by
  intro disk listed empty
  have stored : bracketField (bytes "(") disk.name = [] := by rw [bracketField, if_pos empty]
  have found : acAdd ⟨bracketField (bytes "(") disk.name, 0⟩ [] (bracketField (bytes "(") disk.name) [] ∈
      acSearch host cmd offset := by
    rw [search, acContext_files context.1, if_pos context.2]
    refine List.mem_append_left _ (List.mem_append_right _ (List.mem_flatMap.mpr ⟨disk, listed, ?_⟩))
    exact List.mem_append_right _ (mem_acAddIf.mpr ⟨by rw [klStrneq], rfl⟩)
  obtain ⟨c, member, completed⟩ := completes.sound _ found
  have length := completed.length
  rw [stored] at length
  have nothing : c.text.length + c.suffix.length = 0 := length.symm
  rw [candidates_files context.1, if_pos context.2, List.mem_append] at member
  obtain inside | root := member
  · exact absurd (bracketCandidates_some inside) (by omega)
  · obtain rfl := List.mem_singleton.mp (show c ∈ [plainCandidate ([] ++ bytes "/") []] from root)
    exact absurd nothing (by decide)

theorem mem_acNode {node : Dirent} {entry : AcEntry}
    (member : entry ∈ acNode host (wordDir word) (wordName word) mode node) :
    ∃ isdir, host.stat (nodePath word node) = some isdir ∧ wordName word <+: node.name.str ∧
      entry = acAdd ⟨node.name.str, (wordName word).length⟩ (if isdir then bytes "/" else []) node.name.str
        (if isdir then bytes "/" else []) := by
  unfold acNode at member
  dsimp only at member
  rw [klStrneq_comm] at member
  by_cases begun : klStrneq node.name.str (wordName word) (wordName word).length = true
  · rw [begun] at member
    by_cases hidden : node.name.str.head? = some 46 ∧ (wordName word).length = 0
    · simp [hidden] at member
    · rw [Bool.not_true, if_neg Bool.false_ne_true, if_neg hidden] at member
      change entry ∈ acStated mode node.name.str (wordName word).length
        (host.stat (nodePath word node)) at member
      cases answer : host.stat (nodePath word node) with
      | none =>
        rw [answer] at member
        cases member
      | some isdir =>
        rw [answer, acStated] at member
        split at member
        · cases member
        · exact ⟨isdir, rfl, (klStrneq_iff _ _).mp begun, List.mem_singleton.mp member⟩
  · rw [Bool.eq_false_iff.mpr begun] at member
    simp at member

/-- An entry of a directory that cannot be examined is not offered. -/
theorem all_examined {len : Nat} (completes : Completes host cmd offset .file word)
    (search : acSearch host cmd offset = acContext host ⟨.file, word, len⟩)
    (closed : bracketClosed word = true) (absolute : (devicePath word).head? = some slash)
    {nodes : List Dirent} (opened : host.opendir (wordDir word) = some nodes) :
    ∀ node ∈ nodes, ¬Hidden word node → (nodeCandidate host word node).Extends word →
      host.stat (nodePath word node) ≠ none := by
  intro node member hidden extends_ answer
  have some : word ≠ [] := by
    rintro rfl
    cases absolute
  have outside : ¬(word = [] ∨ bracketClosed word = false) := by
    rw [closed]
    simpa using some
  have listed : nodeCandidate host word node ∈ candidates host .file word := by
    rw [candidates_files (.inl rfl), if_neg outside, List.nil_append, if_pos closed, pathCandidates,
      if_neg (fun root => by rw [root] at absolute; cases absolute), if_neg (not_not_intro absolute), opened]
    refine List.mem_flatMap.mpr ⟨node, member, ?_⟩
    rw [nodeCandidates, if_neg hidden, if_neg (fun dir => by cases dir.1)]
    exact List.mem_singleton_self _
  obtain ⟨entry, found, completed⟩ := completes.complete _ listed extends_
  rw [search, acContext_files (.inl rfl), if_neg outside, List.nil_append, if_pos closed,
    acPath_directory host word .file absolute, acDirectory, opened] at found
  obtain ⟨node', -, found⟩ := List.mem_flatMap.mp found
  obtain ⟨isdir, answer', begun, rfl⟩ := mem_acNode found
  obtain ⟨c, same, completed'⟩ := (node_yields host word node' isdir answer' begun).offers.sound _
    (List.mem_singleton_self _)
  obtain rfl := List.mem_singleton.mp same
  -- the two candidates are completed by the same text
  have texts : node'.name.str ++ (if isdir then bytes "/" else []) = node.name.str := by
    have both := completed'.symm.trans completed
    simpa [nodeCandidate, plainCandidate, answer, answer'] using both
  cases isdir with
  | true =>
    refine node.no_slash ?_
    rw [← texts]
    exact List.mem_append_right _ (List.mem_singleton_self slash)
  | false =>
    have name : node'.name.str = node.name.str := by simpa using texts
    have path : nodePath word node' = nodePath word node := by rw [nodePath, nodePath, name]
    rw [path, answer] at answer'
    cases answer'

end

theorem completes_completable (host : AcHost) (cmd : Str) (offset : Nat)
    (plain : ∀ disk ∈ host.disks, PlainName disk)
    (completes : Completes host cmd offset (acWord (cmd.take offset)).mode (acWord (cmd.take offset)).argx) :
    Completable host (cmd.take offset) (acWord (cmd.take offset)).mode (acWord (cmd.take offset)).argx := by
  have search : acSearch host cmd offset = acContext host (acWord (cmd.take offset)) := rfl
  have cases := acWord_cases (cmd.take offset)
  generalize cmd.take offset = argbuf at completes search cases ⊢
  generalize acWord argbuf = w at completes search cases ⊢
  obtain ⟨mode, word, len⟩ := w
  dsimp only at completes cases ⊢
  have examined : mode = .file → bracketClosed word = true → (devicePath word).head? = some slash →
      ∀ nodes, host.opendir (wordDir word) = some nodes → ∀ node ∈ nodes, ¬Hidden word node →
        (nodeCandidate host word node).Extends word → host.stat (nodePath word node) ≠ none := by
    rintro rfl closed absolute nodes opened
    exact all_examined completes search closed absolute opened
  have no_command (context : InBrackets mode word) : mode ≠ .none ∧ mode ≠ .cmd := by
    obtain rfl | rfl := context.1 <;> decide
  obtain none | ⟨rfl, other⟩ | ⟨find, -, some, long⟩ := cases
  · have context : ¬InBrackets mode word := fun context => (no_command context).1 none
    exact ⟨fun c => absurd c context, fun c => absurd c context, fun _ c => absurd c context, examined⟩
  · refine ⟨fun context => all_fit completes search context plain, ?_, fun find context => ?_, examined⟩
    · rintro context rfl
      exact all_named completes search context
    · exact absurd find (other (no_command context).2)
  · have nothing := nothing_for_find completes search some long
    refine ⟨fun context disk listed form member extends_ => ?_, fun _ empty => absurd empty some,
      fun _ => nothing, examined⟩
    refine absurd extends_ (nothing context form.1 ?_)
    rw [candidates_files context.1, if_pos context.2]
    exact List.mem_append_left _ (form_candidate listed member)

/-- The completions are right where they can be, for all disks and directories; and, as
long as no name of a disk looks like an id behind its mark, only there. -/
theorem acSearch_completes_iff (host : AcHost) (cmd : Str) (offset : Nat) :
    (Completable host (cmd.take offset) (acWord (cmd.take offset)).mode (acWord (cmd.take offset)).argx →
      Completes host cmd offset (acWord (cmd.take offset)).mode (acWord (cmd.take offset)).argx) ∧
    ((∀ disk ∈ host.disks, PlainName disk) →
      Completes host cmd offset (acWord (cmd.take offset)).mode (acWord (cmd.take offset)).argx →
        Completable host (cmd.take offset) (acWord (cmd.take offset)).mode
          (acWord (cmd.take offset)).argx) :=
  ⟨acSearch_completes host cmd offset, completes_completable host cmd offset⟩

def sampleDisk : KlDisk := { initDisk with name := strlcpy (bytes "sda1") }

/-- One disk, and no directory that can be opened. -/
def oneDiskHost : AcHost where
  disks := [sampleDisk]
  no_nul := fun disk member => by
    obtain rfl := List.mem_singleton.mp member
    exact ⟨by decide, by decide, by decide⟩
  opendir _ := none
  stat _ := none

/-- The device of a kernel is completed. -/
theorem acSearch_kernel : Completes oneDiskHost (bytes "kernel (sd") 10 .file (bytes "(sd") := by
  refine (acSearch_completes_iff oneDiskHost (bytes "kernel (sd") 10).1 ⟨?_, ?_, ?_, ?_⟩
  · decide
  · intro _ empty
    exact absurd empty (by decide)
  · intro find
    exact absurd find (by decide)
  · intro _ closed
    exact absurd closed (by decide)

/-- The device of the directory for find is not. -/
theorem acSearch_find : acSearch oneDiskHost (bytes "find x (sd") 10 = [] ∧
    ¬Completes oneDiskHost (bytes "find x (sd") 10 .dir (bytes "(sd") := by
  have nothing : acSearch oneDiskHost (bytes "find x (sd") 10 = [] := by decide
  refine ⟨nothing, fun completes => ?_⟩
  have listed : plainCandidate (bytes "(sda1)") [] ∈ candidates oneDiskHost .dir (bytes "(sd") := by
    rw [candidates_files (.inr rfl), if_pos (.inr rfl)]
    exact List.mem_append_left _ (form_candidate (List.mem_singleton_self sampleDisk)
      (name_form (bytes "(sd") (by decide)))
  obtain ⟨entry, found, -⟩ := completes.complete _ listed (by decide)
  rw [nothing] at found
  cases found

end KexecLoader
