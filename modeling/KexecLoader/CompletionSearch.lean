import KexecLoader.CompletionCandidates
import KexecLoader.LineEditing

/-!
# The completions that are found

In every context the entries are those candidates that extend the word, in their order.
-/
namespace KexecLoader

/-! ### Comparisons -/

theorem klStrneq_comm (s1 s2 : Str) (n : Nat) : klStrneq s1 s2 n = klStrneq s2 s1 n := by
  induction n generalizing s1 s2 with
  | zero => simp [klStrneq]
  | succ n ih =>
    cases s1 with
    | nil => cases s2 <;> rfl
    | cons a s1 =>
      cases s2 with
      | nil => rfl
      | cons b s2 => rw [klStrneq, klStrneq, ih, Bool.beq_comm]

theorem klStrnceq_map (s1 s2 : Str) (n : Nat) :
    klStrnceq s1 s2 n = klStrneq (s1.map tolower) (s2.map tolower) n := by
  induction n generalizing s1 s2 with
  | zero => simp [klStrnceq, klStrneq]
  | succ n ih =>
    cases s1 with
    | nil => cases s2 <;> rfl
    | cons a s1 =>
      cases s2 with
      | nil => rfl
      | cons b s2 => rw [klStrnceq, ih, List.map_cons, List.map_cons, klStrneq]

/-- Beyond the end of a string the texts are compared as a whole. -/
theorem klStrneq_long {s1 s2 : Str} {n : Nat} (long : s2.length < n) :
    klStrneq s1 s2 n = true ↔ s1 = s2 := by
  induction n generalizing s1 s2 with
  | zero => cases long
  | succ n ih =>
    cases s1 with
    | nil => cases s2 <;> simp [klStrneq]
    | cons a s1 =>
      cases s2 with
      | nil => simp [klStrneq]
      | cons b s2 =>
        rw [klStrneq, Bool.and_eq_true, beq_iff_eq, ih (Nat.lt_of_succ_lt_succ long), List.cons.injEq]

theorem klStrnceq_iff (s1 s2 : Str) :
    klStrnceq s1 s2 s2.length = true ↔ s2.map tolower <+: s1.map tolower := by
  have folded := klStrneq_iff (s1.map tolower) (s2.map tolower)
  rwa [List.length_map, ← klStrnceq_map] at folded

/-! ### Entries -/

theorem acAdd_append {a1 : CharPtr} {a2 : Str} (d1 d2 : Str) (short : (a1.str ++ a2).length < AC_SIZE) :
    (acAdd a1 a2 d1 d2).append.str = a1.str ++ a2 := by
  rw [List.length_append] at short
  simp only [acAdd, strlcat, strlcpy_str]
  rw [List.take_of_length_le (l := a1.str) (by omega), List.take_of_length_le]
  rw [List.length_append]
  omega

/-- The entries are the candidates that extend the word, read from inside of their
strings. -/
structure Yields (word : Str) (entries : List AcEntry) (candidates : List (Candidate UInt8)) : Prop where
  offers : Offers word (entries.map fun entry => entry.append.str) candidates
  inside : ∀ entry ∈ entries, entry.source.Inside

namespace Yields

variable {word : Str} {entries entries' : List AcEntry} {candidates candidates' : List (Candidate UInt8)}

theorem nil : Yields word [] [] := ⟨Offers.nil, List.forall_mem_nil _⟩

theorem append (first : Yields word entries candidates) (last : Yields word entries' candidates') :
    Yields word (entries ++ entries') (candidates ++ candidates') := by
  refine ⟨?_, List.forall_mem_append.mpr ⟨first.inside, last.inside⟩⟩
  rw [List.map_append]
  exact first.offers.append last.offers

theorem flatMap {α : Type} {list : List α} {entries : α → List AcEntry}
    {candidates : α → List (Candidate UInt8)} (each : ∀ x ∈ list, Yields word (entries x) (candidates x)) :
    Yields word (list.flatMap entries) (list.flatMap candidates) := by
  constructor
  · rw [List.map_flatMap]
    exact Offers.flatMap fun x member => (each x member).offers
  · intro entry member
    obtain ⟨x, listed, member⟩ := List.mem_flatMap.mp member
    exact (each x listed).inside entry member

/-- An entry that is only added if the candidate extends the word. -/
theorem single {test : Bool} {c : Candidate UInt8} {a1 : CharPtr} {a2 : Str} (d1 d2 : Str)
    (extends_iff : test = true ↔ c.Extends word) (short : (c.completion word).length < AC_SIZE)
    (same : c.Extends word → a1.str ++ a2 = c.completion word)
    (inside : c.Extends word → a1.Inside) :
    Yields word (acAddIf test (acAdd a1 a2 d1 d2)) [c] := by
  by_cases extends_ : c.Extends word
  · have append : (acAdd a1 a2 d1 d2).append.str = c.completion word := by
      rw [← same extends_]
      exact acAdd_append d1 d2 (by rwa [same extends_])
    rw [acAddIf, if_pos (extends_iff.mpr extends_)]
    refine ⟨?_, List.forall_mem_singleton.mpr (inside extends_)⟩
    show Offers word [(acAdd a1 a2 d1 d2).append.str] [c]
    rw [append]
    exact Offers.single extends_
  · rw [acAddIf, if_neg fun passed => extends_ (extends_iff.mp passed)]
    exact ⟨Offers.none (List.forall_mem_singleton.mpr extends_), List.forall_mem_nil _⟩

/-- A field that is not empty. -/
theorem given {field : Str} {test : Bool} {entry : AcEntry} {c : Candidate UInt8}
    (some : field ≠ [] → Yields word (acAddIf test entry) [c]) :
    Yields word (acAddIf (field ≠ [] && test) entry) (given field c) := by
  unfold KexecLoader.given
  split
  next empty => simpa [empty, acAddIf] using nil
  next full => simpa [full] using some full

end Yields

/-! ### Commands and devices -/

section
variable (word : Str)

theorem plain_extends {text suffix : Str} : (plainCandidate text suffix).Extends word ↔ word <+: text := by
  simp [Candidate.Extends, plainCandidate]

theorem uuid_extends {text : Str} :
    (uuidCandidate text).Extends word ↔ word.map tolower <+: text.map tolower := Iff.rfl

/-- A string that is tested and read with the length of the word. -/
theorem yields_plain {text suffix : Str} (d1 d2 : Str) (short : text.length + suffix.length < AC_SIZE) :
    Yields word (acAddIf (klStrneq text word word.length) (acAdd ⟨text, word.length⟩ suffix d1 d2))
      [plainCandidate text suffix] :=
  .single d1 d2 (by rw [plain_extends, klStrneq_iff]) (Candidate.completion_length_le.trans_lt short) (fun _ => rfl) fun extends_ => extends_.length_le

theorem acCommands_yields :
    Yields word (acCommands word word.length)
      (commandModes.map fun c => plainCandidate c.1 (bytes " ")) := by
  rw [List.map_eq_flatMap]
  refine Yields.flatMap fun c member => yields_plain word c.1 [] ?_
  have short : ∀ c ∈ commandModes, c.1.length + (bytes " ").length < AC_SIZE := by decide
  exact short c member

theorem acMark_yields {mark : Str} (shown : Str) (short : mark.length < AC_SIZE) :
    Yields word (acMark mark shown word word.length) (markCandidate mark word) := by
  unfold markCandidate acMark
  split
  next untyped =>
    refine .single shown [] ?_ (Candidate.completion_length_le.trans_lt short) (fun _ => rfl) fun extends_ => extends_.length_le
    rw [plain_extends, klStrneq_comm, Bool.and_eq_true, klStrneq_iff, decide_eq_true_eq]
    exact and_iff_left untyped
  next typed =>
    rw [show (klStrneq word mark word.length && decide (word.length < mark.length)) = false by simp [typed]]
    exact Yields.nil

end

/-- An id behind a mark that is typed: it is tested and read without the mark. -/
theorem yields_marked {mark rest field : Str} {fold : UInt8 → UInt8} {test : Bool} (d1 d2 : Str)
    (test_iff : test = true ↔ rest.map fold <+: field.map fold)
    (short : mark.length + field.length < AC_SIZE) :
    Yields (mark ++ rest) (acAddIf test (acAdd ⟨field, rest.length⟩ [] d1 d2))
      [⟨mark ++ field, [], fold⟩] := by
  have extends_iff : (⟨mark ++ field, [], fold⟩ : Candidate UInt8).Extends (mark ++ rest) ↔
      rest.map fold <+: field.map fold := by
    rw [Candidate.Extends, List.map_append, List.map_append, List.prefix_append_right_inj]
  refine .single d1 d2 (test_iff.trans extends_iff.symm) (Candidate.completion_length_le.trans_lt ?_)
    (fun _ => ?_) fun extends_ => ?_
  · rw [List.length_append]
    exact short
  · rw [Candidate.completion, List.length_append, List.drop_append, List.drop_eq_nil_of_le (by omega),
      List.nil_append, Nat.add_sub_cancel_left]
    rfl
  · exact (by simpa using (extends_iff.mp extends_).length_le : rest.length ≤ field.length)

theorem acDevices_yields (disks : List KlDisk) (word : Str) :
    Yields word (acDevices disks word word.length) (deviceCandidates disks word) := by
  refine ((acMark_yields word _ (by decide)).append (acMark_yields word _ (by decide))).append
    (Yields.flatMap fun disk _ => ?_)
  have uuid := disk.uuid.fits
  have label := disk.label.fits
  have name := disk.name.fits
  have mark_uuid : klStrneq word (bytes "UUID=") 5 = true ↔ bytes "UUID=" <+: word := klStrneq_iff _ _
  have mark_label : klStrneq word (bytes "LABEL=") 6 = true ↔ bytes "LABEL=" <+: word := klStrneq_iff _ _
  by_cases typed : bytes "UUID=" <+: word
  · rw [if_pos (mark_uuid.mpr typed), if_pos typed]
    obtain ⟨rest, rfl⟩ := typed
    refine Yields.given fun _ => ?_
    exact yields_marked _ _ (klStrnceq_iff _ _) (by simp [bytes, AC_SIZE]; omega)
  rw [if_neg (mt mark_uuid.mp typed), if_neg typed]
  by_cases typed' : bytes "LABEL=" <+: word
  · rw [if_pos (mark_label.mpr typed'), if_pos typed']
    obtain ⟨rest, rfl⟩ := typed'
    refine Yields.given fun _ => ?_
    have test_iff : klStrneq disk.label.str rest rest.length = true ↔
        rest.map id <+: disk.label.str.map id := by simpa using klStrneq_iff disk.label.str rest
    exact yields_marked _ _ test_iff (by simp [bytes, AC_SIZE]; omega)
  · rw [if_neg (mt mark_label.mp typed'), if_neg typed']
    exact yields_plain word _ _ (by simp [AC_SIZE]; omega)

/-! ### Brackets -/

theorem bracketField_cut {size : Nat} {mark : Str} {field : Buf size} (some : field.str ≠ [])
    (no_nul : 0 ∉ field.str) (no_nul' : 0 ∉ mark) :
    bracketField mark field = (mark ++ field.str ++ bytes ")").take (size - 1) := by
  have fits := field.fits
  have holds : (⟨field.str ++ List.replicate (size - field.str.length) 0, []⟩ : Memory).Holds
      ([] ++ field.str) := by
    refine ⟨no_nul, List.replicate (size - field.str.length - 1) 0, ?_⟩
    rw [List.nil_append, ← List.replicate_succ, Nat.sub_one_add_one (by omega)]
  have room : size ≤ (field.str ++ List.replicate (size - field.str.length) (0 : UInt8)).length := by
    rw [List.length_append, List.length_replicate]
    omega
  have string : (klStrins ⟨field.str ++ List.replicate (size - field.str.length) 0, []⟩ mark 0 size).strFrom 0 =
      (mark ++ field.str).take (size - 1) :=
    (klStrins_holds holds mark no_nul' fits room).strFrom_zero
  rw [bracketField, if_neg some]
  dsimp only
  have whole : (mark ++ field.str ++ bytes ")").take (size - 1) =
      (mark ++ field.str).take (size - 1) ++ (bytes ")").take (size - 1 - (mark ++ field.str).length) :=
    List.take_append
  rw [string, List.take_append, List.take_take, Nat.min_self, List.length_take, whole]
  congr 2
  omega

/-- A form that fits in its array if it matters. -/
theorem yields_form {size : Nat} {mark word : Str} {field : Buf size} {fold : UInt8 → UInt8} {test : Bool}
    (d1 d2 : Str) (some : field.str ≠ []) (no_nul : 0 ∉ field.str) (no_nul' : 0 ∉ mark)
    (short : mark.length + size < AC_SIZE)
    (test_iff : test = true ↔ word.map fold <+: (bracketField mark field).map fold)
    (fits : (⟨mark ++ field.str ++ bytes ")", [], fold⟩ : Candidate UInt8).Extends word →
      (mark ++ field.str ++ bytes ")").length < size) :
    Yields word (acAddIf test (acAdd ⟨bracketField mark field, word.length⟩ [] d1 d2))
      [⟨mark ++ field.str ++ bytes ")", [], fold⟩] := by
  have cut := bracketField_cut some no_nul no_nul'
  have whole (extends_ : (⟨mark ++ field.str ++ bytes ")", [], fold⟩ : Candidate UInt8).Extends word) :
      bracketField mark field = mark ++ field.str ++ bytes ")" := by
    have bound := fits extends_
    rw [cut, List.take_of_length_le (by omega)]
  -- a form that is cut is extended by no word, and the cut one by none either
  refine .single d1 d2 (test_iff.trans ⟨fun shown => ?_, fun extends_ => ?_⟩)
    (Candidate.completion_length_le.trans_lt ?_) (fun extends_ => ?_) fun extends_ => ?_
  · rw [cut] at shown
    exact shown.trans ((List.take_prefix _ _).map fold)
  · rw [whole extends_]
    exact extends_
  · have := field.fits
    simp only [List.length_append, List.length_nil]
    have one : (bytes ")").length = 1 := rfl
    omega
  · rw [whole extends_]
    rfl
  · rw [whole extends_]
    exact extends_.length_le

/-- An id behind a mark, which is no candidate before the mark is typed. -/
theorem yields_id {size : Nat} {mark word : Str} {field : Buf size} {fold : UInt8 → UInt8}
    {test : Bool} (d1 d2 : Str) (no_nul : 0 ∉ field.str) (no_nul' : 0 ∉ mark)
    (short : mark.length + size < AC_SIZE) (roomy : 1 < size)
    (test_iff : test = true ↔ word.map fold <+: (bracketField mark field).map fold)
    (fits : mark <+: word → field.str ≠ [] →
      (⟨mark ++ field.str ++ bytes ")", [], fold⟩ : Candidate UInt8).Extends word →
        (mark ++ field.str ++ bytes ")").length < size) :
    Yields word
      (acAddIf (bracketField mark field ≠ [] && klStrneq word mark mark.length && test)
        (acAdd ⟨bracketField mark field, word.length⟩ [] d1 d2))
      (if mark <+: word then given field.str ⟨mark ++ field.str ++ bytes ")", [], fold⟩ else []) := by
  have typed_iff := klStrneq_iff word mark
  by_cases empty : field.str = []
  · have stored : bracketField mark field = [] := by rw [bracketField, if_pos empty]
    rw [stored, given, if_pos empty, ite_self]
    exact Yields.nil
  · have stored : bracketField mark field ≠ [] := by
      rw [bracketField_cut empty no_nul no_nul']
      simp [empty]
      omega
    by_cases typed : mark <+: word
    · simp only [stored, typed_iff.mpr typed, ne_eq, not_false_eq_true, decide_true, Bool.true_and,
        if_pos typed, given, if_neg empty]
      exact yields_form d1 d2 empty no_nul no_nul' short test_iff (fits typed empty)
    · have untyped : klStrneq word mark mark.length = false :=
        Bool.eq_false_iff.mpr (mt typed_iff.mp typed)
      rw [untyped, if_neg typed, Bool.and_false, Bool.false_and]
      exact Yields.nil

theorem given_map {α β : Type} (f : α → β) (field : Str) (x : α) :
    (given field x).map f = given field (f x) := by
  unfold given
  split <;> rfl

/-- What `bracketForms` says about a disk, form by form. -/
theorem bracketForms_map (disk : KlDisk) (word : Str) :
    (bracketForms disk word).map Prod.fst =
      (if bytes "(UUID=" <+: word then
        given disk.uuid.str (uuidCandidate (bytes "(UUID=" ++ disk.uuid.str ++ bytes ")")) else []) ++
      (if bytes "(LABEL=" <+: word then
        given disk.label.str (plainCandidate (bytes "(LABEL=" ++ disk.label.str ++ bytes ")") [])
        else []) ++
      given disk.name.str (plainCandidate (bytes "(" ++ disk.name.str ++ bytes ")") []) := by
  simp only [bracketForms, List.map_append, apply_ite (List.map _), given_map, List.map_nil]

theorem acBrackets_yields (host : AcHost) (word : Str)
    (fits : ∀ disk ∈ host.disks, ∀ form ∈ bracketForms disk word,
      form.1.Extends word → form.1.text.length < form.2)
    (named : word = [] → ∀ disk ∈ host.disks, disk.name.str ≠ []) :
    Yields word (acBrackets host.disks word word.length) (bracketCandidates host.disks word) := by
  refine ((acMark_yields word _ (by decide)).append (acMark_yields word _ (by decide))).append
    (Yields.flatMap fun disk member => ?_)
  have fits := fits disk member
  have no_nul := host.no_nul disk member
  rw [bracketForms_map]
  have uuid_fits (typed : bytes "(UUID=" <+: word) (full : disk.uuid.str ≠ []) :=
    fits _ (uuid_form full typed)
  have label_fits (typed : bytes "(LABEL=" <+: word) (full : disk.label.str ≠ []) :=
    fits _ (label_form full typed)
  have name_fits (full : disk.name.str ≠ []) := fits _ (name_form word full)
  refine ((yields_id _ _ no_nul.uuid (by decide) (by decide) (by decide) (klStrnceq_iff _ _) uuid_fits).append
    (yields_id _ _ no_nul.label (by decide) (by decide) (by decide) ?_ label_fits)).append ?_
  · simpa using klStrneq_iff (bracketField (bytes "(LABEL=") disk.label) word
  · have test_iff := klStrneq_iff (bracketField (bytes "(") disk.name) word
    by_cases empty : disk.name.str = []
    · -- nothing extends an empty form but the empty word
      have stored : bracketField (bytes "(") disk.name = [] := by rw [bracketField, if_pos empty]
      have other : klStrneq (bracketField (bytes "(") disk.name) word word.length = false := by
        rw [Bool.eq_false_iff, ne_eq, test_iff, stored, List.prefix_nil]
        exact fun none => named none disk member empty
      rw [other, given, if_pos empty]
      exact Yields.nil
    · rw [given, if_neg empty]
      exact yields_form _ _ empty no_nul.name (by decide) (by decide) (by simpa using test_iff)
        (name_fits empty)

/-! ### Paths -/

theorem wordDir_slash (front : Str) {name : Str} (no_slash : slash ∉ name) :
    wordDir (front ++ slash :: name) = front ++ [slash] := by
  have others : ∀ c ∈ name.reverse, decide (c ≠ slash) = true := by
    intro c member
    exact decide_eq_true fun same => no_slash (same ▸ List.mem_reverse.mp member)
  rw [wordDir, List.rdropWhile, List.reverse_append, List.reverse_cons, List.append_assoc,
    List.dropWhile_append_of_pos others]
  simp

theorem wordName_slash (front : Str) {name : Str} (no_slash : slash ∉ name) :
    wordName (front ++ slash :: name) = name := by
  have whole : wordDir (front ++ slash :: name) ++ wordName (front ++ slash :: name) =
      front ++ slash :: name := List.rdropWhile_append_rtakeWhile
  rw [wordDir_slash front no_slash, List.append_assoc, List.append_cancel_left_eq] at whole
  exact (List.cons.inj whole).2

theorem devicePath_suffix (word : Str) : devicePath word <:+ word := by
  unfold devicePath
  split
  next =>
    refine (List.drop_suffix 1 _).trans ?_
    unfold strchr
    have rest := List.dropWhile_suffix (l := word) (fun c => decide (c ≠ 41))
    split
    next => exact List.nil_suffix
    next => exact rest
  next => exact List.suffix_rfl

/-- The directory that is opened, and what a name in it has to begin with. -/
theorem acPath_directory (host : AcHost) (word : Str) (mode : AcMode)
    (absolute : (devicePath word).head? = some slash) :
    acPath host word mode = acDirectory host (wordDir word) (wordName word) mode := by
  obtain ⟨before, whole⟩ := devicePath_suffix word
  have member : slash ∈ devicePath word := List.mem_of_mem_head? absolute
  obtain ⟨front, name, path, no_slash⟩ := split_at_last member
  have word_eq : word = (before ++ front) ++ slash :: name := by
    rw [← whole, path, List.append_assoc]
  have dir : wordDir word = before ++ front ++ [slash] := word_eq ▸ wordDir_slash _ no_slash
  have part : wordName word = name := word_eq ▸ wordName_slash _ no_slash
  have some : devicePath word ≠ [] := List.ne_nil_of_mem member
  -- the last slash of the word is that of its path, whether something stands behind it or not
  have ends : (if (devicePath word).getLast? = Option.some slash then
      (word, (devicePath word).drop (devicePath word).length)
    else (word.take ((strrchr word slash).getD 0 + 1),
      (devicePath word).drop ((strrchr (devicePath word) slash).getD 0 + 1))) =
      (wordDir word, wordName word) := by
    rw [dir, part]
    cases name with
    | nil =>
      rw [if_pos (by rw [path]; exact List.getLast?_concat), List.drop_length, word_eq]
    | cons c rest =>
      have last : (devicePath word).getLast? ≠ Option.some slash := by
        rw [path, List.getLast?_append_cons, List.getLast?_cons_cons]
        exact fun found => no_slash (List.mem_of_getLast? found)
      have front_slash (s : Str) : (s ++ slash :: c :: rest).take (s.length + 1) = s ++ [slash] := by
        rw [List.append_cons, List.take_left' (by simp)]
      rw [if_neg last, path, strrchr_append _ _ _ no_slash, word_eq, strrchr_append _ _ _ no_slash,
        Option.getD_some, front_slash]
      simp
  unfold acPath
  dsimp only
  rw [if_neg some, if_neg (not_not_intro absolute), ends]

theorem word_parts (word : Str) : wordDir word ++ wordName word = word :=
  List.rdropWhile_append_rtakeWhile

theorem nodeCandidate_extends (host : AcHost) (word : Str) (node : Dirent) :
    (nodeCandidate host word node).Extends word ↔ wordName word <+: node.name.str := by
  have inj : wordDir word ++ wordName word <+: wordDir word ++ node.name.str ↔
      wordName word <+: node.name.str := List.prefix_append_right_inj _
  rw [word_parts] at inj
  exact (plain_extends word).trans inj

theorem node_yields (host : AcHost) (word : Str) (node : Dirent) (isdir : Bool)
    (answer : host.stat (nodePath word node) = some isdir) (begun : wordName word <+: node.name.str) :
    Yields word
      [acAdd ⟨node.name.str, (wordName word).length⟩ (if isdir then bytes "/" else []) node.name.str
        (if isdir then bytes "/" else [])]
      [nodeCandidate host word node] := by
  have missing : (nodeCandidate host word node).completion word =
      node.name.str.drop (wordName word).length ++ if isdir then bytes "/" else [] := by
    have parts := congrArg List.length (word_parts word)
    rw [List.length_append] at parts
    have dropped : (wordDir word ++ node.name.str).drop word.length =
        node.name.str.drop (wordName word).length := by
      rw [← parts, List.drop_append, List.drop_eq_nil_of_le (by omega), List.nil_append,
        Nat.add_sub_cancel_left]
    cases isdir <;> simp [nodeCandidate, plainCandidate, Candidate.completion, answer, dropped]
  change Yields word (acAddIf true (acAdd _ _ _ _)) _
  refine Yields.single _ _ ?_ ?_ (fun _ => missing.symm) fun _ => begun.length_le
  · exact iff_of_true rfl ((nodeCandidate_extends host word node).mpr begun)
  · have fits := node.name.fits
    rw [missing, List.length_append, List.length_drop]
    have one : (if isdir then bytes "/" else []).length ≤ 1 := by cases isdir <;> decide
    simp only [AC_SIZE]
    omega

theorem acNode_yields (host : AcHost) (word : Str) (mode : AcMode) (files : mode = .file ∨ mode = .dir)
    (node : Dirent) (examined : mode = .file → ¬Hidden word node →
      (nodeCandidate host word node).Extends word → host.stat (nodePath word node) ≠ none) :
    Yields word (acNode host (wordDir word) (wordName word) mode node) (nodeCandidates host word mode node) := by
  have test_iff := klStrneq_iff node.name.str (wordName word)
  have extends_iff := nodeCandidate_extends host word node
  have hidden_iff : node.name.str.head? = some 46 ∧ (wordName word).length = 0 ↔ Hidden word node := by
    rw [List.length_eq_zero_iff, Hidden]
  unfold acNode nodeCandidates
  dsimp only
  rw [klStrneq_comm, if_congr hidden_iff rfl rfl]
  by_cases begun : wordName word <+: node.name.str
  · rw [test_iff.mpr begun]
    by_cases hidden : Hidden word node
    · simp only [if_pos hidden, Bool.not_true, Bool.false_eq_true, if_false]
      exact Yields.nil
    simp only [if_neg hidden, Bool.not_true, Bool.false_eq_true, if_false]
    change Yields word (acStated mode node.name.str (wordName word).length
      (host.stat (nodePath word node))) _
    cases answer : host.stat (nodePath word node) with
    | none =>
      -- such an entry is no candidate where only directories are
      obtain file | dir := files
      · exact absurd answer (examined file hidden (extends_iff.mpr begun))
      · rw [if_pos ⟨dir, by simp⟩]
        exact Yields.nil
    | some isdir =>
      by_cases skipped : mode = .dir ∧ isdir = false
      · rw [if_pos ⟨skipped.1, by simp [skipped.2]⟩]
        rw [acStated, if_pos ⟨by rw [skipped.2]; rfl, skipped.1⟩]
        exact Yields.nil
      · have kept : ¬(mode = .dir ∧ some isdir ≠ some true) := by simpa using skipped
        have kept' : ¬((!isdir) = true ∧ mode = .dir) := by simpa [and_comm] using skipped
        rw [if_neg kept, acStated, if_neg kept']
        exact node_yields host word node isdir answer begun
  · rw [Bool.eq_false_iff.mpr (mt test_iff.mp begun)]
    refine ⟨Offers.none fun c member => ?_, List.forall_mem_nil _⟩
    split at member
    · cases member
    split at member
    · cases member
    · obtain rfl := List.mem_singleton.mp member
      rwa [extends_iff]

theorem acPath_yields (host : AcHost) (word : Str) (mode : AcMode) (files : mode = .file ∨ mode = .dir)
    (examined : mode = .file → (devicePath word).head? = some slash → ∀ nodes,
      host.opendir (wordDir word) = some nodes → ∀ node ∈ nodes, ¬Hidden word node →
        (nodeCandidate host word node).Extends word → host.stat (nodePath word node) ≠ none) :
    Yields word (acPath host word mode) (pathCandidates host word mode) := by
  unfold pathCandidates
  by_cases root : devicePath word = []
  · rw [if_pos root, acPath, if_pos root]
    change Yields word (acAddIf true (acAdd ⟨bytes "/", 0⟩ [] _ _)) _
    have missing : (plainCandidate (word ++ bytes "/") []).completion word = bytes "/" := by
      rw [Candidate.completion, plainCandidate, List.drop_left, List.append_nil]
    refine Yields.single _ _ (iff_of_true rfl ?_) (by rw [missing]; decide) (fun _ => missing.symm)
      fun _ => Nat.zero_le _
    exact (plain_extends word).mpr (List.prefix_append _ _)
  rw [if_neg root]
  by_cases absolute : (devicePath word).head? = some slash
  · rw [if_neg (not_not_intro absolute), acPath_directory host word mode absolute, acDirectory]
    cases opened : host.opendir (wordDir word) with
    | none => exact Yields.nil
    | some nodes =>
      exact Yields.flatMap fun node member => acNode_yields host word mode files node
        fun file => examined file absolute nodes opened node member
  · rw [if_pos absolute, acPath, if_neg root, if_pos absolute]
    exact Yields.nil

end KexecLoader
