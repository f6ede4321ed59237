import KexecLoader.CompletionSearch

/-!
# Completion in every context

The length of the word is that of the word which is completed, except for find: there it
is the length of both arguments, which no form in brackets can pass a comparison with
unless it is the word itself, and is then read from behind its end.
-/
namespace KexecLoader

theorem nextValue_lt {ptr : Str} (some : (nextValue ptr).2 ≠ []) :
    (nextValue ptr).2.length < ptr.length := by
  unfold nextValue at some ⊢
  dsimp only at some ⊢
  split at some
  next => exact absurd rfl some
  next c rest behind =>
    have length := congrArg List.length behind
    rw [List.length_drop, List.length_cons] at length
    simp only [List.length_drop]
    omega

/-- The length is that of the word, but for find. -/
theorem acWord_cases (argbuf : Str) :
    (acWord argbuf).mode = .none ∨ (acWord argbuf).len = (acWord argbuf).argx.length ∧
        ((acWord argbuf).mode ≠ .cmd → ¬isFind argbuf) ∨
      isFind argbuf ∧ (acWord argbuf).mode = .dir ∧ (acWord argbuf).argx ≠ [] ∧
        (acWord argbuf).argx.length < (acWord argbuf).len := by
  unfold acWord isFind
  dsimp only
  cases strchr (argbuf.drop (strspn argbuf [space])) space with
  | none => exact .inr (.inl ⟨rfl, fun other => absurd rfl other⟩)
  | some _ =>
    dsimp only
    by_cases find : (nextValue (argbuf.drop (strspn argbuf [space]))).1 = bytes "find"
    · rw [find]
      have streq : klStreq (bytes "find") (bytes "find") = true := by decide
      rw [if_pos streq]
      by_cases empty : (nextValue (nextValue (argbuf.drop (strspn argbuf [space]))).2).2 = []
      · exact .inl (if_pos empty)
      · refine .inr (.inr ⟨rfl, ?_, empty, nextValue_lt empty⟩)
        have mode : commandModes.foldl
            (fun mode c => if klStreq c.1 (bytes "find") then c.2 else mode) .none = .dir := by decide
        rw [if_neg empty]
        exact mode
    · have streq : ¬klStreq (nextValue (argbuf.drop (strspn argbuf [space]))).1 (bytes "find") = true :=
        mt (klStreq_iff _ _).mp find
      rw [if_neg streq]
      exact .inr (.inl ⟨rfl, fun _ => find⟩)

/-! ### find -/

theorem bracketField_prefix {size : Nat} (mark : Str) (field : Buf size) (no_nul : 0 ∉ field.str)
    (no_nul' : 0 ∉ mark) (some : bracketField mark field ≠ []) :
    field.str ≠ [] ∧ bracketField mark field <+: mark ++ field.str ++ bytes ")" := by
  have full : field.str ≠ [] := fun empty => some (by rw [bracketField, if_pos empty])
  refine ⟨full, ?_⟩
  rw [bracketField_cut full no_nul no_nul']
  exact List.take_prefix _ _

theorem acMark_long {mark argx : Str} (shown : Str) {len : Nat} (long : argx.length < len) :
    acMark mark shown argx len = [] := by
  have other : (klStrneq argx mark len && decide (len < mark.length)) = false := by
    by_contra passed
    rw [Bool.not_eq_false, Bool.and_eq_true, klStrneq_comm, klStrneq_long long, decide_eq_true_eq] at passed
    obtain ⟨rfl, short⟩ := passed
    omega
  rw [acMark, other]
  rfl

theorem mem_acAddIf {test : Bool} {e entry : AcEntry} :
    entry ∈ acAddIf test e ↔ test = true ∧ entry = e := by
  unfold acAddIf
  cases test <;> simp

/-- What find is offered in brackets is read from behind its end, and extends the word. -/
theorem acBrackets_long (host : AcHost) {argx : Str} {len : Nat} (some : argx ≠ [])
    (long : argx.length < len) {entry : AcEntry} (member : entry ∈ acBrackets host.disks argx len) :
    ¬entry.source.Inside ∧ ∃ c ∈ bracketCandidates host.disks argx, c.Extends argx := by
  rw [acBrackets, acMark_long _ long, acMark_long _ long, List.append_nil, List.nil_append,
    List.mem_flatMap] at member
  obtain ⟨disk, listed, member⟩ := member
  have no_nul := host.no_nul disk listed
  simp only [List.mem_append, mem_acAddIf, Bool.and_eq_true, decide_eq_true_eq] at member
  have outside {stored : Str} (length : stored.length = argx.length) : ¬(⟨stored, len⟩ : CharPtr).Inside := by
    intro inside
    have bound : len ≤ stored.length := inside
    omega
  obtain (⟨⟨⟨stored, typed⟩, same⟩, rfl⟩ | ⟨⟨⟨stored, typed⟩, same⟩, rfl⟩) | ⟨same, rfl⟩ := member
  -- a comparison beyond the end of the word is passed by the word itself
  · rw [klStrnceq_map, klStrneq_long (by simpa using long)] at same
    obtain ⟨full, front⟩ := bracketField_prefix _ _ no_nul.uuid (by decide) stored
    have typed' : bytes "(UUID=" <+: argx := (klStrneq_iff argx (bytes "(UUID=")).mp typed
    refine ⟨outside (by simpa using congrArg List.length same), _,
      form_candidate listed (uuid_form full typed'), ?_⟩
    rw [uuid_extends, ← same]
    exact front.map tolower
  · rw [klStrneq_long long] at same
    obtain ⟨full, front⟩ := bracketField_prefix _ _ no_nul.label (by decide) stored
    have typed' : bytes "(LABEL=" <+: argx := (klStrneq_iff argx (bytes "(LABEL=")).mp typed
    refine ⟨outside (congrArg List.length same), _, form_candidate listed (label_form full typed'), ?_⟩
    rw [plain_extends, ← same]
    exact front
  · rw [klStrneq_long long] at same
    obtain ⟨full, front⟩ := bracketField_prefix _ _ no_nul.name (by decide) (same.trans_ne some)
    refine ⟨outside (congrArg List.length same), _, form_candidate listed (name_form _ full), ?_⟩
    rw [plain_extends, ← same]
    exact front

/-! ### The contexts -/

section
variable {host : AcHost} {mode : AcMode} {word : Str} {len : Nat}

theorem acContext_files (files : mode = .file ∨ mode = .dir) :
    acContext host ⟨mode, word, len⟩ =
      (if word = [] ∨ bracketClosed word = false then acBrackets host.disks word len else []) ++
        (if bracketClosed word then acPath host word mode else []) := by
  obtain rfl | rfl := files <;> rfl

theorem candidates_files (files : mode = .file ∨ mode = .dir) :
    candidates host mode word =
      (if word = [] ∨ bracketClosed word = false then bracketCandidates host.disks word else []) ++
        (if bracketClosed word then pathCandidates host word mode else []) := by
  have context : InBrackets mode word ↔ word = [] ∨ bracketClosed word = false := and_iff_right files
  rw [← if_congr context rfl rfl]
  obtain rfl | rfl := files <;> rfl

theorem acContext_yields (argbuf : Str) (fine : Completable host argbuf mode word)
    (cases : mode = .none ∨ len = word.length ∧ (mode ≠ .cmd → ¬isFind argbuf) ∨
      isFind argbuf ∧ mode = .dir ∧ word ≠ [] ∧ word.length < len) :
    Yields word (acContext host ⟨mode, word, len⟩) (candidates host mode word) := by
  have path (files : mode = .file ∨ mode = .dir) :
      Yields word (if bracketClosed word then acPath host word mode else [])
        (if bracketClosed word then pathCandidates host word mode else []) := by
    by_cases closed : bracketClosed word = true
    · rw [if_pos closed, if_pos closed]
      exact acPath_yields host word mode files fun file => fine.examined file closed
    · rw [if_neg closed, if_neg closed]
      exact Yields.nil
  have brackets (files : mode = .file ∨ mode = .dir) :
      Yields word (if word = [] ∨ bracketClosed word = false then acBrackets host.disks word word.length else [])
        (if word = [] ∨ bracketClosed word = false then bracketCandidates host.disks word else []) := by
    by_cases open_ : word = [] ∨ bracketClosed word = false
    · rw [if_pos open_, if_pos open_]
      exact acBrackets_yields host word (fine.fits ⟨files, open_⟩) (fine.named ⟨files, open_⟩)
    · rw [if_neg open_, if_neg open_]
      exact Yields.nil
  obtain rfl | ⟨rfl, -⟩ | ⟨find, dir, some, long⟩ := cases
  · exact Yields.nil
  · cases mode with
    | none => exact Yields.nil
    | cmd => exact acCommands_yields word
    | dev => exact acDevices_yields host.disks word
    | file =>
      rw [acContext_files (.inl rfl), candidates_files (.inl rfl)]
      exact (brackets (.inl rfl)).append (path (.inl rfl))
    | dir =>
      rw [acContext_files (.inr rfl), candidates_files (.inr rfl)]
      exact (brackets (.inr rfl)).append (path (.inr rfl))
  · rw [acContext_files (.inr dir), candidates_files (.inr dir)]
    refine Yields.append ?_ (path (.inr dir))
    by_cases open_ : word = [] ∨ bracketClosed word = false
    · have others := fine.find find ⟨.inr dir, open_⟩
      rw [candidates_files (.inr dir), if_pos open_] at others
      have others := (List.forall_mem_append.mp others).1
      rw [if_pos open_, if_pos open_]
      -- no entry passes a comparison, or a candidate would extend the word
      have nothing : acBrackets host.disks word len = [] := by
        refine List.eq_nil_iff_forall_not_mem.mpr fun entry member => ?_
        obtain ⟨-, c, listed, extends_⟩ := acBrackets_long host some long member
        exact others c listed extends_
      rw [nothing]
      exact ⟨Offers.none others, List.forall_mem_nil _⟩
    · rw [if_neg open_, if_neg open_]
      exact Yields.nil

end

theorem acSearch_completes (host : AcHost) (cmd : Str) (offset : Nat)
    (fine : Completable host (cmd.take offset) (acWord (cmd.take offset)).mode
      (acWord (cmd.take offset)).argx) :
    Completes host cmd offset (acWord (cmd.take offset)).mode (acWord (cmd.take offset)).argx := by
  have yields : Yields _ (acSearch host cmd offset) _ :=
    acContext_yields (cmd.take offset) fine (acWord_cases (cmd.take offset))
  refine ⟨fun entry member => ?_, fun c listed extends_ => ?_, yields.inside⟩
  · exact yields.offers.sound _ (List.mem_map_of_mem member)
  · obtain ⟨text, member, completed⟩ := yields.offers.complete c listed extends_
    obtain ⟨entry, found, rfl⟩ := List.mem_map.mp member
    exact ⟨entry, found, completed⟩

end KexecLoader
