import KexecLoader.Modprobe
import KexecLoader.TableReads

/-!
# Which module files do no harm before the kernel sees them

The scan goes from one string of `.modinfo` to the next up to the one with the
dependencies, and copies their names into a buffer of 256 bytes.
-/
namespace KexecLoader

/-- The strings that the scan gets to, from an address on. -/
inductive Visited (m : Mapping) (stop : Nat) : Nat → Nat → Prop
  | here {sec : Nat} (some_section : sec ≠ 0) (below : sec < stop) : Visited m stop sec sec
  | later {sec q : Nat} (some_section : sec ≠ 0) (below : sec < stop)
      (other : ¬ bytes "depends=" <+: m.rest sec)
      (rest : Visited m stop ((sec + (cstr (m.rest sec)).length + 1) % 2 ^ 32) q) :
      Visited m stop sec q

/-- The text behind `depends=`. -/
def dependencies (m : Mapping) (q : Nat) : Str := cstr ((m.rest q).drop 8)

/-- The string ends in the file, and the names of dependencies fit into `dep`. -/
structure EntrySound (m : Mapping) (q : Nat) : Prop where
  terminated : 0 ∈ m.rest q
  names : bytes "depends=" <+: m.rest q →
    ∀ dep ∈ depNames (dependencies m q).length (dependencies m q), dep.length < 256

/-! ### The names of the dependencies -/

/-- A round of the loop over the names in front of a terminator. -/
theorem scanDeps_name (loads : Nat → Bool) {fuel n : Nat} {names t : Str} (some_name : names ≠ [])
    (no_nul : 0 ∉ names) :
    scanDeps loads (fuel + 1) n (names ++ 0 :: t) =
      if 256 ≤ strcspn names [44] then .error .overflow
      else if loads n then
        (scanDeps loads fuel (n + 1) (names.drop (strcspn names [44] + 1) ++ 0 :: t)).map
          fun (deps, loaded) => (names.take (strcspn names [44]) :: deps, loaded)
      else .ok ([names.take (strcspn names [44])], false) := by
  have text : cstr (names ++ 0 :: t) = names := by
    rw [cstr_append _ no_nul, cstr_nul, List.append_nil]
  have inside := strcspn_le names [44]
  have taken : (names ++ 0 :: t).take (strcspn names [44]) = names.take (strcspn names [44]) :=
    List.take_append_of_le_length inside
  -- the end of the text is not stepped over
  have behind : (if ((names ++ 0 :: t).drop (strcspn names [44])).head? = some 0 then
      (names ++ 0 :: t).drop (strcspn names [44])
      else ((names ++ 0 :: t).drop (strcspn names [44])).drop 1) =
        names.drop (strcspn names [44] + 1) ++ 0 :: t := by
    rw [List.drop_append_of_le_length inside, ← List.drop_drop]
    cases later : names.drop (strcspn names [44]) with
    | nil => simp
    | cons c tail =>
      have not_zero : c ≠ 0 := fun zero => no_nul (List.mem_of_mem_drop (i := strcspn names [44])
        (by rw [later, zero]; exact List.mem_cons_self))
      simp [not_zero]
  obtain ⟨c, tail, split⟩ := List.exists_cons_of_ne_nil some_name
  have not_zero : c ≠ 0 := fun zero => no_nul (by rw [split, zero]; exact List.mem_cons_self)
  have nul : 0 ∈ names ++ 0 :: t := by simp
  have nonempty : names ++ 0 :: t = c :: (tail ++ 0 :: t) := by rw [split, List.cons_append]
  rw [← behind, ← taken]
  generalize names ++ 0 :: t = sec at text nul nonempty ⊢
  subst nonempty
  simp only [scanDeps, if_neg not_zero, not_not.mpr nul, if_false, text]

theorem length_behind_name {names : Str} (some_name : names ≠ []) :
    (names.drop (strcspn names [44] + 1)).length < names.length := by
  have pos := List.length_pos_iff.mpr some_name
  rw [List.length_drop]
  omega

theorem depNames_step {k : Nat} {names : Str} (some_name : names ≠ []) (enough : names.length ≤ k) :
    ∃ k', (names.drop (strcspn names [44] + 1)).length ≤ k' ∧ depNames k names =
      names.take (strcspn names [44]) :: depNames k' (names.drop (strcspn names [44] + 1)) := by
  have shorter := length_behind_name some_name
  obtain ⟨k, rfl⟩ := Nat.exists_eq_succ_of_ne_zero (show k ≠ 0 by omega)
  exact ⟨k, by omega, if_neg some_name⟩

/-- A list of names that all fit into the buffer is gone through to its end, or to the
first that is not loaded. -/
theorem scanDeps_ok (loads : Nat → Bool) {fuel k n : Nat} {names t : Str} (no_nul : 0 ∉ names)
    (enough : names.length ≤ k) (rounds : names.length < fuel)
    (short : ∀ dep ∈ depNames k names, dep.length < 256) :
    ∃ finish, scanDeps loads fuel n (names ++ 0 :: t) = .ok finish := by
  induction fuel generalizing k n names with
  | zero => omega
  | succ fuel ih =>
    by_cases empty : names = []
    · exact ⟨_, by rw [empty]; rfl⟩
    · obtain ⟨k', enough', step⟩ := depNames_step empty enough
      have shorter := length_behind_name empty
      rw [step, List.forall_mem_cons] at short
      have fits : ¬ 256 ≤ strcspn names [44] := by
        have inside := strcspn_le names [44]
        have first := short.1
        rw [List.length_take] at first
        omega
      rw [scanDeps_name loads empty no_nul, if_neg fits]
      cases loads n with
      | false => exact ⟨_, rfl⟩
      | true =>
        have no_nul' : 0 ∉ names.drop (strcspn names [44] + 1) :=
          fun member => no_nul (List.mem_of_mem_drop member)
        obtain ⟨finish, rest⟩ := ih (n := n + 1) no_nul' enough' (by omega) short.2
        exact ⟨_, by rw [if_pos rfl, rest]; rfl⟩

/-- When every dependency can be loaded, the names are all copied. -/
theorem scanDeps_copies {fuel k n : Nat} {names t : Str} (no_nul : 0 ∉ names)
    (enough : names.length ≤ k) {finish : List Str × Bool}
    (ends : scanDeps (fun _ => true) fuel n (names ++ 0 :: t) = .ok finish) :
    finish = (depNames k names, true) ∧ ∀ dep ∈ depNames k names, dep.length < 256 := by
  induction fuel generalizing k n names finish with
  | zero => cases ends
  | succ fuel ih =>
    by_cases empty : names = []
    · subst empty
      cases ends
      cases k <;> exact ⟨rfl, by simp [depNames]⟩
    · obtain ⟨k', enough', step⟩ := depNames_step empty enough
      rw [scanDeps_name _ empty no_nul, if_pos rfl] at ends
      by_cases fits : 256 ≤ strcspn names [44]
      · rw [if_pos fits] at ends
        cases ends
      · rw [if_neg fits] at ends
        cases rest : scanDeps (fun _ => true) fuel (n + 1)
          (names.drop (strcspn names [44] + 1) ++ 0 :: t) with
        | error fault =>
          rw [rest] at ends
          cases ends
        | ok last =>
          obtain ⟨rfl, later⟩ := ih (fun member => no_nul (List.mem_of_mem_drop member)) enough' rest
          rw [rest] at ends
          cases ends
          rw [step, List.forall_mem_cons, List.length_take]
          exact ⟨rfl, by omega, later⟩

theorem scanDeps_unterminated (loads : Nat → Bool) {fuel n : Nat} {sec : Str} (no_nul : 0 ∉ sec) :
    scanDeps loads (fuel + 1) n sec = .error .outside := by
  cases sec with
  | nil => rfl
  | cons c sec =>
    have not_zero : c ≠ 0 := fun zero => no_nul (zero ▸ List.mem_cons_self)
    simp only [scanDeps, if_neg not_zero, if_pos no_nul]

/-- Each round takes a byte at least. -/
theorem scanDeps_ends (loads : Nat → Bool) {fuel n : Nat} {names t : Str} (no_nul : 0 ∉ names)
    (rounds : names.length < fuel) : scanDeps loads fuel n (names ++ 0 :: t) ≠ .error .endless := by
  induction fuel generalizing n names with
  | zero => omega
  | succ fuel ih =>
    by_cases empty : names = []
    · rw [empty, List.nil_append, scanDeps, if_pos rfl]
      simp
    · have shorter := length_behind_name empty
      have rest : scanDeps loads fuel (n + 1) (names.drop (strcspn names [44] + 1) ++ 0 :: t) ≠
          .error .endless := ih (fun member => no_nul (List.mem_of_mem_drop member)) (by omega)
      rw [scanDeps_name loads empty no_nul]
      split_ifs
      · simp
      · cases later : scanDeps loads fuel (n + 1) (names.drop (strcspn names [44] + 1) ++ 0 :: t) with
        | error fault =>
          rw [later] at rest
          simpa [Except.map] using rest
        | ok finish => simp [Except.map]
      · simp

/-! ### The strings of the section -/

section
variable {m : Mapping} {stop sec fuel : Nat}

/-- A string that ends in the file is looked at, or passed over. -/
theorem scanModinfo_string (loads : Nat → Bool) (go : ¬ (sec = 0 ∨ stop ≤ sec))
    (nul : 0 ∈ m.rest sec) : scanModinfo m loads stop (fuel + 1) sec =
      if bytes "depends=" <+: m.rest sec then
        scanDeps loads (m.content.length + 1) 0 ((m.rest sec).drop 8)
      else scanModinfo m loads stop fuel ((sec + (cstr (m.rest sec)).length + 1) % 2 ^ 32) := by
  have inside : ¬ m.rest sec <+: bytes "depends=" := fun short =>
    absurd (short.subset nul) (by decide)
  have compared := @strneqIn_eq (m.rest sec) (bytes "depends=") (by decide)
  rw [if_neg inside, show (bytes "depends=").length = 8 from rfl] at compared
  rw [scanModinfo, if_neg go, compared, strlenIn, if_pos nul]
  by_cases depends : bytes "depends=" <+: m.rest sec
  · have behind := m.rest_add (List.ne_nil_of_mem nul) depends.length_le
    simp only [depends, decide_true, if_true]
    exact congrArg _ behind
  · simp only [depends, decide_false, if_false]

theorem scanModinfo_unterminated (loads : Nat → Bool) (go : ¬ (sec = 0 ∨ stop ≤ sec))
    (no_nul : 0 ∉ m.rest sec) : scanModinfo m loads stop (fuel + 1) sec = .error .outside := by
  have compared := @strneqIn_eq (m.rest sec) (bytes "depends=") (by decide)
  rw [show (bytes "depends=").length = 8 from rfl] at compared
  rw [scanModinfo, if_neg go, compared, strlenIn, if_neg no_nul]
  by_cases short : m.rest sec <+: bytes "depends="
  · simp [short]
  · have some_byte : m.rest sec ≠ [] := fun empty => short (empty ▸ List.nil_prefix)
    by_cases depends : bytes "depends=" <+: m.rest sec
    · have behind : m.rest (sec + 8) = (m.rest sec).drop 8 := m.rest_add some_byte depends.length_le
      simp only [short, depends, decide_true, if_false, behind]
      exact scanDeps_unterminated loads fun member => no_nul (List.mem_of_mem_drop member)
    · simp [short, depends]

theorem scanModinfo_terminated (loads : Nat → Bool) (go : ¬ (sec = 0 ∨ stop ≤ sec))
    {finish : List Str × Bool} (done : scanModinfo m loads stop fuel sec = .ok finish) :
    0 ∈ m.rest sec := by
  by_contra no_nul
  cases fuel with
  | zero => cases done
  | succ fuel =>
    rw [scanModinfo_unterminated loads go no_nul] at done
    cases done

/-- The bytes from the next string on. -/
theorem rest_next (nul : 0 ∈ m.rest sec) :
    m.rest ((sec + (cstr (m.rest sec)).length + 1) % 2 ^ 32) =
      (m.rest sec).drop ((cstr (m.rest sec)).length + 1) := by
  have inside := cstr_length_lt nul
  rw [m.rest_mod, Nat.add_assoc, m.rest_add (List.ne_nil_of_mem nul) inside]

/-- The text behind `depends=` ends where the string does. -/
theorem dependencies_split (nul : 0 ∈ m.rest sec) (depends : bytes "depends=" <+: m.rest sec) :
    ∃ t, (m.rest sec).drop 8 = dependencies m sec ++ 0 :: t := by
  obtain ⟨r, split⟩ := depends
  refine cstr_split ?_
  rw [← split] at nul ⊢
  exact (List.mem_append.mp nul).resolve_left (by decide)

theorem length_dependencies (m : Mapping) (sec : Nat) :
    (dependencies m sec).length ≤ m.content.length :=
  (length_cstr_le _).trans ((List.drop_sublist 8 _).length_le.trans (m.rest_length_le sec))

/-- Sound strings are gone through to the end of the section, or to the dependencies. -/
theorem scanModinfo_ok (loads : Nat → Bool) (sound : ∀ q, Visited m stop sec q → EntrySound m q)
    (rounds : (m.rest sec).length < fuel) :
    ∃ finish, scanModinfo m loads stop fuel sec = .ok finish := by
  induction fuel generalizing sec with
  | zero => omega
  | succ fuel ih =>
    by_cases go : sec = 0 ∨ stop ≤ sec
    · exact ⟨_, by rw [scanModinfo, if_pos go]⟩
    · obtain ⟨some_section, before⟩ := not_or.mp go
      have below := Nat.not_le.mp before
      have here := sound sec (.here some_section below)
      rw [scanModinfo_string loads go here.terminated]
      by_cases depends : bytes "depends=" <+: m.rest sec
      · obtain ⟨t, split⟩ := dependencies_split here.terminated depends
        rw [if_pos depends, split]
        exact scanDeps_ok loads (no_nul_cstr _) (Nat.le_refl _)
          (Nat.lt_succ_of_le (length_dependencies m sec)) (here.names depends)
      · rw [if_neg depends]
        refine ih (fun q visited => sound q (.later some_section below depends visited)) ?_
        have some_byte := List.length_pos_iff.mpr (List.ne_nil_of_mem here.terminated)
        rw [rest_next here.terminated, List.length_drop]
        omega

/-- The scan comes to its end in every file. -/
theorem scanModinfo_ends (loads : Nat → Bool) (rounds : (m.rest sec).length < fuel) :
    scanModinfo m loads stop fuel sec ≠ .error .endless := by
  induction fuel generalizing sec with
  | zero => omega
  | succ fuel ih =>
    by_cases go : sec = 0 ∨ stop ≤ sec
    · rw [scanModinfo, if_pos go]
      simp
    · by_cases nul : 0 ∈ m.rest sec
      · rw [scanModinfo_string loads go nul]
        split
        next depends =>
          obtain ⟨t, split⟩ := dependencies_split nul depends
          rw [split]
          exact scanDeps_ends loads (no_nul_cstr _) (Nat.lt_succ_of_le (length_dependencies m sec))
        next =>
          refine ih ?_
          have some_byte := List.length_pos_iff.mpr (List.ne_nil_of_mem nul)
          rw [rest_next nul, List.length_drop]
          omega
      · rw [scanModinfo_unterminated loads go nul]
        simp

/-- A scan that ends whatever is loaded has found sound strings only. -/
theorem entrySound_of_scan {q : Nat} (visited : Visited m stop sec q)
    (ends : ∀ loads, ∃ finish, scanModinfo m loads stop fuel sec = .ok finish) : EntrySound m q := by
  induction visited generalizing fuel with
  | @here sec some_section below =>
    have go : ¬ (sec = 0 ∨ stop ≤ sec) := by omega
    obtain ⟨finish, done⟩ := ends fun _ => true
    have nul := scanModinfo_terminated _ go done
    refine ⟨nul, fun depends => ?_⟩
    obtain ⟨t, split⟩ := dependencies_split nul depends
    cases fuel with
    | zero => cases done
    | succ fuel =>
      rw [scanModinfo_string _ go nul, if_pos depends, split] at done
      exact (scanDeps_copies (no_nul_cstr _) (Nat.le_refl _) done).2
  | @later sec q some_section below other rest ih =>
    have go : ¬ (sec = 0 ∨ stop ≤ sec) := by omega
    obtain ⟨finish, done⟩ := ends fun _ => true
    have nul := scanModinfo_terminated _ go done
    cases fuel with
    | zero => cases done
    | succ fuel =>
      refine @ih fuel fun loads => ?_
      obtain ⟨finish, done⟩ := ends loads
      rw [scanModinfo_string _ go nul, if_neg other] at done
      exact ⟨finish, done⟩

end

/-! ### Whole files -/

/-- `elf_getsection` gets to one of the functions for a class. -/
def FollowsTable (m : Mapping) : Prop :=
  isElf m = some true ∧ ∃ cls : ElfClass, m.content[EI_CLASS]? = some cls.byte

/-- What a module file must not be able to bring about. -/
structure HarmlessFile (host : ByteOrder) (m : Mapping) : Prop where
  reads : elfGetsection host m (bytes ".modinfo") ≠ none
  magic : FollowsTable m → ELFMAG <+: m.content
  scan : ∀ loads, ∃ finish, modprobeScan host m loads = .ok finish

/-- The address of a section and the one behind it. -/
def sectionStart (host : ByteOrder) (m : Mapping) (cls : ElfClass) (i : Nat) : Nat :=
  (m.base + (headerStated host m cls.code i).shOffset) % 2 ^ 32

def sectionStop (host : ByteOrder) (m : Mapping) (cls : ElfClass) (i : Nat) : Nat :=
  (sectionStart host m cls i + (headerStated host m cls.code i).shSize) % 2 ^ 32

/-- The file differs from every ELF file in its first bytes, or is of no class, or its
table and its `.modinfo` lead to places in the file and to names that fit. -/
inductive FileSound (host : ByteOrder) (m : Mapping) : Prop
  | rejected {first : UInt8} {rest : Str} (content : m.content = first :: rest) (other : first ≠ 0x7F)
      (inside : ¬ rest <+: bytes "ELF") (differs : ¬ bytes "ELF" <+: rest)
  | no_class {first eiclass : UInt8} {rest : Str} (content : m.content = first :: rest)
      (accepted : first = 0x7F ∨ bytes "ELF" <+: rest) (stated : m.content[EI_CLASS]? = some eiclass)
      (unknown : ∀ cls : ElfClass, eiclass ≠ cls.byte)
  | table (cls : ElfClass) (magic : ELFMAG <+: m.content)
      (eiclass : m.content[EI_CLASS]? = some cls.byte)
      (reads : TableReads host m cls.code (bytes ".modinfo"))
      (entries : ∀ i, FirstNamed host m cls.code (bytes ".modinfo") i →
        ∀ q, Visited m (sectionStop host m cls i) (sectionStart host m cls i) q → EntrySound m q)

section
variable {host : ByteOrder} {m : Mapping}

theorem isElf_cons {first : UInt8} {rest : Str} (content : m.content = first :: rest) :
    isElf m = if first = 0x7F then some true
      else if rest <+: bytes "ELF" then none else some (decide (bytes "ELF" <+: rest)) := by
  have compared := @strneqIn_eq rest (bytes "ELF") (by decide)
  rw [show (bytes "ELF").length = 3 from rfl] at compared
  simp only [isElf, content, List.head?_cons, Option.bind_eq_bind, Option.bind_some, List.drop_succ_cons,
    List.drop_zero, compared]
  by_cases first_byte : first = 0x7F <;> simp [first_byte]

theorem headerField_read {field : ElfField} (inside : FieldInside m m.base field)
    (some_byte : 0 < field.size) (small : field.offset < 2 ^ 32) :
    field.offset + field.size ≤ m.content.length := by
  have fits := m.fits
  rw [FieldInside, Mapping.rest] at inside
  by_cases above : m.base ≤ (m.base + field.offset) % 2 ^ 32
  · rw [if_pos above, List.length_drop] at inside
    omega
  · rw [if_neg above, List.length_nil] at inside
    omega

/-- A table that is read stands behind a whole identification. -/
theorem TableReads.ident {cls : ElfClass} {name : Str} (reads : TableReads host m cls.code name) :
    EI_DATA < m.content.length := by
  have shoff := reads.header cls.code.eShoff (by simp)
  have whole := headerField_read shoff (by cases cls <;> decide) (by cases cls <;> decide)
  exact Nat.lt_of_lt_of_le (by cases cls <;> decide) whole

theorem ident_of_getsection {layout : ElfLayout} {name : Str} {found : Option (Nat × Nat)}
    (ends : getsection host m layout name = some found) : EI_DATA < m.content.length := by
  simp only [getsection, readTable, readField, elf2host, Option.bind_eq_bind,
    Option.bind_eq_some_iff] at ends
  obtain ⟨_, ⟨_, ⟨_, eidata, -⟩, -⟩, -⟩ := ends
  exact (List.getElem?_eq_some_iff.mp eidata).1

theorem elfGetsection_follows {cls : ElfClass} (magic : ELFMAG <+: m.content)
    (eiclass : m.content[EI_CLASS]? = some cls.byte) (name : Str) :
    elfGetsection host m name = getsection host m cls.code name :=
  elfGetsection_class host (List.prefix_iff_eq_take.mp magic).symm eiclass name

/-- The scan of a file whose table is followed. -/
theorem modprobeScan_table {cls : ElfClass} (magic : ELFMAG <+: m.content)
    (eiclass : m.content[EI_CLASS]? = some cls.byte)
    (reads : TableReads host m cls.code (bytes ".modinfo")) :
    (∃ i, FirstNamed host m cls.code (bytes ".modinfo") i ∧ ∀ loads, modprobeScan host m loads =
      scanModinfo m loads (sectionStop host m cls i) (m.content.length + 1)
        (sectionStart host m cls i)) ∨
    (∀ i, ¬ FirstNamed host m cls.code (bytes ".modinfo") i) ∧
      ∀ loads, modprobeScan host m loads = .ok ([], true) := by
  simp only [modprobeScan, elfGetsection_follows magic eiclass]
  obtain ⟨i, first, found⟩ | ⟨none_named, found⟩ := getsection_reads reads.ident reads
  · exact .inl ⟨i, first, fun loads => by rw [found]; rfl⟩
  · exact .inr ⟨none_named, fun loads => by rw [found]⟩

theorem FirstNamed.unique {layout : ElfLayout} {name : Str} {i j : Nat}
    (first : FirstNamed host m layout name i) (first' : FirstNamed host m layout name j) : i = j := by
  obtain before | same | after := Nat.lt_trichotomy i j
  · exact absurd first.named (first'.first i before)
  · exact same
  · exact absurd first'.named (first.first j after)

/-- Where NULL is returned, and no table is followed for it, nothing is scanned. -/
theorem harmless_of_null (null : elfGetsection host m (bytes ".modinfo") = some none)
    (follows : ¬ FollowsTable m) : HarmlessFile host m where
  reads := by rw [null]; exact nofun
  magic := fun table => absurd table follows
  scan := fun loads => ⟨_, by rw [modprobeScan, null]⟩

/-- The other files that `elf_getsection` comes to an end with. -/
theorem fileSound_of_null (ends : elfGetsection host m (bytes ".modinfo") ≠ none)
    (follows : ¬ FollowsTable m) : FileSound host m := by
  obtain ⟨found, ends⟩ := Option.ne_none_iff_exists'.mp ends
  simp only [elfGetsection, Option.bind_eq_bind, Option.bind_eq_some_iff] at ends
  obtain ⟨elf, compared, ends⟩ := ends
  cases content : m.content with
  | nil => simp [isElf, content] at compared
  | cons first rest =>
    have same := isElf_cons content
    rw [compared] at same
    cases elf with
    | false =>
      by_cases first_byte : first = 0x7F
      · simp [first_byte] at same
      · by_cases short : rest <+: bytes "ELF"
        · simp [first_byte, short] at same
        · refine .rejected content first_byte short ?_
          simpa [first_byte, short] using same
    | true =>
      have accepted : first = 0x7F ∨ bytes "ELF" <+: rest := by
        by_cases first_byte : first = 0x7F
        · exact .inl first_byte
        · by_cases short : rest <+: bytes "ELF"
          · simp [first_byte, short] at same
          · exact .inr (by simpa [first_byte, short] using same)
      cases stated : m.content[EI_CLASS]? with
      | none => simp [stated] at ends
      | some eiclass =>
        exact .no_class content accepted stated fun cls known =>
          follows ⟨compared, cls, known ▸ stated⟩

/-- A file that differs from every ELF file in its first bytes. -/
theorem harmless_of_rejected {first : UInt8} {rest : Str} (content : m.content = first :: rest)
    (other : first ≠ 0x7F) (inside : ¬ rest <+: bytes "ELF") (differs : ¬ bytes "ELF" <+: rest) :
    HarmlessFile host m := by
  have elf : isElf m = some false := by
    rw [isElf_cons content, if_neg other, if_neg inside, decide_eq_false differs]
  refine harmless_of_null (by rw [elfGetsection, elf]; rfl) fun follows => ?_
  exact absurd (elf.symm.trans follows.1) (by decide)

/-- A file that is let through, and is of no class. -/
theorem harmless_of_no_class {first eiclass : UInt8} {rest : Str} (content : m.content = first :: rest)
    (accepted : first = 0x7F ∨ bytes "ELF" <+: rest) (stated : m.content[EI_CLASS]? = some eiclass)
    (unknown : ∀ cls : ElfClass, eiclass ≠ cls.byte) : HarmlessFile host m := by
  have elf : isElf m = some true := by
    obtain first_byte | letters := accepted
    · rw [isElf_cons content, if_pos first_byte]
    · -- the class is behind the letters
      have whole := (List.getElem?_eq_some_iff.mp stated).1
      have longer : ¬ rest <+: bytes "ELF" := fun short => by
        have size := short.length_le
        rw [content, List.length_cons] at whole
        exact absurd (Nat.lt_of_lt_of_le whole (Nat.succ_le_succ size)) (by decide)
      rw [isElf_cons content, if_neg longer, decide_eq_true letters, ite_self]
  have null : elfGetsection host m (bytes ".modinfo") = some none := by
    rw [elfGetsection, elf, stated]
    exact (if_neg (unknown .class32)).trans (if_neg (unknown .class64))
  refine harmless_of_null null fun follows => ?_
  obtain ⟨-, cls, known⟩ := follows
  exact unknown cls (Option.some.inj (stated.symm.trans known))

/-- A file whose table, and the section it leads to, are sound. -/
theorem harmless_of_table {cls : ElfClass} (magic : ELFMAG <+: m.content)
    (eiclass : m.content[EI_CLASS]? = some cls.byte)
    (reads : TableReads host m cls.code (bytes ".modinfo"))
    (entries : ∀ i, FirstNamed host m cls.code (bytes ".modinfo") i →
      ∀ q, Visited m (sectionStop host m cls i) (sectionStart host m cls i) q → EntrySound m q) :
    HarmlessFile host m := by
  refine ⟨?_, fun _ => magic, fun loads => ?_⟩
  · rw [elfGetsection_follows magic eiclass]
    obtain ⟨i, -, found⟩ | ⟨-, found⟩ := getsection_reads reads.ident reads
    all_goals rw [found]; exact Option.some_ne_none _
  · obtain ⟨i, first, scan⟩ | ⟨-, scan⟩ := modprobeScan_table magic eiclass reads
    · rw [scan]
      exact scanModinfo_ok loads (entries i first) (Nat.lt_succ_of_le (m.rest_length_le _))
    · exact ⟨_, scan loads⟩

theorem fileSound_of_table (harmless : HarmlessFile host m) (follows : FollowsTable m) :
    FileSound host m := by
  have magic := harmless.magic follows
  obtain ⟨-, cls, eiclass⟩ := follows
  obtain ⟨found, ends⟩ := Option.ne_none_iff_exists'.mp harmless.reads
  rw [elfGetsection_follows magic eiclass] at ends
  have reads := tableReads_of_getsection (ident_of_getsection ends) ends
  refine .table cls magic eiclass reads fun i first q visited => ?_
  obtain ⟨j, first', scan⟩ | ⟨none_named, -⟩ := modprobeScan_table magic eiclass reads
  · obtain rfl := first.unique first'
    exact entrySound_of_scan visited fun loads => scan loads ▸ harmless.scan loads
  · exact absurd first (none_named i)

end

/-- Whatever is in the file, the code comes to its end. -/
theorem modprobeScan_ends (host : ByteOrder) (m : Mapping) (loads : Nat → Bool) :
    modprobeScan host m loads ≠ .error .endless := by
  unfold modprobeScan
  split
  · simp
  · simp
  · exact scanModinfo_ends loads (Nat.lt_succ_of_le (m.rest_length_le _))

/-- A module file does no harm exactly if what it says of itself is sound. -/
theorem harmless_iff (host : ByteOrder) (m : Mapping) : HarmlessFile host m ↔ FileSound host m := by
  constructor
  · intro harmless
    by_cases follows : FollowsTable m
    · exact fileSound_of_table harmless follows
    · exact fileSound_of_null harmless.reads follows
  · intro sound
    cases sound with
    | rejected content other inside differs => exact harmless_of_rejected content other inside differs
    | no_class content accepted stated unknown =>
      exact harmless_of_no_class content accepted stated unknown
    | table cls magic eiclass reads entries => exact harmless_of_table magic eiclass reads entries

def noMagic : Mapping :=
  sampleMapping (bytes "XELF" ++ 1 :: 1 :: List.replicate 46 0) (by decide +kernel)

def truncated : Mapping := sampleMapping (ELFMAG ++ [1, 1]) (by decide)

def longDependency : Mapping :=
  sampleMapping (sampleImage .class32 .lsb (bytes "depends=" ++ List.replicate 256 97 ++ [0]))
    (by decide +kernel)

/-- A file that is none of ELF but has its letters, one that ends behind its
identification, and one with a name that is longer than the buffer. -/
theorem harmful_files :
    ¬ HarmlessFile .lsb noMagic ∧ ¬ HarmlessFile .lsb truncated ∧ ¬ HarmlessFile .lsb longDependency := by
  refine ⟨fun harmless => ?_, fun harmless => ?_, fun harmless => ?_⟩
  · have follows : FollowsTable noMagic := ⟨by decide +kernel, .class32, by decide +kernel⟩
    exact absurd (harmless.magic follows) (by decide +kernel)
  · exact harmless.reads (by decide +kernel)
  · obtain ⟨finish, done⟩ := harmless.scan fun _ => true
    have overflow : modprobeScan .lsb longDependency (fun _ => true) = .error .overflow := by
      decide +kernel
    rw [overflow] at done
    cases done

/-! ### The module as it is loaded -/

section
variable {m : Mapping}

theorem klStrneq_depends (s : Str) :
    klStrneq (cstr s) (bytes "depends=") 8 = true ↔ bytes "depends=" <+: s := by
  refine (klStrneq_iff (cstr s) (bytes "depends=")).trans ⟨fun start => ?_, fun ⟨r, split⟩ => ?_⟩
  · exact start.trans (cstr_isPrefix s)
  · rw [← split, cstr_append _ (by decide)]
    exact List.prefix_append _ _

/-- The scan calls for the names that `dependsEntry` finds. -/
theorem scanModinfo_depends {stop sec fuel k : Nat} {finish : List Str × Bool} (some_section : sec ≠ 0)
    (small : stop < 2 ^ 32) (enough : stop - sec ≤ k)
    (done : scanModinfo m (fun _ => true) stop fuel sec = .ok finish) :
    finish = (match dependsEntry k (m.rest sec) (stop - sec) with
      | none => []
      | some names => depNames names.length names, true) := by
  induction fuel generalizing k sec with
  | zero => cases done
  | succ fuel ih =>
    by_cases below : sec < stop
    · have go : ¬ (sec = 0 ∨ stop ≤ sec) := by omega
      have nul := scanModinfo_terminated _ go done
      obtain ⟨k, rfl⟩ := Nat.exists_eq_succ_of_ne_zero (show k ≠ 0 by omega)
      rw [dependsEntry, if_neg (by omega)]
      rw [scanModinfo_string _ go nul] at done
      by_cases depends : bytes "depends=" <+: m.rest sec
      · obtain ⟨t, split⟩ := dependencies_split nul depends
        rw [if_pos depends, split] at done
        rw [if_pos ((klStrneq_depends _).mpr depends)]
        exact (scanDeps_copies (no_nul_cstr _) (Nat.le_refl _) done).1
      · -- the next string begins behind the NUL, which is in the memory: no address wraps
        have next : (sec + (cstr (m.rest sec)).length + 1) % 2 ^ 32 =
            sec + (cstr (m.rest sec)).length + 1 := by
          have fits := m.fits
          have inside := (m.rest_end (List.ne_nil_of_mem nul)).2
          have string := cstr_length_lt nul
          omega
        have shorter : stop - (sec + (cstr (m.rest sec)).length + 1) =
            stop - sec - ((cstr (m.rest sec)).length + 1) := by omega
        have later := rest_next nul
        rw [if_neg depends] at done
        rw [next] at done later
        rw [if_neg (fun same => depends ((klStrneq_depends _).mp same))]
        dsimp only
        rw [← later, ← shorter]
        exact ih (by omega) (by omega) done
    · have stopped : finish = ([], true) := by
        rw [scanModinfo, if_pos (by omega)] at done
        cases done
        rfl
      rw [stopped, show stop - sec = 0 by omega]
      cases k <;> rfl

/-- The dependencies of a module are the names that its scan calls for. -/
theorem modprobeScan_depends {host : ByteOrder} {path : Str} {sec size : Nat}
    {finish : List Str × Bool}
    (found : elfGetsection host m (bytes ".modinfo") = some (some (sec, size)))
    (some_section : sec ≠ 0) (small : sec + size < 2 ^ 32)
    (done : modprobeScan host m (fun _ => true) = .ok finish) :
    finish = ((Image.mk path (some (m.rest sec, size))).depends, true) := by
  simp only [modprobeScan, found, Nat.mod_eq_of_lt small] at done
  have names := scanModinfo_depends some_section small (k := size) (by omega) done
  rw [Nat.add_sub_cancel_left] at names
  rw [names]
  cases depends : dependsEntry size (m.rest sec) size <;> simp [Image.depends, depends]

end

end KexecLoader
