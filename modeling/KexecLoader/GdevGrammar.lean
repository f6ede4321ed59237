import KexecLoader.GrubNames

/-!
# The grammar of GRUB device names

A name is written down as the tree the grammar gives it. Every name is read back as
its record, but for those with a partition in the spelling of a disk: the letter m is
a partition of its own.
-/
namespace KexecLoader

/-- `['msdos'] digits`. -/
structure GdevNumber where
  msdos : Bool
  digits : Str
  nonempty : digits ≠ []
  numeric : ∀ c ∈ digits, isdigit c = true

def GdevNumber.text (n : GdevNumber) : Str := (if n.msdos then bytes "msdos" else []) ++ n.digits

inductive GdevPart where
  | letter (c : UInt8) (lower : islower c = true)
  | number (n : GdevNumber)

def GdevPart.text : GdevPart → Str
  | .letter c _ => [c]
  | .number n => n.text

/-- What of a part is stored. -/
def GdevPart.value : GdevPart → Str
  | .letter c _ => [c]
  | .number n => n.digits

def GdevPart.msdos : GdevPart → Bool
  | .letter _ _ => false
  | .number n => n.msdos

/-- A name, which is in brackets when text follows it. -/
structure GdevName where
  floppy : Bool
  disk : GdevNumber
  parts : List GdevPart
  few : parts.length ≤ 2
  behind : Option Str

def closing (behind : Option Str) : Str :=
  match behind with
  | none => []
  | some tail => 41 :: tail

def kindText (floppy : Bool) : Str := if floppy then bytes "fd" else bytes "hd"

def partsText (parts : List GdevPart) : Str := parts.flatMap fun p => 44 :: p.text

def opening (brackets : Bool) : Str := if brackets then [40] else []

def GdevName.text (n : GdevName) : Str :=
  opening n.behind.isSome ++ (kindText n.floppy ++ (n.disk.text ++ (partsText n.parts ++ closing n.behind)))

/-- The field of a part, 15 bytes of it. -/
def partField (part : Option GdevPart) : Buf 16 :=
  match part with
  | none => default
  | some p => strlcpy p.value

def GdevName.record (n : GdevName) : KlGdev :=
  { initGdev with
    type := strlcpy (kindText n.floppy)
    p1 := strlcpy n.disk.digits
    p2 := partField n.parts[0]?
    p3 := partField n.parts[1]? }

/-- A partition is written like a disk. -/
def GdevName.Prefixed (n : GdevName) : Prop := ∃ p ∈ n.parts, p.msdos = true

/-! ### One token -/

/-- What follows a token ends it. -/
theorem parts_stop (parts : List GdevPart) (behind : Option Str) :
    ∀ c ∈ (partsText parts ++ closing behind).head?, isdigit c = false := by
  intro c first
  rcases parts with _ | ⟨p, parts⟩
  · cases behind with
    | none => cases first
    | some tail =>
      obtain rfl : 41 = c := by simpa [partsText, closing] using first
      rfl
  · obtain rfl : 44 = c := by simpa [partsText] using first
    rfl

theorem tokenText_number (n : GdevNumber) (rest : Str) (stop : ∀ c ∈ rest.head?, isdigit c = false) :
    tokenText true (n.text ++ rest) = some (strlcpy n.digits, rest) := by
  unfold GdevNumber.text
  cases n.msdos with
  | true =>
    rw [if_pos rfl, List.append_assoc]
    exact tokenText_msdos n.digits rest n.nonempty n.numeric stop
  | false =>
    rw [if_neg Bool.false_ne_true, List.nil_append]
    exact tokenText_digits true n.digits rest n.nonempty n.numeric stop

theorem tokenText_part (p : GdevPart) (plain : p.msdos = false) (rest : Str)
    (stop : ∀ c ∈ rest.head?, isdigit c = false) :
    tokenText false (p.text ++ rest) = some (strlcpy p.value, rest) := by
  cases p with
  | letter c lower => exact tokenText_letter c rest lower
  | number n =>
    have plain : n.msdos = false := plain
    rw [GdevPart.text, GdevNumber.text, plain, if_neg Bool.false_ne_true, List.nil_append]
    exact tokenText_digits false n.digits rest n.nonempty n.numeric stop

/-- The m of the prefix is taken for a partition. -/
theorem tokenText_part_msdos (p : GdevPart) (prefixed : p.msdos = true) (rest : Str) :
    tokenText false (p.text ++ rest) =
      some (strlcpy [109], bytes "sdos" ++ (p.value ++ rest)) := by
  cases p with
  | letter c lower => exact absurd prefixed Bool.false_ne_true
  | number n =>
    have prefixed : n.msdos = true := prefixed
    rw [GdevPart.text, GdevNumber.text, prefixed, if_pos rfl, List.append_assoc]
    exact tokenText_letter 109 _ rfl

/-- What a token is made of, as the grammar writes it. -/
theorem tokenText_sound {first : Bool} {src rest : Str} {token : Buf 16}
    (taken : tokenText first src = some (token, rest)) :
    ∃ p : GdevPart, src = p.text ++ rest ∧ token = strlcpy p.value ∧ (first = false → p.msdos = false) ∧
      (first = true → ∃ n, p = .number n) := by
  obtain ⟨c, other, lower, rfl, rfl⟩ | ⟨digits, nonempty, all, -, rfl, plain | ⟨rfl, marked⟩⟩ :=
    tokenText_cases first src token rest taken
  · exact ⟨.letter c lower, rfl, rfl, fun _ => rfl, fun same => absurd (same.symm.trans other) (by decide)⟩
  · exact ⟨.number ⟨false, digits, nonempty, all⟩, plain, rfl, fun _ => rfl, fun _ => ⟨_, rfl⟩⟩
  · refine ⟨.number ⟨true, digits, nonempty, all⟩, ?_, rfl,
      fun same => absurd same (by decide), fun _ => ⟨_, rfl⟩⟩
    rw [marked, ← List.append_assoc]
    rfl

/-- How the parser goes on when these parts are left. -/
def following (parts : List GdevPart) (behind : Option Str) : TokenEnd :=
  match parts with
  | [] => .done
  | p :: parts => .more (p.text ++ (partsText parts ++ closing behind))

theorem parseToken_following {first : Bool} {src : Str} {token : Buf 16} {parts : List GdevPart}
    {behind : Option Str} (taken : tokenText first src = some (token, partsText parts ++ closing behind)) :
    parseToken behind.isSome first src = some (token, following parts behind) := by
  rcases parts with _ | ⟨p, parts⟩
  · cases behind <;> simp_all [parseToken, following, partsText, closing]
  · have comma : partsText (p :: parts) ++ closing behind =
        44 :: (p.text ++ (partsText parts ++ closing behind)) := by simp [partsText]
    rw [comma] at taken
    cases behind <;> simp [parseToken, taken, following]

theorem parseToken_disk (disk : GdevNumber) (parts : List GdevPart) (behind : Option Str) :
    parseToken behind.isSome true (disk.text ++ (partsText parts ++ closing behind)) =
      some (strlcpy disk.digits, following parts behind) :=
  parseToken_following (tokenText_number disk _ (parts_stop parts behind))

theorem parseToken_part (p : GdevPart) (plain : p.msdos = false) (parts : List GdevPart)
    (behind : Option Str) : parseToken behind.isSome false (p.text ++ (partsText parts ++ closing behind)) =
      some (strlcpy p.value, following parts behind) :=
  parseToken_following (tokenText_part p plain _ (parts_stop parts behind))

/-- A prefixed partition ends behind its m. -/
theorem parseToken_prefixed (brackets : Bool) (p : GdevPart) (marked : p.msdos = true) (rest : Str) :
    parseToken brackets false (p.text ++ rest) = none := by
  have taken := tokenText_part_msdos p marked rest
  have letter : (bytes "sdos" ++ (p.value ++ rest)).head? = some 115 := rfl
  have some_text : (bytes "sdos" ++ (p.value ++ rest)).isEmpty = false := rfl
  simp only [parseToken, taken, letter, some_text]
  cases brackets <;> rfl

theorem parseToken_sound {brackets first : Bool} {src : Str} {token : Buf 16} {after : TokenEnd}
    (parsed : parseToken brackets first src = some (token, after)) :
    ∃ p : GdevPart, token = strlcpy p.value ∧ (first = false → p.msdos = false) ∧
      (first = true → ∃ n, p = .number n) ∧
        (match after with
        | .done => ∃ behind : Option Str, behind.isSome = brackets ∧ src = p.text ++ closing behind
        | .more rest => src = p.text ++ 44 :: rest) := by
  obtain ⟨rest, taken, shape⟩ := parseToken_cases parsed
  obtain ⟨p, rfl, rfl, plain, numbered⟩ := tokenText_sound taken
  refine ⟨p, rfl, plain, numbered, ?_⟩
  obtain ⟨rfl, rfl, rfl⟩ | ⟨rfl, rfl, tail, rfl⟩ | ⟨tail, rfl, rfl⟩ := shape
  · exact ⟨none, rfl, rfl⟩
  · exact ⟨some tail, rfl, rfl⟩
  · rfl

/-! ### Whole names -/

theorem parseGdev_kind (brackets floppy : Bool) (body : Str) :
    parseGdev (opening brackets ++ (kindText floppy ++ body)) =
      parseParts brackets { initGdev with type := strlcpy (kindText floppy) } body := by
  have known : bytes "fd" <+: kindText floppy ++ body ∨ bytes "hd" <+: kindText floppy ++ body := by
    cases floppy with
    | true => exact .inl (List.prefix_append _ _)
    | false => exact .inr (List.prefix_append _ _)
  have step : parseGdev (opening brackets ++ (kindText floppy ++ body)) =
      if bytes "fd" <+: kindText floppy ++ body ∨ bytes "hd" <+: kindText floppy ++ body then
        parseParts brackets { initGdev with type := strlcpy (kindText floppy) } body
      else none := by
    cases brackets <;> cases floppy <;> rfl
  rw [step, if_pos known]

/-- What is accepted has one of the kinds in front. -/
theorem parseGdev_kinded {src : Str} {gdev : KlGdev} (accepted : parseGdev src = some gdev) :
    ∃ brackets floppy body, src = opening brackets ++ (kindText floppy ++ body) := by
  have opened : src = opening (src.head? == some 40) ++ (if src.head? == some 40 then src.drop 1 else src) := by
    rcases src with _ | ⟨c, src⟩
    · rfl
    · by_cases bracket : c = 40 <;> simp [opening, bracket]
  simp only [parseGdev] at accepted
  generalize (if (src.head? == some 40) = true then src.drop 1 else src) = name at opened accepted
  by_cases kind : bytes "fd" <+: name ∨ bytes "hd" <+: name
  · obtain ⟨body, rfl⟩ | ⟨body, rfl⟩ := kind
    · exact ⟨_, true, body, opened⟩
    · exact ⟨_, false, body, opened⟩
  · rw [if_neg kind] at accepted
    cases accepted

/-- A name without prefixed partitions is read back. -/
theorem parseGdev_complete (n : GdevName) (plain : ¬ n.Prefixed) : parseGdev n.text = some n.record := by
  rw [GdevName.text, parseGdev_kind]
  obtain ⟨floppy, disk, parts, few, behind⟩ := n
  have unmarked : ∀ p ∈ parts, p.msdos = false := fun p member =>
    Bool.eq_false_iff.mpr fun marked => plain ⟨p, member, marked⟩
  simp only [parseParts, parseToken_disk, GdevName.record]
  rcases parts with _ | ⟨a, _ | ⟨b, _ | ⟨c, more⟩⟩⟩
  · rfl
  · simp only [following, parseToken_part a (unmarked a (by simp))]
    rfl
  · simp only [following, parseToken_part a (unmarked a (by simp)), parseToken_part b (unmarked b (by simp))]
    rfl
  · simp at few

theorem parseGdev_prefixed (n : GdevName) (marked : n.Prefixed) : parseGdev n.text = none := by
  rw [GdevName.text, parseGdev_kind]
  obtain ⟨floppy, disk, parts, few, behind⟩ := n
  obtain ⟨p, member, marked⟩ := marked
  simp only [parseParts, parseToken_disk]
  rcases parts with _ | ⟨a, _ | ⟨b, _ | ⟨c, more⟩⟩⟩
  · simp at member
  · obtain rfl : p = a := by simpa using member
    simp only [following, parseToken_prefixed _ p marked]
  · cases first : a.msdos with
    | true => simp only [following, parseToken_prefixed _ a first]
    | false =>
      -- the other one is prefixed, and is read when the first has been
      have last : p = b := by
        rcases List.mem_cons.mp member with rfl | other
        · rw [first] at marked
          cases marked
        · simpa using other
      subst last
      simp only [following, parseToken_part a first, parseToken_prefixed _ p marked]
  · simp at few

/-- What the parts of a record are made of. -/
structure PartsOf (brackets : Bool) (type : Buf 16) (src : Str) (gdev : KlGdev) (n : GdevName) : Prop where
  brackets : n.behind.isSome = brackets
  text : src = n.disk.text ++ (partsText n.parts ++ closing n.behind)
  record : gdev = { n.record with type := type }
  plain : ¬ n.Prefixed

theorem parseParts_sound {brackets : Bool} {type : Buf 16} {gdev : KlGdev} {src : Str} (floppy : Bool)
    (parsed : parseParts brackets { initGdev with type := type } src = some gdev) :
    ∃ n : GdevName, n.floppy = floppy ∧ PartsOf brackets type src gdev n := by
  have unmarked : ∀ parts : List GdevPart,
      (∀ p ∈ parts, p.msdos = false) → ¬ ∃ p ∈ parts, p.msdos = true := by
    rintro parts plain ⟨p, member, marked⟩
    rw [plain p member] at marked
    cases marked
  obtain ⟨p1, one, rfl⟩ | ⟨p1, p2, src2, one, two, rfl⟩ |
    ⟨p1, p2, p3, src2, src3, one, two, three, rfl⟩ := parseParts_cases parsed
  · obtain ⟨disk, rfl, -, number, behind, bracketed, rfl⟩ := parseToken_sound one
    obtain ⟨disk, rfl⟩ := number rfl
    exact ⟨⟨floppy, disk, [], by simp, behind⟩, rfl, bracketed, rfl, rfl, unmarked _ (by simp)⟩
  · obtain ⟨disk, rfl, -, number, shape⟩ := parseToken_sound one
    obtain ⟨disk, rfl⟩ := number rfl
    obtain ⟨a, rfl, plain_a, -, behind, bracketed, rfl⟩ := parseToken_sound two
    refine ⟨⟨floppy, disk, [a], by simp, behind⟩, rfl, bracketed, ?_, rfl, unmarked _ ?_⟩
    · rw [shape]
      simp [partsText, GdevPart.text]
    · simpa using plain_a rfl
  · obtain ⟨disk, rfl, -, number, shape⟩ := parseToken_sound one
    obtain ⟨disk, rfl⟩ := number rfl
    obtain ⟨a, rfl, plain_a, -, shape2⟩ := parseToken_sound two
    obtain ⟨b, rfl, plain_b, -, behind, bracketed, rfl⟩ := parseToken_sound three
    refine ⟨⟨floppy, disk, [a, b], by simp, behind⟩, rfl, bracketed, ?_, rfl, unmarked _ ?_⟩
    · rw [shape, shape2]
      simp [partsText, GdevPart.text]
    · simpa using ⟨plain_a rfl, plain_b rfl⟩

/-- What is accepted is a name, without a prefixed partition. -/
theorem parseGdev_sound {src : Str} {gdev : KlGdev} (accepted : parseGdev src = some gdev) :
    ∃ n : GdevName, n.text = src ∧ n.record = gdev ∧ ¬ n.Prefixed := by
  obtain ⟨brackets, floppy, body, rfl⟩ := parseGdev_kinded accepted
  rw [parseGdev_kind] at accepted
  obtain ⟨n, rfl, made⟩ := parseParts_sound floppy accepted
  refine ⟨n, ?_, made.record.symm, made.plain⟩
  rw [GdevName.text, made.brackets, ← made.text]

/-- The parser accepts the names of the grammar with their records, brackets make no
difference, and `GRUB_CONV_PATH` finds the closing one. -/
structure GrammarKept (src : Str) : Prop where
  accepts : ∀ gdev, parseGdev src = some gdev ↔ ∃ n : GdevName, n.text = src ∧ n.record = gdev
  spellings : ∀ n : GdevName, n.text = src →
    ∀ behind, parseGdev ({ n with behind := behind } : GdevName).text = parseGdev src
  closed : src.head? = some 40 → ∀ gdev, parseGdev src = some gdev → (strchr src 41).isSome = true

theorem parseGdev_spellings (n : GdevName) (behind : Option Str) :
    parseGdev ({ n with behind := behind } : GdevName).text = parseGdev n.text := by
  by_cases marked : n.Prefixed
  · rw [parseGdev_prefixed n marked]
    exact parseGdev_prefixed { n with behind := behind } marked
  · rw [parseGdev_complete n marked]
    exact parseGdev_complete { n with behind := behind } marked

theorem GdevName.closed (n : GdevName) (bracket : n.text.head? = some 40) : 41 ∈ n.text := by
  obtain ⟨floppy, disk, parts, few, behind⟩ := n
  rcases behind with _ | tail
  · -- without brackets the kind comes first
    have kind : ∀ rest, (kindText floppy ++ rest).head? ≠ some 40 := by
      intro rest
      cases floppy with
      | true => exact fun first => absurd (Option.some.inj first) (by decide)
      | false => exact fun first => absurd (Option.some.inj first) (by decide)
    exact absurd bracket (kind _)
  · simp [GdevName.text, closing]

/-- The grammar is kept but for the prefix in front of a partition. -/
theorem grammarKept_iff (src : Str) : GrammarKept src ↔ ¬ ∃ n : GdevName, n.text = src ∧ n.Prefixed := by
  constructor
  · rintro kept ⟨n, rfl, marked⟩
    have accepted := (kept.accepts n.record).mpr ⟨n, rfl, rfl⟩
    rw [parseGdev_prefixed n marked] at accepted
    cases accepted
  · intro plain
    refine ⟨fun gdev => ⟨fun accepted => ?_, ?_⟩, ?_, fun bracket gdev accepted => ?_⟩
    · obtain ⟨n, text, record, -⟩ := parseGdev_sound accepted
      exact ⟨n, text, record⟩
    · rintro ⟨n, rfl, rfl⟩
      exact parseGdev_complete n fun marked => plain ⟨n, rfl, marked⟩
    · rintro n rfl behind
      exact parseGdev_spellings n behind
    · obtain ⟨n, rfl, -⟩ := parseGdev_sound accepted
      exact (strchr_isSome _ _).mpr (n.closed bracket)

/-- The first partition of a disk with an MS-DOS label. -/
theorem msdos_partition_refused : ¬ GrammarKept (bytes "(hd0,msdos1)") := by
  intro kept
  let name : GdevName := ⟨false, ⟨false, [48], by decide, by decide⟩,
    [.number ⟨true, [49], by decide, by decide⟩], by decide, some []⟩
  have refused : parseGdev (bytes "(hd0,msdos1)") = none := by decide
  have accepted := (kept.accepts name.record).mpr ⟨name, by decide, rfl⟩
  rw [refused] at accepted
  cases accepted

end KexecLoader
