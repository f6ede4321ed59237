import KexecLoader.Grub

/-!
# GRUB device names

What a name is made of, that brackets and spelling do not matter to
`parse_gdev`, and which entry of the device map answers for it.
-/
namespace KexecLoader

/-! ### The bytes of a device name -/

/-- What a device name without brackets is made of. -/
def deviceByte (c : UInt8) : Bool := isdigit c || islower c || c == 44

theorem deviceByte_not_separator {c : UInt8} (device : deviceByte c = true) :
    c ∉ newlines ++ blanks ∧ c ≠ 0 ∧ c ≠ 40 ∧ c ≠ 41 := by
  refine ⟨?_, ?_, ?_, ?_⟩
  · -- the separators are four bytes, and none of them is a device byte
    intro separator
    have : c = cr ∨ c = lf ∨ c = tab ∨ c = space := by simpa [newlines, blanks] using separator
    rcases this with rfl | rfl | rfl | rfl <;> exact absurd device (by decide)
  all_goals
    rintro rfl
    exact absurd device (by decide)

theorem isdigit_not_islower {c : UInt8} (digit : isdigit c = true) : islower c = false := by
  simp only [isdigit, islower, Bool.and_eq_true, decide_eq_true_eq, Bool.and_eq_false_iff,
    decide_eq_false_iff_not] at *
  exact .inl fun le => absurd (UInt8.le_trans le digit.2) (by decide)

theorem tokenText_letter (c : UInt8) (rest : Str) (lower : islower c = true) :
    tokenText false (c :: rest) = some (strlcpy [c], rest) := by
  simp [tokenText, lower]

theorem tokenText_digits (first : Bool) (digits rest : Str) (nonempty : digits ≠ [])
    (all : ∀ c ∈ digits, isdigit c = true) (stop : ∀ c ∈ rest.head?, isdigit c = false) :
    tokenText first (digits ++ rest) = some (strlcpy digits, rest) := by
  have taken := takeWhile_append_stop all stop
  have dropped := dropWhile_append_stop all stop
  obtain ⟨d, digits, rfl⟩ := List.exists_cons_of_ne_nil nonempty
  have digit := all d (by simp)
  simp only [List.cons_append] at taken dropped
  simp [tokenText, digit, isdigit_not_islower digit, taken, dropped]

theorem tokenText_msdos (digits rest : Str) (nonempty : digits ≠ [])
    (all : ∀ c ∈ digits, isdigit c = true) (stop : ∀ c ∈ rest.head?, isdigit c = false) :
    tokenText true (bytes "msdos" ++ (digits ++ rest)) = some (strlcpy digits, rest) := by
  have taken := takeWhile_append_stop all stop
  have dropped := dropWhile_append_stop all stop
  obtain ⟨d, digits, rfl⟩ := List.exists_cons_of_ne_nil nonempty
  have skipped : (bytes "msdos" ++ (d :: digits ++ rest)).drop 5 = d :: digits ++ rest := rfl
  have letter : (bytes "msdos" ++ (d :: digits ++ rest)).head?.any isdigit = false := rfl
  have numbered : bytes "msdos" <+: bytes "msdos" ++ (d :: digits ++ rest) := ⟨_, rfl⟩
  have digit := all d (by simp)
  simp only [List.cons_append] at taken dropped
  simp only [tokenText, skipped, letter, numbered]
  simp [digit, taken, dropped]

theorem digits_span (s : Str) (head : s.head?.any isdigit = true) :
    s.takeWhile isdigit ≠ [] ∧ ∀ c ∈ s.takeWhile isdigit, isdigit c = true := by
  constructor
  · cases s with
    | nil => simp at head
    | cons c s => simpa using head
  · intro c member
    exact List.mem_takeWhile_imp member

/-- The three shapes of a token. -/
theorem tokenText_cases (first : Bool) (src : Str) (token : Buf 16) (rest : Str)
    (taken : tokenText first src = some (token, rest)) :
    (∃ c, first = false ∧ islower c = true ∧ src = c :: rest ∧ token = strlcpy [c]) ∨
    ∃ digits, digits ≠ [] ∧ (∀ c ∈ digits, isdigit c = true) ∧
      (∀ c ∈ rest.head?, isdigit c = false) ∧ token = strlcpy digits ∧
      (src = digits ++ rest ∨ first = true ∧ src = bytes "msdos" ++ (digits ++ rest)) := by
  simp only [tokenText] at taken
  split at taken
  next letter =>
    cases src with
    | nil => simp at letter
    | cons c src =>
      simp only [Bool.and_eq_true, Bool.not_eq_true', List.head?_cons, Option.any_some] at letter
      cases taken
      exact .inl ⟨c, letter.1, letter.2, rfl, rfl⟩
  next not_letter =>
    split at taken
    next number =>
      right
      by_cases head : src.head?.any isdigit = true
      · simp only [head, if_true] at taken
        cases taken
        exact ⟨_, (digits_span src head).1, (digits_span src head).2, dropWhile_head_fails, rfl,
          .inl List.takeWhile_append_dropWhile.symm⟩
      · obtain ⟨pre, digit⟩ := number.resolve_left head
        obtain ⟨tail, rfl⟩ := pre
        simp only [head] at taken
        cases taken
        refine ⟨_, (digits_span tail digit).1, (digits_span tail digit).2, dropWhile_head_fails, rfl, .inr ?_⟩
        refine ⟨?_, congrArg _ List.takeWhile_append_dropWhile.symm⟩
        -- an m is a letter, so only the first token may start with one
        cases first with
        | true => rfl
        | false => exact absurd rfl not_letter
    next => cases taken

/-- Text that does not go on with a digit leaves a token as it is. -/
theorem tokenText_append (first : Bool) (src : Str) (token : Buf 16) (rest tail : Str)
    (taken : tokenText first src = some (token, rest))
    (stop : ∀ c ∈ tail.head?, isdigit c = false) :
    tokenText first (src ++ tail) = some (token, rest ++ tail) := by
  obtain ⟨c, rfl, lower, rfl, rfl⟩ | ⟨digits, nonempty, all, ends, rfl, shape⟩ :=
    tokenText_cases first src token rest taken
  · exact tokenText_letter c (rest ++ tail) lower
  · -- what follows the digits starts with the rest, or with the tail if there is none
    have ends : ∀ c ∈ (rest ++ tail).head?, isdigit c = false := by
      cases rest with
      | nil => simpa using stop
      | cons c rest => simpa using ends
    obtain rfl | ⟨rfl, rfl⟩ := shape
    · simpa using tokenText_digits first digits (rest ++ tail) nonempty all ends
    · simpa using tokenText_msdos digits (rest ++ tail) nonempty all ends

/-- What a token takes is made of device bytes. -/
theorem tokenText_bytes (first : Bool) (src : Str) (token : Buf 16) (rest : Str)
    (taken : tokenText first src = some (token, rest)) :
    ∃ used, src = used ++ rest ∧ ∀ c ∈ used, deviceByte c = true := by
  obtain ⟨c, _, lower, rfl, rfl⟩ | ⟨digits, nonempty, all, ends, rfl, shape⟩ :=
    tokenText_cases first src token rest taken
  · exact ⟨[c], rfl, by simpa [deviceByte] using .inl (.inr lower)⟩
  · have device : ∀ c ∈ digits, deviceByte c = true := fun c member => by
      simp [deviceByte, all c member]
    obtain rfl | ⟨_, rfl⟩ := shape
    · exact ⟨digits, rfl, device⟩
    · have letters : ∀ c ∈ bytes "msdos", deviceByte c = true := by decide
      refine ⟨bytes "msdos" ++ digits, by simp, ?_⟩
      intro c member
      obtain letter | digit := List.mem_append.mp member
      · exact letters c letter
      · exact device c digit

/-! ### Tokens and parts -/

/-- How a token ends, as text. -/
def TokenEnd.text : TokenEnd → Str
  | .done => []
  | .more src => 44 :: src

/-- A token ends at the end of the name, inside brackets at the closing one, or
at a comma. -/
theorem parseToken_cases {brackets first : Bool} {src : Str} {token : Buf 16} {after : TokenEnd}
    (parsed : parseToken brackets first src = some (token, after)) :
    ∃ rest, tokenText first src = some (token, rest) ∧
      ((after = .done ∧ brackets = false ∧ rest = []) ∨
        (after = .done ∧ brackets = true ∧ ∃ tail, rest = 41 :: tail) ∨
        ∃ tail, after = .more tail ∧ rest = 44 :: tail) := by
  unfold parseToken at parsed
  split at parsed
  next => cases parsed
  next token' rest taken =>
    split at parsed
    next ended =>
      cases parsed
      refine ⟨rest, taken, ?_⟩
      cases brackets with
      | false => exact .inl ⟨rfl, rfl, by simpa using ended⟩
      | true =>
        have close : rest.head? = some 41 := by simpa using ended
        exact .inr (.inl ⟨rfl, rfl, List.head?_eq_some_iff.mp close⟩)
    next =>
      split at parsed
      next comma =>
        cases parsed
        obtain ⟨tail, rfl⟩ := List.head?_eq_some_iff.mp (beq_iff_eq.mp comma)
        exact ⟨_, taken, .inr (.inr ⟨tail, rfl, rfl⟩)⟩
      next => cases parsed

theorem parseToken_unbracketed {first : Bool} {src : Str} {token : Buf 16} {after : TokenEnd}
    (parsed : parseToken false first src = some (token, after)) :
    tokenText first src = some (token, after.text) := by
  obtain ⟨rest, taken, ⟨rfl, -, rfl⟩ | ⟨-, bracketed, -⟩ | ⟨tail, rfl, rfl⟩⟩ := parseToken_cases parsed
  · exact taken
  · cases bracketed
  · exact taken

/-- One, two or three parts. -/
theorem parseParts_cases {brackets : Bool} {dest gdev : KlGdev} {src : Str}
    (parsed : parseParts brackets dest src = some gdev) :
    (∃ p1, parseToken brackets true src = some (p1, .done) ∧ gdev = { dest with p1 := p1 }) ∨
      (∃ p1 p2 src2, parseToken brackets true src = some (p1, .more src2) ∧
        parseToken brackets false src2 = some (p2, .done) ∧
        gdev = { dest with p1 := p1, p2 := p2 }) ∨
      ∃ p1 p2 p3 src2 src3, parseToken brackets true src = some (p1, .more src2) ∧
        parseToken brackets false src2 = some (p2, .more src3) ∧
        parseToken brackets false src3 = some (p3, .done) ∧
        gdev = { dest with p1 := p1, p2 := p2, p3 := p3 } := by
  unfold parseParts at parsed
  split at parsed
  next => cases parsed
  next p1 one => exact .inl ⟨p1, one, (Option.some.inj parsed).symm⟩
  next p1 src2 one =>
    right
    split at parsed
    next => cases parsed
    next p2 two => exact .inl ⟨p1, p2, src2, one, two, (Option.some.inj parsed).symm⟩
    next p2 src3 two =>
      split at parsed
      next p3 three =>
        exact .inr ⟨p1, p2, p3, src2, src3, one, two, three, (Option.some.inj parsed).symm⟩
      next => cases parsed

/-! ### Brackets -/

/-- What follows a token when the closing bracket and more text come after it. -/
def TokenEnd.bracketed (tail : Str) : TokenEnd → TokenEnd
  | .done => .done
  | .more src => .more (src ++ 41 :: tail)

def TokenEnd.rest : TokenEnd → Str
  | .done => []
  | .more src => src

theorem parseToken_bracketed (first : Bool) (src tail : Str) (token : Buf 16) (after : TokenEnd)
    (parsed : parseToken false first src = some (token, after)) :
    parseToken true first (src ++ 41 :: tail) = some (token, after.bracketed tail) := by
  -- the bracket is no digit, so that the token ends where it ended before
  have stop : ∀ c ∈ (41 :: tail).head?, isdigit c = false := by
    simp only [List.head?_cons, Option.mem_def, Option.some.injEq, forall_eq']
    decide
  have taken := tokenText_append first src token _ (41 :: tail) (parseToken_unbracketed parsed) stop
  cases after with
  | done =>
    simp only [parseToken, taken]
    rfl
  | more src2 =>
    simp only [parseToken, taken]
    rfl

/-- Without brackets a token and what follows it take up the whole text, apart
from a comma. -/
theorem parseToken_bytes (first : Bool) (src : Str) (token : Buf 16) (after : TokenEnd)
    (parsed : parseToken false first src = some (token, after))
    (more : ∀ c ∈ after.rest, deviceByte c = true) : ∀ c ∈ src, deviceByte c = true := by
  obtain ⟨used, rfl, device⟩ := tokenText_bytes first src token _ (parseToken_unbracketed parsed)
  intro c member
  obtain taken | behind := List.mem_append.mp member
  · exact device c taken
  · cases after with
    | done => cases behind
    | more src2 =>
      obtain rfl | later := List.mem_cons.mp behind
      · rfl
      · exact more c later

/-- The parts of a device name read the same inside brackets. -/
theorem parseParts_bracketed (dest gdev : KlGdev) (src tail : Str)
    (parsed : parseParts false dest src = some gdev) :
    parseParts true dest (src ++ 41 :: tail) = some gdev := by
  obtain ⟨p1, one, rfl⟩ | ⟨p1, p2, src2, one, two, rfl⟩ |
    ⟨p1, p2, p3, src2, src3, one, two, three, rfl⟩ := parseParts_cases parsed
  · have one := parseToken_bracketed true src tail _ _ one
    simp only [parseParts, one, TokenEnd.bracketed]
  · have one := parseToken_bracketed true src tail _ _ one
    have two := parseToken_bracketed false src2 tail _ _ two
    simp only [parseParts, one, two, TokenEnd.bracketed]
  · have one := parseToken_bracketed true src tail _ _ one
    have two := parseToken_bracketed false src2 tail _ _ two
    have three := parseToken_bracketed false src3 tail _ _ three
    simp only [parseParts, one, two, three, TokenEnd.bracketed]

theorem parseParts_bytes (dest gdev : KlGdev) (src : Str)
    (parsed : parseParts false dest src = some gdev) : ∀ c ∈ src, deviceByte c = true := by
  have nothing : ∀ c ∈ TokenEnd.done.rest, deviceByte c = true := fun c member => by cases member
  obtain ⟨p1, one, -⟩ | ⟨p1, p2, src2, one, two, -⟩ |
    ⟨p1, p2, p3, src2, src3, one, two, three, -⟩ := parseParts_cases parsed
  · exact parseToken_bytes true src _ _ one nothing
  · have second := parseToken_bytes false src2 _ _ two nothing
    exact parseToken_bytes true src _ _ one second
  · have third := parseToken_bytes false src3 _ _ three nothing
    have second := parseToken_bytes false src2 _ _ two third
    exact parseToken_bytes true src _ _ one second

/-- A device name without brackets that `parse_gdev` accepts: its bytes, and
what it is in brackets. -/
theorem parseGdev_bare (name : Str) (gdev : KlGdev) (bare : name.head? ≠ some 40)
    (accepted : parseGdev name = some gdev) :
    (∀ c ∈ name, deviceByte c = true) ∧ parseGdev (40 :: (name ++ [41])) = some gdev := by
  have unbracketed : (name.head? == some 40) = false := by simpa using bare
  simp only [parseGdev, unbracketed, Bool.false_eq_true, if_false] at accepted
  split at accepted
  next kind =>
    have letters : (∀ c ∈ bytes "fd", deviceByte c = true) ∧ ∀ c ∈ bytes "hd", deviceByte c = true := by
      decide
    -- the letters of the kind stay in front, the parts are read in brackets
    have device := parseParts_bytes _ _ _ accepted
    have bracketed := parseParts_bracketed _ _ _ [] accepted
    obtain ⟨parts, rfl⟩ | ⟨parts, rfl⟩ := kind
    · constructor
      · intro c member
        obtain letter | part := List.mem_append.mp member
        · exact letters.1 c letter
        · exact device c part
      · exact bracketed
    · constructor
      · intro c member
        obtain letter | part := List.mem_append.mp member
        · exact letters.2 c letter
        · exact device c part
      · exact bracketed
  next => cases accepted

/-! ### A short spelling -/

/-- Fifteen bytes are enough for a token: its field holds no more. -/
theorem tokenText_short (first : Bool) (src : Str) (token : Buf 16) (rest : Str)
    (taken : tokenText first src = some (token, rest)) :
    ∃ used : Str, used.length ≤ 15 ∧ ∀ tail : Str, (∀ c ∈ tail.head?, isdigit c = false) →
      tokenText first (used ++ tail) = some (token, tail) := by
  obtain ⟨c, rfl, lower, rfl, rfl⟩ | ⟨digits, nonempty, all, ends, rfl, shape⟩ :=
    tokenText_cases first src token rest taken
  · exact ⟨[c], by simp, fun tail _ => tokenText_letter c tail lower⟩
  · refine ⟨digits.take 15, List.length_take_le _ _, fun tail stop => ?_⟩
    have same : (strlcpy (digits.take 15) : Buf 16) = strlcpy digits :=
      Buf.eq_of_str (by simp [List.take_take])
    rw [← same]
    apply tokenText_digits first (digits.take 15) tail _ _ stop
    · simpa using nonempty
    · exact fun c member => all c (List.mem_of_mem_take member)

theorem parseToken_short (first : Bool) (src : Str) (token : Buf 16) (after : TokenEnd)
    (parsed : parseToken false first src = some (token, after)) :
    ∃ used : Str, used.length ≤ 15 ∧ ∀ next : TokenEnd,
      parseToken false first (used ++ next.text) = some (token, next) := by
  obtain ⟨used, short, reads⟩ := tokenText_short first src token _ (parseToken_unbracketed parsed)
  refine ⟨used, short, fun next => ?_⟩
  cases next with
  | done =>
    have taken := reads [] (by simp)
    simp only [parseToken, TokenEnd.text, taken]
    rfl
  | more src' =>
    have taken := reads (44 :: src') (by simp; decide)
    simp only [parseToken, TokenEnd.text, taken]
    rfl

theorem parseParts_short (dest gdev : KlGdev) (src : Str)
    (parsed : parseParts false dest src = some gdev) :
    ∃ parts : Str, parts.length ≤ 47 ∧ parseParts false dest parts = some gdev := by
  obtain ⟨p1, one, rfl⟩ | ⟨p1, p2, src2, one, two, rfl⟩ |
    ⟨p1, p2, p3, src2, src3, one, two, three, rfl⟩ := parseParts_cases parsed
  · obtain ⟨used, short, reads⟩ := parseToken_short true src _ _ one
    refine ⟨used ++ TokenEnd.done.text, ?_, ?_⟩
    · simp only [TokenEnd.text, List.append_nil]
      omega
    · simp only [parseParts, reads]
  · obtain ⟨used₁, short₁, reads₁⟩ := parseToken_short true src _ _ one
    obtain ⟨used₂, short₂, reads₂⟩ := parseToken_short false src2 _ _ two
    refine ⟨used₁ ++ (TokenEnd.more (used₂ ++ TokenEnd.done.text)).text, ?_, ?_⟩
    · simp only [TokenEnd.text, List.append_nil, List.length_append, List.length_cons]
      omega
    · simp only [parseParts, reads₁, reads₂]
  · obtain ⟨used₁, short₁, reads₁⟩ := parseToken_short true src _ _ one
    obtain ⟨used₂, short₂, reads₂⟩ := parseToken_short false src2 _ _ two
    obtain ⟨used₃, short₃, reads₃⟩ := parseToken_short false src3 _ _ three
    refine ⟨used₁ ++ (TokenEnd.more
      (used₂ ++ (TokenEnd.more (used₃ ++ TokenEnd.done.text)).text)).text, ?_, ?_⟩
    · simp only [TokenEnd.text, List.append_nil, List.length_append, List.length_cons]
      omega
    · simp only [parseParts, reads₁, reads₂, reads₃]

/-- Every device has a spelling without brackets of at most 49 bytes. -/
theorem parseGdev_short (name : Str) (gdev : KlGdev) (bare : name.head? ≠ some 40)
    (accepted : parseGdev name = some gdev) :
    ∃ short : Str, short.length ≤ 49 ∧ short.head? ≠ some 40 ∧ parseGdev short = some gdev := by
  have unbracketed : (name.head? == some 40) = false := by simpa using bare
  simp only [parseGdev, unbracketed, Bool.false_eq_true, if_false] at accepted
  split at accepted
  next kind =>
    obtain ⟨parts, fits, reads⟩ := parseParts_short _ _ _ accepted
    -- the kind is kept, and the parts are written short
    obtain ⟨tail, rfl⟩ | ⟨tail, rfl⟩ := kind
    · refine ⟨bytes "fd" ++ parts, ?_, ?_, reads⟩
      · rw [List.length_append]
        exact Nat.add_le_add_left fits 2
      · show some (102 : UInt8) ≠ some 40
        decide
    · refine ⟨bytes "hd" ++ parts, ?_, ?_, reads⟩
      · rw [List.length_append]
        exact Nat.add_le_add_left fits 2
      · show some (104 : UInt8) ≠ some 40
        decide
  next => cases accepted

/-! ### Looking a device up -/

theorem absoluteMatch_self (gdev : KlGdev) (device : Buf 16) :
    absoluteMatch gdev { gdev with device := device } = true := by
  have self (s : Str) : klStreq s s = true := (klStreq_iff s s).mpr rfl
  simp [absoluteMatch, self]

/-- The first entry that matches decides, whatever is added to the map later. -/
theorem lookupGdev_first {devmap : List KlGdev} {name : Str} {gdev entry : KlGdev}
    (added : List KlGdev) (accepted : parseGdev name = some gdev)
    (first : devmap.find? (absoluteMatch gdev) = some entry) :
    lookupGdev (devmap ++ added) name = some entry.device.str := by
  simp [lookupGdev, accepted, lookupParsed, List.find?_append, first]

/-- Without such an entry a new one for the device itself decides. -/
theorem lookupGdev_new {devmap : List KlGdev} {name : Str} {gdev : KlGdev}
    (device : Buf 16) (added : List KlGdev) (accepted : parseGdev name = some gdev)
    (unmapped : devmap.find? (absoluteMatch gdev) = none) :
    lookupGdev (devmap ++ { gdev with device := device } :: added) name = some device.str := by
  simp [lookupGdev, accepted, lookupParsed, List.find?_append, unmapped, absoluteMatch_self]

end KexecLoader
