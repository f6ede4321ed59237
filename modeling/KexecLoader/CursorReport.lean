import KexecLoader.Console

/-!
# The terminal's answer among typed input

`console_getpos` asks the terminal for the cursor position and looks for the
answer in the input, which may start with bytes the user has typed. The theorem
at the end says which input leaves the answer recognisable.
-/
namespace KexecLoader

/-- The answer of the terminal, `ESC [ row ; col R`. -/
def cursorReport (row col : Nat) : Str :=
  esc :: 0x5B :: (decimal row ++ 59 :: (decimal col ++ [82]))

/-- The bytes that do not end a sequence. -/
def Plain (body : Str) : Prop := ∀ c ∈ body, c ≠ esc ∧ c ≠ 82

/-- Input that leaves an answer after it recognisable: single keys; escapes with
a second byte, so that no lone escape comes last; sequences that the next escape
(of the answer, if nothing else follows) breaks off within 31 bytes; and
sequences up to an R or of 31 bytes that do not start like an answer. -/
inductive Passable : Str → Prop where
  | nil : Passable []
  | key (c : UInt8) (rest : Str) (plain : c ≠ esc) (then_ : Passable rest) : Passable (c :: rest)
  | escape (c : UInt8) (rest : Str) (other : c ≠ 0x5B) (then_ : Passable rest) :
    Passable (esc :: c :: rest)
  | brokenOff (body rest : Str) (plain : Plain body) (short : body.length < 31)
    (next : ∀ c ∈ rest.head?, c = esc) (then_ : Passable rest) :
    Passable (esc :: 0x5B :: (body ++ rest))
  | ended (body rest : Str) (plain : Plain body) (short : body.length < 31)
    (other : scanReport (body ++ [82]) = none) (then_ : Passable rest) :
    Passable (esc :: 0x5B :: (body ++ 82 :: rest))
  | full (body rest : Str) (plain : Plain body) (long : body.length = 31)
    (other : scanReport body = none) (then_ : Passable rest) :
    Passable (esc :: 0x5B :: (body ++ rest))

/-! ### Single rounds -/

section
variable {s : Console}

theorem getchar_cons {c : UInt8} {rest : Str} (waiting : s.stdin = c :: rest) :
    getchar s = some (c, { s with stdin := rest }) := by
  simp [getchar, waiting]

/-- Bytes that do not end the sequence are stored one by one. -/
theorem readReport_plain (body more : Str) (room : Nat) (plain : Plain body)
    (waiting : s.stdin = body ++ more) :
    readReport (body.length + room) s =
      (readReport room { s with stdin := more }).map fun (tbuf, ended, s) =>
        (body ++ tbuf, ended, s) := by
  induction body generalizing s with
  | nil =>
    have same : s = { s with stdin := more } := Console.eq_of_fields rfl waiting
    simp only [List.length_nil, Nat.zero_add, List.nil_append, ← same]
    simp
  | cons c body ih =>
    -- a plain byte takes one place of the buffer, and the loop goes on
    have here := plain c (by simp)
    have rest := @ih { s with stdin := body ++ more } (fun c member => plain c (by simp [member])) rfl
    rw [List.length_cons, Nat.add_right_comm, readReport, getchar_cons waiting]
    simp [here.1, here.2, rest, Option.map_map, Function.comp_def]

theorem readReport_brokenOff (body rest : Str) (plain : Plain body) (short : body.length < 31)
    (waiting : s.stdin = body ++ esc :: rest) :
    readReport 31 s = some (body, false, { s with stdin := esc :: rest }) := by
  obtain ⟨room, fits⟩ : ∃ room, 31 = body.length + (room + 1) := ⟨30 - body.length, by omega⟩
  rw [fits, readReport_plain body (esc :: rest) (room + 1) plain waiting, readReport,
    getchar_cons rfl]
  simp [Console.ungetc]

theorem readReport_ended (body rest : Str) (plain : Plain body) (short : body.length < 31)
    (waiting : s.stdin = body ++ 82 :: rest) :
    readReport 31 s = some (body ++ [82], true, { s with stdin := rest }) := by
  obtain ⟨room, fits⟩ : ∃ room, 31 = body.length + (room + 1) := ⟨30 - body.length, by omega⟩
  have not_esc : (82 : UInt8) ≠ esc := by decide
  rw [fits, readReport_plain body (82 :: rest) (room + 1) plain waiting, readReport,
    getchar_cons rfl]
  simp [not_esc]

theorem readReport_full (body rest : Str) (plain : Plain body) (long : body.length = 31)
    (waiting : s.stdin = body ++ rest) :
    readReport 31 s = some (body, true, { s with stdin := rest }) := by
  rw [← long, ← Nat.add_zero body.length, readReport_plain body rest 0 plain waiting, readReport]
  simp

theorem call_of_continue {s' : Console} (passed : consoleGetposPass s = some (none, s')) :
    consoleGetpos.call s = consoleGetpos.call s' := by
  rw [Decoder.call_pass]
  simp only [consoleGetpos, passed]

theorem call_key {c : UInt8} {rest : Str} (plain : c ≠ esc) (waiting : s.stdin = c :: rest) :
    consoleGetpos.call s =
      consoleGetpos.call (Console.pushAll { s with stdin := rest } [byteValue c]) := by
  apply call_of_continue
  rw [consoleGetposPass, getchar_cons waiting]
  simp [plain, Console.pushAll]

theorem call_escape {c : UInt8} {rest : Str} (other : c ≠ 0x5B)
    (waiting : s.stdin = esc :: c :: rest) :
    consoleGetpos.call s =
      consoleGetpos.call
        (Console.pushAll { s with stdin := rest } [byteValue esc, byteValue c]) := by
  apply call_of_continue
  rw [consoleGetposPass, getchar_cons waiting]
  simp only [Option.bind_some, if_true]
  rw [getchar_cons rfl]
  simp only [Option.bind_some, other, if_false]
  rfl

/-- A sequence that is not taken for an answer is kept. -/
theorem call_sequence {before after tbuf : Str} {ended : Bool}
    (waiting : s.stdin = esc :: 0x5B :: before)
    (read : readReport 31 { s with stdin := before } =
      some (tbuf, ended, { s with stdin := after }))
    (other : (if ended then scanReport tbuf else none) = none) :
    consoleGetpos.call s = consoleGetpos.call
      (Console.pushAll { s with stdin := after } (0x1B :: 0x5B :: tbuf.map charValue)) := by
  apply call_of_continue
  rw [consoleGetposPass, getchar_cons waiting]
  simp only [Option.bind_some, if_true]
  rw [getchar_cons rfl]
  simp [afterBracket, read, other]

/-- Anything that starts like an answer ends the call. -/
theorem call_answer {before after tbuf : Str} {row col : Int}
    (waiting : s.stdin = esc :: 0x5B :: before)
    (read : readReport 31 { s with stdin := before } =
      some (tbuf, true, { s with stdin := after }))
    (answer : scanReport tbuf = some (row, col)) :
    consoleGetpos.call s = some ((col - 1, row - 1), { s with stdin := after }) := by
  have passed : consoleGetposPass s =
      some (some (col - 1, row - 1), { s with stdin := after }) := by
    rw [consoleGetposPass, getchar_cons waiting]
    simp only [Option.bind_some, if_true]
    rw [getchar_cons rfl]
    simp [afterBracket, read, answer]
  rw [Decoder.call_pass]
  simp only [consoleGetpos, passed]

end

/-! ### The answer -/

theorem decimal_not_special (n : Nat) : ∀ c ∈ decimal n, c ≠ esc ∧ c ≠ 82 ∧ c ≠ 0 := by
  intro c member
  have digit := isDigitOf_isdigit (numeralDigits_isDigitOf (by decide) (Nat.le_refl 10) n c member)
  rw [isdigit_iff] at digit
  refine ⟨?_, ?_, ?_⟩ <;>
  · rintro rfl
    exact absurd digit (by decide)

theorem report_body (row col : Nat) :
    Plain (decimal row ++ 59 :: decimal col) ∧ 0 ∉ decimal row ++ 59 :: decimal col := by
  constructor
  · intro c member
    obtain member | rfl | member : c ∈ decimal row ∨ c = 59 ∨ c ∈ decimal col := by
      simpa using member
    · exact ⟨(decimal_not_special row c member).1, (decimal_not_special row c member).2.1⟩
    · decide
    · exact ⟨(decimal_not_special col c member).1, (decimal_not_special col c member).2.1⟩
  · intro member
    obtain member | member : 0 ∈ decimal row ∨ 0 ∈ decimal col := by simpa using member
    · exact (decimal_not_special row 0 member).2.2 rfl
    · exact (decimal_not_special col 0 member).2.2 rfl

theorem scanReport_answer (row col : Nat) (row_int : row < 2 ^ 31) (col_int : col < 2 ^ 31) :
    scanReport (decimal row ++ 59 :: decimal col ++ [82]) = some ((row : Int), (col : Int)) := by
  have whole : cstr (decimal row ++ 59 :: decimal col ++ [82]) =
      decimal row ++ 59 :: (decimal col ++ [82]) := by
    rw [cstr_of_no_nul]
    · simp
    · have := (report_body row col).2
      simp only [List.mem_append, not_or] at this ⊢
      exact ⟨this, by decide⟩
  have first := scanInt_decimal row (59 :: (decimal col ++ [82]))
    (fun c head => by cases head; decide) row_int
  have second := scanInt_decimal col [82] (by decide) col_int
  rw [scanReport, whole, first]
  simp only [Option.bind_some, second, Option.map_some]

/-- With nothing before it the answer is recognised. -/
theorem call_cursorReport {s : Console} (row col : Nat) (rest : Str) (row_int : row < 2 ^ 31)
    (col_int : col < 2 ^ 31) (waiting : s.stdin = cursorReport row col ++ rest) :
    consoleGetpos.call s = some (((col : Int) - 1, (row : Int) - 1), { s with stdin := rest }) := by
  have row_digits : (decimal row).length ≤ 10 :=
    length_numeralDigits_le (by decide) (by decide) (Nat.lt_trans row_int (by decide))
  have col_digits : (decimal col).length ≤ 10 :=
    length_numeralDigits_le (by decide) (by decide) (Nat.lt_trans col_int (by decide))
  have waiting : s.stdin = esc :: 0x5B :: ((decimal row ++ 59 :: decimal col) ++ 82 :: rest) := by
    simpa [cursorReport] using waiting
  exact call_answer waiting
    (readReport_ended _ rest (report_body row col).1 (by simp; omega) rfl)
    (scanReport_answer row col row_int col_int)

/-! ### Input before the answer -/

/-- The call goes on behind the input and has kept all of it. -/
def Skips (s : Console) (typed tail : Str) : Prop :=
  ∃ s', consoleGetpos.call s = consoleGetpos.call s' ∧
    s'.getcBuf = s.getcBuf ++ typed.map byteValue ∧ s'.stdin = tail

section
variable {s : Console} (used rest tail : Str)
  (fits : s.getcBuf.length + (used ++ rest).length ≤ GETC_SIZE)
  (later : ∀ s' : Console, s'.stdin = rest ++ tail →
    s'.getcBuf.length + rest.length ≤ GETC_SIZE → Skips s' rest tail)
include fits later

theorem skips_append (first : consoleGetpos.call s = consoleGetpos.call
      (Console.pushAll { s with stdin := rest ++ tail } (used.map byteValue))) :
    Skips s (used ++ rest) tail := by
  rw [List.length_append, ← Nat.add_assoc] at fits
  -- there is room for the bytes used, so that none of them is dropped
  have queue := Console.pushAll_queue { s with stdin := rest ++ tail } (used.map byteValue)
    (by rw [List.length_map]; exact Nat.le_of_add_right_le fits)
  obtain ⟨s', same, queue', stdin⟩ := later _ (Console.pushAll_stdin _ _)
    (by rw [queue, List.length_append, List.length_map]; exact fits)
  refine ⟨s', first.trans same, ?_, stdin⟩
  rw [queue', queue, List.map_append, List.append_assoc]

theorem skips_sequence (tbuf before : Str) (ended : Bool) (sequence : used = esc :: 0x5B :: tbuf)
    (ascii : ∀ c ∈ tbuf, c < 128) (waiting : s.stdin = esc :: 0x5B :: before)
    (read : readReport 31 { s with stdin := before } =
      some (tbuf, ended, { s with stdin := rest ++ tail }))
    (other : (if ended then scanReport tbuf else none) = none) : Skips s (used ++ rest) tail := by
  have kept : used.map byteValue = 0x1B :: 0x5B :: tbuf.map charValue := by
    have same : tbuf.map charValue = tbuf.map byteValue :=
      List.map_congr_left fun c member => by simp [charValue, byteValue, ascii c member]
    rw [sequence, same]
    rfl
  apply skips_append used rest tail fits later
  rw [kept]
  exact call_sequence waiting read other

end

/-- Passable input is skipped and kept. -/
theorem Passable.skips {typed : Str} (passable : Passable typed) (tail : Str)
    (answer : tail.head? = some esc) (ascii : ∀ c ∈ typed, c < 128) (s : Console)
    (waiting : s.stdin = typed ++ tail)
    (fits : s.getcBuf.length + typed.length ≤ GETC_SIZE) : Skips s typed tail := by
  induction passable generalizing s with
  | nil => exact ⟨s, rfl, by simp, waiting⟩
  | key c rest plain _ ih =>
    exact skips_append [c] rest tail fits (ih fun c member => ascii c (by simp [member]))
      (call_key plain waiting)
  | escape c rest other _ ih =>
    exact skips_append [esc, c] rest tail fits (ih fun c member => ascii c (by simp [member]))
      (call_escape other waiting)
  | brokenOff body rest plain short next _ ih =>
    -- the escape that breaks the sequence off is the next one typed or the answer's
    obtain ⟨more, broken⟩ : ∃ more, rest ++ tail = esc :: more := by
      cases rest with
      | nil => exact List.head?_eq_some_iff.mp answer
      | cons c rest =>
        have first := next c rfl
        exact ⟨rest ++ tail, by rw [first]; rfl⟩
    refine skips_sequence (esc :: 0x5B :: body) rest tail fits
      (ih fun c member => ascii c (by simp [member])) body (body ++ (rest ++ tail)) false rfl
      (fun c member => ascii c (by simp [member])) (by simpa using waiting) ?_ rfl
    rw [broken]
    exact readReport_brokenOff body more plain short rfl
  | ended body rest plain short other _ ih =>
    -- the R at the end belongs to the bytes used
    have split : esc :: 0x5B :: (body ++ 82 :: rest) = (esc :: 0x5B :: (body ++ [82])) ++ rest := by
      simp
    rw [split] at waiting fits ascii ⊢
    exact skips_sequence (esc :: 0x5B :: (body ++ [82])) rest tail fits
      (ih fun c member => ascii c (List.mem_append_right _ member)) (body ++ [82])
      (body ++ 82 :: (rest ++ tail)) true rfl
      (fun c member => ascii c (List.mem_append_left _ (.tail _ (.tail _ member))))
      (by simpa using waiting) (readReport_ended body (rest ++ tail) plain short rfl) other
  | full body rest plain long other _ ih =>
    exact skips_sequence (esc :: 0x5B :: body) rest tail fits
      (ih fun c member => ascii c (by simp [member])) body (body ++ (rest ++ tail)) true rfl
      (fun c member => ascii c (by simp [member])) (by simpa using waiting)
      (readReport_full body (rest ++ tail) plain long rfl) other

/-! ### Input that hides the answer -/

/-- How a sequence goes on: with `n` bytes that do not end it, or with fewer and
one that does. -/
theorem plain_span (n : Nat) (input : Str) :
    ∃ body rest, input = body ++ rest ∧ Plain body ∧ body.length ≤ n ∧
      (body.length = n ∨ ∀ c ∈ rest.head?, c = esc ∨ c = 82) := by
  induction n generalizing input with
  | zero => exact ⟨[], input, rfl, by simp [Plain], by simp, .inl rfl⟩
  | succ n ih =>
    cases input with
    | nil => exact ⟨[], [], rfl, by simp [Plain], by simp, .inr (by simp)⟩
    | cons c input =>
      by_cases ends : c = esc ∨ c = 82
      · exact ⟨[], c :: input, rfl, by simp [Plain], by simp, .inr (by simpa using ends)⟩
      · obtain ⟨body, rest, rfl, plain, short, stop⟩ := ih input
        refine ⟨c :: body, rest, rfl, ?_, by simp; omega, stop.imp_left (by simp)⟩
        intro b member
        obtain rfl | member := List.mem_cons.mp member
        · exact not_or.mp ends
        · exact plain b member

/-- Single keys are skipped, whether the queue has room for them or not. -/
theorem call_keys (keys tail : Str) (plain : ∀ c ∈ keys, c ≠ esc) (s : Console)
    (waiting : s.stdin = keys ++ tail) :
    ∃ s', consoleGetpos.call s = consoleGetpos.call s' ∧ s'.stdin = tail := by
  induction keys generalizing s with
  | nil => exact ⟨s, rfl, waiting⟩
  | cons c keys ih =>
    -- a full queue drops the key, but the input moves on all the same
    obtain ⟨s', same, stdin⟩ := ih (fun c member => plain c (by simp [member])) _
      (Console.pushAll_stdin { s with stdin := keys ++ tail } [byteValue c])
    exact ⟨s', (call_key (plain c (by simp)) waiting).trans same, stdin⟩

/-- What a lone escape directly before the answer leaves of it is skipped. -/
theorem lone_escape_hides (row col : Nat) (rest : Str) (s s' : Console) (v : Int × Int)
    (waiting : s.stdin = esc :: (cursorReport row col ++ rest))
    (called : consoleGetpos.call s = some (v, s')) : s'.stdin ≠ rest := by
  have keys : ∀ c ∈ 0x5B :: (decimal row ++ 59 :: decimal col) ++ [82], c ≠ esc := by
    intro c member
    obtain member | last := List.mem_append.mp member
    · obtain rfl | member := List.mem_cons.mp member
      · decide
      · exact ((report_body row col).1 c member).1
    · obtain rfl := List.mem_singleton.mp last
      decide
  have split : s.stdin = esc :: esc ::
      ((0x5B :: (decimal row ++ 59 :: decimal col) ++ [82]) ++ rest) := by
    simpa [cursorReport] using waiting
  -- the two escapes go together, and without its own the answer is only keys
  rw [call_escape (by decide) split] at called
  obtain ⟨s₂, same, stdin⟩ := call_keys _ rest keys
    (Console.pushAll { s with stdin := _ } [byteValue esc, byteValue esc])
    (Console.pushAll_stdin _ _)
  rw [same] at called
  -- a call takes at least one byte more
  have progress : s'.stdin.length < s₂.stdin.length := consoleGetpos.call_progress s₂ called
  rintro rfl
  rw [stdin] at progress
  exact Nat.lt_irrefl _ progress

/-- A sequence that came to its end is taken for an answer or skipped. -/
theorem call_ended {s : Console} {tbuf before after : Str}
    (waiting : s.stdin = esc :: 0x5B :: before)
    (read : readReport 31 { s with stdin := before } =
      some (tbuf, true, { s with stdin := after })) :
    (∃ v s', consoleGetpos.call s = some (v, s') ∧ s'.stdin = after) ∨
      scanReport tbuf = none ∧
        ∃ s', consoleGetpos.call s = consoleGetpos.call s' ∧ s'.stdin = after := by
  match answer : scanReport tbuf with
  | some (row, col) => exact .inl ⟨_, _, call_answer waiting read answer, rfl⟩
  | none =>
    exact .inr ⟨rfl, _, call_sequence waiting read answer, Console.pushAll_stdin _ _⟩

/-- A sequence in the input ends the call or is skipped. -/
theorem call_bracket (typed tail : Str) (s : Console) (answer : tail.head? = some esc)
    (waiting : s.stdin = esc :: 0x5B :: (typed ++ tail)) :
    (∃ v s' more, consoleGetpos.call s = some (v, s') ∧ s'.stdin = more ++ tail) ∨
      ∃ s' more, consoleGetpos.call s = consoleGetpos.call s' ∧ s'.stdin = more ++ tail ∧
        more.length ≤ typed.length ∧ (Passable more → Passable (esc :: 0x5B :: typed)) := by
  obtain ⟨tail, rfl⟩ := List.head?_eq_some_iff.mp answer
  obtain ⟨body, more, rfl, plain, room, stop⟩ := plain_span 31 typed
  by_cases full : body.length = 31
  · have read := readReport_full (s := { s with stdin := body ++ more ++ esc :: tail }) body
      (more ++ esc :: tail) plain full (List.append_assoc _ _ _)
    obtain ⟨v, s', called, stdin⟩ | ⟨other, s', same, stdin⟩ := call_ended waiting read
    · exact .inl ⟨v, s', more, called, stdin⟩
    · exact .inr ⟨s', more, same, stdin, by simp, .full body more plain full other⟩
  · have short : body.length < 31 := by omega
    have stop := stop.resolve_left full
    -- the sequence breaks off at an escape of the input or at the answer
    have brokenOff (next : ∀ c ∈ more.head?, c = esc) (rest : Str)
        (escape : more ++ esc :: tail = esc :: rest) :
        ∃ s' more', consoleGetpos.call s = consoleGetpos.call s' ∧
          s'.stdin = more' ++ esc :: tail ∧ more'.length ≤ (body ++ more).length ∧
          (Passable more' → Passable (esc :: 0x5B :: (body ++ more))) := by
      have read := readReport_brokenOff (s := { s with stdin := body ++ more ++ esc :: tail }) body
        rest plain short (by rw [List.append_assoc, escape])
      rw [← escape] at read
      exact ⟨_, more, call_sequence waiting read rfl, Console.pushAll_stdin _ _, by simp,
        .brokenOff body more plain short next⟩
    cases more with
    | nil => exact .inr (brokenOff (by simp) tail rfl)
    | cons c more =>
      obtain rfl | rfl := stop c rfl
      · exact .inr (brokenOff (by simp) (more ++ esc :: tail) rfl)
      · have read := readReport_ended (s := { s with stdin := body ++ 82 :: more ++ esc :: tail })
          body (more ++ esc :: tail) plain short (by simp)
        obtain ⟨v, s', called, stdin⟩ | ⟨other, s', same, stdin⟩ := call_ended waiting read
        · exact .inl ⟨v, s', more, called, stdin⟩
        · exact .inr ⟨s', more, same, stdin, by simp; omega,
            .ended body more plain short other⟩

/-- A call that ends right behind the answer has come past passable input. -/
theorem passable_of_call (typed rest : Str) (row col : Nat) (s s' : Console) (v : Int × Int)
    (waiting : s.stdin = typed ++ (cursorReport row col ++ rest))
    (called : consoleGetpos.call s = some (v, s')) (behind : s'.stdin = rest) :
    Passable typed := by
  -- on the length: a sequence leaves a rest that need not be a tail of the list
  induction length : typed.length using Nat.strongRecOn generalizing typed s with
  | _ n ih =>
    subst length
    cases typed with
    | nil => exact .nil
    | cons c typed =>
      by_cases plain : c ≠ esc
      · rw [call_key plain waiting] at called
        exact .key c typed plain
          (ih _ (Nat.lt_succ_self _) typed _ (Console.pushAll_stdin _ _) called rfl)
      · obtain rfl : c = esc := not_not.mp plain
        cases typed with
        | nil =>
          -- the answer's escape would be the second byte of this one
          exact absurd behind (lone_escape_hides row col rest s s' v waiting called)
        | cons c typed =>
          by_cases other : c ≠ 0x5B
          · rw [call_escape other waiting] at called
            have shorter : typed.length < (esc :: c :: typed).length := by
              simp only [List.length_cons]
              omega
            exact .escape c typed other
              (ih _ shorter typed _ (Console.pushAll_stdin _ _) called rfl)
          · obtain rfl : c = 0x5B := not_not.mp other
            obtain ⟨v', s₁, more, early, stdin⟩ | ⟨s₁, more, same, stdin, less, passable⟩ :=
              call_bracket typed (cursorReport row col ++ rest) s rfl waiting
            · -- it would have to have read the answer as well
              rw [called] at early
              cases early
              have lengths := congrArg List.length (behind.symm.trans stdin)
              simp [cursorReport] at lengths
              omega
            · rw [same] at called
              exact passable (ih _ (by simp; omega) more s₁ stdin called rfl)

/-- The call finds the answer: it returns the position, leaves what follows the
answer, and has kept what came before it. -/
def FindsReport (s : Console) (typed rest : Str) (row col : Nat) : Prop :=
  ∃ s', consoleGetpos.call s = some (((col : Int) - 1, (row : Int) - 1), s') ∧
    s'.getcBuf = s.getcBuf ++ typed.map byteValue ∧ s'.stdin = rest

/-- Behind ASCII input that fits into the queue the answer is found exactly if
the input is passable. -/
theorem consoleGetpos_finds_iff (s : Console) (typed rest : Str) (row col : Nat)
    (ascii : ∀ c ∈ typed, c < 128) (fits : s.getcBuf.length + typed.length ≤ GETC_SIZE)
    (row_int : row < 2 ^ 31) (col_int : col < 2 ^ 31)
    (waiting : s.stdin = typed ++ (cursorReport row col ++ rest)) :
    FindsReport s typed rest row col ↔ Passable typed := by
  constructor
  · rintro ⟨s', called, -, behind⟩
    exact passable_of_call typed rest row col s s' _ waiting called behind
  · intro passable
    obtain ⟨s₁, same, queue, stdin⟩ :=
      passable.skips (cursorReport row col ++ rest) rfl ascii s waiting fits
    exact ⟨_, same.trans (call_cursorReport row col rest row_int col_int stdin), queue, rfl⟩

/-- A key and an arrow key are typed before the answer arrives. -/
theorem consoleGetpos_finds_arrow :
    FindsReport ⟨[], [0x61, esc, 0x5B, 0x41] ++ (cursorReport 24 80 ++ []), by decide⟩
      [0x61, esc, 0x5B, 0x41] [] 24 80 :=
  (consoleGetpos_finds_iff _ _ [] 24 80 (by decide) (by decide) (by decide) (by decide) rfl).mpr
    (.key _ _ (by decide) (.brokenOff [0x41] [] (by simp [Plain]; decide) (by decide) (by simp) .nil))

/-- An escape is pressed just before the answer arrives: the answer is not
recognised any more. -/
theorem consoleGetpos_misses :
    ¬ ∀ (s : Console) (typed rest : Str) (row col : Nat),
      (∀ c ∈ typed, c = esc ∨ (0x20 ≤ c ∧ c ≤ 0x7E)) →
      (∀ r c, ¬ cursorReport r c <:+: typed) →
      s.getcBuf.length + typed.length ≤ GETC_SIZE → row < 2 ^ 31 → col < 2 ^ 31 →
      s.stdin = typed ++ (cursorReport row col ++ rest) → FindsReport s typed rest row col := by
  intro claim
  have no_report : ∀ r c, ¬ cursorReport r c <:+: [esc] := fun r c inside => by
    have := inside.length_le
    simp [cursorReport] at this
  obtain ⟨s', called, -, behind⟩ := claim ⟨[], esc :: (cursorReport 1 1 ++ []), by decide⟩
    [esc] [] 1 1 (by simp) no_report (by decide) (by decide) (by decide) rfl
  exact lone_escape_hides 1 1 [] _ s' _ rfl called behind

end KexecLoader
