import KexecLoader.Console

/-!
# Decoding keys from the queue and from the terminal

Keys are meant to be decoded from one sequence of bytes, however much of it is
in the queue. The theorem at the end says when `console_getchar` does so.
-/
namespace KexecLoader

/-! ### The decoder over one sequence -/

def decodeEscape : List Int → Option (Option Int × List Int)
  | [] => none
  | c :: input =>
    match shortKey c, longKey c with
    | some key, _ => some (some key, input)
    | none, some key =>
      match input with
      | [] => none
      | _ :: input => some (some key, input)
    | none, none => some (none, input)

def decodeAfterEscape : List Int → Option (Option Int × List Int)
  | [] => none
  | c :: input => if c = 0x5B then decodeEscape input else some (some 0x1B, c :: input)

def decodePass : List Int → Option (Option Int × List Int)
  | [] => none
  | c :: input =>
    if c = 0x7F then some (some KEY_BACKSPACE, input)
    else if c = 0x1B then decodeAfterEscape input
    else some (some c, input)

theorem decodeEscape_progress {input rest : List Int} {v : Option Int}
    (passed : decodeEscape input = some (v, rest)) : rest.length < input.length := by
  cases input with
  | nil => cases passed
  | cons c input =>
    simp only [decodeEscape] at passed
    split at passed
    next => cases passed; simp
    next =>
      cases input with
      | nil => cases passed
      | cons b input =>
        cases passed
        simp only [List.length_cons]
        omega
    next => cases passed; simp

theorem decodeAfterEscape_progress {input rest : List Int} {v : Option Int}
    (passed : decodeAfterEscape input = some (v, rest)) : rest.length ≤ input.length := by
  cases input with
  | nil => cases passed
  | cons c input =>
    simp only [decodeAfterEscape] at passed
    split at passed
    next =>
      have := decodeEscape_progress passed
      simp
      omega
    next => cases passed; simp

theorem decodePass_progress {input rest : List Int} {v : Option Int}
    (passed : decodePass input = some (v, rest)) : rest.length < input.length := by
  cases input with
  | nil => cases passed
  | cons c input =>
    simp only [decodePass] at passed
    split at passed
    next => cases passed; simp
    next =>
      split at passed
      next => exact Nat.lt_succ_of_le (decodeAfterEscape_progress passed)
      next => cases passed; simp

def keyDecoder : Decoder (List Int) Int where
  pass := decodePass
  size := List.length
  progress := decodePass_progress

/-! ### When one pass agrees -/

/-- A long key whose third byte is queued has its fourth byte in the terminal,
and a lone escape has no second byte queued behind it. The bytes that would be
mistaken for each other are equal otherwise. -/
structure CleanPass (s : Console) : Prop where
  long_key : ∀ x rest, s.getcBuf = 0x1B :: 0x5B :: x :: rest → (longKey x).isSome →
    rest = [] ∨ ∃ b, s.stdin.head? = some b ∧ ∀ r ∈ rest, r = byteValue b
  lone_escape : ∀ c rest, s.getcBuf = 0x1B :: c :: rest → c ≠ 0x5B → ∀ r ∈ rest, r = c

/-- Taking the first byte instead of the last makes no difference only if all of
them are equal. -/
theorem concat_eq_cons_iff (first last : Int) (rest : List Int) :
    rest ++ [last] = first :: rest ↔ ∀ r ∈ first :: rest, r = last := by
  induction rest generalizing first with
  | nil => simp [eq_comm]
  | cons r rest ih =>
    have tail := ih r
    simp only [List.mem_cons, forall_eq_or_imp, List.cons_append, List.cons.injEq] at tail ⊢
    constructor
    · rintro ⟨rfl, same⟩
      exact ⟨(tail.mp same).1, tail.mp same⟩
    · rintro ⟨rfl, rfl, all⟩
      exact ⟨rfl, tail.mpr ⟨rfl, all⟩⟩

theorem shortKey_of_longKey {c key : Int} (long : longKey c = some key) : shortKey c = none := by
  unfold longKey at long
  split_ifs at long <;> subst_vars <;> rfl

/-- With nothing queued the switch reads one sequence. -/
theorem escapeKey_terminal (stdin : Str) (room : ([] : List Int).length ≤ GETC_SIZE) :
    (escapeKey ⟨[], stdin, room⟩).map (fun r => (r.1, r.2.unread)) =
      decodeEscape (stdin.map byteValue) := by
  cases stdin with
  | nil => rfl
  | cons c stdin =>
    simp only [escapeKey, getcharCbuf_terminal, Option.bind_some, List.map_cons, decodeEscape]
    cases shortKey (byteValue c) with
    | some key => rfl
    | none =>
      cases longKey (byteValue c) with
      | none => rfl
      | some key => cases stdin <;> rfl

/-- With the third byte queued a long key must find its fourth in the terminal. -/
theorem escapeKey_queued (x : Int) (rest : List Int) (stdin : Str)
    (room : (x :: rest).length ≤ GETC_SIZE) :
    (escapeKey ⟨x :: rest, stdin, room⟩).map (fun r => (r.1, r.2.unread)) =
        decodeEscape (x :: (rest ++ stdin.map byteValue)) ↔
      ((longKey x).isSome → rest = [] ∨
        ∃ b, stdin.head? = some b ∧ ∀ r ∈ rest, r = byteValue b) := by
  simp only [escapeKey, getcharCbuf_queued, Option.bind_some, decodeEscape]
  cases long : longKey x with
  | none => cases shortKey x <;> simp [Console.unread]
  | some key =>
    simp only [shortKey_of_longKey long, Option.isSome_some, true_implies]
    cases stdin with
    | nil => cases rest <;> simp
    | cons b stdin =>
      cases rest with
      | nil => simp
      | cons r rest =>
        have shift : r :: (rest ++ stdin.map byteValue) =
            rest ++ byteValue b :: stdin.map byteValue ↔ rest ++ [byteValue b] = r :: rest := by
          rw [← List.cons_append, List.append_cons rest, List.append_left_inj, eq_comm]
        simp [shift, concat_eq_cons_iff]

theorem afterEscape_terminal (stdin : Str) (room : ([] : List Int).length ≤ GETC_SIZE) :
    (afterEscape ⟨[], stdin, room⟩).map (fun r => (r.1, r.2.unread)) =
      decodeAfterEscape (stdin.map byteValue) := by
  cases stdin with
  | nil => rfl
  | cons c stdin =>
    simp only [afterEscape, getcharCbuf_terminal, Option.bind_some, List.map_cons,
      decodeAfterEscape]
    split
    next => exact escapeKey_terminal stdin room
    next => rfl

/-- The byte behind a lone escape is put back at the end of the queue. -/
theorem afterEscape_queued (c : Int) (rest : List Int) (stdin : Str)
    (room : (c :: rest).length ≤ GETC_SIZE) (lone : c ≠ 0x5B) :
    (afterEscape ⟨c :: rest, stdin, room⟩).map (fun r => (r.1, r.2.unread)) =
        decodeAfterEscape (c :: (rest ++ stdin.map byteValue)) ↔ ∀ r ∈ rest, r = c := by
  -- taking the byte made the room that putting it back needs
  have short : rest.length < GETC_SIZE := by
    simp only [List.length_cons] at room
    omega
  have put_back : (afterEscape ⟨c :: rest, stdin, room⟩).map (fun r => (r.1, r.2.unread)) =
      some (some 0x1B, rest ++ [c] ++ stdin.map byteValue) := by
    simp [afterEscape, lone, Console.getcPush, short, Console.unread]
  have decoded : decodeAfterEscape (c :: (rest ++ stdin.map byteValue)) =
      some (some 0x1B, c :: rest ++ stdin.map byteValue) := by
    simp [decodeAfterEscape, lone]
  rw [put_back, decoded]
  simp only [Option.some.injEq, Prod.mk.injEq, true_and, List.append_left_inj,
    concat_eq_cons_iff, List.mem_cons, forall_eq_or_imp]

theorem agrees_iff (s : Console) :
    consoleGetchar.Agrees keyDecoder Console.unread s ↔ CleanPass s := by
  obtain ⟨queue, stdin, room⟩ := s
  unfold Decoder.Agrees
  simp only [consoleGetchar, keyDecoder, Console.unread_mk]
  cases queue with
  | nil =>
    -- nothing is queued, so that the terminal is the one sequence
    refine iff_of_true ?_ ⟨by simp, by simp⟩
    cases stdin with
    | nil => rfl
    | cons c stdin =>
      simp only [consoleGetcharPass, getcharCbuf_terminal, Option.bind_some, List.nil_append,
        List.map_cons, decodePass]
      split_ifs
      · rfl
      · exact afterEscape_terminal stdin room
      · rfl
  | cons c queue =>
    by_cases escape : c = 0x1B
    · subst escape
      cases queue with
      | nil =>
        -- the queue ends behind the escape: the rest is read from the terminal
        refine iff_of_true ?_ ⟨by simp, by simp⟩
        exact afterEscape_terminal stdin (Nat.zero_le _)
      | cons b rest =>
        by_cases bracket : b = 0x5B
        · subst bracket
          cases rest with
          | nil =>
            refine iff_of_true ?_ ⟨by simp, by simp⟩
            exact escapeKey_terminal stdin (Nat.zero_le _)
          | cons x rest =>
            -- the third byte is queued: a long key looks for its fourth in the terminal
            apply (escapeKey_queued x rest stdin (by simp at room ⊢; omega)).trans
            constructor
            · intro clean
              constructor
              · rintro x rest ⟨⟩
                exact clean
              · rintro c rest ⟨⟩ lone
                exact absurd rfl lone
            · exact fun clean => clean.long_key x rest rfl
        · -- a lone escape, and a byte to put back
          apply (afterEscape_queued b rest stdin (Nat.le_of_succ_le room) bracket).trans
          constructor
          · intro same
            constructor
            · rintro x rest ⟨⟩
              exact absurd rfl bracket
            · rintro c rest ⟨⟩ _
              exact same
          · exact fun clean => clean.lone_escape b rest rfl bracket
    · -- only an escape makes a pass read further
      refine iff_of_true ?_ ⟨by simp [escape], by simp [escape]⟩
      by_cases backspace : c = 0x7F <;>
        simp [consoleGetcharPass, decodePass, backspace, escape]

/-- A pass that does not agree ends its call, and so does the one it is compared
with. -/
theorem disagreement_shows (s : Console)
    (differs : ¬ consoleGetchar.Agrees keyDecoder Console.unread s) :
    (∀ s', consoleGetchar.pass s ≠ some (none, s')) ∧
      ∃ v t, keyDecoder.pass s.unread = some (some v, t) := by
  obtain ⟨queue, stdin, room⟩ := s
  rw [agrees_iff] at differs
  simp only [consoleGetchar, keyDecoder, Console.unread_mk]
  by_cases long : ∃ x rest key, queue = 0x1B :: 0x5B :: x :: rest ∧ longKey x = some key ∧ rest ≠ []
  · obtain ⟨x, rest, key, rfl, long, queued⟩ := long
    obtain ⟨r, rest, rfl⟩ := List.exists_cons_of_ne_nil queued
    have short := shortKey_of_longKey long
    constructor
    · -- with the terminal empty the pass waits, else it returns the key
      cases stdin <;>
        simp [consoleGetcharPass, afterEscape, escapeKey, short, long]
    · exact ⟨key, rest ++ stdin.map byteValue, by
        simp [decodePass, decodeAfterEscape, decodeEscape, short, long]⟩
  · by_cases lone : ∃ c rest, queue = 0x1B :: c :: rest ∧ c ≠ 0x5B
    · obtain ⟨c, rest, rfl, bracket⟩ := lone
      constructor
      · simp [consoleGetcharPass, afterEscape, bracket]
      · exact ⟨0x1B, c :: (rest ++ stdin.map byteValue), by
          simp [decodePass, decodeAfterEscape, bracket]⟩
    · -- neither kind of queue: the pass was clean after all
      refine absurd ⟨?_, ?_⟩ differs
      · rintro x rest rfl isLong
        obtain ⟨key, isKey⟩ := Option.isSome_iff_exists.mp isLong
        by_cases empty : rest = []
        · exact .inl empty
        · exact absurd ⟨x, rest, key, rfl, isKey, empty⟩ long
      · rintro c rest rfl bracket
        exact absurd ⟨c, rest, rfl, bracket⟩ lone

/-! ### With an empty queue -/

theorem getcharCbuf_queue {s s' : Console} {c : Int} (taken : getcharCbuf s = some (c, s')) :
    s'.getcBuf = s.getcBuf.tail := by
  obtain ⟨queue, stdin, room⟩ := s
  cases queue with
  | cons c queue => cases taken; rfl
  | nil => cases stdin <;> cases taken; rfl

theorem getchar_queue {s s' : Console} {c : UInt8} (taken : getchar s = some (c, s')) :
    s'.getcBuf = s.getcBuf := by
  obtain ⟨queue, stdin, room⟩ := s
  cases stdin <;> cases taken
  rfl

theorem escapeKey_queue {s s' : Console} {v : Option Int} (empty : s.getcBuf = [])
    (passed : escapeKey s = some (v, s')) : s'.getcBuf = [] := by
  obtain ⟨⟨c, s₁⟩, taken, rest⟩ := Option.bind_eq_some_iff.mp passed
  have first : s₁.getcBuf = [] := by rw [getcharCbuf_queue taken, empty]; rfl
  simp only at rest
  split at rest
  next =>
    cases rest
    exact first
  next =>
    -- the fourth byte of a long key comes from the terminal and leaves the queue alone
    obtain ⟨⟨b, s₂⟩, more, same⟩ := Option.map_eq_some_iff.mp rest
    obtain rfl : s₂ = s' := congrArg Prod.snd same
    rw [getchar_queue more, first]
  next =>
    cases rest
    exact first

theorem afterEscape_queue {s s' : Console} {v : Option Int} (empty : s.getcBuf = [])
    (passed : afterEscape s = some (v, s')) : s'.getcBuf.length ≤ 1 := by
  obtain ⟨⟨c, s₁⟩, taken, rest⟩ := Option.bind_eq_some_iff.mp passed
  have first : s₁.getcBuf = [] := by rw [getcharCbuf_queue taken, empty]; rfl
  simp only at rest
  split at rest
  next => simp [escapeKey_queue first rest]
  next =>
    -- the byte behind a lone escape is put back
    cases rest
    unfold Console.getcPush
    split <;> simp [first]

/-- The queue holds at most the byte that was put back. -/
theorem consoleGetchar_queue {s s' : Console} {v : Option Int}
    (short : s.getcBuf.length ≤ 1) (passed : consoleGetchar.pass s = some (v, s')) :
    s'.getcBuf.length ≤ 1 := by
  obtain ⟨⟨c, s₁⟩, taken, rest⟩ := Option.bind_eq_some_iff.mp passed
  have first : s₁.getcBuf = [] := by
    rw [getcharCbuf_queue taken, ← List.length_eq_zero_iff, List.length_tail]
    omega
  simp only at rest
  split at rest
  next =>
    cases rest
    simp [first]
  next =>
    split at rest
    next => exact afterEscape_queue first rest
    next =>
      cases rest
      simp [first]

theorem CleanPass.of_short {s : Console} (short : s.getcBuf.length ≤ 1) : CleanPass s := by
  constructor
  · intro x rest queue
    simp [queue] at short
  · intro c rest queue
    simp [queue] at short

/-- Read from the terminal alone, bytes are decoded as one sequence. -/
theorem trace_terminal (input : Str) :
    consoleGetchar.trace Console.unread ⟨[], input, Nat.zero_le _⟩ =
      keyDecoder.trace id (input.map byteValue) := by
  refine consoleGetchar.trace_eq_of_agrees keyDecoder Console.unread _ fun s reached => ?_
  rw [agrees_iff]
  -- at most one byte is ever queued: the one put back behind a lone escape
  apply CleanPass.of_short
  induction reached with
  | refl => exact Nat.zero_le _
  | tail _ step ih =>
    obtain ⟨v, passed⟩ := step
    exact consoleGetchar_queue ih passed

/-- Whichever part of the input is queued, the calls return the same keys and
leave the same input unread as if all of it came from the terminal, exactly if
every pass that is made is a clean one. -/
theorem consoleGetchar_split_iff (queued typed : Str)
    (room : (queued.map byteValue).length ≤ GETC_SIZE) :
    consoleGetchar.trace Console.unread ⟨queued.map byteValue, typed, room⟩ =
        consoleGetchar.trace Console.unread ⟨[], queued ++ typed, Nat.zero_le _⟩ ↔
      ∀ s, consoleGetchar.Reaches ⟨queued.map byteValue, typed, room⟩ s → CleanPass s := by
  have unread : Console.unread ⟨queued.map byteValue, typed, room⟩ =
      (queued ++ typed).map byteValue := by simp
  rw [trace_terminal, ← unread]
  constructor
  · intro same s reached
    rw [← agrees_iff]
    -- a pass that disagrees returns, so that the traces differ there
    exact consoleGetchar.agrees_of_trace_eq keyDecoder Console.unread disagreement_shows _ same
      s reached
  · intro clean
    refine consoleGetchar.trace_eq_of_agrees keyDecoder Console.unread _ fun s reached => ?_
    rw [agrees_iff]
    exact clean s reached

/-- `ESC [` queued and the rest of the key still to come. -/
theorem consoleGetchar_split_straddling :
    consoleGetchar.trace Console.unread ⟨[0x1B, 0x5B], [0x33, 0x7E, 0x61], by decide⟩ =
        consoleGetchar.trace Console.unread ⟨[], [0x1B, 0x5B, 0x33, 0x7E, 0x61], Nat.zero_le _⟩ ∧
      ∀ s, consoleGetchar.Reaches ⟨[0x1B, 0x5B], [0x33, 0x7E, 0x61], by decide⟩ s → CleanPass s :=
  ⟨by decide,
    (consoleGetchar_split_iff [0x1B, 0x5B] [0x33, 0x7E, 0x61] (by decide)).mp (by decide)⟩

/-- `ESC [ 1 ~ a` queued and `b` still to come: the fourth byte of the home key
is read as a key, and `b` is lost. -/
theorem consoleGetchar_split_differs :
    ¬ ∀ (queued typed : Str) (room : (queued.map byteValue).length ≤ GETC_SIZE),
      (consoleGetchar.trace Console.unread ⟨queued.map byteValue, typed, room⟩).map Prod.fst =
        (consoleGetchar.trace Console.unread ⟨[], queued ++ typed, Nat.zero_le _⟩).map
          Prod.fst := by
  intro claim
  exact absurd (claim [0x1B, 0x5B, 0x31, 0x7E, 0x61] [0x62] (by decide)) (by decide)

end KexecLoader
