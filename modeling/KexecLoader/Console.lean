import KexecLoader.Library.Decoder
import KexecLoader.Library.Numeral

/-!
# Keyboard input of console.c

Bytes that `console_getpos` reads while it waits for the terminal's answer are
kept in `getc_buf`, and `console_getchar` takes them from there before it reads
from the terminal. The terminal stays open, so that a read from it waits when
there is no input.
-/
namespace KexecLoader

def GETC_SIZE : Nat := 256

def esc : UInt8 := 27

/-- The queue `getc_buf[0..getc_count)` and the bytes waiting in the terminal. -/
structure Console where
  getcBuf : List Int
  stdin : Str
  room : getcBuf.length ≤ GETC_SIZE

theorem Console.eq_of_fields {a b : Console} (queue : a.getcBuf = b.getcBuf)
    (terminal : a.stdin = b.stdin) : a = b := by
  cases a
  cases b
  simp_all

/-- `getchar()` returns a byte as an `int`. -/
def byteValue (c : UInt8) : Int := c.toNat

/-- All input that is still to be read, in the order it arrived. -/
def Console.unread (s : Console) : List Int := s.getcBuf ++ s.stdin.map byteValue

/-- `GETC_PUSH`. -/
def Console.getcPush (s : Console) (x : Int) : Console :=
  if h : s.getcBuf.length < GETC_SIZE then
    ⟨s.getcBuf ++ [x], s.stdin, by rw [List.length_append]; exact h⟩
  else s

def getchar (s : Console) : Option (UInt8 × Console) :=
  match s.stdin with
  | [] => none
  | c :: stdin => some (c, { s with stdin := stdin })

def getcharCbuf (s : Console) : Option (Int × Console) :=
  match queue : s.getcBuf with
  | [] => (getchar s).map fun (c, s) => (byteValue c, s)
  | c :: rest => some (c, ⟨rest, s.stdin, by have := s.room; simp [queue] at this; omega⟩)

/-! ### console_getchar -/

def KEY_UP : Int := -129
def KEY_DOWN : Int := -130
def KEY_LEFT : Int := -131
def KEY_RIGHT : Int := -132
def KEY_HOME : Int := -133
def KEY_END : Int := -134
def KEY_DEL : Int := -135
def KEY_BACKSPACE : Int := -136

/-- The keys that send three bytes, by the third. -/
def shortKey (c : Int) : Option Int :=
  if c = 0x41 then some KEY_UP
  else if c = 0x42 then some KEY_DOWN
  else if c = 0x43 then some KEY_RIGHT
  else if c = 0x44 then some KEY_LEFT
  else none

/-- The keys that send four bytes, by the third. -/
def longKey (c : Int) : Option Int :=
  if c = 0x31 then some KEY_HOME
  else if c = 0x34 then some KEY_END
  else if c = 0x33 then some KEY_DEL
  else none

/-- The switch after `ESC [`. The fourth byte of a long key is read from the
terminal, and an unknown sequence is taken to have three bytes. -/
def escapeKey (s : Console) : Option (Option Int × Console) :=
  (getcharCbuf s).bind fun (c, s) =>
    match shortKey c, longKey c with
    | some key, _ => some (some key, s)
    -- not getcharCbuf: what is queued is passed over
    | none, some key => (getchar s).map fun (_, s) => (some key, s)
    | none, none => some (none, s)

/-- What follows an escape: a key's sequence, or a byte that is put back. -/
def afterEscape (s : Console) : Option (Option Int × Console) :=
  (getcharCbuf s).bind fun (c, s) =>
    if c = 0x5B then escapeKey s else some (some 0x1B, s.getcPush c)

/-- One round of the loop of `console_getchar`; no key means `continue`. -/
def consoleGetcharPass (s : Console) : Option (Option Int × Console) :=
  (getcharCbuf s).bind fun (c, s) =>
    if c = 0x7F then some (some KEY_BACKSPACE, s)
    else if c = 0x1B then afterEscape s
    else some (some c, s)

/-! ### console_getpos -/

def Console.ungetc (s : Console) (c : UInt8) : Console := { s with stdin := c :: s.stdin }

/-- A `char` of `tbuf` as an `int`; `char` is signed. -/
def charValue (c : UInt8) : Int := if c < 128 then c.toNat else c.toNat - 256

/-- `sscanf(tbuf, "%d;%dR", &row, &col) == 2`: the row and the column. The R
does not count. -/
def scanReport (tbuf : Str) : Option (Int × Int) :=
  (scanInt (cstr tbuf)).bind fun (row, rest) =>
    match rest with
    | 59 :: rest => (scanInt rest).map fun (col, _) => (row, col)
    | _ => none

/-- The loop that fills `tbuf`, with `room` bytes left in it: its content,
whether it came to its end, and the console. An escape breaks it off and is put
back. -/
def readReport : Nat → Console → Option (Str × Bool × Console)
  | 0, s => some ([], true, s)
  | room + 1, s =>
    (getchar s).bind fun (c, s) =>
      if c = esc then some ([], false, s.ungetc c)
      else if c = 82 then some ([c], true, s)
      else (readReport room s).map fun (tbuf, ended, s) => (c :: tbuf, ended, s)

def Console.pushAll (s : Console) (xs : List Int) : Console := xs.foldl Console.getcPush s

/-- What follows `ESC [`: the position, or everything is kept for
`console_getchar`. -/
def afterBracket (s : Console) : Option (Option (Int × Int) × Console) :=
  (readReport 31 s).map fun (tbuf, ended, s) =>
    match (if ended then scanReport tbuf else none) with
    | some (row, col) => (some (col - 1, row - 1), s)
    | none => (none, s.pushAll (0x1B :: 0x5B :: tbuf.map charValue))

/-- One round of the loop of `console_getpos`, which ends with the column and
the row. -/
def consoleGetposPass (s : Console) : Option (Option (Int × Int) × Console) :=
  (getchar s).bind fun (c, s) =>
    if c = esc then
      (getchar s).bind fun (c, s) =>
        if c = 0x5B then afterBracket s else some (none, s.pushAll [0x1B, byteValue c])
    else some (none, s.getcPush (byteValue c))

/-! ### Reading and queueing -/

@[simp] theorem getcharCbuf_queued (c : Int) (rest : List Int) (stdin : Str)
    (room : (c :: rest).length ≤ GETC_SIZE) :
    getcharCbuf ⟨c :: rest, stdin, room⟩ =
      some (c, ⟨rest, stdin, Nat.le_of_succ_le room⟩) := rfl

@[simp] theorem getcharCbuf_terminal (c : UInt8) (stdin : Str)
    (room : ([] : List Int).length ≤ GETC_SIZE) :
    getcharCbuf ⟨[], c :: stdin, room⟩ = some (byteValue c, ⟨[], stdin, room⟩) := rfl

@[simp] theorem getcharCbuf_waits (room : ([] : List Int).length ≤ GETC_SIZE) :
    getcharCbuf ⟨[], [], room⟩ = none := rfl

@[simp] theorem getchar_terminal (queue : List Int) (c : UInt8) (stdin : Str)
    (room : queue.length ≤ GETC_SIZE) :
    getchar ⟨queue, c :: stdin, room⟩ = some (c, ⟨queue, stdin, room⟩) := rfl

@[simp] theorem getchar_waits (queue : List Int) (room : queue.length ≤ GETC_SIZE) :
    getchar ⟨queue, [], room⟩ = none := rfl

@[simp] theorem Console.unread_mk (queue : List Int) (stdin : Str)
    (room : queue.length ≤ GETC_SIZE) :
    Console.unread ⟨queue, stdin, room⟩ = queue ++ stdin.map byteValue := rfl

theorem getchar_progress {s s' : Console} {c : UInt8} (taken : getchar s = some (c, s')) :
    s'.unread.length + 1 = s.unread.length := by
  obtain ⟨queue, stdin, room⟩ := s
  cases stdin with
  | nil => cases taken
  | cons c stdin =>
    cases taken
    simp [Nat.add_assoc]

theorem getcharCbuf_progress {s s' : Console} {c : Int} (taken : getcharCbuf s = some (c, s')) :
    s'.unread.length + 1 = s.unread.length := by
  obtain ⟨queue, stdin, room⟩ := s
  cases queue with
  | cons c queue =>
    cases taken
    simp
  | nil =>
    cases stdin with
    | nil => cases taken
    | cons c stdin =>
      cases taken
      simp

theorem Console.getcPush_unread (s : Console) (x : Int) :
    (s.getcPush x).unread.length ≤ s.unread.length + 1 := by
  unfold Console.getcPush
  split
  · simp [Console.unread]
    omega
  · omega

theorem escapeKey_progress {s s' : Console} {v : Option Int}
    (passed : escapeKey s = some (v, s')) : s'.unread.length < s.unread.length := by
  obtain ⟨⟨c, s₁⟩, taken, rest⟩ := Option.bind_eq_some_iff.mp passed
  have first := getcharCbuf_progress taken
  simp only at rest
  split at rest
  next =>
    cases rest
    omega
  next =>
    obtain ⟨⟨b, s₂⟩, more, same⟩ := Option.map_eq_some_iff.mp rest
    have second := getchar_progress more
    obtain rfl : s₂ = s' := congrArg Prod.snd same
    omega
  next =>
    cases rest
    omega

/-- A byte that is put back was taken before. -/
theorem afterEscape_progress {s s' : Console} {v : Option Int}
    (passed : afterEscape s = some (v, s')) : s'.unread.length ≤ s.unread.length := by
  obtain ⟨⟨c, s₁⟩, taken, rest⟩ := Option.bind_eq_some_iff.mp passed
  have first := getcharCbuf_progress taken
  simp only at rest
  split at rest
  next =>
    have second := escapeKey_progress rest
    omega
  next =>
    -- the byte behind a lone escape goes back into the queue
    cases rest
    have put_back := s₁.getcPush_unread c
    omega

theorem consoleGetcharPass_progress {s s' : Console} {v : Option Int}
    (passed : consoleGetcharPass s = some (v, s')) : s'.unread.length < s.unread.length := by
  obtain ⟨⟨c, s₁⟩, taken, rest⟩ := Option.bind_eq_some_iff.mp passed
  have first := getcharCbuf_progress taken
  simp only at rest
  split at rest
  next =>
    cases rest
    omega
  next =>
    split at rest
    next =>
      have second := afterEscape_progress rest
      omega
    next =>
      cases rest
      omega

/-- `console_getchar`. -/
def consoleGetchar : Decoder Console Int where
  pass := consoleGetcharPass
  size := fun s => s.unread.length
  progress := consoleGetcharPass_progress

@[simp] theorem Console.getcPush_stdin (s : Console) (x : Int) :
    (s.getcPush x).stdin = s.stdin := by
  unfold Console.getcPush
  split <;> rfl

@[simp] theorem Console.pushAll_stdin (s : Console) (xs : List Int) :
    (s.pushAll xs).stdin = s.stdin := by
  induction xs generalizing s with
  | nil => rfl
  | cons x xs ih => exact (ih (s.getcPush x)).trans (s.getcPush_stdin x)

/-- What fits into the queue is appended to it. -/
theorem Console.pushAll_queue (s : Console) (xs : List Int)
    (fits : s.getcBuf.length + xs.length ≤ GETC_SIZE) :
    (s.pushAll xs).getcBuf = s.getcBuf ++ xs := by
  induction xs generalizing s with
  | nil => simp [Console.pushAll]
  | cons x xs ih =>
    -- there is room for the first, and as much as before for the others
    rw [List.length_cons] at fits
    have pushed : (s.getcPush x).getcBuf = s.getcBuf ++ [x] := by
      rw [Console.getcPush, dif_pos (by omega)]
    have rest := ih (s.getcPush x) (by rw [pushed, List.length_append]; simp; omega)
    rw [pushed, List.append_assoc] at rest
    exact rest

theorem getchar_stdin {s s' : Console} {c : UInt8} (taken : getchar s = some (c, s')) :
    s.stdin = c :: s'.stdin := by
  obtain ⟨queue, stdin, room⟩ := s
  cases stdin with
  | nil => cases taken
  | cons c stdin =>
    cases taken
    rfl

theorem readReport_progress {room : Nat} {s s' : Console} {tbuf : Str} {ended : Bool}
    (read : readReport room s = some (tbuf, ended, s')) : s'.stdin.length ≤ s.stdin.length := by
  induction room generalizing s s' tbuf ended with
  | zero =>
    cases read
    exact Nat.le_refl _
  | succ room ih =>
    obtain ⟨⟨c, s₁⟩, taken, rest⟩ := Option.bind_eq_some_iff.mp read
    have first := congrArg List.length (getchar_stdin taken)
    simp only [List.length_cons] at first
    simp only at rest
    split at rest
    next =>
      -- the escape is put back where it came from
      cases rest
      simp [Console.ungetc, first]
    next =>
      split at rest
      next =>
        cases rest
        omega
      next =>
        obtain ⟨⟨tbuf', ended', s₂⟩, more, same⟩ := Option.map_eq_some_iff.mp rest
        have second := ih more
        simp only [Prod.mk.injEq] at same
        rw [← same.2.2]
        omega

theorem consoleGetposPass_progress {s s' : Console} {v : Option (Int × Int)}
    (passed : consoleGetposPass s = some (v, s')) : s'.stdin.length < s.stdin.length := by
  obtain ⟨⟨c, s₁⟩, taken, rest⟩ := Option.bind_eq_some_iff.mp passed
  have first := congrArg List.length (getchar_stdin taken)
  simp only [List.length_cons] at first
  simp only at rest
  split at rest
  next =>
    obtain ⟨⟨b, s₂⟩, taken, rest⟩ := Option.bind_eq_some_iff.mp rest
    have second := congrArg List.length (getchar_stdin taken)
    simp only [List.length_cons] at second
    simp only at rest
    split at rest
    next =>
      -- an answer ends the call, any other sequence goes to the queue
      obtain ⟨⟨tbuf, ended, s₃⟩, read, same⟩ := Option.map_eq_some_iff.mp rest
      have third := readReport_progress read
      simp only at same
      split at same <;> cases same
      · omega
      · rw [Console.pushAll_stdin]
        omega
    next =>
      cases rest
      rw [Console.pushAll_stdin]
      omega
  next =>
    cases rest
    rw [Console.getcPush_stdin]
    omega

/-- `console_getpos`. -/
def consoleGetpos : Decoder Console (Int × Int) where
  pass := consoleGetposPass
  size := fun s => s.stdin.length
  progress := consoleGetposPass_progress

end KexecLoader
