import KexecLoader.CursorReport

/-!
# Finding out the size of the console

`console_getsize` moves the cursor on until it moves no more, and asks for its position
each time. What is typed meanwhile gets in front of the answers.
-/
namespace KexecLoader

/-- A terminal and the input it leads to: before its n-th answer come the n-th keys. -/
structure Tty where
  cols : Nat
  rows : Nat
  col : Nat
  row : Nat
  console : Console
  typed : List Str

namespace Tty

variable (t : Tty)

/-- `ESC [ n C`. -/
def forward (n : Nat) : Tty := { t with col := min (t.col + n) (t.cols - 1) }

/-- `ESC [ n B`. -/
def down (n : Nat) : Tty := { t with row := min (t.row + n) (t.rows - 1) }

/-- `console_setpos`. -/
def setpos (col row : Int) : Tty :=
  { t with col := min col.toNat (t.cols - 1), row := min row.toNat (t.rows - 1) }

/-- `ESC [ 6 n`, to which the terminal answers. -/
def ask : Tty :=
  { t with
    console := { t.console with
      stdin := t.console.stdin ++ (t.typed.headD [] ++ cursorReport (t.row + 1) (t.col + 1)) }
    typed := t.typed.tail }

/-- `console_getpos`; none while it waits. -/
def getpos : Option ((Int × Int) × Tty) :=
  (consoleGetpos.call t.ask.console).map fun (pos, console) => (pos, { t.ask with console := console })

end Tty

/-- The loop of `console_getsize`; none when the rounds do not suffice either. -/
def getsizeLoop : Nat → Int → Int × Int → Tty → Option ((Int × Int) × Tty)
  | 0, _, _, _ => none
  | rounds + 1, old, (cols, rows), t =>
    if rows + cols = old then some ((cols, rows), t)
    else ((t.forward 99).down 99).getpos.bind fun (pos, t) => getsizeLoop rounds (rows + cols) pos t

def consoleGetsize (rounds : Nat) (t : Tty) : Option ((Int × Int) × Tty) :=
  t.getpos.bind fun ((col, row), t) =>
    (getsizeLoop rounds (-1) (col, row) t).map fun ((cols, rows), t) =>
      ((cols + 1, rows + 1), t.setpos col row)

/-! ### One answer -/

/-- The cursor is on the screen, and all input is keys an answer behind them can be told
from, for which there is room in the queue. -/
structure Tty.Ready (t : Tty) : Prop where
  col : t.col < t.cols
  row : t.row < t.rows
  cols : t.cols < 2 ^ 31
  rows : t.rows < 2 ^ 31
  read : t.console.stdin = []
  keys : ∀ typed ∈ t.typed, Passable typed ∧ ∀ c ∈ typed, c < 128
  room : t.console.getcBuf.length + t.typed.flatten.length ≤ GETC_SIZE

/-- The same terminal a few answers later: the keys before these are in the queue. -/
structure Tty.Heard (t t' : Tty) (answers : Nat) : Prop where
  cols : t'.cols = t.cols
  rows : t'.rows = t.rows
  typed : t'.typed = t.typed.drop answers
  queue : t'.console.getcBuf = t.console.getcBuf ++ ((t.typed.take answers).flatten.map byteValue)
  ready : t'.Ready

theorem Tty.Heard.trans {t t' t'' : Tty} {n m : Nat} (first : t.Heard t' n) (second : t'.Heard t'' m) :
    t.Heard t'' (n + m) := by
  refine ⟨second.cols.trans first.cols, second.rows.trans first.rows, ?_, ?_, second.ready⟩
  · rw [second.typed, first.typed, List.drop_drop]
  · rw [second.queue, first.queue, first.typed, List.take_add, List.flatten_append, List.map_append,
      List.append_assoc]

/-- The answer is found behind the keys. -/
theorem Tty.Ready.getpos {t : Tty} (ready : t.Ready) :
    ∃ t', t.getpos = some (((t.col : Int), (t.row : Int)), t') ∧ t.Heard t' 1 ∧ t'.col = t.col ∧
      t'.row = t.row := by
  obtain ⟨col, row, cols, rows, read, keys, room⟩ := ready
  have split : t.typed.flatten = t.typed.headD [] ++ t.typed.tail.flatten := by
    cases t.typed <;> rfl
  have first : (t.typed.take 1).flatten = t.typed.headD [] := by
    cases t.typed <;> simp
  have passable : Passable (t.typed.headD []) ∧ ∀ c ∈ t.typed.headD [], c < 128 := by
    cases typed : t.typed with
    | nil => exact ⟨.nil, fun c member => absurd member List.not_mem_nil⟩
    | cons k ks => exact keys k (by rw [typed]; exact List.mem_cons_self)
  rw [split, List.length_append] at room
  have waiting : t.ask.console.stdin = t.typed.headD [] ++ (cursorReport (t.row + 1) (t.col + 1) ++ []) := by
    simp [Tty.ask, read]
  obtain ⟨s, same, queue, stdin⟩ := passable.1.skips (cursorReport (t.row + 1) (t.col + 1) ++ []) rfl passable.2
    t.ask.console waiting (show t.console.getcBuf.length + _ ≤ GETC_SIZE by omega)
  have answer := call_cursorReport (t.row + 1) (t.col + 1) [] (by omega) (by omega) stdin
  have position : (((t.col + 1 : Nat) : Int) - 1, ((t.row + 1 : Nat) : Int) - 1) = ((t.col : Int), (t.row : Int)) := by
    rw [Prod.mk.injEq]
    omega
  rw [position] at answer
  have kept : s.getcBuf = t.console.getcBuf ++ ((t.typed.take 1).flatten.map byteValue) := by
    rw [first]
    exact queue
  refine ⟨{ t.ask with console := { s with stdin := [] } }, by rw [Tty.getpos, same, answer]; rfl,
    ⟨rfl, rfl, List.drop_one.symm, kept, ?_⟩, rfl, rfl⟩
  refine ⟨col, row, cols, rows, rfl, fun typed member => keys typed (List.mem_of_mem_tail member), ?_⟩
  simp only [Tty.ask, queue, List.length_append, List.length_map]
  omega

/-- Moving the cursor leaves it on the screen. -/
theorem Tty.Ready.moved {t : Tty} (ready : t.Ready) {col row : Nat} (col_in : col < t.cols)
    (row_in : row < t.rows) : ({ t with col := col, row := row } : Tty).Ready :=
  ⟨col_in, row_in, ready.cols, ready.rows, ready.read, ready.keys, ready.room⟩

/-! ### The loop -/

/-- How far the cursor is from the corner. -/
def Tty.distance (t : Tty) : Nat := (t.cols - 1 - t.col) + (t.rows - 1 - t.row)

/-- The sum stays the same only in the corner, and each other round comes nearer. -/
theorem getsizeLoop_corner (rounds : Nat) {t : Tty} (ready : t.Ready) {old : Int}
    (stopped : (t.row : Int) + t.col = old → t.distance = 0)
    (enough : t.distance + (if (t.row : Int) + t.col = old then 0 else 1) < rounds) :
    ∃ t' answers, getsizeLoop rounds old ((t.col : Int), (t.row : Int)) t =
        some ((((t.cols - 1 : Nat) : Int), ((t.rows - 1 : Nat) : Int)), t') ∧ t.Heard t' answers := by
  induction rounds generalizing t old with
  | zero => omega
  | succ rounds ih =>
    have col_in := ready.col
    have row_in := ready.row
    simp only [getsizeLoop]
    by_cases same : (t.row : Int) + t.col = old
    · have corner := stopped same
      unfold Tty.distance at corner
      have col : t.col = t.cols - 1 := by omega
      have row : t.row = t.rows - 1 := by omega
      rw [if_pos same, ← col, ← row]
      exact ⟨t, 0, rfl, rfl, rfl, rfl, by simp, ready⟩
    · rw [if_neg same] at enough ⊢
      have moved := ready.moved (show min (t.col + 99) (t.cols - 1) < t.cols by omega)
        (show min (t.row + 99) (t.rows - 1) < t.rows by omega)
      obtain ⟨t₁, answer, heard, col, row⟩ := moved.getpos
      have there : ((t.forward 99).down 99).getpos = _ := answer
      rw [there, Option.bind_some]
      dsimp only at col row
      have distance : t₁.distance = (t.cols - 1 - min (t.col + 99) (t.cols - 1)) +
          (t.rows - 1 - min (t.row + 99) (t.rows - 1)) := by
        rw [Tty.distance, heard.cols, heard.rows, col, row]
      unfold Tty.distance at enough
      obtain ⟨t', answers, run, heard'⟩ := ih heard.ready
        (show (t₁.row : Int) + t₁.col = (t.row : Int) + t.col → t₁.distance = 0 by intro again; omega)
        (by split <;> omega)
      rw [col, row] at run
      have first : t.Heard t₁ 1 := ⟨heard.cols, heard.rows, heard.typed, heard.queue, heard.ready⟩
      exact ⟨t', 1 + answers, by rw [run, first.cols, first.rows], first.trans heard'⟩

/-- The size is found out exactly, whatever is typed meanwhile: the call ends, the cursor is
back where it was, and the keys wait in the queue in their order. -/
theorem consoleGetsize_exact {t : Tty} (ready : t.Ready) {rounds : Nat} (enough : t.cols + t.rows ≤ rounds) :
    ∃ t' answers, consoleGetsize rounds t = some (((t.cols : Int), (t.rows : Int)), t') ∧
      t'.col = t.col ∧ t'.row = t.row ∧ t.Heard t' answers := by
  have col_in := ready.col
  have row_in := ready.row
  obtain ⟨t₁, first, heard, col, row⟩ := ready.getpos
  have far : t₁.distance + (if (t₁.row : Int) + t₁.col = -1 then 0 else 1) < rounds := by
    rw [Tty.distance, heard.cols, heard.rows, col, row]
    split <;> omega
  obtain ⟨t₂, answers, run, heard'⟩ := getsizeLoop_corner rounds heard.ready
    (show (t₁.row : Int) + t₁.col = -1 → t₁.distance = 0 by intro negative; omega) far
  have all := heard.trans heard'
  rw [col, row, heard.cols, heard.rows] at run
  have size : ((t.cols - 1 : Nat) : Int) + 1 = t.cols ∧ ((t.rows - 1 : Nat) : Int) + 1 = t.rows := by omega
  have back_col : min t.col (t₂.cols - 1) = t.col := by
    rw [all.cols]
    omega
  have back_row : min t.row (t₂.rows - 1) = t.row := by
    rw [all.rows]
    omega
  have ready' := all.ready.moved (show t.col < t₂.cols by rw [all.cols]; exact col_in)
    (show t.row < t₂.rows by rw [all.rows]; exact row_in)
  refine ⟨{ t₂ with col := t.col, row := t.row }, 1 + answers, ?_, rfl, rfl, all.cols, all.rows, all.typed,
    all.queue, ready'⟩
  simp only [consoleGetsize, first, Option.bind_some, run, Option.map_some, size.1, size.2, Tty.setpos,
    Int.toNat_natCast, back_col, back_row]

/-- On a screen that is wider than one move, with an arrow key before the second answer. -/
theorem consoleGetsize_wide :
    ∃ t' answers, consoleGetsize 200 ⟨132, 43, 5, 0, ⟨[], [], by decide⟩, [[], [esc, 0x5B, 0x41]]⟩ =
        some ((132, 43), t') ∧ t'.col = 5 ∧ t'.row = 0 ∧
      Tty.Heard ⟨132, 43, 5, 0, ⟨[], [], by decide⟩, [[], [esc, 0x5B, 0x41]]⟩ t' answers := by
  have keys : ∀ typed ∈ [[], [esc, 0x5B, 0x41]], Passable typed ∧ ∀ c ∈ typed, c < 128 := by
    intro typed member
    rcases List.mem_cons.mp member with rfl | later
    · exact ⟨.nil, by simp⟩
    · rw [List.mem_singleton.mp later]
      exact ⟨.brokenOff [0x41] [] (by simp [Plain]; decide) (by decide) (by simp) .nil, by decide⟩
  exact consoleGetsize_exact ⟨by decide, by decide, by decide, by decide, rfl, keys, by decide⟩ (by decide)

end KexecLoader
