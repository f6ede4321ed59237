import KexecLoader.Library.CString
import KexecLoader.Library.Terminal

/-!
# Drawing the input of the shell

`erase_input`, `replace_input` and `set_cursor` compute where the input is drawn from the
place of the prompt, which the line feeds of `replace_input` move. A byte other than the
line feed takes one cell. What a terminal does when it is sent to a row above the screen
is not known: `stray` is its answer.
-/
namespace KexecLoader

/-- What a cell shows. -/
abbrev Glyph : Type := { c : UInt8 // c ≠ lf }

instance : Inhabited Glyph := ⟨⟨space, by decide⟩⟩

/-- A terminal of `console_rows` by `console_cols`. -/
abbrev Terminal (rows cols : Nat) : Type := Screen Glyph rows cols

abbrev Stray (rows cols : Nat) : Type := Nat → Int → Terminal rows cols → Terminal rows cols

/-- `scol` and `srow`. -/
structure Prompt where
  scol : Nat
  srow : Int
deriving DecidableEq

section
variable {rows cols : Nat}

def putchar (c : UInt8) (s : Terminal rows cols) : Terminal rows cols :=
  if line : c = lf then s.lineFeed else s.put ⟨c, line⟩

def fputs (text : Str) (s : Terminal rows cols) : Terminal rows cols :=
  text.foldl (fun s c => putchar c s) s

/-- The place of the prompt is read from the cursor. -/
def Prompt.ofCursor (s : Terminal rows cols) : Prompt := ⟨s.col, s.row⟩

def consoleSetpos (stray : Stray rows cols) (col : Nat) (row : Int) (s : Terminal rows cols) :
    Terminal rows cols :=
  if 0 ≤ row then s.moveTo col row.toNat else stray col row s

/-- The row and the column of a byte of the input. -/
def Prompt.rowOf (p : Prompt) (cols offset : Nat) : Int := p.srow + ((p.scol + offset) / cols : Nat)

def Prompt.colOf (p : Prompt) (cols offset : Nat) : Nat := (p.scol + offset) % cols

variable (stray : Stray rows cols) (p : Prompt)

/-- The loop of `erase_input`, from the last row up; `n` is `erow - row`. -/
def eraseRows (row : Int) : Nat → Terminal rows cols → Terminal rows cols
  | 0, s => s
  | n + 1, s => eraseRows row n ((consoleSetpos stray 0 (row + (n + 1 : Nat)) s).eraseLine)

def eraseInput (offset len : Nat) (s : Terminal rows cols) : Terminal rows cols :=
  let row := p.rowOf cols offset
  let col := p.colOf cols offset
  (consoleSetpos stray col row (eraseRows stray row ((col + len) / cols) s)).eraseEol

/-- The loop of `replace_input`, which makes room on the screen; the first argument is how
far `nrows` is above `console_rows`. -/
def makeRoom : Nat → Prompt → Int → Terminal rows cols → Prompt × Int × Terminal rows cols
  | 0, p, row, s => (p, row, s)
  | n + 1, p, row, s => makeRoom n { p with srow := p.srow - 1 } (row - 1) (putchar lf s)

def replaceInput (cmd : Str) (offset : Nat) (s : Terminal rows cols) : Prompt × Terminal rows cols :=
  let row := p.rowOf cols offset
  let col := p.colOf cols offset
  let nrows := row + ((col + (cmd.drop offset).length) / cols : Nat) + 1
  let (p, row, s) := makeRoom (nrows - rows).toNat p row s
  (p, fputs (cmd.drop offset) (consoleSetpos stray col row s))

def setCursor (offset : Nat) (s : Terminal rows cols) : Terminal rows cols :=
  consoleSetpos stray (p.colOf cols offset) (p.rowOf cols offset) s

end

end KexecLoader
