import KexecLoader.Library.CString
import KexecLoader.Library.Grid
import KexecLoader.Menu

/-!
# What the menu draws

`draw_static` and `draw_menu` as a terminal shows them. An entry is drawn over what its row
showed before, up to the frame. Where the cursor is asked for, `console_getpos` is taken
to answer with its position; control characters other than the line feed and the bell are
not expected.
-/
namespace KexecLoader

def CONS_INVERT : Nat := 7

def bell : UInt8 := 7

/-- A character as it is shown. -/
structure ScreenChar where
  char : UInt8
  inverted : Bool
deriving DecidableEq

instance : Inhabited ScreenChar := ⟨⟨space, false⟩⟩

/-- `ERASE_EOL` and its siblings. -/
inductive EraseMode where
  | eol | sol | line | down | up | all
deriving DecidableEq

/-- The cells that are emptied, for a cursor at `row` and `col`. -/
def EraseMode.gone (row col : Nat) (mode : EraseMode) (r c : Nat) : Bool :=
  match mode with
  | eol => r = row ∧ col ≤ c
  | sol => r = row ∧ c ≤ col
  | line => r = row
  | down => row < r ∨ r = row ∧ col ≤ c
  | up => r < row ∨ r = row ∧ c ≤ col
  | all => true

/-- The screen, and the attribute of what is printed next. -/
structure Display (rows cols : Nat) where
  grid : Grid ScreenChar rows cols
  attrib : Nat

namespace Display

variable {rows cols : Nat}

def putchar (c : UInt8) (d : Display rows cols) : Display rows cols :=
  if c = lf then { d with grid := d.grid.lineFeed }
  else if c = bell then d
  else { d with grid := d.grid.put ⟨c, d.attrib == CONS_INVERT⟩ }

def fputs (text : Str) (d : Display rows cols) : Display rows cols := text.foldl (fun d c => d.putchar c) d

def puts (text : Str) (d : Display rows cols) : Display rows cols := (d.fputs text).putchar lf

def consoleSetpos (col row : Nat) (d : Display rows cols) : Display rows cols :=
  { d with grid := d.grid.moveTo col row }

def consoleAttrib (attrib : Nat) (d : Display rows cols) : Display rows cols := { d with attrib := attrib }

/-- The cursor is put back to where it was asked for. -/
def consoleErase (mode : EraseMode) (d : Display rows cols) : Display rows cols :=
  { d with grid := d.grid.erase (mode.gone d.grid.row d.grid.col) }

/-- With an alert on the screen a key is waited for first. -/
def consoleClear (alert : Bool) (d : Display rows cols) : Display rows cols :=
  let d := if alert then d.fputs (bytes "\nPress any key to continue..." ++ [bell]) else d
  d.consoleErase .all

/-! ### The frame -/

/-- A line from one corner to the other. -/
def borderText (cols : Nat) : Str :=
  (List.range cols).map fun i => if i = 0 ∨ i + 1 = cols then 43 else 45

/-- The loop over the rows of the frame; the number is that of the rows to come. -/
def drawSides : Nat → Nat → Display rows cols → Display rows cols
  | 0, _, d => d
  | n + 1, i, d =>
    let d := (d.consoleSetpos 0 i).putchar 124
    drawSides n (i + 1) ((d.consoleSetpos (cols - 1) i).putchar 124)

def drawStatic (version : Str) (alert : Bool) (d : Display rows cols) : Display rows cols :=
  let d := d.consoleClear alert
  let d := (d.consoleSetpos 0 0).consoleAttrib CONS_INVERT
  let d := d.fputs (List.replicate cols space)
  let d := (d.consoleSetpos 1 0).fputs (version.take 63)
  let d := d.consoleAttrib 0
  let d := (d.consoleSetpos 0 5).fputs (borderText cols)
  let d := drawSides (rows - 7) 6 d
  (d.consoleSetpos 0 (rows - 1)).fputs (borderText cols)

/-! ### The entries -/

def drawEntry (title : Str) (inverted : Bool) (row : Nat) (d : Display rows cols) : Display rows cols :=
  let d := (d.consoleSetpos (cols - 2) row).consoleErase .sol
  let d := (d.consoleSetpos 0 row).fputs (bytes "| ")
  if inverted then ((d.consoleAttrib CONS_INVERT).fputs title).consoleAttrib 0
  else d.fputs title

/-- The loop of `draw_menu`. -/
def drawEntries (selected : Nat) : List KlTarget → Nat → Display rows cols → Display rows cols
  | [], _, d => d
  | t :: rest, row, d =>
    if row ≤ rows - 2 then drawEntries selected rest (row + 1) (d.drawEntry t.title.str (row == selected) row)
    else d

def drawMenu (targets : List KlTarget) (m : Menu) (d : Display rows cols) : Display rows cols :=
  d.drawEntries m.row (m.start.elim [] fun node => targets.drop node) 6

/-! ### Text -/

/-- A text of bytes that take one cell each. -/
def Printable (text : Str) : Prop := ∀ c ∈ text, 32 ≤ c ∧ c ≠ 127

instance (text : Str) : Decidable (Printable text) := inferInstanceAs (Decidable (∀ c ∈ text, 32 ≤ c ∧ c ≠ 127))

/-- The cells of a text under an attribute. -/
def cellsOf (attrib : Nat) (text : Str) : List ScreenChar := text.map (⟨·, attrib == CONS_INVERT⟩)

theorem putchar_printable (d : Display rows cols) {c : UInt8} (printable : 32 ≤ c) :
    d.putchar c = { d with grid := d.grid.put ⟨c, d.attrib == CONS_INVERT⟩ } := by
  have no_lf : c ≠ lf := by
    rintro rfl
    exact absurd printable (by decide)
  have no_bell : c ≠ bell := by
    rintro rfl
    exact absurd printable (by decide)
  rw [putchar, if_neg no_lf, if_neg no_bell]

theorem fputs_grid (d : Display rows cols) {text : Str} (printable : Printable text) :
    d.fputs text = { d with grid := d.grid.write (cellsOf d.attrib text) } := by
  induction text generalizing d with
  | nil => rfl
  | cons c text ih =>
    have here := d.putchar_printable (printable c List.mem_cons_self).1
    have rest := ih (d.putchar c) fun b member => printable b (List.mem_cons_of_mem _ member)
    rw [show d.fputs (c :: text) = (d.putchar c).fputs text from rfl, rest, here]
    rfl

/-- A text within a row. -/
theorem fputs_row (d : Display rows cols) (col row : Nat) {text : Str} (row_lt : row < rows) (col_lt : col < cols)
    (printable : Printable text) (fits : col + text.length ≤ cols) :
    ((d.consoleSetpos col row).fputs text).attrib = d.attrib ∧ ∀ r c, c < cols →
      ((d.consoleSetpos col row).fputs text).grid.cells r c =
        if r = row ∧ col ≤ c then ((cellsOf d.attrib text)[c - col]?).getD (d.grid.cells r c)
        else d.grid.cells r c := by
  have printed := (d.consoleSetpos col row).fputs_grid printable
  have length : (cellsOf d.attrib text).length = text.length := List.length_map _
  rw [printed]
  exact ⟨rfl, fun r c c_lt => d.grid.write_row (cellsOf d.attrib text) row col row_lt col_lt (by omega) c_lt⟩

/-- What a text in the lines above the frame leaves alone. -/
theorem fputs_header (d : Display rows cols) (col row : Nat) {text : Str} (tall : 10 ≤ rows)
    (row_lt : row < rows) (col_lt : col < cols) (printable : Printable text)
    (room : row * cols + col + text.length ≤ 5 * cols) :
    ((d.consoleSetpos col row).fputs text).attrib = d.attrib ∧
      ((d.consoleSetpos col row).puts text).attrib = d.attrib ∧
      ∀ r c, 5 ≤ r → c < cols →
        ((d.consoleSetpos col row).fputs text).grid.cells r c = d.grid.cells r c ∧
          ((d.consoleSetpos col row).puts text).grid.cells r c = d.grid.cells r c := by
  have place := d.grid.moveTo_place row_lt col_lt
  have length : (cellsOf d.attrib text).length = text.length := List.length_map _
  have fits : (d.grid.moveTo col row).place + (cellsOf d.attrib text).length ≤ 5 * cols := by
    rw [place, length]
    exact room
  have whole : 5 * cols ≤ rows * cols := Nat.mul_le_mul_right cols (by omega)
  have printed := (d.consoleSetpos col row).fputs_grid printable
  rw [show (d.consoleSetpos col row).attrib = d.attrib from rfl,
    show (d.consoleSetpos col row).grid = d.grid.moveTo col row from rfl] at printed
  -- the text ends above the last row, so that the line feed does not scroll
  have above : ((d.grid.moveTo col row).write (cellsOf d.attrib text)).row + 1 < rows := by
    have ends := ((d.grid.moveTo col row).write_spec (cellsOf d.attrib text) (by omega)).1
    have here : ((d.grid.moveTo col row).write (cellsOf d.attrib text)).row * cols ≤ 5 * cols := by
      rw [Grid.place] at ends
      omega
    have := Nat.le_of_mul_le_mul_right here (Nat.zero_lt_of_lt col_lt)
    omega
  have fed := @Grid.lineFeed_cells _ _ _ _ ((d.grid.moveTo col row).write (cellsOf d.attrib text)) above
  have below := fun r c (low : 5 ≤ r) (inside : c < cols) =>
    (d.grid.moveTo col row).write_below (cellsOf d.attrib text) (by omega) fits low inside
  rw [puts, printed]
  refine ⟨rfl, rfl, fun r c low inside => ⟨below r c low inside, ?_⟩⟩
  exact (congrFun (congrFun fed r) c).trans (below r c low inside)

/-! ### Entries -/

/-- What an entry shows, up to the frame on its right. -/
def entryCell (title : Str) (inverted : Bool) (c : Nat) : ScreenChar :=
  ((cellsOf 0 (bytes "| ") ++ cellsOf (if inverted then CONS_INVERT else 0) title)[c]?).getD default

/-- Drawing an entry sets its row up to the frame, whatever was there. -/
theorem drawEntry_cells (d : Display rows cols) (plain : d.attrib = 0) {title : Str} (printable : Printable title)
    (fits : title.length + 3 ≤ cols) (inverted : Bool) (row : Nat) (row_lt : row < rows) :
    (d.drawEntry title inverted row).attrib = 0 ∧ ∀ r c, c < cols →
      (d.drawEntry title inverted row).grid.cells r c =
        if r = row ∧ c + 1 < cols then entryCell title inverted c else d.grid.cells r c := by
  let blank := (d.consoleSetpos (cols - 2) row).consoleErase .sol
  let text := cellsOf 0 (bytes "| ") ++ cellsOf (if inverted then CONS_INVERT else 0) title
  have length : text.length = title.length + 2 := by
    simp only [text, cellsOf, List.length_append, List.length_map]
    exact Nat.add_comm 2 title.length
  -- the attribute changes between the two parts of the line
  have drawn : d.drawEntry title inverted row = ⟨(blank.grid.moveTo 0 row).write text, 0⟩ := by
    have front := (blank.consoleSetpos 0 row).fputs_grid (show Printable (bytes "| ") by decide)
    have no_attrib : (blank.consoleSetpos 0 row).attrib = 0 := plain
    rw [no_attrib] at front
    rw [drawEntry]
    rw [show (d.consoleSetpos (cols - 2) row).consoleErase .sol = blank from rfl, front]
    cases inverted with
    | false =>
      rw [if_neg Bool.false_ne_true, fputs_grid _ printable]
      simp only [consoleSetpos, text, Grid.write, List.foldl_append, Bool.false_eq_true, if_false]
    | true =>
      rw [if_pos rfl, fputs_grid _ printable]
      simp only [consoleSetpos, consoleAttrib, text, Grid.write, List.foldl_append, if_true]
  have erased : ∀ r c, blank.grid.cells r c =
      if r = row ∧ c ≤ cols - 2 then default else d.grid.cells r c := by
    intro r c
    have inside : min row (rows - 1) = row ∧ min (cols - 2) (cols - 1) = cols - 2 := by omega
    simp [blank, consoleErase, consoleSetpos, Grid.erase, Grid.moveTo, EraseMode.gone, inside.1, inside.2]
  rw [drawn]
  refine ⟨rfl, fun r c c_lt => ?_⟩
  have written := blank.grid.write_row text row 0 row_lt (by omega) (by omega) c_lt (r := r)
  rw [show (Display.mk ((blank.grid.moveTo 0 row).write text) 0).grid = _ from rfl, written, erased r c,
    entryCell]
  by_cases here : r = row
  · by_cases last : c + 1 < cols
    · rw [if_pos ⟨here, Nat.zero_le c⟩, if_pos ⟨here, by omega⟩, if_pos ⟨here, last⟩, Nat.sub_zero]
    · rw [if_pos ⟨here, Nat.zero_le c⟩, if_neg (by omega), if_neg (by omega), Nat.sub_zero,
        List.getElem?_eq_none (by omega), Option.getD_none]
  · rw [if_neg (by omega), if_neg (by omega), if_neg (by omega)]

/-- The entries of the menu set their rows, and no others. -/
theorem drawEntries_cells (selected : Nat) (nodes : List KlTarget) (row : Nat) (d : Display rows cols)
    (plain : d.attrib = 0) (tall : 2 ≤ rows)
    (titles : ∀ t ∈ nodes, Printable t.title.str ∧ t.title.str.length + 3 ≤ cols) :
    (d.drawEntries selected nodes row).attrib = 0 ∧ ∀ r c, c < cols →
      (d.drawEntries selected nodes row).grid.cells r c =
        if row ≤ r ∧ r ≤ rows - 2 ∧ c + 1 < cols then
          (nodes[r - row]?).elim (d.grid.cells r c) fun t => entryCell t.title.str (r == selected) c
        else d.grid.cells r c := by
  induction nodes generalizing row d with
  | nil => exact ⟨plain, fun r c _ => by simp [drawEntries]⟩
  | cons t nodes ih =>
    rw [drawEntries]
    split
    next on_screen =>
      obtain ⟨printable, fits⟩ := titles t List.mem_cons_self
      obtain ⟨plain', here⟩ := d.drawEntry_cells plain printable fits (row == selected) row (by omega)
      obtain ⟨last, rest⟩ := ih (row + 1) (d.drawEntry t.title.str (row == selected) row) plain'
        fun t member => titles t (List.mem_cons_of_mem _ member)
      refine ⟨last, fun r c c_lt => ?_⟩
      rw [rest r c c_lt, here r c c_lt]
      rcases Nat.lt_trichotomy r row with above | rfl | below
      · rw [if_neg (by omega), if_neg (by omega), if_neg (by omega)]
      · rw [if_neg (by omega), Nat.sub_self, List.getElem?_cons_zero, Option.elim_some]
        exact if_congr (by omega) rfl rfl
      · obtain ⟨n, distance⟩ : ∃ n, r - row = n + 1 := ⟨r - row - 1, by omega⟩
        rw [distance, List.getElem?_cons_succ, show r - (row + 1) = n by omega, if_neg (show ¬(r = row ∧ _) by omega)]
        exact if_congr (by omega) rfl rfl
    next off_screen =>
      refine ⟨plain, fun r c _ => ?_⟩
      rw [if_neg (by omega)]

/-! ### The frame -/

/-- The frame around the entries. -/
def frameCell (rows cols r c : Nat) : ScreenChar :=
  if r = 5 ∨ r + 1 = rows then ⟨if c = 0 ∨ c + 1 = cols then 43 else 45, false⟩
  else if c = 0 ∨ c + 1 = cols then ⟨124, false⟩
  else default

theorem borderText_printable : Printable (borderText cols) := by
  intro c member
  obtain ⟨i, -, rfl⟩ := List.mem_map.mp member
  split <;> decide

theorem border_cells (d : Display rows cols) (plain : d.attrib = 0) {row : Nat} (row_lt : row < rows)
    (some_col : 0 < cols) :
    ((d.consoleSetpos 0 row).fputs (borderText cols)).attrib = 0 ∧ ∀ r c, c < cols →
      ((d.consoleSetpos 0 row).fputs (borderText cols)).grid.cells r c =
        if r = row then ⟨if c = 0 ∨ c + 1 = cols then 43 else 45, false⟩ else d.grid.cells r c := by
  have length : (borderText cols).length = cols := by simp [borderText]
  obtain ⟨attrib, cells⟩ := d.fputs_row 0 row row_lt some_col borderText_printable
    (show 0 + (borderText cols).length ≤ cols by omega)
  refine ⟨attrib.trans plain, fun r c c_lt => ?_⟩
  rw [cells r c c_lt, plain]
  by_cases here : r = row
  · rw [if_pos ⟨here, Nat.zero_le c⟩, if_pos here]
    simp [cellsOf, borderText, c_lt, CONS_INVERT]
  · rw [if_neg (by omega), if_neg here]

theorem drawSides_cells (n i : Nat) (d : Display rows cols) (plain : d.attrib = 0) (on_screen : i + n ≤ rows)
    (some_col : 0 < cols) :
    (drawSides n i d).attrib = 0 ∧ ∀ r c, c < cols → (drawSides n i d).grid.cells r c =
      if i ≤ r ∧ r < i + n ∧ (c = 0 ∨ c + 1 = cols) then ⟨124, false⟩ else d.grid.cells r c := by
  induction n generalizing i d with
  | zero =>
    refine ⟨plain, fun r c _ => ?_⟩
    rw [drawSides, if_neg (by omega)]
  | succ n ih =>
    have side : Printable [124] := by decide
    have row_lt : i < rows := by omega
    obtain ⟨left_attrib, left⟩ := d.fputs_row 0 i row_lt some_col side (show 0 + 1 ≤ cols by omega)
    obtain ⟨right_attrib, right⟩ := ((d.consoleSetpos 0 i).fputs [124]).fputs_row (cols - 1) i row_lt (by omega) side
      (show cols - 1 + 1 ≤ cols by omega)
    obtain ⟨attrib, rest⟩ := ih (i + 1) _ (right_attrib.trans (left_attrib.trans plain)) (by omega)
    refine ⟨attrib, fun r c c_lt => ?_⟩
    refine (rest r c c_lt).trans ?_
    rw [right r c c_lt, left r c c_lt, left_attrib, plain]
    by_cases here : r = i
    · subst here
      rw [if_neg (by omega)]
      have one : ∀ k, (cellsOf 0 [124])[k]? = if k = 0 then some ⟨124, false⟩ else none := by
        rintro (_ | k) <;> rfl
      rw [one, one, Nat.sub_zero]
      by_cases last : c + 1 = cols
      · rw [if_pos ⟨rfl, by omega⟩, if_pos (show c - (cols - 1) = 0 by omega),
          if_pos (show r ≤ r ∧ r < r + (n + 1) ∧ (c = 0 ∨ c + 1 = cols) by omega)]
        rfl
      · rw [if_neg (by omega), if_pos ⟨rfl, Nat.zero_le c⟩]
        by_cases first : c = 0
        · rw [if_pos first, if_pos (show r ≤ r ∧ r < r + (n + 1) ∧ (c = 0 ∨ c + 1 = cols) by omega)]
          rfl
        · rw [if_neg first, if_neg (show ¬(r ≤ r ∧ r < r + (n + 1) ∧ (c = 0 ∨ c + 1 = cols)) by omega)]
          rfl
    · rw [if_neg (show ¬(r = i ∧ cols - 1 ≤ c) by omega), if_neg (show ¬(r = i ∧ 0 ≤ c) by omega)]
      exact if_congr (by omega) rfl rfl

/-- The frame is drawn, and nothing inside it, whatever the screen showed. -/
theorem drawStatic_cells (d : Display rows cols) {version : Str} (printable : Printable version) (alert : Bool)
    (tall : 10 ≤ rows) (wide : 40 ≤ cols) :
    (drawStatic version alert d).attrib = 0 ∧ ∀ r c, 5 ≤ r → r < rows → c < cols →
      (drawStatic version alert d).grid.cells r c = frameCell rows cols r c := by
  have short : Printable (version.take 63) := fun c member => printable c (List.mem_of_mem_take member)
  have blanks : Printable (List.replicate cols space) := fun c member => by
    rw [List.eq_of_mem_replicate member]
    decide
  -- the two texts of the first row
  let cleared := (d.consoleClear alert).consoleAttrib CONS_INVERT
  obtain ⟨-, -, bar⟩ := cleared.fputs_header 0 0 tall (by omega) (by omega) blanks (by simp; omega)
  let barred := (cleared.consoleSetpos 0 0).fputs (List.replicate cols space)
  obtain ⟨-, -, title⟩ := barred.fputs_header 1 0 tall (by omega) (by omega) short (by
    rw [List.length_take]
    omega)
  let titled := ((barred.consoleSetpos 1 0).fputs (version.take 63)).consoleAttrib 0
  -- the frame below it
  obtain ⟨top_attrib, top⟩ := titled.border_cells rfl (show 5 < rows by omega) (by omega)
  obtain ⟨side_attrib, sides⟩ := drawSides_cells (rows - 7) 6 _ top_attrib (by omega) (by omega)
  obtain ⟨attrib, bottom⟩ := border_cells _ side_attrib (show rows - 1 < rows by omega) (by omega)
  refine ⟨attrib, fun r c low on_screen c_lt => ?_⟩
  have empty : titled.grid.cells r c = default :=
    (title r c low c_lt).1.trans ((bar r c low c_lt).1.trans rfl)
  refine (bottom r c c_lt).trans ?_
  rw [sides r c c_lt, top r c c_lt, empty, frameCell]
  by_cases last : r = rows - 1
  · rw [if_pos last, if_pos (show r = 5 ∨ r + 1 = rows by omega)]
  · rw [if_neg last]
    by_cases first : r = 5
    · rw [if_neg (by omega), if_pos first, if_pos (show r = 5 ∨ r + 1 = rows from .inl first)]
    · rw [if_neg (show ¬(r = 5 ∨ r + 1 = rows) by omega), if_neg first]
      exact if_congr (by omega) rfl rfl

end Display

end KexecLoader
