import Mathlib.Algebra.Order.Ring.Int
import Mathlib.Logic.Function.Basic

/-!
# Screens that scroll

The cells of a screen are one row after another in a line without an end, also those that
have scrolled off. Below the screen all of them are empty.
-/
namespace KexecLoader

structure Screen (α : Type) [Inhabited α] (rows cols : Nat) where
  /-- The lines that have scrolled off. -/
  top : Int
  cells : Int → α
  row : Nat
  col : Nat
  row_lt : row < rows
  col_lt : col < cols
  below : ∀ i, (top + rows) * cols ≤ i → cells i = default

namespace Screen

variable {α : Type} [Inhabited α] {rows cols : Nat} (s : Screen α rows cols)

/-- The cell under the cursor. -/
def cursor : Int := (s.top + s.row) * cols + s.col

/-- The end of the screen. -/
def bottom : Int := (s.top + rows) * cols

theorem bottom_mono {top top' : Int} (le : top ≤ top') :
    (top + rows) * (cols : Int) ≤ (top' + rows) * cols :=
  Int.mul_le_mul_of_nonneg_right (Int.add_le_add_right le _) (Int.natCast_nonneg cols)

theorem cursor_lt : s.cursor < s.bottom := by
  have line : (s.top + s.row + 1) * cols ≤ (s.top + rows) * cols :=
    Int.mul_le_mul_of_nonneg_right (by have := s.row_lt; omega) (Int.natCast_nonneg cols)
  have col := s.col_lt
  rw [Int.add_mul (s.top + s.row)] at line
  rw [cursor, bottom]
  omega

/-- To the first column of the next row; on the last row the screen scrolls. -/
def lineFeed : Screen α rows cols :=
  if last : s.row + 1 = rows then
    { s with
      top := s.top + 1
      col := 0
      col_lt := Nat.zero_lt_of_lt s.col_lt
      below := fun i outside => s.below i ((bottom_mono (by omega)).trans outside) }
  else
    { s with
      row := s.row + 1
      col := 0
      row_lt := by have := s.row_lt; omega
      col_lt := Nat.zero_lt_of_lt s.col_lt }

def set (a : α) : Screen α rows cols :=
  { s with
    cells := Function.update s.cells s.cursor a
    below := fun i outside => by
      rw [Function.update_of_ne (Int.ne_of_gt (Int.lt_of_lt_of_le s.cursor_lt outside))]
      exact s.below i outside }

/-- Behind the last column the next row begins. -/
def put (a : α) : Screen α rows cols :=
  if wrap : s.col + 1 = cols then (s.set a).lineFeed
  else { s.set a with col := s.col + 1, col_lt := by have := s.col_lt; omega }

def write (text : List α) : Screen α rows cols := text.foldl put s

/-- To a position, or as near to it as there is one on the screen. -/
def moveTo (col row : Nat) : Screen α rows cols :=
  { s with
    row := min row (rows - 1)
    col := min col (cols - 1)
    row_lt := by have := s.row_lt; omega
    col_lt := by have := s.col_lt; omega }

/-- All cells of a range are emptied. -/
def clear (first last : Int) : Screen α rows cols :=
  { s with
    cells := fun i => if first ≤ i ∧ i < last then default else s.cells i
    below := fun i outside => by
      split
      · rfl
      · exact s.below i outside }

/-- The row of the cursor is emptied. -/
def eraseLine : Screen α rows cols := s.clear ((s.top + s.row) * cols) ((s.top + s.row + 1) * cols)

/-- The row is emptied from the cursor on. -/
def eraseEol : Screen α rows cols := s.clear s.cursor ((s.top + s.row + 1) * cols)

/-! ### Line feeds -/

@[simp] theorem lineFeed_cells : s.lineFeed.cells = s.cells := by
  unfold lineFeed
  split <;> rfl

theorem lineFeed_scrolls (last : s.row + 1 = rows) :
    s.lineFeed.top = s.top + 1 ∧ s.lineFeed.row = s.row := by
  rw [lineFeed, dif_pos last]
  exact ⟨rfl, rfl⟩

theorem lineFeed_moves (last : s.row + 1 ≠ rows) :
    s.lineFeed.top = s.top ∧ s.lineFeed.row = s.row + 1 := by
  rw [lineFeed, dif_neg last]
  exact ⟨rfl, rfl⟩

theorem lineFeed_cursor : s.lineFeed.cursor = (s.top + s.row + 1) * cols := by
  by_cases last : s.row + 1 = rows
  · rw [lineFeed, dif_pos last, cursor]
    dsimp only
    rw [Nat.cast_zero, Int.add_zero]
    congr 1
    omega
  · rw [lineFeed, dif_neg last, cursor]
    dsimp only
    rw [Nat.cast_zero, Int.add_zero]
    congr 1
    omega

theorem lineFeed_top_le : s.top ≤ s.lineFeed.top := by
  by_cases last : s.row + 1 = rows
  · have := (s.lineFeed_scrolls last).1
    omega
  · exact (s.lineFeed_moves last).1.ge

def lineFeeds : Nat → Screen α rows cols → Screen α rows cols
  | 0, s => s
  | n + 1, s => lineFeeds n s.lineFeed

@[simp] theorem lineFeeds_cells (n : Nat) : (lineFeeds n s).cells = s.cells := by
  induction n generalizing s with
  | zero => rfl
  | succ n ih => rw [lineFeeds, ih, lineFeed_cells]

/-- Only those line feeds scroll that the rows below the cursor have no room for. -/
theorem lineFeeds_top (n : Nat) : (lineFeeds n s).top = s.top + (n - (rows - 1 - s.row) : Nat) := by
  induction n generalizing s with
  | zero => simp [lineFeeds]
  | succ n ih =>
    have row := s.row_lt
    rw [lineFeeds, ih]
    by_cases last : s.row + 1 = rows
    · obtain ⟨top, same⟩ := s.lineFeed_scrolls last
      omega
    · obtain ⟨top, next⟩ := s.lineFeed_moves last
      omega

/-! ### Text -/

@[simp] theorem put_cells (a : α) : (s.put a).cells = Function.update s.cells s.cursor a := by
  unfold put
  split
  · exact lineFeed_cells _
  · rfl

theorem put_cursor (a : α) : (s.put a).cursor = s.cursor + 1 := by
  unfold put
  split
  next wrap =>
    -- the first cell of the next row is the one behind the last of this row
    have next : (s.set a).lineFeed.cursor = (s.top + s.row + 1) * cols := (s.set a).lineFeed_cursor
    rw [next, Int.add_mul (s.top + s.row), cursor]
    omega
  next =>
    show (s.top + s.row) * cols + (s.col + 1 : Nat) = s.cursor + 1
    rw [cursor]
    omega

theorem put_top_le (a : α) : s.top ≤ (s.put a).top := by
  unfold put
  split
  · exact (s.set a).lineFeed_top_le
  · exact le_refl _

theorem put_top (a : α) (room : s.cursor + 1 < s.bottom) : (s.put a).top = s.top := by
  unfold put
  split
  next wrap =>
    refine ((s.set a).lineFeed_moves fun last => ?_).1
    have last : s.row + 1 = rows := last
    -- the cell was the last one of the screen
    have whole : (s.top + rows) * cols = (s.top + s.row) * cols + (s.col + 1 : Nat) := by
      have rows' : (rows : Int) = s.row + 1 := by omega
      have cols' : (cols : Int) = s.col + 1 := by omega
      rw [rows', ← Int.add_assoc, Int.add_mul (s.top + s.row)]
      omega
    rw [cursor, bottom, whole] at room
    omega
  next => rfl

/-- Nothing scrolls while the text and the cursor behind it are on the screen. -/
theorem write_top (text : List α) (room : s.cursor + text.length < s.bottom) :
    (s.write text).top = s.top := by
  induction text generalizing s with
  | nil => rfl
  | cons a text ih =>
    rw [List.length_cons] at room
    have top := s.put_top a (by omega)
    refine (ih (s.put a) ?_).trans top
    rw [put_cursor, bottom, top]
    rw [bottom] at room
    omega

theorem write_before (text : List α) {i : Int} (before : i < s.cursor) :
    (s.write text).cells i = s.cells i := by
  induction text generalizing s with
  | nil => rfl
  | cons a text ih =>
    have cursor := s.put_cursor a
    refine (ih (s.put a) (by omega)).trans ?_
    rw [put_cells, Function.update_of_ne (Int.ne_of_lt before)]

theorem write_cells (text : List α) (i : Nat) (inside : i < text.length) :
    (s.write text).cells (s.cursor + i) = text[i] := by
  induction text generalizing s i with
  | nil => cases inside
  | cons a text ih =>
    have cursor := s.put_cursor a
    cases i with
    | zero =>
      refine ((s.put a).write_before text (by omega)).trans ?_
      rw [Nat.cast_zero, Int.add_zero, put_cells, Function.update_self]
      rfl
    | succ i =>
      have next := ih (s.put a) i (Nat.lt_of_succ_lt_succ inside)
      rw [cursor] at next
      rw [List.getElem_cons_succ, ← next]
      congr 1
      omega

end Screen

end KexecLoader
