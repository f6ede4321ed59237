import Mathlib.Data.List.Basic
import Mathlib.Tactic.Ring

/-!
# The screen of a video terminal

A character in the last column leaves the cursor there; the next row begins with the next
character, so that the last cell of the screen can be filled without scrolling. A place is
a number that counts the cells row by row.
-/
namespace KexecLoader

structure Grid (α : Type) (rows cols : Nat) where
  cells : Nat → Nat → α
  row : Nat
  col : Nat
  /-- The next character begins the next row. -/
  pending : Bool
  row_lt : row < rows
  col_lt : col < cols
  edge : pending = true → col + 1 = cols

namespace Grid

variable {α : Type} {rows cols : Nat}

theorem place_lt {r c n : Nat} (inside : c < cols) (above : r < n) : r * cols + c < n * cols := by
  have row : (r + 1) * cols ≤ n * cols := Nat.mul_le_mul_right cols above
  rw [Nat.add_mul, Nat.one_mul] at row
  omega

/-- Different cells have different places. -/
theorem place_inj {r c r' c' : Nat} (inside : c < cols) (inside' : c' < cols) :
    r * cols + c = r' * cols + c' ↔ r = r' ∧ c = c' := by
  constructor
  · intro same
    rcases Nat.lt_trichotomy r r' with less | rfl | more
    · have := place_lt inside less
      omega
    · exact ⟨rfl, by omega⟩
    · have := place_lt inside' more
      omega
  · rintro ⟨rfl, rfl⟩
    rfl

section
variable (g : Grid α rows cols)

/-- The place of the next character. -/
def place : Nat := g.row * cols + g.col + if g.pending then 1 else 0

/-- The character under the cursor, which moves on unless it is in the last column. -/
def set (a : α) : Grid α rows cols :=
  { g with
    cells := fun r c => if r = g.row ∧ c = g.col then a else g.cells r c
    col := if g.col + 1 < cols then g.col + 1 else g.col
    pending := decide (g.col + 1 = cols)
    col_lt := by have := g.col_lt; split <;> omega
    edge := fun last => by
      rw [decide_eq_true_eq] at last
      rw [if_neg (by omega)]
      exact last }

/-- To a position, or as near to it as there is one on the screen. -/
def moveTo (col row : Nat) : Grid α rows cols :=
  { g with
    row := min row (rows - 1)
    col := min col (cols - 1)
    pending := false
    row_lt := by have := g.row_lt; omega
    col_lt := by have := g.col_lt; omega
    edge := fun waits => absurd waits Bool.false_ne_true }

theorem moveTo_place {row col : Nat} (row_lt : row < rows) (col_lt : col < cols) :
    (g.moveTo col row).place = row * cols + col := by
  have inside : min row (rows - 1) = row ∧ min col (cols - 1) = col := by omega
  simp [moveTo, place, inside.1, inside.2]

theorem set_place (a : α) (ready : g.pending = false) : (g.set a).place = g.place + 1 := by
  have inside := g.col_lt
  simp only [set, place, ready, Bool.false_eq_true, if_false, decide_eq_true_eq]
  split
  · rw [if_neg (by omega)]
    omega
  · rw [if_pos (by omega)]

end

variable [Inhabited α] (g : Grid α rows cols)

/-- To the first column of the next row; below the last one the screen scrolls. -/
def lineFeed : Grid α rows cols :=
  if next : g.row + 1 < rows then
    { g with
      row := g.row + 1
      col := 0
      pending := false
      row_lt := next
      col_lt := Nat.zero_lt_of_lt g.col_lt
      edge := fun waits => absurd waits Bool.false_ne_true }
  else
    { g with
      cells := fun r c => if r + 1 < rows then g.cells (r + 1) c else default
      col := 0
      pending := false
      col_lt := Nat.zero_lt_of_lt g.col_lt
      edge := fun waits => absurd waits Bool.false_ne_true }

def put (a : α) : Grid α rows cols := if g.pending then g.lineFeed.set a else g.set a

def write (text : List α) : Grid α rows cols := text.foldl put g

/-- Some cells are emptied; the cursor stays. -/
def erase (gone : Nat → Nat → Bool) : Grid α rows cols :=
  { g with
    cells := fun r c => if gone r c then default else g.cells r c
    pending := false
    edge := fun waits => absurd waits Bool.false_ne_true }

theorem lineFeed_cells (next : g.row + 1 < rows) : g.lineFeed.cells = g.cells := by
  rw [lineFeed, dif_pos next]

/-! ### Text -/

/-- A character takes its place, and nothing else changes. -/
theorem put_spec (a : α) (room : g.place < rows * cols) :
    (g.put a).place = g.place + 1 ∧
      ∀ r c, c < cols → (g.put a).cells r c = if r * cols + c = g.place then a else g.cells r c := by
  have inside := g.col_lt
  unfold put
  cases waits : g.pending with
  | false =>
    rw [if_neg Bool.false_ne_true]
    refine ⟨g.set_place a waits, fun r c c_lt => ?_⟩
    have here : g.place = g.row * cols + g.col := by simp [place, waits]
    rw [here]
    exact if_congr (place_inj c_lt inside).symm rfl rfl
  | true =>
    rw [if_pos rfl]
    have last := g.edge waits
    -- the row that is full is not the last one
    have here : g.place = (g.row + 1) * cols := by
      simp only [place, waits, if_true]
      rw [Nat.add_mul, Nat.one_mul]
      omega
    have next : g.row + 1 < rows := by
      rw [here] at room
      exact Nat.lt_of_mul_lt_mul_right room
    have fed : g.lineFeed = { g with
        row := g.row + 1
        col := 0
        pending := false
        row_lt := next
        col_lt := Nat.zero_lt_of_lt g.col_lt
        edge := fun waits => absurd waits Bool.false_ne_true } := dif_pos next
    have place_fed : g.lineFeed.place = g.place := by
      rw [here, fed]
      simp [place]
    refine ⟨by rw [set_place _ a (by rw [fed]), place_fed], fun r c c_lt => ?_⟩
    rw [here, fed]
    have at_start := @place_inj cols r c (g.row + 1) 0 c_lt (Nat.zero_lt_of_lt inside)
    rw [Nat.add_zero] at at_start
    exact if_congr at_start.symm rfl rfl

/-- A text takes the places from the cursor on. -/
theorem write_spec (text : List α) (room : g.place + text.length ≤ rows * cols) :
    (g.write text).place = g.place + text.length ∧
      ∀ r c, c < cols → (g.write text).cells r c =
        if g.place ≤ r * cols + c then (text[r * cols + c - g.place]?).getD (g.cells r c)
        else g.cells r c := by
  induction text generalizing g with
  | nil =>
    refine ⟨rfl, fun r c _ => ?_⟩
    rw [show g.write [] = g from rfl]
    simp
  | cons a text ih =>
    rw [List.length_cons] at room ⊢
    obtain ⟨moved, cells⟩ := g.put_spec a (by omega)
    obtain ⟨place, rest⟩ := ih (g.put a) (by rw [moved]; omega)
    refine ⟨by rw [show g.write (a :: text) = (g.put a).write text from rfl, place, moved]; omega,
      fun r c c_lt => ?_⟩
    rw [show g.write (a :: text) = (g.put a).write text from rfl, rest r c c_lt, moved, cells r c c_lt]
    rcases Nat.lt_trichotomy (r * cols + c) g.place with before | here | behind
    · rw [if_neg (by omega), if_neg (by omega), if_neg (by omega)]
    · rw [if_neg (by omega), if_pos here, if_pos (by omega), here, Nat.sub_self]
      rfl
    · rw [if_pos (by omega), if_neg (by omega), if_pos (by omega)]
      obtain ⟨n, distance⟩ : ∃ n, r * cols + c - g.place = n + 1 := ⟨r * cols + c - g.place - 1, by omega⟩
      rw [distance, List.getElem?_cons_succ, show r * cols + c - (g.place + 1) = n by omega]

/-- Below the row in which it ends, a text changes nothing. -/
theorem write_below (text : List α) {bottom : Nat} (on_screen : bottom ≤ rows)
    (room : g.place + text.length ≤ bottom * cols) {r c : Nat} (below : bottom ≤ r) (inside : c < cols) :
    (g.write text).cells r c = g.cells r c := by
  have fits : bottom * cols ≤ rows * cols := Nat.mul_le_mul_right cols on_screen
  have behind : bottom * cols ≤ r * cols := Nat.mul_le_mul_right cols below
  rw [(g.write_spec text (by omega)).2 r c inside, List.getElem?_eq_none (by omega), Option.getD_none, ite_self]

/-- A text within a row. -/
theorem write_row (text : List α) (row col : Nat) (row_lt : row < rows) (col_lt : col < cols)
    (fits : col + text.length ≤ cols) {r c : Nat} (inside : c < cols) :
    ((g.moveTo col row).write text).cells r c =
      if r = row ∧ col ≤ c then (text[c - col]?).getD (g.cells r c) else g.cells r c := by
  have place := g.moveTo_place row_lt col_lt
  have whole : (row + 1) * cols ≤ rows * cols := Nat.mul_le_mul_right cols row_lt
  rw [Nat.add_mul, Nat.one_mul] at whole
  have spec := (g.moveTo col row).write_spec text (by omega)
  rw [spec.2 r c inside, place, show (g.moveTo col row).cells = g.cells from rfl]
  rcases Nat.lt_trichotomy r row with above | rfl | below
  · have := place_lt inside above
    rw [if_neg (by omega), if_neg (by omega)]
  · by_cases behind : col ≤ c
    · rw [if_pos (by omega), if_pos ⟨rfl, behind⟩, Nat.add_sub_add_left]
    · rw [if_neg (by omega), if_neg (by omega)]
  · have next : (row + 1) * cols ≤ r * cols := Nat.mul_le_mul_right cols below
    rw [Nat.add_mul, Nat.one_mul] at next
    rw [if_neg (show ¬(r = row ∧ col ≤ c) by omega), List.getElem?_eq_none (by omega), Option.getD_none, ite_self]

end Grid

end KexecLoader
