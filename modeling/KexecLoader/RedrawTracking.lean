import Mathlib.Tactic.Ring
import KexecLoader.Redraw

/-!
# The prompt while the input is redrawn

`replace_input` takes each of its line feeds for a line that scrolls. That is so on the last
row only, and the cursor stands where the redrawn text begins.
-/
namespace KexecLoader

section
variable {rows cols : Nat}

/-- The cell of a byte of the input. -/
def Prompt.place (p : Prompt) (s : Terminal rows cols) (i : Nat) : Int :=
  (s.top + p.srow) * cols + p.scol + i

/-- The prompt has moved with the screen, the text from the offset on is on the screen at
its place, and nothing before it has changed. -/
structure TracksPrompt (p p' : Prompt) (s s' : Terminal rows cols) (text : Str) (offset : Nat) : Prop where
  scol : p'.scol = p.scol
  srow : p'.srow = p.srow - (s'.top - s.top)
  shown : ∀ i (inside : i < text.length), offset ≤ i →
    s'.top * cols ≤ p.place s i ∧ p.place s i < s'.bottom ∧ (s'.cells (p.place s i)).val = text[i]
  kept : ∀ i < p.place s offset, s'.cells i = s.cells i

/-- The redrawn rows have room on the screen, and if there are none left below it, the
cursor is on the last row. -/
structure Redrawable (p : Prompt) (text : Str) (offset : Nat) (s : Terminal rows cols) : Prop where
  below : 0 ≤ p.rowOf cols offset
  room : p.rowOf cols (offset + (text.drop offset).length) < p.rowOf cols offset + rows
  scrolls : p.rowOf cols (offset + (text.drop offset).length) < rows ∨ s.row + 1 = rows
  text : lf ∉ text.drop offset

/-! ### What is printed -/

theorem Glyph.ne_lf (glyph : Glyph) : glyph.val ≠ lf := glyph.property

theorem makeRoom_eq (n : Nat) (p : Prompt) (row : Int) (s : Terminal rows cols) :
    makeRoom n p row s = ({ p with srow := p.srow - n }, row - n, Screen.lineFeeds n s) := by
  induction n generalizing p row s with
  | zero => simp [makeRoom, Screen.lineFeeds]
  | succ n ih =>
    have lineFeed : putchar lf s = s.lineFeed := dif_pos rfl
    rw [makeRoom, ih, lineFeed, Screen.lineFeeds]
    simp only [Prod.mk.injEq, Prompt.mk.injEq, true_and, and_true]
    omega

theorem fputs_top_le (text : Str) (s : Terminal rows cols) : s.top ≤ (fputs text s).top := by
  induction text generalizing s with
  | nil => exact le_refl _
  | cons c text ih =>
    refine le_trans ?_ (ih (putchar c s))
    unfold putchar
    split
    · exact s.lineFeed_top_le
    · exact s.put_top_le _

theorem fputs_write (text : Str) (no_line : lf ∉ text) (s : Terminal rows cols) :
    ∃ glyphs : List Glyph, glyphs.map Subtype.val = text ∧ fputs text s = s.write glyphs := by
  induction text generalizing s with
  | nil => exact ⟨[], rfl, rfl⟩
  | cons c text ih =>
    rw [List.mem_cons, not_or] at no_line
    have glyph : putchar c s = s.put ⟨c, Ne.symm no_line.1⟩ := dif_neg _
    obtain ⟨glyphs, same, written⟩ := ih no_line.2 (putchar c s)
    refine ⟨⟨c, Ne.symm no_line.1⟩ :: glyphs, congrArg (c :: ·) same, ?_⟩
    rw [glyph] at written
    show fputs text (putchar c s) = _
    rw [glyph]
    exact written

/-! ### Rows and cells -/

theorem Prompt.rowOf_add (p : Prompt) (offset n : Nat) (some : 0 < cols) :
    p.rowOf cols (offset + n) = p.rowOf cols offset + ((p.colOf cols offset + n) / cols : Nat) := by
  have parts := Nat.div_add_mod (p.scol + offset) cols
  have whole : p.scol + (offset + n) = cols * ((p.scol + offset) / cols) + ((p.scol + offset) % cols + n) := by
    omega
  rw [rowOf, whole, Nat.mul_add_div some, rowOf, colOf]
  push_cast
  omega

/-- The place of a byte, by its row and its column. -/
theorem Prompt.place_eq (p : Prompt) (s : Terminal rows cols) (offset : Nat) :
    p.place s offset = (s.top + p.rowOf cols offset) * cols + p.colOf cols offset := by
  have parts := Nat.div_add_mod (p.scol + offset) cols
  have parts' : (p.scol + offset : Int) = cols * ((p.scol + offset) / cols : Nat) + p.colOf cols offset := by
    rw [colOf]
    exact_mod_cast parts.symm
  rw [place, rowOf, Int.add_assoc, parts']
  ring

/-- The line feeds that `replace_input` prints. -/
def lineFeedsFor (p : Prompt) (rows cols : Nat) (text : Str) (offset : Nat) : Nat :=
  (p.rowOf cols (offset + (text.drop offset).length) + 1 - rows).toNat

variable (stray : Stray rows cols) (p : Prompt) (text : Str) (offset : Nat) (s : Terminal rows cols)

theorem replaceInput_eq :
    replaceInput stray p text offset s =
      ({ p with srow := p.srow - lineFeedsFor p rows cols text offset },
        fputs (text.drop offset) (consoleSetpos stray (p.colOf cols offset)
          (p.rowOf cols offset - lineFeedsFor p rows cols text offset)
          (Screen.lineFeeds (lineFeedsFor p rows cols text offset) s))) := by
  unfold replaceInput lineFeedsFor
  simp only [makeRoom_eq]
  rw [← p.rowOf_add offset _ (Nat.zero_lt_of_lt s.col_lt)]

/-- Behind the line feeds there is room for the text and the cursor behind it. -/
theorem redraw_fits (top row : Int) {col n l : Nat} (column : col < cols)
    (count : n = (row + ((col + l) / cols : Nat) + 1 - rows).toNat) :
    (top + (row - n)) * cols + col + l < (top + rows) * cols := by
  have ends : col + l < ((col + l) / cols + 1) * cols := Nat.lt_mul_of_div_lt (Nat.lt_succ_self _) (Nat.zero_lt_of_lt column)
  have lines : (top + (row - n) + ((col + l) / cols + 1 : Nat)) * cols ≤ (top + rows) * cols :=
    Int.mul_le_mul_of_nonneg_right (by omega) (Int.natCast_nonneg cols)
  rw [Int.add_mul (top + (row - n))] at lines
  have ends' : ((col + l : Nat) : Int) < ((col + l) / cols + 1 : Nat) * cols := by exact_mod_cast ends
  omega

/-- The redraw, if it starts on the screen. -/
theorem replaceInput_on (n : Nat) (count : n = lineFeedsFor p rows cols text offset)
    (on : (n : Int) ≤ p.rowOf cols offset) (no_line : lf ∉ text.drop offset) :
    ∃ (glyphs : List Glyph) (s₁ : Terminal rows cols), glyphs.map Subtype.val = text.drop offset ∧
      replaceInput stray p text offset s = ({ p with srow := p.srow - n }, s₁.write glyphs) ∧
      s₁.top = (Screen.lineFeeds n s).top ∧ s₁.cells = s.cells ∧
      s₁.cursor = p.place s offset + (s₁.top - s.top - n) * cols ∧
      s₁.cursor + glyphs.length < s₁.bottom ∧ s₁.top * cols ≤ s₁.cursor := by
  have column : p.colOf cols offset < cols := Nat.mod_lt _ (Nat.zero_lt_of_lt s.col_lt)
  have count' := count
  rw [lineFeedsFor, p.rowOf_add offset _ (Nat.zero_lt_of_lt s.col_lt)] at count'
  have inside : p.rowOf cols offset - n + 1 ≤ rows := by
    generalize (p.colOf cols offset + (text.drop offset).length) / cols = lines at count'
    omega
  let s₁ := (Screen.lineFeeds n s).moveTo (p.colOf cols offset) (p.rowOf cols offset - n).toNat
  -- the redraw starts on the screen, so that the terminal is not asked for more
  have position : consoleSetpos stray (p.colOf cols offset) (p.rowOf cols offset - n)
      (Screen.lineFeeds n s) = s₁ := if_pos (by omega)
  obtain ⟨glyphs, same, written⟩ := fputs_write (text.drop offset) no_line s₁
  have length : glyphs.length = (text.drop offset).length := by rw [← same, List.length_map]
  have cursor : s₁.cursor =
      (s₁.top + (p.rowOf cols offset - n)) * cols + p.colOf cols offset := by
    have row : (s₁.row : Int) = p.rowOf cols offset - n := by
      show ((min _ _ : Nat) : Int) = _
      omega
    have col : s₁.col = p.colOf cols offset := by
      show min _ _ = _
      omega
    rw [Screen.cursor, row, col]
  refine ⟨glyphs, s₁, same, ?_, rfl, s.lineFeeds_cells n, ?_, ?_, ?_⟩
  · rw [replaceInput_eq, ← count, position, written]
  · rw [cursor, p.place_eq s offset]
    ring
  · rw [cursor, length]
    exact redraw_fits s₁.top (p.rowOf cols offset) column count'
  · have line : s₁.top * cols ≤ (s₁.top + (p.rowOf cols offset - n)) * cols :=
      Int.mul_le_mul_of_nonneg_right (by omega) (Int.natCast_nonneg cols)
    rw [cursor]
    omega

/-! ### When the prompt is tracked -/

theorem lineFeedsFor_le : (lineFeedsFor p rows cols text offset : Int) ≤ p.rowOf cols offset ↔
    0 ≤ p.rowOf cols offset ∧
      p.rowOf cols (offset + (text.drop offset).length) < p.rowOf cols offset + rows := by
  rw [lineFeedsFor]
  omega

theorem replaceInput_tracks (fine : Redrawable p text offset s) :
    TracksPrompt p (replaceInput stray p text offset s).1 s (replaceInput stray p text offset s).2
      text offset := by
  have on := (lineFeedsFor_le p text offset).mpr ⟨fine.below, fine.room⟩
  obtain ⟨glyphs, s₁, same, written, top, cells, cursor, fits, visible⟩ :=
    replaceInput_on stray p text offset s _ rfl on fine.text
  -- every line feed has scrolled
  have scrolled : s₁.top = s.top + lineFeedsFor p rows cols text offset := by
    rw [top, s.lineFeeds_top]
    have scrolls := fine.scrolls
    unfold lineFeedsFor
    omega
  have place : s₁.cursor = p.place s offset := by
    rw [cursor, scrolled]
    ring
  have top' := s₁.write_top glyphs fits
  rw [written]
  refine ⟨rfl, ?_, fun i inside behind => ?_, fun i before => ?_⟩
  · dsimp only
    omega
  · have index : p.place s i = s₁.cursor + (i - offset : Nat) := by
      rw [place, Prompt.place, Prompt.place]
      omega
    have length : glyphs.length = text.length - offset := by
      have length := congrArg List.length same
      rwa [List.length_map, List.length_drop] at length
    have bound : i - offset < glyphs.length := by omega
    have glyph : (glyphs[i - offset]).val = text[i] := by
      have entry := congrArg (fun list => list[i - offset]?) same
      simpa [bound, inside, Nat.add_sub_cancel' behind] using entry
    have cell := s₁.write_cells glyphs (i - offset) bound
    rw [Screen.bottom, top', index, cell]
    rw [Screen.bottom] at fits
    exact ⟨by omega, by omega, glyph⟩
  · rw [s₁.write_before glyphs (place ▸ before), cells]

/-- Whatever a terminal does above its first row, the prompt is tracked exactly if the
redraw has room on the screen and no line feed of it falls short of scrolling. -/
theorem replaceInput_tracks_iff :
    (∀ stray, TracksPrompt p (replaceInput stray p text offset s).1 s
      (replaceInput stray p text offset s).2 text offset) ↔ Redrawable p text offset s := by
  refine ⟨fun all => ?_, fun fine stray => replaceInput_tracks stray p text offset s fine⟩
  have no_line : lf ∉ text.drop offset := by
    -- no cell shows a line feed
    intro member
    obtain ⟨i, inside, line⟩ := List.mem_iff_getElem.mp member
    rw [List.length_drop] at inside
    rw [List.getElem_drop] at line
    have shown := ((all fun _ _ s => s).shown (offset + i) (by omega) (by omega)).2.2
    rw [line] at shown
    exact Glyph.ne_lf _ shown
  have on : (lineFeedsFor p rows cols text offset : Int) ≤ p.rowOf cols offset := by
    by_contra above
    -- a terminal that scrolls once more than it should
    let stray : Stray rows cols := fun _ _ s =>
      Screen.lineFeeds (lineFeedsFor p rows cols text offset + 1 + rows) s
    have srow := (all stray).srow
    rw [replaceInput_eq, consoleSetpos, if_neg (by omega)] at srow
    have low := fputs_top_le (text.drop offset) (stray (p.colOf cols offset)
      (p.rowOf cols offset - lineFeedsFor p rows cols text offset)
      (Screen.lineFeeds (lineFeedsFor p rows cols text offset) s))
    simp only [stray] at low srow
    rw [Screen.lineFeeds_top, Screen.lineFeeds_top] at low
    omega
  have room := (lineFeedsFor_le p text offset).mp on
  -- only the line feeds scroll now, and all of them have to
  refine ⟨room.1, room.2, ?_, no_line⟩
  obtain ⟨glyphs, s₁, -, written, top, -, -, fits, -⟩ :=
    replaceInput_on (fun _ _ s => s) p text offset s _ rfl on no_line
  have srow := (all fun _ _ s => s).srow
  rw [written] at srow
  dsimp only at srow
  rw [s₁.write_top glyphs fits, top, s.lineFeeds_top] at srow
  have row := s.row_lt
  unfold lineFeedsFor at srow
  omega

/-! ### Where the cursor is -/

theorem consoleSetpos_row (col : Nat) {row : Int} (on : 0 ≤ row) :
    ((consoleSetpos stray col row s).row : Int) = min row (rows - 1) := by
  have some := Nat.zero_lt_of_lt s.row_lt
  rw [consoleSetpos, if_pos on]
  show ((min _ _ : Nat) : Int) = _
  omega

/-- The screens that `read_cmd` calls `replace_input` on. -/
inductive CalledAt (p : Prompt) : Nat → Terminal rows cols → Prop where
  | setCursor (offset : Nat) (s : Terminal rows cols) : CalledAt p offset (setCursor stray p offset s)
  | eraseInput (offset len : Nat) (s : Terminal rows cols) :
      CalledAt p offset (eraseInput stray p offset len s)
  | prompt (s : Terminal rows cols) (here : p = Prompt.ofCursor s) : CalledAt p 0 s

variable {stray p offset s}

/-- The cursor is on the row of the offset. -/
theorem CalledAt.row (called : CalledAt stray p offset s) (on : 0 ≤ p.rowOf cols offset) :
    (s.row : Int) = min (p.rowOf cols offset) (rows - 1) := by
  cases called with
  | setCursor => exact consoleSetpos_row stray _ _ on
  | eraseInput => exact consoleSetpos_row stray _ _ on
  | prompt _ here =>
    have lt := s.row_lt
    have row : p.rowOf cols 0 = s.row := by
      rw [here, Prompt.rowOf, Prompt.ofCursor]
      simp [Nat.div_eq_of_lt s.col_lt]
    omega

/-- So a line feed scrolls exactly if the redrawn text begins on the last row. -/
theorem CalledAt.redrawable_iff (called : CalledAt stray p offset s) :
    Redrawable p text offset s ↔ 0 ≤ p.rowOf cols offset ∧
      p.rowOf cols (offset + (text.drop offset).length) < p.rowOf cols offset + rows ∧
      (p.rowOf cols (offset + (text.drop offset).length) < rows ∨ rows ≤ p.rowOf cols offset + 1) ∧
      lf ∉ text.drop offset := by
  have lt := s.row_lt
  constructor
  · rintro ⟨below, room, scrolls, no_line⟩
    have row := called.row below
    exact ⟨below, room, scrolls.imp_right fun last => by omega, no_line⟩
  · rintro ⟨below, room, scrolls, no_line⟩
    have row := called.row below
    exact ⟨below, room, scrolls.imp_right fun last => by omega, no_line⟩

end

/-- A screen of 24 rows, with the prompt on the last row but one. -/
def sampleTerminal : Terminal 24 80 where
  top := 0
  cells _ := default
  row := 22
  col := 2
  row_lt := by decide
  col_lt := by decide
  below _ _ := rfl

def samplePrompt : Prompt := Prompt.ofCursor sampleTerminal

/-- The screen as KEY_UP leaves it to `replace_input`. -/
def erasedTerminal : Terminal 24 80 := eraseInput (fun _ _ s => s) samplePrompt 0 0 sampleTerminal

def recalledLine : Str := List.replicate 158 97

/-- A line of the history that ends on the last row: the screen does not scroll, but the
prompt is taken to be one row higher. -/
theorem replaceInput_recall :
    (replaceInput (fun _ _ s => s) samplePrompt recalledLine 0 erasedTerminal).1.srow = 21 ∧
      (replaceInput (fun _ _ s => s) samplePrompt recalledLine 0 erasedTerminal).2.top = 0 ∧
      ¬TracksPrompt samplePrompt (replaceInput (fun _ _ s => s) samplePrompt recalledLine 0 erasedTerminal).1
        erasedTerminal (replaceInput (fun _ _ s => s) samplePrompt recalledLine 0 erasedTerminal).2
        recalledLine 0 := by
  have count : 1 = lineFeedsFor samplePrompt 24 80 recalledLine 0 := by
    rw [lineFeedsFor, List.drop_zero, recalledLine, List.length_replicate]
    decide
  have no_line : lf ∉ recalledLine := fun member => absurd (List.eq_of_mem_replicate member) (by decide)
  obtain ⟨glyphs, s₁, -, written, top, -, -, fits, -⟩ := replaceInput_on (fun _ _ s => s) samplePrompt
    recalledLine 0 erasedTerminal 1 count (by decide) no_line
  have still : s₁.top = 0 := by
    rw [top, Screen.lineFeeds_top]
    rfl
  rw [written, s₁.write_top glyphs fits, still]
  refine ⟨rfl, rfl, fun tracks => ?_⟩
  have srow := tracks.srow
  rw [s₁.write_top glyphs fits, still] at srow
  have rows : (21 : Int) = 22 := srow
  exact absurd rows (by decide)

end KexecLoader
