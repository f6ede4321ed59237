import KexecLoader.Library.CString

/-!
# Line-wise reading with a bounded buffer

`fgets(buf, size, fh)` delivers at most `size - 1` bytes and stops after a line
feed; the loop `while(fgets(...))` turns a stream into the list of pieces it
delivers. A line whose end does not fit is delivered in several pieces.
-/
namespace KexecLoader

/-- The next at most `room` bytes up to and including a line feed, and the rest. -/
def fgetsPiece : Nat → Str → Str × Str
  | 0, stream => ([], stream)
  | _ + 1, [] => ([], [])
  | room + 1, c :: stream =>
    if c = lf then ([c], stream)
    else (c :: (fgetsPiece room stream).1, (fgetsPiece room stream).2)

def fgets (size : Nat) (stream : Str) : Option (Str × Str) :=
  if stream = [] then none else some (fgetsPiece (size - 1) stream)

/-- `while(fgets(buf, size, fh))` with at most `fuel` rounds. -/
def whileFgets (size : Nat) : Nat → Str → List Str
  | 0, _ => []
  | fuel + 1, stream =>
    match fgets size stream with
    | none => []
    | some (piece, rest) => piece :: whileFgets size fuel rest

/-- All pieces of a stream; each round takes at least one byte. -/
def pieces (size : Nat) (stream : Str) : List Str :=
  whileFgets size stream.length stream

/-- The lines of a file, without their line feeds. -/
def fileLines (content : Str) : List Str := content.splitOn lf

theorem fgetsPiece_append (room : Nat) (stream : Str) :
    (fgetsPiece room stream).1 ++ (fgetsPiece room stream).2 = stream := by
  induction room generalizing stream with
  | zero => rfl
  | succ room ih =>
    cases stream with
    | nil => rfl
    | cons c stream =>
      simp only [fgetsPiece]
      split
      · rfl
      · simpa using ih stream

theorem fgetsPiece_shorter (room : Nat) (stream : Str) (h : stream ≠ []) :
    (fgetsPiece (room + 1) stream).2.length < stream.length := by
  cases stream with
  | nil => contradiction
  | cons c stream =>
    simp only [fgetsPiece]
    split
    · simp
    · have total := congrArg List.length (fgetsPiece_append room stream)
      simp only [List.length_append] at total
      simp only [List.length_cons]
      omega

theorem fgetsPiece_length (room : Nat) (stream : Str) : (fgetsPiece room stream).1.length ≤ room := by
  induction room generalizing stream with
  | zero => exact Nat.le_refl _
  | succ room ih =>
    cases stream with
    | nil => exact Nat.zero_le _
    | cons c stream =>
      simp only [fgetsPiece]
      split
      · simp
      · simpa using ih stream

theorem whileFgets_enough (size : Nat) (stream : Str) (fuel : Nat)
    (enough : stream.length ≤ fuel) :
    whileFgets (size + 2) fuel stream = pieces (size + 2) stream := by
  -- both sides make a round, and what is left needs less fuel than either has
  induction fuel using Nat.strongRecOn generalizing stream with
  | _ fuel ih =>
    cases stream with
    | nil => cases fuel <;> simp [pieces, whileFgets, fgets]
    | cons c stream =>
      obtain ⟨fuel, rfl⟩ : ∃ n, fuel = n + 1 := ⟨fuel - 1, by simp at enough; omega⟩
      have shorter := fgetsPiece_shorter size (c :: stream) (by simp)
      simp only [List.length_cons] at enough shorter
      simp only [pieces, List.length_cons, whileFgets, fgets, reduceCtorEq, if_false,
        Nat.add_succ_sub_one]
      rw [ih fuel (by omega) _ (by omega)]
      by_cases equal : fuel = stream.length
      · rw [← equal, ih fuel (by omega) _ (by omega)]
      · rw [ih stream.length (by omega) _ (by omega)]

theorem pieces_nil (size : Nat) : pieces size [] = [] := rfl

/-- One round of the reading loop. -/
theorem pieces_cons (size : Nat) (stream : Str) (h : stream ≠ []) :
    pieces (size + 2) stream =
      (fgetsPiece (size + 1) stream).1 :: pieces (size + 2) (fgetsPiece (size + 1) stream).2 := by
  have shorter := fgetsPiece_shorter size stream h
  rw [← whileFgets_enough size stream (stream.length + 1) (by omega)]
  simp only [whileFgets, fgets, h, if_false, Nat.add_succ_sub_one]
  rw [whileFgets_enough size _ _ (by omega)]

/-- Along the calls of `fgets`, each of which leaves less of the stream. -/
@[elab_as_elim]
theorem pieces_induction (size : Nat) {motive : Str → Prop} (nil : motive [])
    (cons : ∀ stream, stream ≠ [] → motive (fgetsPiece (size + 1) stream).2 → motive stream)
    (stream : Str) : motive stream := by
  induction len : stream.length using Nat.strongRecOn generalizing stream with
  | _ n ih =>
    by_cases empty : stream = []
    · exact empty ▸ nil
    · exact cons stream empty (ih _ (len ▸ fgetsPiece_shorter size stream empty) _ rfl)

theorem length_of_mem_pieces (size : Nat) (stream : Str) (piece : Str)
    (member : piece ∈ pieces (size + 2) stream) : piece.length ≤ size + 1 := by
  induction stream using pieces_induction size with
  | nil => simp [pieces_nil] at member
  | cons stream some ih =>
    rw [pieces_cons size stream some] at member
    obtain rfl | later := List.mem_cons.mp member
    · exact fgetsPiece_length _ _
    · exact ih later

theorem fgetsPiece_line (room : Nat) (line rest : Str) (no_lf : lf ∉ line)
    (room_left : line.length < room) :
    fgetsPiece room (line ++ lf :: rest) = (line ++ [lf], rest) := by
  induction line generalizing room with
  | nil =>
    obtain ⟨room, rfl⟩ : ∃ n, room = n + 1 := ⟨room - 1, by simp at room_left; omega⟩
    simp [fgetsPiece]
  | cons c line ih =>
    simp only [List.mem_cons, not_or] at no_lf
    obtain ⟨room, rfl⟩ : ∃ n, room = n + 1 := ⟨room - 1, by omega⟩
    have := ih room no_lf.2 (by simpa using room_left)
    simp [fgetsPiece, Ne.symm no_lf.1, this]

theorem fgetsPiece_full (line rest : Str) (no_lf : lf ∉ line) :
    fgetsPiece line.length (line ++ rest) = (line, rest) := by
  induction line with
  | nil => rfl
  | cons c line ih =>
    simp only [List.mem_cons, not_or] at no_lf
    simp [fgetsPiece, Ne.symm no_lf.1, ih no_lf.2]

/-- A line that does not fit is cut where the buffer is full. -/
theorem fgetsPiece_cut (room : Nat) (line rest : Str) (no_lf : lf ∉ line)
    (long : room ≤ line.length) :
    fgetsPiece room (line ++ lf :: rest) = (line.take room, line.drop room ++ lf :: rest) := by
  have read := fgetsPiece_full (line.take room) (line.drop room ++ lf :: rest)
    fun member => no_lf (List.mem_of_mem_take member)
  rwa [List.length_take, Nat.min_eq_left long, ← List.append_assoc,
    List.take_append_drop] at read

/-- The first piece of a line: the whole line, or as much of it as there is room
for. -/
theorem fgetsPiece_text (room : Nat) (line rest : Str) (no_lf : lf ∉ line) :
    (fgetsPiece room (line ++ lf :: rest)).1 = line.take room ++ [lf] ∨
      (fgetsPiece room (line ++ lf :: rest)).1 = line.take room := by
  by_cases fits : line.length < room
  · rw [fgetsPiece_line room line rest no_lf fits, List.take_of_length_le (by omega)]
    exact .inl rfl
  · rw [fgetsPiece_cut room line rest no_lf (by omega)]
    exact .inr rfl

/-- A line that fits with its line feed is delivered as one piece. -/
theorem pieces_line (size : Nat) (line rest : Str) (no_lf : lf ∉ line)
    (short : line.length ≤ size) :
    pieces (size + 2) (line ++ lf :: rest) = (line ++ [lf]) :: pieces (size + 2) rest := by
  rw [pieces_cons size _ (by simp), fgetsPiece_line _ _ _ no_lf (by omega)]

/-- Lines that all fit are delivered one by one. -/
theorem pieces_lines (size : Nat) (lines : List Str)
    (fit : ∀ line ∈ lines, lf ∉ line ∧ line.length ≤ size) (rest : Str) :
    pieces (size + 2) (lines.flatMap (· ++ [lf]) ++ rest) =
      lines.map (· ++ [lf]) ++ pieces (size + 2) rest := by
  induction lines with
  | nil => rfl
  | cons line lines ih =>
    obtain ⟨no_lf, short⟩ := fit line (by simp)
    have first := pieces_line size line (lines.flatMap (· ++ [lf]) ++ rest) no_lf short
    simp only [List.flatMap_cons, List.append_assoc, List.cons_append, List.nil_append, first,
      List.map_cons, ih fun l member => fit l (by simp [member])]

/-- A text without a line feed that fits is read to its end. -/
theorem fgetsPiece_whole (room : Nat) (line : Str) (no_lf : lf ∉ line) (short : line.length ≤ room) :
    fgetsPiece room line = (line, []) := by
  induction line generalizing room with
  | nil => cases room <;> rfl
  | cons c line ih =>
    simp only [List.mem_cons, not_or] at no_lf
    obtain ⟨room, rfl⟩ : ∃ n, room = n + 1 := ⟨room - 1, by simp at short; omega⟩
    simp [fgetsPiece, Ne.symm no_lf.1, ih room no_lf.2 (by simpa using short)]

/-- A last line without a line feed. -/
theorem pieces_last (size : Nat) (line : Str) (nonempty : line ≠ []) (no_lf : lf ∉ line)
    (short : line.length ≤ size + 1) : pieces (size + 2) line = [line] := by
  rw [pieces_cons size _ nonempty, fgetsPiece_whole _ line no_lf short, pieces_nil]

/-- A line with as many bytes as the buffer holds leaves its line feed behind,
which arrives as a piece of its own. -/
theorem pieces_full_line (size : Nat) (line rest : Str) (no_lf : lf ∉ line)
    (full : line.length = size + 1) :
    pieces (size + 2) (line ++ lf :: rest) = line :: [lf] :: pieces (size + 2) rest := by
  rw [pieces_cons size _ (by simp), ← full, fgetsPiece_full _ _ no_lf]
  rw [show lf :: rest = [] ++ lf :: rest from rfl, pieces_line size [] rest (by simp) (by simp)]
  rfl

theorem fileLines_cons (line rest : Str) (no_lf : lf ∉ line) :
    fileLines (line ++ lf :: rest) = line :: fileLines rest :=
  List.splitOn_append_cons_self_of_not_mem no_lf rest

/-- Lines that are all ended, and the empty one behind the last. -/
theorem fileLines_lines (lines : List Str) (no_lf : ∀ line ∈ lines, lf ∉ line) :
    fileLines (lines.flatMap (· ++ [lf])) = lines ++ [[]] := by
  induction lines with
  | nil => rfl
  | cons line lines ih =>
    have here : (line :: lines).flatMap (· ++ [lf]) = line ++ lf :: lines.flatMap (· ++ [lf]) := by simp
    rw [here, fileLines_cons _ _ (no_lf line List.mem_cons_self),
      ih fun l member => no_lf l (List.mem_cons_of_mem _ member)]
    rfl

theorem mem_fileLines {content line : Str} (member : line ∈ fileLines content) :
    lf ∉ line ∧ ∀ c ∈ line, c ∈ content := by
  induction content using separated_induction lf with
  | last piece no_lf =>
    rw [fileLines, List.splitOn_eq_singleton no_lf] at member
    obtain rfl := List.mem_singleton.mp member
    exact ⟨no_lf, fun c inside => inside⟩
  | more piece rest no_lf ih =>
    rw [fileLines_cons piece rest no_lf] at member
    rcases List.mem_cons.mp member with rfl | later
    · exact ⟨no_lf, fun c inside => List.mem_append_left _ inside⟩
    · obtain ⟨no_lf, inside⟩ := ih later
      exact ⟨no_lf, fun c there => List.mem_append_right _ (List.mem_cons_of_mem _ (inside c there))⟩

/-- A reader that does not look at line feeds and blank lines reads a file of short
lines line by line. -/
theorem foldl_fileLines {σ : Type*} (size : Nat) (step : σ → Str → σ) (s : σ) (content : Str)
    (ended : ∀ s, ∀ line ∈ fileLines content, step s (cstr (line ++ [lf])) = step s (cstr line))
    (blank : ∀ s, step s [] = s) (short : ∀ line ∈ fileLines content, line.length ≤ size) :
    ((pieces (size + 2) content).map cstr).foldl step s =
      ((fileLines content).map cstr).foldl step s := by
  induction content using separated_induction lf generalizing s with
  | last line no_lf =>
    -- the last line is not delivered at all when it is empty
    have lines : fileLines line = [line] := List.splitOn_eq_singleton no_lf
    rw [lines] at short ⊢
    have fits := short line (by simp)
    by_cases empty : line = []
    · subst empty
      simp [pieces_nil, cstr, blank]
    · rw [pieces_last size line empty no_lf (by omega)]
  | more line rest no_lf ih =>
    rw [fileLines_cons line rest no_lf] at short ended ⊢
    have here := fun s => ended s line (by simp)
    rw [pieces_line size line rest no_lf (short line (by simp))]
    simp only [List.map_cons, List.foldl_cons, here]
    exact ih _ (fun s l member => ended s l (by simp [member])) fun l member => short l (by simp [member])

/-- The first piece of a line that does not fit. -/
theorem pieces_long (size : Nat) (line rest : Str) (no_lf : lf ∉ line)
    (long : size + 1 ≤ line.length) :
    pieces (size + 2) (line ++ lf :: rest) =
      line.take (size + 1) :: pieces (size + 2) (line.drop (size + 1) ++ lf :: rest) := by
  rw [pieces_cons size _ (by simp), fgetsPiece_cut _ line rest no_lf long]

/-- Whole lines are read as if nothing followed. -/
theorem pieces_append (size : Nat) (front rest : Str) (whole : ∀ c ∈ front.getLast?, c = lf) :
    pieces (size + 2) (front ++ rest) = pieces (size + 2) front ++ pieces (size + 2) rest := by
  induction len : front.length using Nat.strongRecOn generalizing front with
  | _ n ih =>
    by_cases empty : front = []
    · simp [empty, pieces_nil]
    · have last : front.getLast empty = lf := whole _ (List.getLast?_eq_some_getLast empty)
      obtain ⟨line, tail, rfl, no_lf⟩ :=
        List.eq_append_cons_of_mem (last ▸ List.getLast_mem empty)
      have tail_whole (l : Str) : ∀ c ∈ (l ++ lf :: tail).getLast?, c = lf := by
        simpa [List.getLast?_append] using whole
      rw [List.length_append, List.length_cons] at len
      rw [List.append_assoc, List.cons_append]
      by_cases fits : line.length ≤ size
      · have later : ∀ c ∈ tail.getLast?, c = lf := by
          cases tail with
          | nil => simp
          | cons b tail => simpa using tail_whole []
        rw [pieces_line size line _ no_lf fits, pieces_line size line _ no_lf fits,
          ih tail.length (by omega) tail later rfl, List.cons_append]
      · have cut := ih (line.drop (size + 1) ++ lf :: tail).length
          (by simp only [List.length_append, List.length_drop, List.length_cons]; omega)
          (line.drop (size + 1) ++ lf :: tail) (tail_whole _) rfl
        rw [pieces_long size line _ no_lf (by omega), pieces_long size line _ no_lf (by omega),
          ← List.cons_append, ← List.append_assoc, cut, List.cons_append]

theorem mem_of_mem_pieces (size : Nat) (stream : Str) (piece : Str)
    (member : piece ∈ pieces (size + 2) stream) : ∀ c ∈ piece, c ∈ stream := by
  induction stream using pieces_induction size with
  | nil => simp [pieces_nil] at member
  | cons stream some ih =>
    have parts := fgetsPiece_append (size + 1) stream
    rw [pieces_cons size stream some] at member
    intro c inside
    rw [← parts]
    obtain rfl | later := List.mem_cons.mp member
    · exact List.mem_append_left _ inside
    · exact List.mem_append_right _ (ih later c inside)

theorem pieces_flatten (size : Nat) (stream : Str) : (pieces (size + 2) stream).flatten = stream := by
  induction stream using pieces_induction size with
  | nil => rfl
  | cons stream some ih =>
    rw [pieces_cons size stream some, List.flatten_cons, ih, fgetsPiece_append]

theorem piece_ne_nil (size : Nat) (stream : Str) {piece : Str} (member : piece ∈ pieces (size + 2) stream) :
    piece ≠ [] := by
  induction stream using pieces_induction size with
  | nil => simp [pieces_nil] at member
  | cons stream some ih =>
    rw [pieces_cons size stream some] at member
    rcases List.mem_cons.mp member with rfl | later
    · obtain ⟨c, rest, rfl⟩ := List.exists_cons_of_ne_nil some
      unfold fgetsPiece
      split <;> exact List.cons_ne_nil _ _
    · exact ih later

/-- Pieces that change nothing can be left out. -/
theorem foldl_insert {σ : Type*} {valid : σ → Prop} {step : σ → Str → σ}
    (keeps : ∀ s p, valid s → valid (step s p)) (extra : List Str)
    (skip : ∀ s, valid s → ∀ p ∈ extra, step s p = s) (front back : List Str) (s : σ)
    (start : valid s) : (front ++ extra ++ back).foldl step s = (front ++ back).foldl step s := by
  induction front generalizing s with
  | nil =>
    induction extra with
    | nil => rfl
    | cons p extra ih =>
      have here := skip s start p (by simp)
      simp only [List.nil_append, List.cons_append, List.foldl_cons, here] at ih ⊢
      exact ih fun s ok q member => skip s ok q (by simp [member])
  | cons p front ih => exact ih (step s p) (keeps s p start)

end KexecLoader
