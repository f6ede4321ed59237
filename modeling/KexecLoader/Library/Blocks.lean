import Mathlib.Data.List.TakeWhile

/-!
# Readers of files that are made of blocks

Some lines open a record, which closes the one that was open; the others edit it.
Besides, every line may leave a note for the records opened after it. What such a
reader yields is what its blocks yield one by one, each of its own lines and of
the notes of the lines before it.
-/
namespace KexecLoader

/-- A line that opens a record, the lines before it, and those up to the next line
that opens one. -/
structure Passage (κ : Type*) where
  before : List κ
  first : κ
  body : List κ

section
variable {κ γ τ ω : Type*}

/-- The passages of `lines`, which stand behind the lines `before`. -/
def passages (opens : κ → Bool) : List κ → List κ → List (Passage κ)
  | _, [] => []
  | before, k :: rest =>
    if opens k then
      ⟨before, k, rest.takeWhile (!opens ·)⟩ :: passages opens (before ++ [k]) rest
    else passages opens (before ++ [k]) rest

theorem takeWhile_agree {p q : κ → Bool} {l : List κ} (agree : ∀ k ∈ l, p k = q k) :
    l.takeWhile p = l.takeWhile q := by
  induction l with
  | nil => rfl
  | cons k l ih =>
    rw [List.takeWhile_cons, List.takeWhile_cons, agree k (by simp),
      ih fun j member => agree j (by simp [member])]

theorem passages_congr {opens opens' : κ → Bool} (before lines : List κ)
    (same : ∀ k ∈ lines, opens k = opens' k) :
    passages opens before lines = passages opens' before lines := by
  induction lines generalizing before with
  | nil => rfl
  | cons k rest ih =>
    have tail := ih (before ++ [k]) fun l member => same l (by simp [member])
    -- the body ends where the same line opens
    have body : rest.takeWhile (!opens ·) = rest.takeWhile (!opens' ·) :=
      takeWhile_agree fun l member => by simp [same l (by simp [member])]
    simp only [passages, same k (by simp), tail, body]

/-- Where a passage stands. -/
theorem passage_split (opens : κ → Bool) (seen lines : List κ) (p : Passage κ)
    (member : p ∈ passages opens seen lines) :
    opens p.first = true ∧ (∀ k ∈ p.body, opens k = false) ∧
      ∃ after, p.before ++ p.first :: p.body ++ after = seen ++ lines := by
  induction lines generalizing seen with
  | nil => simp [passages] at member
  | cons k rest ih =>
    have later (member : p ∈ passages opens (seen ++ [k]) rest) := ih (seen ++ [k]) member
    simp only [List.append_assoc, List.cons_append, List.nil_append] at later ⊢
    by_cases opening : opens k = true
    · simp only [passages, opening, if_true, List.mem_cons] at member
      obtain rfl | member := member
      · refine ⟨opening, fun l inside => ?_, rest.dropWhile (!opens ·), ?_⟩
        · simpa using List.mem_takeWhile_imp inside
        · rw [List.takeWhile_append_dropWhile]
      · exact later member
    · simp only [passages, opening] at member
      exact later member

/-- What holds of a record at the end is what held at the start or was brought
about by a line. -/
theorem foldl_iff_exists {P : τ → Prop} {Q : κ → Prop} (edit : τ → κ → τ)
    (one : ∀ t k, P (edit t k) ↔ P t ∨ Q k) (t : τ) (lines : List κ) :
    P (lines.foldl edit t) ↔ P t ∨ ∃ k ∈ lines, Q k := by
  induction lines generalizing t with
  | nil => simp
  | cons k lines ih => simp [ih, one, or_assoc]

structure BlockReader (κ γ τ ω : Type*) where
  opens : κ → Bool
  start : γ → κ → τ
  edit : τ → κ → τ
  note : γ → κ → γ
  close : τ → List ω

structure BlockState (γ τ ω : Type*) where
  notes : γ
  done : List ω
  current : Option τ

namespace BlockReader

variable (R : BlockReader κ γ τ ω)

def closed (current : Option τ) : List ω := (current.map R.close).getD []

/-- What has been read if the file ends here. -/
def finish (s : BlockState γ τ ω) : List ω := s.done ++ R.closed s.current

def step (s : BlockState γ τ ω) (k : κ) : BlockState γ τ ω :=
  if R.opens k then ⟨R.note s.notes k, R.finish s, some (R.start s.notes k)⟩
  else ⟨R.note s.notes k, s.done, s.current.map fun t => R.edit t k⟩

theorem step_opening (s : BlockState γ τ ω) (k : κ) (opening : R.opens k = true) :
    R.step s k = ⟨R.note s.notes k, R.finish s, some (R.start s.notes k)⟩ := by
  simp [step, opening]

theorem step_inside (s : BlockState γ τ ω) (k : κ) (inside : R.opens k = false) :
    R.step s k = ⟨R.note s.notes k, s.done, s.current.map fun t => R.edit t k⟩ := by
  simp [step, inside]

/-- The record of a passage, if the file starts with the notes `g`. -/
def record (g : γ) (p : Passage κ) : τ :=
  p.body.foldl R.edit (R.start (p.before.foldl R.note g) p.first)

def yield (g : γ) (p : Passage κ) : List ω := R.close (R.record g p)

theorem foldl_notes (s : BlockState γ τ ω) (lines : List κ) :
    (lines.foldl R.step s).notes = lines.foldl R.note s.notes := by
  induction lines generalizing s with
  | nil => rfl
  | cons k lines ih =>
    rw [List.foldl_cons, List.foldl_cons, ih]
    unfold step
    split <;> rfl

/-- Lines that open nothing edit the record that is open. -/
theorem foldl_body (s : BlockState γ τ ω) (body : List κ)
    (inside : ∀ k ∈ body, R.opens k = false) :
    body.foldl R.step s = ⟨body.foldl R.note s.notes, s.done,
      s.current.map fun t => body.foldl R.edit t⟩ := by
  induction body generalizing s with
  | nil => simp
  | cons k body ih =>
    rw [List.foldl_cons, R.step_inside s k (inside k (by simp)), ih _ fun k member => inside k (by simp [member])]
    simp [Option.map_map, Function.comp_def]

/-- What a run yields: the record that was open gets the lines up to the first
block, and then the blocks follow. -/
theorem finish_run (g : γ) (before lines : List κ) (s : BlockState γ τ ω)
    (noted : s.notes = before.foldl R.note g) :
    R.finish (lines.foldl R.step s) =
      s.done ++ R.closed (s.current.map fun t => (lines.takeWhile (!R.opens ·)).foldl R.edit t) ++
        (passages R.opens before lines).flatMap (R.yield g) := by
  induction lines generalizing before s with
  | nil => simp [finish, passages]
  | cons k rest ih =>
    have next : R.note s.notes k = (before ++ [k]).foldl R.note g := by simp [noted]
    cases opening : R.opens k with
    | true =>
      -- the record that was open gets no more lines, the new one is the first passage
      rw [List.foldl_cons, R.step_opening s k opening, ih (before ++ [k]) _ next]
      simp [passages, opening, finish, closed, yield, record, noted]
    | false =>
      rw [List.foldl_cons, R.step_inside s k opening, ih (before ++ [k]) _ next]
      simp [passages, opening, Option.map_map, Function.comp_def]

/-- Where a record opens, what follows is read as if it were alone. -/
theorem finish_append (s : BlockState γ τ ω) (lines : List κ)
    (opening : ∀ k ∈ lines.head?, R.opens k = true) :
    R.finish (lines.foldl R.step s) =
      R.finish s ++ R.finish (lines.foldl R.step ⟨s.notes, [], none⟩) := by
  -- no line is left for the record that was open
  have stops : lines.takeWhile (!R.opens ·) = [] := by
    cases lines with
    | nil => rfl
    | cons k lines => simp [opening k (by simp)]
  rw [R.finish_run s.notes [] lines s rfl, R.finish_run s.notes [] lines ⟨s.notes, [], none⟩ rfl,
    stops]
  simp [finish, closed]

/-- What was read before stays in front. -/
theorem finish_done (g : γ) (done : List ω) (lines : List κ) :
    R.finish (lines.foldl R.step ⟨g, done, none⟩) =
      done ++ R.finish (lines.foldl R.step ⟨g, [], none⟩) := by
  rw [R.finish_run g [] lines ⟨g, done, none⟩ rfl, R.finish_run g [] lines ⟨g, [], none⟩ rfl]
  simp [closed]

/-- A block with the lines around it: each part is read as if it were alone, with
the notes of the lines before. -/
theorem finish_block (g : γ) (done : List ω) (before : List κ) (first : κ) (body after : List κ)
    (opening : R.opens first = true) (ends : ∀ k ∈ after.head?, R.opens k = true) :
    R.finish ((before ++ first :: body ++ after).foldl R.step ⟨g, done, none⟩) =
      done ++ R.finish (before.foldl R.step ⟨g, [], none⟩) ++
        R.finish ((first :: body).foldl R.step ⟨before.foldl R.note g, [], none⟩) ++
        R.finish (after.foldl R.step ⟨(before ++ first :: body).foldl R.note g, [], none⟩) := by
  have own : ∀ k ∈ (first :: body).head?, R.opens k = true := by simpa using opening
  rw [List.foldl_append, R.finish_append _ after ends, R.foldl_notes, List.foldl_append,
    R.finish_append _ (first :: body) own, R.foldl_notes, R.finish_done]

end BlockReader

end

end KexecLoader
