import Mathlib.Data.List.Induction

/-!
# Readers with one record

Every line may fill the record, and a closing line hands it in and empties it. Some
lines end the reading. What a block hands in is made by its own lines and by those
that stand in front of it since the record was emptied.
-/
namespace KexecLoader

section
variable {κ α : Type*}

/-- The last value `f` gives. -/
def latest (f : κ → Option α) (lines : List κ) : Option α := (lines.filterMap f).getLast?

theorem latest_getD_cons (f : κ → Option α) (k : κ) (lines : List κ) (old : α) :
    (latest f (k :: lines)).getD old = (latest f lines).getD ((f k).getD old) := by
  unfold latest
  cases here : f k with
  | none => simp [here]
  | some a => cases later : (lines.filterMap f).getLast? <;> simp [here, List.getLast?_cons, later]

theorem latest_append (f : κ → Option α) (front back : List κ) :
    latest f (front ++ back) = (latest f back).or (latest f front) := by
  rw [latest, List.filterMap_append, List.getLast?_append]
  rfl

end

structure RecordReader (κ τ ω : Type*) where
  fails : κ → Bool
  opens : κ → Bool
  closes : κ → Bool
  start : τ
  edit : τ → κ → τ
  close : τ → List ω

structure RecordState (τ ω : Type*) where
  opened : Bool
  record : τ
  done : List ω

namespace RecordReader

variable {κ τ ω : Type*} (R : RecordReader κ τ ω)

/-- Nothing is open yet; `done` is there from before. -/
def init (done : List ω) : RecordState τ ω := ⟨false, R.start, done⟩

/-- A line that does not end the reading. -/
def step (s : RecordState τ ω) (k : κ) : RecordState τ ω :=
  if s.opened && R.closes k then ⟨false, R.start, s.done ++ R.close s.record⟩
  else { s with opened := s.opened || R.opens k, record := R.edit s.record k }

/-- What has been handed in when the reading ends. -/
def run (s : RecordState τ ω) : List κ → List ω
  | [] => s.done
  | k :: rest => if R.fails k then s.done else run (R.step s k) rest

/-- Whether a block is open behind the lines, and the lines since the record was
emptied. -/
def pending (lines : List κ) : Bool × List κ :=
  lines.foldl (fun seen k =>
    if seen.1 && R.closes k then (false, []) else (seen.1 || R.opens k, seen.2 ++ [k])) (false, [])

/-- A line that opens a block, and the lines up to the one that closes it. -/
def IsBlock (block : List κ) : Prop :=
  ∃ first body last, block = first :: body ++ [last] ∧ R.opens first = true ∧
    (∀ k ∈ body, R.opens k = false) ∧ (∀ k ∈ first :: body, R.closes k = false) ∧
    R.closes last = true

/-- The next of the lines that opens or closes is one that closes. -/
def closedBehind (lines : List κ) : Bool := (lines.find? fun k => R.opens k || R.closes k).any R.closes

/-- The lines without those that fail outside of all blocks. `inside` says that a block is
open, one that has an end. -/
def repaired : Bool → List κ → List κ
  | _, [] => []
  | inside, k :: rest =>
    let inside := if R.opens k then R.closedBehind rest else inside && !R.closes k
    if R.fails k && !inside then repaired inside rest else k :: repaired inside rest

theorem pending_append (front back : List κ) :
    R.pending (front ++ back) = back.foldl (fun seen k =>
      if seen.1 && R.closes k then (false, []) else (seen.1 || R.opens k, seen.2 ++ [k]))
      (R.pending front) := by
  rw [pending, List.foldl_append]
  rfl

/-- The record is what the lines since it was emptied make of it. -/
theorem foldl_pending (done : List ω) (lines : List κ) :
    (lines.foldl R.step (R.init done)).opened = (R.pending lines).1 ∧
      (lines.foldl R.step (R.init done)).record = (R.pending lines).2.foldl R.edit R.start := by
  induction lines using List.reverseRecOn with
  | nil => exact ⟨rfl, rfl⟩
  | append_singleton lines k ih =>
    obtain ⟨opened, record⟩ := ih
    rw [pending_append, List.foldl_append]
    simp only [List.foldl_cons, List.foldl_nil, step, opened]
    split
    · exact ⟨rfl, rfl⟩
    · refine ⟨rfl, ?_⟩
      simp only [List.foldl_append, List.foldl_cons, List.foldl_nil, record]

/-- In a block no line hands in the record. -/
theorem foldl_inside (s : RecordState τ ω) (body : List κ)
    (inside : ∀ k ∈ body, R.closes k = false) :
    (body.foldl R.step s).done = s.done := by
  induction body generalizing s with
  | nil => rfl
  | cons k body ih =>
    rw [List.foldl_cons, ih _ fun l member => inside l (List.mem_cons_of_mem _ member), step,
      inside k List.mem_cons_self, Bool.and_false]
    rfl

theorem pending_inside (front body : List κ) (inside : ∀ k ∈ body, R.closes k = false) :
    R.pending (front ++ body) =
      ((R.pending front).1 || body.any R.opens, (R.pending front).2 ++ body) := by
  induction body using List.reverseRecOn with
  | nil => simp
  | append_singleton body k ih =>
    have before := ih fun l member => inside l (List.mem_append_left _ member)
    rw [← List.append_assoc, pending_append, before]
    simp [inside k (by simp), Bool.or_assoc]

theorem run_append (s : RecordState τ ω) (front back : List κ) :
    R.run s (front ++ back) =
      if front.any R.fails then R.run s front else R.run (front.foldl R.step s) back := by
  induction front generalizing s with
  | nil => rfl
  | cons k front ih =>
    rw [List.cons_append, run, run, List.any_cons]
    cases R.fails k with
    | true => rfl
    | false => simpa using ih (R.step s k)

theorem run_complete (s : RecordState τ ω) (lines : List κ) (sound : lines.any R.fails = false) :
    R.run s lines = (lines.foldl R.step s).done := by
  have all := R.run_append s lines []
  rw [List.append_nil, sound, if_neg Bool.false_ne_true] at all
  exact all

/-- Lines that hand in nothing, up to one that ends the reading. -/
theorem run_inside (s : RecordState τ ω) (body : List κ) (inside : ∀ k ∈ body, R.closes k = false) :
    R.run s body = s.done := by
  induction body generalizing s with
  | nil => rfl
  | cons k body ih =>
    rw [run, ih _ fun l member => inside l (List.mem_cons_of_mem _ member), step,
      inside k List.mem_cons_self, Bool.and_false]
    exact ite_self _

/-- The lines a block's record is made of. -/
def blockLines (front block : List κ) : List κ := (R.pending front).2 ++ block.dropLast

/-- What a block hands in, behind any lines. -/
theorem run_block (done : List ω) (front block : List κ) (is_block : R.IsBlock block) :
    R.run (R.init done) (front ++ block) = R.run (R.init done) front ++
      if (front ++ block).any R.fails then []
      else R.close ((R.blockLines front block).foldl R.edit R.start) := by
  obtain ⟨first, body, last, rfl, opens, -, inside, closes⟩ := is_block
  rw [List.any_append, run_append]
  cases before : front.any R.fails with
  | true => simp
  | false =>
    rw [if_neg Bool.false_ne_true, Bool.false_or, run_append, R.run_complete _ front before]
    cases failing : (first :: body).any R.fails with
    | true =>
      rw [if_pos rfl, R.run_inside _ _ inside, List.any_append, failing]
      simp
    | false =>
      obtain ⟨opened, record⟩ := R.foldl_pending done (front ++ first :: body)
      rw [R.pending_inside front _ inside, List.foldl_append] at opened record
      simp only [List.any_cons, opens, Bool.true_or, Bool.or_true] at opened
      have lines : R.blockLines front (first :: body ++ [last]) =
          (R.pending front).2 ++ first :: body := by
        rw [blockLines, List.dropLast_concat]
      rw [if_neg Bool.false_ne_true, List.any_append, failing, Bool.false_or, lines, ← record]
      have kept := R.foldl_inside (front.foldl R.step (R.init done)) _ inside
      simp only [run, step, List.any_cons, List.any_nil, Bool.or_false]
      cases R.fails last with
      | true =>
        rw [if_pos rfl, if_pos rfl, List.append_nil]
        exact kept
      | false =>
        simp only [Bool.false_eq_true, if_false, opened, closes, Bool.and_self, if_true]
        rw [kept]

/-! ### Lines outside of blocks -/

theorem closedBehind_body {body rest : List κ} {last : κ} (inside : ∀ k ∈ body, R.opens k = false)
    (still : ∀ k ∈ body, R.closes k = false) (closes : R.closes last = true) :
    R.closedBehind (body ++ last :: rest) = true := by
  have skipped : body.find? (fun k => R.opens k || R.closes k) = none := by
    rw [List.find?_eq_none]
    intro k member
    simp [inside k member, still k member]
  simp [closedBehind, List.find?_append, skipped, closes]

/-- Lines that the end of a block is behind are the rest of one. -/
theorem closedBehind_split {lines : List κ} (closed : R.closedBehind lines = true) :
    ∃ body last rest, lines = body ++ last :: rest ∧ (∀ k ∈ body, R.opens k = false) ∧
      (∀ k ∈ body, R.closes k = false) ∧ R.closes last = true := by
  unfold closedBehind at closed
  cases found : lines.find? fun k => R.opens k || R.closes k with
  | none =>
    rw [found] at closed
    cases closed
  | some last =>
    rw [found] at closed
    obtain ⟨-, body, rest, rfl, before⟩ := List.find?_eq_some_iff_append.mp found
    simp only [Bool.not_eq_true', Bool.or_eq_false_iff] at before
    exact ⟨body, last, rest, rfl, fun k member => (before k member).1,
      fun k member => (before k member).2, closed⟩

theorem repaired_inside (body rest : List κ) (inside : ∀ k ∈ body, R.opens k = false)
    (still : ∀ k ∈ body, R.closes k = false) :
    R.repaired true (body ++ rest) = body ++ R.repaired true rest := by
  induction body with
  | nil => rfl
  | cons k body ih =>
    have rest := ih (fun l member => inside l (List.mem_cons_of_mem _ member))
      fun l member => still l (List.mem_cons_of_mem _ member)
    simp [repaired, inside k List.mem_cons_self, still k List.mem_cons_self, rest]

/-- A block stays as it is. -/
theorem repaired_block {block : List κ} (rest : List κ) (is_block : R.IsBlock block)
    (separate : ∀ k, R.closes k = true → R.opens k = false ∧ R.fails k = false) :
    R.repaired false (block ++ rest) = block ++ R.repaired false rest := by
  obtain ⟨first, body, last, rfl, opens, inside, still, closes⟩ := is_block
  have still := fun k member => still k (List.mem_cons_of_mem _ member)
  obtain ⟨no_opening, sound⟩ := separate last closes
  have closed : R.closedBehind (body ++ last :: rest) = true := R.closedBehind_body inside still closes
  have body_kept := R.repaired_inside body (last :: rest) inside still
  simp [repaired, opens, closed, body_kept, no_opening, closes, sound]

/-- A line that no block starts with is taken out exactly if it fails. -/
theorem repaired_outside {k : κ} (rest : List κ)
    (outside : ∀ block, R.IsBlock block → ¬ block <+: k :: rest)
    (separate : ∀ k, R.closes k = true → R.opens k = false ∧ R.fails k = false) :
    R.repaired false (k :: rest) =
      if R.fails k then R.repaired false rest else k :: R.repaired false rest := by
  have left : (if R.opens k then R.closedBehind rest else false && !R.closes k) = false := by
    cases opens : R.opens k with
    | false => rfl
    | true =>
      rw [if_pos rfl, Bool.eq_false_iff]
      intro closed
      obtain ⟨body, last, rest', rfl, inside, still, closes⟩ := R.closedBehind_split closed
      refine outside (k :: body ++ [last]) ⟨k, body, last, rfl, opens, inside, ?_, closes⟩ ⟨rest', by simp⟩
      intro l member
      rcases List.mem_cons.mp member with rfl | member
      · by_contra closing
        exact absurd opens (by simp [(separate l (by simpa using closing)).1])
      · exact still l member
  rw [repaired]
  simp only [left, Bool.not_false, Bool.and_true]

theorem repaired_sound (inside : Bool) {lines : List κ} (sound : ∀ k ∈ lines, R.fails k = false) :
    R.repaired inside lines = lines := by
  induction lines generalizing inside with
  | nil => rfl
  | cons k lines ih =>
    have rest := fun inside => ih inside fun l member => sound l (List.mem_cons_of_mem _ member)
    simp [repaired, sound k List.mem_cons_self, rest]

end RecordReader

end KexecLoader
