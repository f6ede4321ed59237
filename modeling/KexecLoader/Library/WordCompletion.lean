import Mathlib.Data.List.Infix

/-!
# Completing a word

A candidate is a text that a word may be the beginning of. What is appended to the word
completes it to the candidate and its suffix; letters may be folded in the comparison.
-/
namespace KexecLoader

structure Candidate (α : Type) where
  text : List α
  suffix : List α
  /-- Letters are the same if this makes them equal. -/
  fold : α → α

namespace Candidate

variable {α : Type} (word : List α) (c : Candidate α)

def Extends : Prop := word.map c.fold <+: c.text.map c.fold

instance [DecidableEq α] : Decidable (c.Extends word) :=
  inferInstanceAs (Decidable (_ <+: _))

/-- The word with the appended text behind it is the candidate with its suffix. -/
def CompletedBy (append : List α) : Prop :=
  (word ++ append).map c.fold = (c.text ++ c.suffix).map c.fold

/-- What is missing from the word. -/
def completion : List α := c.text.drop word.length ++ c.suffix

variable {word} {c}

theorem Extends.length_le (extends_ : c.Extends word) : word.length ≤ c.text.length := by
  simpa using List.IsPrefix.length_le extends_

theorem completion_length_le : (c.completion word).length ≤ c.text.length + c.suffix.length := by
  rw [completion, List.length_append, List.length_drop]
  omega

theorem CompletedBy.length {append : List α} (completed : c.CompletedBy word append) :
    word.length + append.length = c.text.length + c.suffix.length := by
  simpa using congrArg List.length completed

theorem Extends.completedBy (extends_ : c.Extends word) : c.CompletedBy word (c.completion word) := by
  obtain ⟨rest, whole⟩ := extends_
  have below : (c.text.map c.fold).drop word.length = rest := by
    rw [← whole, List.drop_left' (List.length_map c.fold)]
  rw [CompletedBy, completion, List.map_append, List.map_append, List.map_drop, below, List.map_append,
    ← List.append_assoc, whole]

end Candidate

variable {α : Type} [DecidableEq α]

/-- The appended texts are those of the candidates that extend the word. -/
def Offers (word : List α) (appended : List (List α)) (candidates : List (Candidate α)) : Prop :=
  appended = (candidates.filter fun c => c.Extends word).map fun c => c.completion word

namespace Offers

variable {word : List α} {appended appended' : List (List α)} {candidates candidates' : List (Candidate α)}

theorem nil : Offers word [] [] := rfl

theorem single {c : Candidate α} (extends_ : c.Extends word) : Offers word [c.completion word] [c] := by
  simp [Offers, extends_]

/-- Nothing is offered for candidates that do not extend the word. -/
theorem none (others : ∀ c ∈ candidates, ¬c.Extends word) : Offers word [] candidates := by
  have kept : (candidates.filter fun c => c.Extends word) = [] := by simpa using others
  rw [Offers, kept]
  rfl

theorem append (first : Offers word appended candidates) (last : Offers word appended' candidates') :
    Offers word (appended ++ appended') (candidates ++ candidates') := by
  rw [Offers, List.filter_append, List.map_append, ← first, ← last]

theorem flatMap {β : Type} {list : List β} {texts : β → List (List α)} {offered : β → List (Candidate α)}
    (each : ∀ x ∈ list, Offers word (texts x) (offered x)) :
    Offers word (list.flatMap texts) (list.flatMap offered) := by
  induction list with
  | nil => rfl
  | cons x list ih =>
    rw [List.forall_mem_cons] at each
    exact each.1.append (ih each.2)

theorem sound (offers : Offers word appended candidates) :
    ∀ text ∈ appended, ∃ c ∈ candidates, c.CompletedBy word text := by
  intro text member
  rw [offers] at member
  obtain ⟨c, kept, rfl⟩ := List.mem_map.mp member
  rw [List.mem_filter, decide_eq_true_eq] at kept
  exact ⟨c, kept.1, kept.2.completedBy⟩

theorem complete (offers : Offers word appended candidates) :
    ∀ c ∈ candidates, c.Extends word → ∃ text ∈ appended, c.CompletedBy word text := by
  intro c member extends_
  refine ⟨c.completion word, ?_, extends_.completedBy⟩
  rw [offers]
  exact List.mem_map_of_mem (List.mem_filter.mpr ⟨member, decide_eq_true extends_⟩)

end Offers

end KexecLoader
