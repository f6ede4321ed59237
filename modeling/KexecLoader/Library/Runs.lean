import Mathlib.Data.List.Basic

/-!
# Runs of labelled transition systems and the order of their events

The trace of a run lists its events oldest first. An order law says of every
event what must already have happened before it.
-/
namespace KexecLoader

variable {σ ε : Type*}

inductive Run (init : σ) (Step : σ → ε → σ → Prop) : List ε → σ → Prop where
  | start : Run init Step [] init
  | next {trace : List ε} {s s' : σ} {e : ε} :
      Run init Step trace s → Step s e s' → Run init Step (trace ++ [e]) s'

/-- The steps of a system that meet a condition on the state and the event. -/
def Restrict (Step : σ → ε → σ → Prop) (Allowed : σ → ε → Prop) (s : σ) (e : ε) (s' : σ) : Prop :=
  Step s e s' ∧ Allowed s e

/-- An invariant of states and their histories that holds at the start and is
kept by every step holds in every state reached. -/
theorem Run.invariant {init : σ} {Step : σ → ε → σ → Prop} {Inv : List ε → σ → Prop}
    (initial : Inv [] init)
    (kept : ∀ trace s e s', Inv trace s → Step s e s' → Inv (trace ++ [e]) s')
    {trace : List ε} {s : σ} (run : Run init Step trace s) : Inv trace s := by
  induction run with
  | start => exact initial
  | next _ step ih => exact kept _ _ _ _ ih step

/-- Every event has what it needs in the part of the trace before it. -/
def Ordered (needs : ε → List ε → Prop) (trace : List ε) : Prop :=
  ∀ before e after, trace = before ++ e :: after → needs e before

theorem ordered_nil (needs : ε → List ε → Prop) : Ordered needs [] := by
  intro before e after split
  simp at split

theorem ordered_snoc (needs : ε → List ε → Prop) (trace : List ε) (e : ε) :
    Ordered needs (trace ++ [e]) ↔ Ordered needs trace ∧ needs e trace := by
  constructor
  · intro ordered
    refine ⟨fun before d after split => ?_, ordered trace e [] rfl⟩
    exact ordered before d (after ++ [e]) (by simp [split])
  · rintro ⟨ordered, last⟩ before d after split
    rcases List.eq_nil_or_concat after with rfl | ⟨after, f, rfl⟩
    · obtain ⟨rfl, same⟩ := List.append_inj' split rfl
      have : e = d := by simpa using same
      exact this ▸ last
    · have shape : trace ++ [e] = (before ++ d :: after) ++ [f] := by
        simpa [List.concat_eq_append] using split
      obtain ⟨rest, -⟩ := List.append_inj' shape rfl
      exact ordered before d after rest

end KexecLoader
