import Mathlib.Logic.Relation

/-!
# Decoders

A decoder takes passes over a state that holds its input. A pass takes some of
the input, and ends the call with a value or goes on to the next pass; it has no
result when it would have to wait for more input. Decoders are compared by the
values of their calls together with what is left of the input after each.
-/
namespace KexecLoader

structure Decoder (σ ν : Type) where
  pass : σ → Option (Option ν × σ)
  size : σ → Nat
  progress : ∀ {s v s'}, pass s = some (v, s') → size s' < size s

namespace Decoder
variable {σ τ ν ω : Type}

/-- Passes until there is a value. -/
def next (d : Decoder σ ν) : Nat → σ → Option (ν × σ)
  | 0, _ => none
  | fuel + 1, s =>
    match d.pass s with
    | none => none
    | some (some v, s') => some (v, s')
    | some (none, s') => d.next fuel s'

/-- A call of the decoder. -/
def call (d : Decoder σ ν) (s : σ) : Option (ν × σ) := d.next (d.size s + 1) s

/-- Every pass makes progress, so that there is fuel enough for all of them. -/
theorem next_enough (d : Decoder σ ν) (fuel : Nat) (s : σ) (enough : d.size s < fuel) :
    d.next fuel s = d.call s := by
  -- on the one fuel, with the other left free
  have same : ∀ n m s, d.size s < n → d.size s < m → d.next n s = d.next m s := by
    intro n
    induction n with
    | zero => intro m s small; omega
    | succ n ih =>
      intro m s _ large
      obtain ⟨m, rfl⟩ : ∃ k, m = k + 1 := ⟨m - 1, by omega⟩
      simp only [next]
      match passed : d.pass s with
      | none => rfl
      | some (some v, s') => rfl
      | some (none, s') =>
        have := d.progress passed
        exact ih m s' (by omega) (by omega)
  exact same _ _ s enough (Nat.lt_succ_self _)

theorem call_pass (d : Decoder σ ν) (s : σ) :
    d.call s =
      match d.pass s with
      | none => none
      | some (some v, s') => some (v, s')
      | some (none, s') => d.call s' := by
  rw [call, next]
  match passed : d.pass s with
  | none => rfl
  | some (some v, s') => rfl
  | some (none, s') => exact d.next_enough _ s' (d.progress passed)

theorem call_progress (d : Decoder σ ν) (s : σ) {v : ν} {s' : σ}
    (called : d.call s = some (v, s')) : d.size s' < d.size s := by
  induction s using (measure d.size).wf.induction with
  | h s ih =>
    rw [call_pass] at called
    match passed : d.pass s with
    | none => simp [passed] at called
    | some (some v', s₁) =>
      have := d.progress passed
      simp only [passed, Option.some.injEq, Prod.mk.injEq] at called
      exact called.2 ▸ this
    | some (none, s₁) =>
      have less := d.progress passed
      simp only [passed] at called
      exact Nat.lt_trans (ih s₁ less called) less

/-- The calls that return, each with its value and what is observed after it. -/
def calls (d : Decoder σ ν) (observe : σ → ω) : Nat → σ → List (ν × ω)
  | 0, _ => []
  | n + 1, s =>
    match d.call s with
    | none => []
    | some (v, s') => (v, observe s') :: d.calls observe n s'

/-- Calling the decoder again and again, until a call waits. -/
def trace (d : Decoder σ ν) (observe : σ → ω) (s : σ) : List (ν × ω) :=
  d.calls observe (d.size s + 1) s

theorem calls_enough (d : Decoder σ ν) (observe : σ → ω) (n : Nat) (s : σ)
    (enough : d.size s < n) : d.calls observe n s = d.trace observe s := by
  have same : ∀ n m s, d.size s < n → d.size s < m →
      d.calls observe n s = d.calls observe m s := by
    intro n
    induction n with
    | zero => intro m s small; omega
    | succ n ih =>
      intro m s _ large
      obtain ⟨m, rfl⟩ : ∃ k, m = k + 1 := ⟨m - 1, by omega⟩
      simp only [calls]
      match called : d.call s with
      | none => rfl
      | some (v, s') =>
        have := d.call_progress s called
        exact congrArg _ (ih m s' (by omega) (by omega))
  exact same _ _ s enough (Nat.lt_succ_self _)

theorem trace_call (d : Decoder σ ν) (observe : σ → ω) (s : σ) :
    d.trace observe s =
      match d.call s with
      | none => []
      | some (v, s') => (v, observe s') :: d.trace observe s' := by
  rw [trace, calls]
  match called : d.call s with
  | none => rfl
  | some (v, s') => exact congrArg _ (d.calls_enough observe _ s' (d.call_progress s called))

/-- The trace, pass by pass. -/
theorem trace_pass (d : Decoder σ ν) (observe : σ → ω) (s : σ) :
    d.trace observe s =
      match d.pass s with
      | none => []
      | some (some v, s') => (v, observe s') :: d.trace observe s'
      | some (none, s') => d.trace observe s' := by
  rw [trace_call, call_pass]
  match d.pass s with
  | none => rfl
  | some (some v, s') => rfl
  | some (none, s') => exact (d.trace_call observe s').symm

/-- Some passes lead from one state to another. -/
def Reaches (d : Decoder σ ν) : σ → σ → Prop :=
  Relation.ReflTransGen fun s s' => ∃ v, d.pass s = some (v, s')

/-! ### Two decoders -/

section
variable (d : Decoder σ ν) (e : Decoder τ ν) (view : σ → τ)

/-- A pass of the one is a pass of the other on what the view shows. -/
def Agrees (s : σ) : Prop :=
  (d.pass s).map (fun r => (r.1, view r.2)) = e.pass (view s)

/-- Decoders that agree in every state that is reached have one trace. -/
theorem trace_eq_of_agrees (s : σ) (agree : ∀ s', d.Reaches s s' → d.Agrees e view s') :
    d.trace view s = e.trace id (view s) := by
  induction s using (measure d.size).wf.induction with
  | h s ih =>
    have here := agree s .refl
    unfold Agrees at here
    rw [d.trace_pass, e.trace_pass, ← here]
    match passed : d.pass s with
    | none => rfl
    | some (v, s') =>
      have rest := ih s' (d.progress passed) fun s'' reached =>
        agree s'' (.head ⟨v, passed⟩ reached)
      cases v with
      | none => exact rest
      | some v => exact congrArg _ rest

/-- Where a pass that does not agree shows in the trace, one trace means that
they agree in every state that is reached. -/
theorem agrees_of_trace_eq
    (shows : ∀ s, ¬ d.Agrees e view s → (∀ s', d.pass s ≠ some (none, s')) ∧
      ∃ v t, e.pass (view s) = some (some v, t))
    (s : σ) (same : d.trace view s = e.trace id (view s)) (s' : σ) (reached : d.Reaches s s') :
    d.Agrees e view s' := by
  have here : ∀ s, d.trace view s = e.trace id (view s) → d.Agrees e view s := by
    intro s same
    apply Classical.byContradiction
    intro differs
    obtain ⟨ends, v, t, other⟩ := shows s differs
    rw [d.trace_pass, e.trace_pass, other] at same
    match passed : d.pass s with
    | none => simp [passed] at same
    | some (none, s₁) => exact ends s₁ passed
    | some (some v', s₁) =>
      simp only [passed, List.cons.injEq, Prod.mk.injEq, id_eq] at same
      exact differs (by simp [Agrees, passed, other, same.1.1, same.1.2])
  -- a pass that agrees takes its value off both traces
  have all : d.trace view s' = e.trace id (view s') := by
    induction reached with
    | refl => exact same
    | tail _ step ih =>
      obtain ⟨v, passed⟩ := step
      have agree := here _ ih
      rw [d.trace_pass, e.trace_pass, ← agree, passed] at ih
      cases v with
      | none => exact ih
      | some v => exact (List.cons.inj ih).2
  exact here s' all

end

end Decoder

end KexecLoader
