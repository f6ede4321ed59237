import Mathlib.Data.List.Basic

/-!
# Lexical path resolution as a stack of components

Components are pushed one after another; `up` removes the newest one and does
nothing on an empty stack, so a starting directory is never left.
-/
namespace KexecLoader.PathStack

variable {α : Type*} [DecidableEq α] (up : α)

/-- The effect of one component; the newest one stands last. -/
def push (stack : List α) (node : α) : List α :=
  if node = up then stack.dropLast else stack ++ [node]

def resolveFrom (stack nodes : List α) : List α := nodes.foldl (push up) stack

def resolve (nodes : List α) : List α := resolveFrom up [] nodes

@[simp] theorem resolveFrom_nil (stack : List α) : resolveFrom up stack [] = stack := rfl

@[simp] theorem resolveFrom_cons (stack : List α) (node : α) (nodes : List α) :
    resolveFrom up stack (node :: nodes) = resolveFrom up (push up stack node) nodes := rfl

/-- Without `up` every component stays. -/
theorem resolveFrom_of_not_mem {stack nodes : List α} (no_up : up ∉ nodes) :
    resolveFrom up stack nodes = stack ++ nodes := by
  induction nodes generalizing stack with
  | nil => simp
  | cons node nodes ih =>
    simp only [List.mem_cons, not_or] at no_up
    rw [resolveFrom_cons, push, if_neg (Ne.symm no_up.1), ih no_up.2, List.append_assoc]
    rfl

theorem mem_push {stack : List α} {node c : α} (member : c ∈ push up stack node) :
    c ∈ stack ∨ (c = node ∧ c ≠ up) := by
  unfold push at member
  split at member
  · exact Or.inl ((List.dropLast_sublist stack).subset member)
  next other =>
    rcases List.mem_append.mp member with old | new
    · exact Or.inl old
    · have same := List.mem_singleton.mp new
      exact Or.inr ⟨same, same ▸ other⟩

theorem mem_resolveFrom {stack nodes : List α} {c : α}
    (member : c ∈ resolveFrom up stack nodes) : c ∈ stack ∨ (c ∈ nodes ∧ c ≠ up) := by
  induction nodes generalizing stack with
  | nil => exact Or.inl member
  | cons node nodes ih =>
    rcases ih member with pushed | ⟨later, other⟩
    · rcases mem_push up pushed with old | ⟨rfl, other⟩
      · exact Or.inl old
      · exact Or.inr ⟨by simp, other⟩
    · exact Or.inr ⟨by simp [later], other⟩

/-- What is left is made of components of the path, and none of them is `up`. -/
theorem mem_resolve {nodes : List α} {c : α} (member : c ∈ resolve up nodes) :
    c ∈ nodes ∧ c ≠ up := by
  rcases mem_resolveFrom up member with none_yet | found
  · cases none_yet
  · exact found

/-! ### What stays of a path -/

/-- How many components that stand before these are taken back by them. -/
def takenBack : List α → Nat
  | [] => 0
  | c :: rest => if c = up then takenBack rest + 1 else takenBack rest - 1

/-- The components none of the later ones takes back. -/
def kept : List α → List α
  | [] => []
  | c :: rest => if c = up ∨ takenBack up rest ≠ 0 then kept rest else c :: kept rest

variable {up} in
theorem kept_gone {c : α} {rest : List α} (gone : c = up ∨ takenBack up rest ≠ 0) :
    kept up (c :: rest) = kept up rest :=
  if_pos gone

variable {up} in
theorem kept_stays {c : α} {rest : List α} (name : c ≠ up) (stays : takenBack up rest = 0) :
    kept up (c :: rest) = c :: kept up rest :=
  if_neg (by simp [name, stays])

theorem resolveFrom_kept (stack nodes : List α) :
    resolveFrom up stack nodes = stack.take (stack.length - takenBack up nodes) ++ kept up nodes := by
  induction nodes generalizing stack with
  | nil => simp [takenBack, kept]
  | cons c rest ih =>
    rw [resolveFrom_cons, ih]
    by_cases taken : c = up
    · rw [push, if_pos taken, takenBack, if_pos taken, kept_gone (.inl taken), List.dropLast_eq_take,
        List.take_take, List.length_take]
      congr 2
      omega
    · rw [push, if_neg taken, takenBack, if_neg taken]
      by_cases stays : takenBack up rest = 0
      · rw [kept_stays taken stays, stays, Nat.zero_sub, Nat.sub_zero, Nat.sub_zero, List.take_length,
          List.take_length, List.append_assoc]
        rfl
      · -- the component goes, and one step less takes back what is below it
        rw [kept_gone (.inr stays), List.length_append, List.length_singleton,
          List.take_append_of_le_length (by omega)]
        congr 2
        omega

theorem resolve_kept (nodes : List α) : resolve up nodes = kept up nodes := by
  rw [resolve, resolveFrom_kept, List.take_nil, List.nil_append]

/-! ### Components that name no child -/

section
variable (skip : α)

/-- Whether a component is taken back does not hang on the ones to be skipped. -/
def Steady (nodes : List α) : Prop :=
  ∀ before c after, nodes = before ++ c :: after → c ≠ up → c ≠ skip → takenBack up after = 0 →
    takenBack up (after.filter (· ≠ skip)) = 0

theorem steady_cons (c : α) (rest : List α) :
    Steady up skip (c :: rest) ↔ (c ≠ up → c ≠ skip → takenBack up rest = 0 →
      takenBack up (rest.filter (· ≠ skip)) = 0) ∧ Steady up skip rest := by
  constructor
  · intro steady
    refine ⟨steady [] c rest rfl, fun before d after split => ?_⟩
    exact steady (c :: before) d after (by rw [split]; rfl)
  · rintro ⟨first, steady⟩ before d after split
    rcases before with _ | ⟨b, before⟩
    · obtain ⟨rfl, rfl⟩ := List.cons.inj split
      exact first
    · exact steady before d after (List.cons.inj split).2

variable {skip}

theorem takenBack_le_filter (differs : skip ≠ up) (nodes : List α) :
    takenBack up nodes ≤ takenBack up (nodes.filter (· ≠ skip)) := by
  induction nodes with
  | nil => exact Nat.le_refl _
  | cons c rest ih =>
    by_cases taken : c = up
    · rw [List.filter_cons_of_pos (by simpa [taken] using differs.symm), takenBack, takenBack, if_pos taken,
        if_pos taken]
      omega
    · by_cases skipped : c = skip
      · rw [List.filter_cons_of_neg (by simpa using skipped), takenBack, if_neg taken]
        omega
      · rw [List.filter_cons_of_pos (by simpa using skipped), takenBack, takenBack, if_neg taken,
          if_neg taken]
        omega

/-- A skipped component takes nothing back and stays in no result. -/
theorem kept_skip_filter (differs : skip ≠ up) (rest : List α) :
    (kept up (skip :: rest)).filter (· ≠ skip) = (kept up rest).filter (· ≠ skip) := by
  by_cases stays : takenBack up rest = 0
  · rw [kept_stays differs stays, List.filter_cons_of_neg (by simp)]
  · rw [kept_gone (.inr stays)]

/-- With the other components skipped first, no more stays. -/
theorem kept_filter_sublist (differs : skip ≠ up) (nodes : List α) :
    (kept up (nodes.filter (· ≠ skip))).Sublist ((kept up nodes).filter (· ≠ skip)) := by
  induction nodes with
  | nil => exact .slnil
  | cons c rest ih =>
    have more := takenBack_le_filter up differs rest
    by_cases taken : c = up
    · rw [List.filter_cons_of_pos (by simpa [taken] using differs.symm), kept_gone (.inl taken),
        kept_gone (.inl taken)]
      exact ih
    by_cases skipped : c = skip
    · subst skipped
      rwa [List.filter_cons_of_neg (by simp), kept_skip_filter up differs]
    rw [List.filter_cons_of_pos (by simpa using skipped)]
    by_cases stays : takenBack up rest = 0
    · rw [kept_stays taken stays, List.filter_cons_of_pos (by simpa using skipped)]
      by_cases both : takenBack up (rest.filter (· ≠ skip)) = 0
      · rw [kept_stays taken both]
        exact ih.cons_cons _
      · rw [kept_gone (.inr both)]
        exact ih.cons _
    · rw [kept_gone (.inr stays), kept_gone (.inr (by omega))]
      exact ih

/-- The components to be skipped can be left out before or after exactly when the
path is steady. -/
theorem kept_filter_iff (differs : skip ≠ up) (nodes : List α) :
    (kept up nodes).filter (· ≠ skip) = kept up (nodes.filter (· ≠ skip)) ↔ Steady up skip nodes := by
  induction nodes with
  | nil =>
    refine iff_of_true rfl fun before c after split => ?_
    simp at split
  | cons c rest ih =>
    rw [steady_cons, ← ih]
    have more := takenBack_le_filter up differs rest
    by_cases taken : c = up
    · rw [List.filter_cons_of_pos (by simpa [taken] using differs.symm), kept_gone (.inl taken),
        kept_gone (.inl taken)]
      exact (and_iff_right fun name => absurd taken name).symm
    by_cases skipped : c = skip
    · subst skipped
      rw [kept_skip_filter up differs, List.filter_cons_of_neg (by simp)]
      exact (and_iff_right fun _ other => absurd rfl other).symm
    rw [List.filter_cons_of_pos (by simpa using skipped)]
    by_cases stays : takenBack up rest = 0
    · rw [kept_stays taken stays, List.filter_cons_of_pos (by simpa using skipped)]
      by_cases both : takenBack up (rest.filter (· ≠ skip)) = 0
      · rw [kept_stays taken both, List.cons_inj_right]
        exact (and_iff_right fun _ _ _ => both).symm
      · -- the component stays only when the skipped ones count
        have shorter := (kept_filter_sublist up differs rest).length_le
        rw [kept_gone (.inr both)]
        refine iff_of_false (fun same => ?_) fun steady => both (steady.1 taken skipped stays)
        rw [← same, List.length_cons] at shorter
        omega
    · rw [kept_gone (.inr stays), kept_gone (.inr (by omega))]
      exact (and_iff_right fun _ _ none => absurd none stays).symm

end

end KexecLoader.PathStack
