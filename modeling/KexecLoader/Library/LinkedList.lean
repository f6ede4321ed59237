import Mathlib.Data.List.Nodup
import Mathlib.Logic.Function.Basic

/-!
# Singly linked lists in a heap

A heap gives every location in use a cell with a value and the location of the next
one. A list is the chain of cells from a pointer to the null pointer.
-/
namespace KexecLoader

abbrev Loc := Nat

structure Cell (α : Type*) where
  val : α
  next : Option Loc

abbrev Heap (α : Type*) := Loc → Option (Cell α)

variable {α : Type*} {heap heap' : Heap α} {ptr tail : Option Loc} {nodes : List (Loc × α)}

/-- The cells from `ptr` up to the one that points at `tail`. -/
def Segment (heap : Heap α) : Option Loc → List (Loc × α) → Option Loc → Prop
  | ptr, [], tail => ptr = tail
  | ptr, node :: rest, tail => ptr = some node.1 ∧
      ∃ next, heap node.1 = some ⟨node.2, next⟩ ∧ Segment heap next rest tail

def Chain (heap : Heap α) (ptr : Option Loc) (nodes : List (Loc × α)) : Prop :=
  Segment heap ptr nodes none

theorem segment_append {front back : List (Loc × α)} :
    Segment heap ptr (front ++ back) tail ↔
      ∃ middle, Segment heap ptr front middle ∧ Segment heap middle back tail := by
  induction front generalizing ptr with
  | nil => simp [Segment]
  | cons node front ih =>
    simp only [List.cons_append, Segment, ih]
    constructor
    · rintro ⟨here, next, cell, middle, first, second⟩
      exact ⟨middle, ⟨here, next, cell, first⟩, second⟩
    · rintro ⟨middle, ⟨here, next, cell, first⟩, second⟩
      exact ⟨here, next, cell, middle, first, second⟩

/-- Cells outside of a segment do not matter to it. -/
theorem Segment.frame (segment : Segment heap ptr nodes tail)
    (same : ∀ node ∈ nodes, heap' node.1 = heap node.1) : Segment heap' ptr nodes tail := by
  induction nodes generalizing ptr with
  | nil => exact segment
  | cons node rest ih =>
    obtain ⟨here, next, cell, later⟩ := segment
    exact ⟨here, next, (same node List.mem_cons_self).trans cell,
      ih later fun other member => same other (List.mem_cons_of_mem _ member)⟩

/-- The pointer of a chain is its first node. -/
theorem Chain.start (chain : Chain heap ptr nodes) : ptr = nodes.head?.map Prod.fst := by
  cases nodes with
  | nil => exact chain
  | cons node rest => exact chain.1

/-- A pointer starts one chain at most. -/
theorem Chain.unique {other : List (Loc × α)} (chain : Chain heap ptr nodes)
    (chain' : Chain heap ptr other) : nodes = other := by
  induction nodes generalizing ptr other with
  | nil =>
    cases other with
    | nil => rfl
    | cons node rest =>
      have null : ptr = none := chain
      rw [chain'.1] at null
      cases null
  | cons node rest ih =>
    obtain ⟨here, next, cell, later⟩ := chain
    cases other with
    | nil =>
      have null : ptr = none := chain'
      rw [here] at null
      cases null
    | cons node' rest' =>
      obtain ⟨here', next', cell', later'⟩ := chain'
      have same : node.1 = node'.1 := Option.some.inj (here.symm.trans here')
      rw [← same, cell] at cell'
      have parts := Cell.mk.inj (Option.some.inj cell')
      rw [Prod.ext same parts.1, ih later (parts.2 ▸ later')]

/-- No cell stands twice in a chain, which would have no end. -/
theorem Chain.nodup (chain : Chain heap ptr nodes) : (nodes.map Prod.fst).Nodup := by
  induction nodes generalizing ptr with
  | nil => exact List.nodup_nil
  | cons node rest ih =>
    have whole := chain
    obtain ⟨here, next, cell, later⟩ := chain
    refine List.nodup_cons.mpr ⟨fun again => ?_, ih later⟩
    obtain ⟨node', member, same⟩ := List.mem_map.mp again
    obtain ⟨front, back, rfl⟩ := List.append_of_mem member
    -- the chain from the second place on is the whole chain
    obtain ⟨middle, -, second⟩ := segment_append.mp later
    have start : middle = ptr := by rw [second.1, here, same]
    have equal := Chain.unique whole (start ▸ second)
    have lengths := congrArg List.length equal
    simp only [List.length_cons, List.length_append] at lengths
    omega

/-- The first node is taken out by going on to the next one. -/
theorem Chain.drop_first {node : Loc × α} (chain : Chain heap ptr (node :: nodes)) :
    ∃ next, heap node.1 = some ⟨node.2, next⟩ ∧
      Chain (Function.update heap node.1 none) next nodes := by
  have nodup := chain.nodup
  obtain ⟨-, next, cell, later⟩ := chain
  refine ⟨next, cell, later.frame fun other member => Function.update_of_ne ?_ _ _⟩
  rintro same
  exact (List.nodup_cons.mp nodup).1 (List.mem_map.mpr ⟨other, member, same⟩)

/-- A node is unlinked by letting the one in front of it point behind it. -/
theorem Chain.unlink (front : List (Loc × α)) {prev node : Loc × α} (gone : Option (Cell α))
    (chain : Chain heap ptr (front ++ prev :: node :: nodes)) :
    ∃ next, heap prev.1 = some ⟨prev.2, some node.1⟩ ∧ heap node.1 = some ⟨node.2, next⟩ ∧
      Chain (Function.update (Function.update heap prev.1 (some ⟨prev.2, next⟩)) node.1 gone) ptr
        (front ++ prev :: nodes) := by
  have nodup := chain.nodup
  obtain ⟨middle, first, here, next', cell, rfl, next, cell', later⟩ := segment_append.mp chain
  refine ⟨next, cell, cell', segment_append.mpr ⟨middle, first.frame ?_, here, next, ?_, later.frame ?_⟩⟩
  all_goals
    simp only [List.map_append, List.map_cons, List.nodup_append, List.nodup_cons, List.mem_cons,
      not_or] at nodup
  · intro other member
    have mapped := List.mem_map_of_mem (f := Prod.fst) member
    rw [Function.update_of_ne, Function.update_of_ne]
    · exact nodup.2.2 _ mapped _ (.inl rfl)
    · exact nodup.2.2 _ mapped _ (.inr (.inl rfl))
  · rw [Function.update_of_ne nodup.2.1.1.1, Function.update_self]
  · intro other member
    have mapped := List.mem_map_of_mem (f := Prod.fst) member
    rw [Function.update_of_ne, Function.update_of_ne]
    · exact fun same => nodup.2.1.1.2 (same ▸ mapped)
    · exact fun same => nodup.2.1.2.1 (same ▸ mapped)

/-- Every node of a chain is a cell in use. -/
theorem Chain.cell (chain : Chain heap ptr nodes) {node : Loc × α} (listed : node ∈ nodes) :
    ∃ next, heap node.1 = some ⟨node.2, next⟩ := by
  obtain ⟨front, back, rfl⟩ := List.append_of_mem listed
  obtain ⟨middle, -, -, next, cell, -⟩ := segment_append.mp chain
  exact ⟨next, cell⟩

/-- A cell is put behind the last node by letting that one point at it. -/
theorem Chain.concat {front : List (Loc × α)} {node : Loc × α} {loc : Loc}
    (chain : Chain heap ptr (front ++ [node])) (apart : loc ∉ (front ++ [node]).map Prod.fst)
    (val : α) :
    Chain (Function.update (Function.update heap node.1 (some ⟨node.2, some loc⟩)) loc
        (some ⟨val, none⟩)) ptr (front ++ [node] ++ [(loc, val)]) ∧
      heap node.1 = some ⟨node.2, none⟩ := by
  have nodup := chain.nodup
  obtain ⟨middle, first, here', next, cell', last⟩ := segment_append.mp chain
  obtain rfl : next = none := last
  refine ⟨?_, cell'⟩
  rw [List.append_assoc]
  have distinct : node.1 ≠ loc := fun same => apart (by simp [same])
  refine segment_append.mpr ⟨middle, first.frame fun other member => ?_, here', some loc, ?_, rfl, none,
    Function.update_self _ _ _, rfl⟩
  · have mapped := List.mem_map_of_mem (f := Prod.fst) member
    have outside : other.1 ≠ loc := fun same => apart (by
      rw [List.map_append]
      exact List.mem_append_left _ (same ▸ mapped))
    have before : other.1 ≠ node.1 := by
      rw [List.map_append, List.nodup_append] at nodup
      exact nodup.2.2 _ mapped _ (by simp)
    rw [Function.update_of_ne outside, Function.update_of_ne before]
  · rw [Function.update_of_ne distinct, Function.update_self]

/-! ### Several lists in one heap -/

/-- The nodes of all lists. -/
def nodeLocs (lists : List (Option Loc × List (Loc × α))) : List Loc :=
  lists.flatMap fun l => l.2.map Prod.fst

/-- Every list is a chain of its own, and the cells in use are those of the lists and
the `lost` ones. -/
structure Forest (heap : Heap α) (lists : List (Option Loc × List (Loc × α))) (lost : List Loc) :
    Prop where
  chains : ∀ l ∈ lists, Chain heap l.1 l.2
  apart : (nodeLocs lists ++ lost).Nodup
  used : ∀ l, (heap l).isSome ↔ l ∈ nodeLocs lists ++ lost

section
variable {front back : List (Option Loc × List (Loc × α))} {lost : List Loc}

theorem nodeLocs_middle (front back : List (Option Loc × List (Loc × α))) (ptr : Option Loc)
    (nodes : List (Loc × α)) (lost : List Loc) :
    (nodeLocs (front ++ (ptr, nodes) :: back) ++ lost).Perm
      (nodes.map Prod.fst ++ (nodeLocs (front ++ back) ++ lost)) := by
  simp only [nodeLocs, List.flatMap_append, List.flatMap_cons, List.append_assoc]
  rw [← List.append_assoc]
  refine (List.perm_append_comm.append_right _).trans ?_
  rw [List.append_assoc]

/-- A node of one list is in no other. -/
theorem Forest.outside (forest : Forest heap (front ++ (ptr, nodes) :: back) lost)
    {other : Option Loc × List (Loc × α)} (listed : other ∈ front ++ back) {node : Loc × α}
    (member : node ∈ other.2) : node.1 ∉ nodes.map Prod.fst := by
  have nodup := (nodeLocs_middle front back ptr nodes lost).nodup_iff.mp forest.apart
  intro again
  refine List.disjoint_of_nodup_append nodup again (List.mem_append_left _ ?_)
  exact List.mem_flatMap.mpr ⟨other, listed, List.mem_map_of_mem member⟩

/-- One list changes and gets the cells it needs from those not in use; it may give up
its own. -/
theorem Forest.replace (forest : Forest heap (front ++ (ptr, nodes) :: back) lost)
    {ptr' : Option Loc} {nodes' : List (Loc × α)} (chain : Chain heap' ptr' nodes')
    (fresh : ∀ l ∈ nodes'.map Prod.fst, l ∈ nodes.map Prod.fst ∨ heap l = none)
    (gone : ∀ l ∈ nodes.map Prod.fst, l ∈ nodes'.map Prod.fst ∨ heap' l = none)
    (same : ∀ l, l ∉ nodes.map Prod.fst → l ∉ nodes'.map Prod.fst → heap' l = heap l) :
    Forest heap' (front ++ (ptr', nodes') :: back) lost := by
  have old := nodeLocs_middle front back ptr nodes lost
  have new := nodeLocs_middle front back ptr' nodes' lost
  have nodup := old.nodup_iff.mp forest.apart
  have inside : ∀ l, l ∈ nodeLocs (front ++ back) ++ lost → (heap l).isSome := fun l member =>
    (forest.used l).mpr (old.mem_iff.mpr (List.mem_append_right _ member))
  -- the new cells are old ones of this list or free ones, so that no other list has them
  have apart : ∀ l ∈ nodeLocs (front ++ back) ++ lost, l ∉ nodes'.map Prod.fst := by
    intro l member again
    rcases fresh l again with before | unused
    · exact List.disjoint_of_nodup_append nodup before member
    · simpa [unused] using inside l member
  have others : ∀ other ∈ front ++ back, Chain heap' other.1 other.2 := by
    intro other listed
    have before : other ∈ front ++ (ptr, nodes) :: back :=
      List.mem_append.mpr ((List.mem_append.mp listed).imp_right (List.mem_cons_of_mem _))
    refine (forest.chains other before).frame fun node member => same _ ?_ (apart _ ?_)
    · exact forest.outside listed member
    · exact List.mem_append_left _ (List.mem_flatMap.mpr ⟨other, listed, List.mem_map_of_mem member⟩)
  refine ⟨fun other listed => ?_, new.nodup_iff.mpr ?_, fun l => ?_⟩
  · rcases List.mem_append.mp listed with before | later
    · exact others other (List.mem_append_left _ before)
    · rcases List.mem_cons.mp later with rfl | later
      · exact chain
      · exact others other (List.mem_append_right _ later)
  · exact List.Nodup.append chain.nodup (List.nodup_append.mp nodup).2.1
      fun l again member => apart l member again
  · rw [new.mem_iff, List.mem_append]
    by_cases mine : l ∈ nodes'.map Prod.fst
    · obtain ⟨node, member, rfl⟩ := List.mem_map.mp mine
      obtain ⟨next, cell⟩ := chain.cell member
      exact iff_of_true (by rw [cell]; rfl) (.inl mine)
    · by_cases before : l ∈ nodes.map Prod.fst
      · have unused := (gone l before).resolve_left mine
        refine iff_of_false (by simp [unused]) ?_
        rintro (again | member)
        · exact mine again
        · exact List.disjoint_of_nodup_append nodup before member
      · rw [same l before mine, forest.used, old.mem_iff, List.mem_append]
        exact or_congr_left (iff_of_false before mine)

/-- A list without cells can be left out. -/
theorem Forest.drop_empty (forest : Forest heap (front ++ (ptr, []) :: back) lost) :
    Forest heap (front ++ back) lost := by
  have same := nodeLocs_middle front back ptr [] lost
  simp only [List.map_nil, List.nil_append] at same
  refine ⟨fun l listed => forest.chains l ?_, same.nodup_iff.mp forest.apart, fun l => ?_⟩
  · exact List.mem_append.mpr ((List.mem_append.mp listed).imp_right (List.mem_cons_of_mem _))
  · rw [forest.used, same.mem_iff]

theorem Forest.add_empty (forest : Forest heap (front ++ back) lost) :
    Forest heap (front ++ (none, []) :: back) lost := by
  have same := nodeLocs_middle front back none [] lost
  simp only [List.map_nil, List.nil_append] at same
  refine ⟨fun l listed => ?_, same.nodup_iff.mpr forest.apart, fun l => ?_⟩
  · rcases List.mem_append.mp listed with before | later
    · exact forest.chains l (List.mem_append_left _ before)
    · rcases List.mem_cons.mp later with rfl | later
      · exact rfl
      · exact forest.chains l (List.mem_append_right _ later)
  · rw [forest.used, same.mem_iff]

/-- The cells of a list that is forgotten are lost. -/
theorem Forest.lose (forest : Forest heap (front ++ (ptr, nodes) :: back) lost) :
    Forest heap (front ++ back) (nodes.map Prod.fst ++ lost) := by
  have same := (nodeLocs_middle front back ptr nodes lost).trans
    (List.perm_append_comm_assoc (nodes.map Prod.fst) (nodeLocs (front ++ back)) lost)
  refine ⟨fun l listed => forest.chains l ?_, same.nodup_iff.mp forest.apart, fun l => ?_⟩
  · exact List.mem_append.mpr ((List.mem_append.mp listed).imp_right (List.mem_cons_of_mem _))
  · rw [forest.used, same.mem_iff]

end

end KexecLoader
