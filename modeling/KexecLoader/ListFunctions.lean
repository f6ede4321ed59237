import KexecLoader.Menu
import KexecLoader.Unmounting

/-!
# The list functions

`list_add`, `list_add_copy`, `list_prev` and `list_nuke` of misc.c on a heap. What they
do to a chain of cells, and that they leave all other cells alone.
-/
namespace KexecLoader

/-- `malloc`: a block that is not in use, if there is one. -/
structure Malloc (α : Type) where
  pick : Heap α → Option Loc
  unused : ∀ {heap : Heap α} {l : Loc}, pick heap = some l → heap l = none

section
variable {α : Type}

/-- `ptr->next = next`. -/
def setNext (heap : Heap α) (ptr : Loc) (next : Option Loc) : Except Stuck (Heap α) :=
  match heap ptr with
  | none => .error .crash
  | some cell => .ok (Function.update heap ptr (some { cell with next := next }))

/-- The loop of `list_add`: the last node, if the list has one. -/
def lastNode (heap : Heap α) : Nat → Option Loc → Except Stuck (Option Loc)
  | 0, _ => .error .unfinished
  | _ + 1, none => .ok none
  | rounds + 1, some ptr =>
    match heap ptr with
    | none => .error .crash
    | some cell =>
      match cell.next with
      | none => .ok (some ptr)
      | some next => lastNode heap rounds (some next)

def listAdd (rounds : Nat) (st : ListState α) (node : Loc) : Except Stuck (ListState α) := do
  let ptr ← lastNode st.heap rounds st.root
  let st ← match ptr with
    | some ptr => (setNext st.heap ptr (some node)).map fun heap => { st with heap := heap }
    | none => .ok { st with root := some node }
  (setNext st.heap node none).map fun heap => { st with heap := heap }

/-- The copy of a node takes its `next` along, which `list_add` then overwrites. -/
def listAddCopy (malloc : Malloc α) (rounds : Nat) (st : ListState α) (node : Cell α) :
    Except Stuck (ListState α) :=
  match malloc.pick st.heap with
  | none => .error .died
  | some nptr => listAdd rounds { st with heap := Function.update st.heap nptr (some node) } nptr

/-- `list_prev`, from the pointer to the first node on. -/
def listPrevFrom (heap : Heap α) (node : Option Loc) : Nat → Option Loc → Except Stuck (Option Loc)
  | 0, _ => .error .unfinished
  | _ + 1, none => .ok none
  | rounds + 1, some ptr =>
    match heap ptr with
    | none => .error .crash
    | some cell =>
      if cell.next = node then .ok (some ptr) else listPrevFrom heap node rounds cell.next

def listNuke : Nat → Heap α → Option Loc → Except Stuck (Heap α)
  | 0, _, _ => .error .unfinished
  | _ + 1, heap, none => .ok heap
  | rounds + 1, heap, some x =>
    match heap x with
    | none => .error .crash
    | some cell => listNuke rounds (freeNode heap x) cell.next

variable {heap : Heap α} {ptr : Option Loc} {nodes : List (Loc × α)} {rounds : Nat}

theorem setNext_of {l : Loc} {cell : Cell α} (here : heap l = some cell) (next : Option Loc) :
    setNext heap l next = .ok (Function.update heap l (some { cell with next := next })) := by
  rw [setNext, here]

theorem lastNode_chain (chain : Chain heap ptr nodes) (enough : nodes.length < rounds) :
    lastNode heap rounds ptr = .ok (nodes.getLast?.map Prod.fst) := by
  induction nodes generalizing ptr rounds with
  | nil =>
    obtain ⟨rounds, rfl⟩ : ∃ n, rounds = n + 1 := ⟨rounds - 1, by simp at enough; omega⟩
    rw [show ptr = none from chain]
    rfl
  | cons node rest ih =>
    obtain ⟨rounds, rfl⟩ : ∃ n, rounds = n + 1 := ⟨rounds - 1, by omega⟩
    obtain ⟨rfl, next, cell, later⟩ := chain
    simp only [List.length_cons] at enough
    have there := ih later (show rest.length < rounds by omega)
    cases rest with
    | nil =>
      rw [show next = none from later] at cell
      simp [lastNode, cell]
    | cons other rest =>
      rw [later.1] at cell there
      simp only [lastNode, cell, there, List.getLast?_cons_cons]

/-- The node goes behind the last one. -/
theorem listAdd_chain (st : ListState α) {loc : Loc} {cell : Cell α}
    (chain : Chain st.heap st.root nodes) (here : st.heap loc = some cell)
    (apart : loc ∉ nodes.map Prod.fst) (enough : nodes.length < rounds) :
    ∃ st', listAdd rounds st loc = .ok st' ∧
      Chain st'.heap st'.root (nodes ++ [(loc, cell.val)]) ∧
      ∀ l, l ≠ loc → l ∉ nodes.map Prod.fst → st'.heap l = st.heap l := by
  have last := lastNode_chain chain enough
  rcases List.eq_nil_or_concat nodes with rfl | ⟨front, node, rfl⟩
  · refine ⟨⟨some loc, Function.update st.heap loc (some { cell with next := none })⟩, ?_, ?_, ?_⟩
    · simp [listAdd, last, setNext_of here, bind, Except.bind, Except.map]
    · exact ⟨rfl, none, Function.update_self _ _ _, rfl⟩
    · intro l other _
      exact Function.update_of_ne other _ _
  · rw [List.concat_eq_append] at chain apart last ⊢
    obtain ⟨longer, there⟩ := chain.concat apart cell.val
    obtain ⟨middle, -, -, next, cell', -⟩ := segment_append.mp chain
    have distinct : loc ≠ node.1 := fun same => apart (by simp [same])
    simp only [List.getLast?_append, List.getLast?_singleton, Option.some_or, Option.map_some] at last
    refine ⟨⟨st.root, Function.update (Function.update st.heap node.1 (some ⟨node.2, some loc⟩)) loc
      (some ⟨cell.val, none⟩)⟩, ?_, longer, ?_⟩
    · simp only [listAdd, last, bind, Except.bind, setNext_of there, Except.map]
      rw [setNext_of (by rw [Function.update_of_ne distinct]; exact here)]
    · intro l other outside
      have last_apart : l ≠ node.1 := fun same => outside (by simp [same])
      exact (Function.update_of_ne other _ _).trans (Function.update_of_ne last_apart _ _)

/-- The copy goes into a block that was not in use, and behind the last node. -/
theorem listAddCopy_chain (st : ListState α) (malloc : Malloc α) (chain : Chain st.heap st.root nodes)
    (enough : nodes.length < rounds) (node : Cell α) :
    (listAddCopy malloc rounds st node = .error .died ∧ malloc.pick st.heap = none) ∨
      ∃ loc st', listAddCopy malloc rounds st node = .ok st' ∧ st.heap loc = none ∧
        Chain st'.heap st'.root (nodes ++ [(loc, node.val)]) ∧
        ∀ l, l ≠ loc → l ∉ nodes.map Prod.fst → st'.heap l = st.heap l := by
  unfold listAddCopy
  cases picked : malloc.pick st.heap with
  | none => exact .inl ⟨rfl, rfl⟩
  | some loc =>
    have unused := malloc.unused picked
    have apart : ∀ other ∈ nodes, other.1 ≠ loc := by
      intro other listed same
      obtain ⟨next, cell⟩ := chain.cell listed
      rw [same, unused] at cell
      cases cell
    have kept : Chain (Function.update st.heap loc (some node)) st.root nodes :=
      chain.frame fun other listed => Function.update_of_ne (apart other listed) _ _
    have outside : loc ∉ nodes.map Prod.fst := by
      rw [List.mem_map]
      rintro ⟨other, listed, same⟩
      exact apart other listed same
    let copied : ListState α := ⟨st.root, Function.update st.heap loc (some node)⟩
    have here : copied.heap loc = some node := Function.update_self _ _ _
    obtain ⟨st', added, longer, others⟩ := listAdd_chain copied kept here outside enough
    refine .inr ⟨loc, st', added, unused, longer, fun l other outside => ?_⟩
    exact (others l other outside).trans (Function.update_of_ne other _ _)

/-- Every node is freed, once, and nothing else is. -/
theorem listNuke_chain (chain : Chain heap ptr nodes) (enough : nodes.length < rounds) :
    ∃ heap', listNuke rounds heap ptr = .ok heap' ∧ (∀ node ∈ nodes, heap' node.1 = none) ∧
      ∀ l, l ∉ nodes.map Prod.fst → heap' l = heap l := by
  induction nodes generalizing heap ptr rounds with
  | nil =>
    obtain ⟨rounds, rfl⟩ : ∃ n, rounds = n + 1 := ⟨rounds - 1, by simp at enough; omega⟩
    rw [show ptr = none from chain]
    exact ⟨heap, rfl, by simp, fun _ _ => rfl⟩
  | cons node rest ih =>
    obtain ⟨rounds, rfl⟩ : ∃ n, rounds = n + 1 := ⟨rounds - 1, by omega⟩
    have nodup := chain.nodup
    obtain rfl : ptr = some node.1 := chain.1
    obtain ⟨next, cell, later⟩ := chain.drop_first
    simp only [List.length_cons] at enough
    obtain ⟨heap', freed, gone, others⟩ := ih later (show rest.length < rounds by omega)
    simp only [List.map_cons, List.nodup_cons] at nodup
    refine ⟨heap', by simp only [listNuke, cell]; exact freed, ?_, ?_⟩
    · intro other listed
      rcases List.mem_cons.mp listed with rfl | listed
      · rw [others _ nodup.1, Function.update_self]
      · exact gone other listed
    · intro l outside
      simp only [List.map_cons, List.mem_cons, not_or] at outside
      rw [others l outside.2, Function.update_of_ne outside.1]

/-! ### One list among others -/

section
variable (front : List (Option Loc × List (Loc × α))) {back : List (Option Loc × List (Loc × α))}
variable {lost : List Loc}

theorem listAddCopy_forest (malloc : Malloc α)
    (forest : Forest heap (front ++ (ptr, nodes) :: back) lost) (enough : nodes.length < rounds)
    (node : Cell α) :
    (listAddCopy malloc rounds ⟨ptr, heap⟩ node = .error .died ∧ malloc.pick heap = none) ∨
      ∃ loc st', listAddCopy malloc rounds ⟨ptr, heap⟩ node = .ok st' ∧
        Forest st'.heap (front ++ (st'.root, nodes ++ [(loc, node.val)]) :: back) lost := by
  have chain : Chain heap ptr nodes := forest.chains (ptr, nodes) (by simp)
  rcases listAddCopy_chain ⟨ptr, heap⟩ malloc chain enough node with
    died | ⟨loc, st', added, unused, longer, others⟩
  · exact .inl died
  · refine .inr ⟨loc, st', added, forest.replace longer ?_ ?_ ?_⟩
    · intro l member
      rw [List.map_append, List.mem_append, List.map_singleton, List.mem_singleton] at member
      refine member.imp_right fun same => ?_
      rw [same]
      exact unused
    · intro l member
      rw [List.map_append]
      exact .inl (List.mem_append_left _ member)
    · intro l before after
      refine others l (fun same => after ?_) before
      simp [same]

/-- A list that is freed leaves the others as they are. -/
theorem listNuke_forest (forest : Forest heap (front ++ (ptr, nodes) :: back) lost)
    (enough : nodes.length < rounds) :
    ∃ heap', listNuke rounds heap ptr = .ok heap' ∧ Forest heap' (front ++ back) lost := by
  have chain : Chain heap ptr nodes := forest.chains (ptr, nodes) (by simp)
  obtain ⟨heap', freed, gone, others⟩ := listNuke_chain chain enough
  have empty : Chain heap' none ([] : List (Loc × α)) := rfl
  refine ⟨heap', freed, (forest.replace empty (by simp) (fun l member => .inr ?_)
    fun l before _ => others l before).drop_empty⟩
  obtain ⟨node, listed, rfl⟩ := List.mem_map.mp member
  exact gone node listed

end

/-! ### Positions and nodes -/

/-- The node at a position, NULL behind the last one. -/
def nodeAt (nodes : List (Loc × α)) (i : Nat) : Option Loc := nodes[i]?.map Prod.fst

theorem nodeAt_inj (chain : Chain heap ptr nodes) {i j : Nat} (inside : i < nodes.length) :
    nodeAt nodes i = nodeAt nodes j ↔ i = j := by
  have mapped : ∀ k, nodeAt nodes k = (nodes.map Prod.fst)[k]? := fun k => List.getElem?_map.symm
  rw [mapped, mapped]
  exact List.getElem?_inj (by simpa using inside) chain.nodup

/-- A node points at the one behind it. -/
theorem Chain.next (chain : Chain heap ptr nodes) {i : Nat} (inside : i < nodes.length) :
    heap nodes[i].1 = some ⟨nodes[i].2, nodeAt nodes (i + 1)⟩ := by
  have split : nodes = nodes.take i ++ nodes[i] :: nodes.drop (i + 1) := by simp
  rw [split] at chain
  obtain ⟨middle, -, -, next, cell, later⟩ := segment_append.mp chain
  have start : next = (nodes.drop (i + 1)).head?.map Prod.fst := Chain.start later
  rw [cell, start, nodeAt, List.head?_drop]

/-- `list_prev` on the heap goes by positions as the menu does. -/
theorem listPrevFrom_menu (chain : Chain heap ptr nodes) (enough : nodes.length < rounds)
    {targets : List KlTarget} (counted : targets.length = nodes.length) (node : Option Nat)
    (inside : ∀ i ∈ node, i < nodes.length) :
    listPrevFrom heap (node.bind (nodeAt nodes)) rounds ptr =
      .ok ((listPrev targets node).bind (nodeAt nodes)) := by
  have from_here : ∀ count first rounds, first + count = nodes.length → count < rounds →
      listPrevFrom heap (node.bind (nodeAt nodes)) rounds (nodeAt nodes first) =
        .ok (((List.range' first count).find? fun p => listNext targets p == node).bind
          (nodeAt nodes)) := by
    intro count
    induction count with
    | zero =>
      intro first rounds all more
      obtain ⟨rounds, rfl⟩ : ∃ n, rounds = n + 1 := ⟨rounds - 1, by omega⟩
      have past : nodeAt nodes first = none := by simp [nodeAt, List.getElem?_eq_none (by omega : nodes.length ≤ first)]
      rw [past]
      rfl
    | succ count ih =>
      intro first rounds all more
      obtain ⟨rounds, rfl⟩ : ∃ n, rounds = n + 1 := ⟨rounds - 1, by omega⟩
      have here : nodeAt nodes first = some nodes[first].1 := by
        simp [nodeAt, List.getElem?_eq_getElem (by omega : first < nodes.length)]
      -- the next node is the one asked for just when the next position is
      have found : nodeAt nodes (first + 1) = node.bind (nodeAt nodes) ↔ listNext targets first = node := by
        unfold listNext
        rw [counted]
        cases node with
        | none =>
          split
          next more =>
            simp [nodeAt, List.getElem?_eq_getElem more]
          next last =>
            simp [nodeAt, List.getElem?_eq_none (by omega : nodes.length ≤ first + 1)]
        | some i =>
          rw [Option.bind_some, eq_comm, nodeAt_inj chain (inside i rfl)]
          have small := inside i rfl
          split
          next more => simp [eq_comm]
          next last =>
            simp only [reduceCtorEq, iff_false]
            omega
      rw [here]
      simp only [listPrevFrom, chain.next (by omega : first < nodes.length), List.range'_succ,
        List.find?_cons]
      by_cases hit : listNext targets first = node
      · rw [if_pos (found.mpr hit)]
        simp [hit, here]
      · have other : (listNext targets first == node) = false := by simpa using hit
        rw [if_neg (mt found.mp hit), ih (first + 1) rounds (by omega) (by omega), other]
  have start : ptr = nodeAt nodes 0 := by rw [chain.start, nodeAt, List.head?_eq_getElem?]
  rw [start, from_here nodes.length 0 rounds (by omega) enough, listPrev, counted, List.range_eq_range']

end

end KexecLoader
