import KexecLoader.Disk
import KexecLoader.Library.LinkedList

/-!
# Unmounting everything

`unmount_all` walks the list `mounts` and takes every entry out whose `umount` went
well. `list_del` looks for the node in front of the one to delete, but the pointer it
looks with never moves.
-/
namespace KexecLoader

/-- A list as the program has it: the pointer to its first node, and the nodes. -/
structure ListState (α : Type) where
  root : Option Loc
  heap : Heap α

/-! ### list_del -/

section
variable {α : Type}

/-- `free(node)`. -/
def freeNode (heap : Heap α) (node : Loc) : Heap α := Function.update heap node none

/-- The loop of `list_del` with `ptr`, which no round changes; none when the rounds do
not suffice. -/
def listDelLoop (node : Loc) (ptr : Option Loc) : Nat → ListState α → Option (Outcome (ListState α))
  | 0, _ => none
  | rounds + 1, st =>
    match ptr with
    | none => some (.ok st)
    | some here =>
      match st.heap here with
      | none => some .crash
      | some cell =>
        match cell.next with
        | none => some (.ok st)
        | some next =>
          if next = node then
            match st.heap next with
            | none => some .crash
            | some gone =>
              let heap := Function.update st.heap here (some ⟨cell.val, gone.next⟩)
              some (.ok { st with heap := freeNode heap node })
          else listDelLoop node ptr rounds st

def listDel (rounds : Nat) (st : ListState α) (node : Loc) : Option (Outcome (ListState α)) :=
  if st.root = some node then
    match st.heap node with
    | none => some .crash
    | some cell => some (.ok ⟨cell.next, freeNode st.heap node⟩)
  else listDelLoop node st.root rounds st

/-- The call returns, and the list is the old one without the node. -/
def Unlinks (st : ListState α) (nodes : List (Loc × α)) (node : Loc) : Prop :=
  ∃ rounds st', listDel rounds st node = some (.ok st') ∧
    Chain st'.heap st'.root (nodes.filter (·.1 ≠ node))

end

/-! ### unmount_all -/

/-- The loop of `unmount_all` with the calls made so far. `umount` says how each call
ends, by its number: none on success, else `errno`. -/
def unmountLoop (umount : Nat → Option Nat) :
    Nat → Option Loc → ListState KlDisk → List Str → Option (Outcome (ListState KlDisk × List Str))
  | 0, _, _, _ => none
  | _ + 1, none, st, calls => some (.ok (st, calls))
  | rounds + 1, some ptr, st, calls =>
    match st.heap ptr with
    | none => some .crash
    | some cell =>
      let mpoint := mountPoint cell.val.name.str
      match umount calls.length with
      | some _ => unmountLoop umount rounds cell.next st (calls ++ [mpoint])
      | none =>
        match listDel rounds st ptr with
        | none => none
        | some (.ok st) => unmountLoop umount rounds cell.next st (calls ++ [mpoint])
        | some (.fail errno) => some (.fail errno)
        | some .crash => some .crash

def unmountAll (umount : Nat → Option Nat) (rounds : Nat) (st : ListState KlDisk) :
    Option (Outcome (ListState KlDisk × List Str)) :=
  unmountLoop umount rounds st.root st []

/-- The entries whose call failed, the first of which is number `n`. -/
def stillMounted (umount : Nat → Option Nat) (n : Nat) : List (Loc × KlDisk) → List (Loc × KlDisk)
  | [] => []
  | node :: rest =>
    if (umount n).isSome then node :: stillMounted umount (n + 1) rest
    else stillMounted umount (n + 1) rest

/-- The call returns, after one `umount` for every entry in order, and leaves the
entries whose `umount` failed. -/
def UnmountsEach (umount : Nat → Option Nat) (st : ListState KlDisk) (disks : List (Loc × KlDisk)) :
    Prop :=
  ∃ rounds st', unmountAll umount rounds st =
      some (.ok (st', disks.map fun node => mountPoint node.2.name.str)) ∧
    Chain st'.heap st'.root (stillMounted umount 0 disks)

/-- No call goes well after two that failed. -/
def FewKept (umount : Nat → Option Nat) (count : Nat) : Prop :=
  ∀ i j k, i < j → j < k → k < count → (umount i).isSome → (umount j).isSome → (umount k).isSome

/-! ### Deleting a node -/

section
variable {α : Type} {st : ListState α}

theorem listDel_first {node : Loc × α} {nodes : List (Loc × α)} (chain : Chain st.heap st.root (node :: nodes))
    (rounds : Nat) :
    ∃ next, st.heap node.1 = some ⟨node.2, next⟩ ∧
      listDel rounds st node.1 = some (.ok ⟨next, freeNode st.heap node.1⟩) ∧
      Chain (freeNode st.heap node.1) next nodes := by
  obtain ⟨next, cell, later⟩ := chain.drop_first
  exact ⟨next, cell, by rw [listDel, if_pos chain.1, cell], later⟩

theorem listDel_second {prev node : Loc × α} {nodes : List (Loc × α)}
    (chain : Chain st.heap st.root (prev :: node :: nodes)) (rounds : Nat) :
    ∃ next heap, st.heap node.1 = some ⟨node.2, next⟩ ∧
      listDel (rounds + 1) st node.1 = some (.ok ⟨st.root, heap⟩) ∧
      Chain heap st.root (prev :: nodes) := by
  obtain ⟨next, cell, cell', later⟩ := Chain.unlink [] none chain
  have apart : prev.1 ≠ node.1 := fun same => by
    have nodup := chain.nodup
    simp [same] at nodup
  have first : st.root = some prev.1 := chain.1
  refine ⟨next, _, cell', ?_, later⟩
  simp only [listDel, first, Option.some.injEq, if_neg apart, listDelLoop, cell, cell', if_true]
  rfl

/-- Behind the second place the loop goes round for ever. -/
theorem listDel_later {front nodes : List (Loc × α)} {node : Loc × α}
    (chain : Chain st.heap st.root (front ++ node :: nodes)) (far : 2 ≤ front.length) (rounds : Nat) :
    listDel rounds st node.1 = none := by
  obtain ⟨first, second, rest, rfl⟩ : ∃ a b rest, front = a :: b :: rest := by
    match front with
    | a :: b :: rest => exact ⟨a, b, rest, rfl⟩
  have nodup := chain.nodup
  simp only [List.cons_append, List.map_cons, List.map_append, List.nodup_cons, List.mem_cons,
    List.mem_append, not_or] at nodup
  obtain ⟨root, next, cell, second_here, -⟩ := chain
  have not_first : ¬ first.1 = node.1 := nodup.1.2.2.1
  have not_second : ¬ second.1 = node.1 := nodup.2.1.2.1
  have stuck : listDelLoop node.1 st.root rounds st = none := by
    induction rounds with
    | zero => rfl
    | succ rounds ih =>
      rw [root] at ih ⊢
      simp only [listDelLoop, cell, second_here, if_neg not_second]
      exact ih
  rw [listDel, root, if_neg (by simpa using not_first), ← root, stuck]

/-- Exactly the first two nodes of a list can be deleted. -/
theorem unlinks_iff {nodes : List (Loc × α)} (chain : Chain st.heap st.root nodes) {node : Loc}
    (listed : node ∈ nodes.map Prod.fst) :
    Unlinks st nodes node ↔ node ∈ (nodes.take 2).map Prod.fst := by
  obtain ⟨entry, member, rfl⟩ := List.mem_map.mp listed
  obtain ⟨front, back, rfl⟩ := List.append_of_mem member
  have nodup := chain.nodup
  have others : (front ++ entry :: back).filter (·.1 ≠ entry.1) = front ++ back := by
    simp only [List.map_append, List.map_cons, List.nodup_append, List.nodup_cons, List.mem_cons] at nodup
    rw [List.filter_append, List.filter_cons_of_neg (by simp), List.filter_eq_self.mpr,
      List.filter_eq_self.mpr]
    · intro other inside
      have apart : other.1 ≠ entry.1 := fun same =>
        nodup.2.1.1 (same ▸ List.mem_map_of_mem (f := Prod.fst) inside)
      simpa using apart
    · intro other inside
      simpa using nodup.2.2 _ (List.mem_map_of_mem (f := Prod.fst) inside) _ (.inl rfl)
  rw [Unlinks, others]
  rcases front with _ | ⟨first, _ | ⟨second, rest⟩⟩
  · obtain ⟨next, -, deleted, later⟩ := listDel_first chain 0
    exact iff_of_true ⟨0, _, deleted, later⟩ (by simp)
  · obtain ⟨next, heap, -, deleted, later⟩ := listDel_second chain 0
    exact iff_of_true ⟨1, _, deleted, later⟩ (by simp)
  · refine iff_of_false ?_ ?_
    · rintro ⟨rounds, st', deleted, -⟩
      rw [listDel_later chain (by simp) rounds] at deleted
      cases deleted
    · simp only [List.cons_append, List.map_cons, List.map_append, List.nodup_cons, List.mem_cons,
        List.mem_append, not_or] at nodup
      simpa using ⟨Ne.symm nodup.1.2.2.1, Ne.symm nodup.2.1.2.1⟩

end

/-! ### The walk -/

section
variable (umount : Nat → Option Nat)

/-- No call goes well after two that failed, where `kept` have failed and the next
`count` calls start with number `n`. -/
def FewKeptFrom : Nat → Nat → Nat → Prop
  | _, _, 0 => True
  | kept, n, count + 1 =>
    if (umount n).isSome then FewKeptFrom (kept + 1) (n + 1) count
    else kept ≤ 1 ∧ FewKeptFrom kept (n + 1) count

theorem fewKeptFrom_iff (kept n count : Nat) :
    FewKeptFrom umount kept n count ↔
      ∀ k, n ≤ k → k < n + count → umount k = none →
        kept ≤ 1 ∧ ∀ i, n ≤ i → i < k → (umount i).isSome → kept = 0 ∧
          ∀ j, i < j → j < k → umount j = none := by
  induction count generalizing kept n with
  | zero => exact iff_of_true trivial fun k low high => by omega
  | succ count ih =>
    rw [FewKeptFrom]
    split
    next failed =>
      -- the entry stays: a success behind it needs it to be the only one that does
      rw [ih]
      constructor
      · intro few k low high good
        have later : n + 1 ≤ k := by
          by_contra same
          obtain rfl : n = k := by omega
          simp [good] at failed
        obtain ⟨small, rest⟩ := few k later (by omega) good
        have none_left : ∀ i, n < i → i < k → umount i = none := by
          intro i low' high'
          by_contra kept'
          have impossible := (rest i low' high' (Option.isSome_iff_ne_none.mpr kept')).1
          omega
        refine ⟨by omega, fun i low' high' failed' => ⟨by omega, fun j low'' high'' => ?_⟩⟩
        exact none_left j (by omega) high''
      · intro few k low high good
        obtain ⟨small, rest⟩ := few k (by omega) (by omega) good
        obtain ⟨zero, none_left⟩ := rest n (Nat.le_refl n) (by omega) failed
        refine ⟨by omega, fun i low' high' failed' => ?_⟩
        rw [none_left i (by omega) high'] at failed'
        cases failed'
    next good =>
      -- the entry is taken out, which works at the head of the list or behind one entry
      have answer : umount n = none := Option.not_isSome_iff_eq_none.mp good
      rw [ih]
      constructor
      · rintro ⟨small, few⟩ k low high good'
        by_cases same : k = n
        · exact ⟨small, fun i low' high' => by omega⟩
        · obtain ⟨-, rest⟩ := few k (by omega) (by omega) good'
          refine ⟨small, fun i low' high' failed => ?_⟩
          by_cases first : i = n
          · rw [first, answer] at failed
            cases failed
          · exact rest i (by omega) high' failed
      · intro few
        refine ⟨(few n (Nat.le_refl n) (by omega) answer).1, fun k low high good' => ?_⟩
        obtain ⟨small, rest⟩ := few k (by omega) (by omega) good'
        exact ⟨small, fun i low' high' => rest i (by omega) high'⟩

theorem fewKept_iff (count : Nat) : FewKept umount count ↔ FewKeptFrom umount 0 0 count := by
  rw [fewKeptFrom_iff]
  constructor
  · intro few k _ high good
    refine ⟨Nat.zero_le 1, fun i _ first failed => ⟨rfl, fun j second third => ?_⟩⟩
    by_contra failed'
    have failed'' := few i j k second third (by omega) failed (Option.isSome_iff_ne_none.mpr failed')
    simp [good] at failed''
  · intro few i j k first second high failed failed'
    by_contra good
    have answer := Option.not_isSome_iff_eq_none.mp good
    obtain ⟨-, rest⟩ := few k (Nat.zero_le k) (by omega) answer
    have good' := (rest i (Nat.zero_le i) (by omega) failed).2 j first second
    simp [good'] at failed'

variable {umount} {st : ListState KlDisk} {kept rest : List (Loc × KlDisk)} {calls : List Str}

/-- The cell the walk is at. -/
theorem Chain.here {node : Loc × KlDisk} (chain : Chain st.heap st.root (kept ++ node :: rest)) :
    st.heap node.1 = some ⟨node.2, rest.head?.map Prod.fst⟩ := by
  obtain ⟨middle, -, -, next, cell, later⟩ := segment_append.mp chain
  have start : next = rest.head?.map Prod.fst := Chain.start later
  rw [cell, start]

/-- With one entry kept at most, the entry behind it is deleted in one round. -/
theorem listDel_near {node : Loc × KlDisk} (chain : Chain st.heap st.root (kept ++ node :: rest))
    (near : kept.length ≤ 1) (rounds : Nat) :
    ∃ st', (listDel rounds st node.1 = some (.ok st') ∨ rounds = 0 ∧ listDel rounds st node.1 = none) ∧
      Chain st'.heap st'.root (kept ++ rest) := by
  rcases kept with _ | ⟨prev, _ | ⟨other, more⟩⟩
  · obtain ⟨next, -, deleted, later⟩ := listDel_first chain rounds
    exact ⟨_, .inl deleted, later⟩
  · cases rounds with
    | zero =>
      obtain ⟨next, heap, -, -, later⟩ := listDel_second chain 0
      have apart : ¬ st.root = some node.1 := fun same => by
        have nodup := chain.nodup
        rw [chain.1] at same
        simp [Option.some.inj same] at nodup
      exact ⟨⟨st.root, heap⟩, .inr ⟨rfl, by rw [listDel, if_neg apart, listDelLoop]⟩, later⟩
    | succ rounds =>
      obtain ⟨next, heap, -, deleted, later⟩ := listDel_second chain rounds
      exact ⟨_, .inl deleted, later⟩
  · simp at near

theorem unmountLoop_few (chain : Chain st.heap st.root (kept ++ rest))
    (few : FewKeptFrom umount kept.length calls.length rest.length) (rounds : Nat)
    (enough : rest.length < rounds) :
    ∃ st', unmountLoop umount rounds (rest.head?.map Prod.fst) st calls =
        some (.ok (st', calls ++ rest.map fun node => mountPoint node.2.name.str)) ∧
      Chain st'.heap st'.root (kept ++ stillMounted umount calls.length rest) := by
  induction rest generalizing st kept calls rounds with
  | nil =>
    obtain ⟨rounds, rfl⟩ : ∃ n, rounds = n + 1 := ⟨rounds - 1, by simp at enough; omega⟩
    exact ⟨st, by simp [unmountLoop], chain⟩
  | cons node rest ih =>
    obtain ⟨rounds, rfl⟩ : ∃ n, rounds = n + 2 := ⟨rounds - 2, by simp at enough; omega⟩
    have cell := chain.here
    have next_call : (calls ++ [mountPoint node.2.name.str]).length = calls.length + 1 := by simp
    rw [List.length_cons, FewKeptFrom] at few
    rw [List.length_cons] at enough
    simp only [List.head?_cons, Option.map_some, unmountLoop, cell, List.map_cons, stillMounted]
    cases answer : umount calls.length with
    | some errno =>
      -- the entry stays, and is one of those kept
      rw [answer, Option.isSome_some, if_pos rfl] at few
      have chain' : Chain st.heap st.root ((kept ++ [node]) ++ rest) := by simpa using chain
      have few' : FewKeptFrom umount (kept ++ [node]).length
          (calls ++ [mountPoint node.2.name.str]).length rest.length := by simpa using few
      obtain ⟨st', run, left⟩ := ih chain' few' (rounds + 1) (by omega)
      refine ⟨st', by simpa using run, ?_⟩
      rw [next_call] at left
      simpa using left
    | none =>
      rw [answer, Option.isSome_none, if_neg (by simp)] at few
      obtain ⟨near, few⟩ := few
      obtain ⟨st₁, deleted | ⟨no_round, -⟩, chain'⟩ := listDel_near chain near (rounds + 1)
      swap
      · omega
      obtain ⟨st', run, left⟩ := ih chain' (next_call ▸ few) (rounds + 1) (by omega)
      simp only [deleted]
      refine ⟨st', by simpa using run, ?_⟩
      rw [next_call] at left
      simpa using left

/-- With more entries kept in front of one to delete the walk does not end. -/
theorem unmountLoop_many (chain : Chain st.heap st.root (kept ++ rest))
    (many : ¬ FewKeptFrom umount kept.length calls.length rest.length) (rounds : Nat) :
    unmountLoop umount rounds (rest.head?.map Prod.fst) st calls = none := by
  induction rest generalizing st kept calls rounds with
  | nil => exact absurd trivial many
  | cons node rest ih =>
    cases rounds with
    | zero => rfl
    | succ rounds =>
      have cell := chain.here
      have next_call : (calls ++ [mountPoint node.2.name.str]).length = calls.length + 1 := by simp
      rw [List.length_cons, FewKeptFrom] at many
      simp only [List.head?_cons, Option.map_some, unmountLoop, cell]
      cases answer : umount calls.length with
      | some errno =>
        rw [answer, Option.isSome_some, if_pos rfl] at many
        have chain' : Chain st.heap st.root ((kept ++ [node]) ++ rest) := by simpa using chain
        exact ih chain' (by simpa using many) rounds
      | none =>
        rw [answer, Option.isSome_none, if_neg (by simp)] at many
        by_cases near : kept.length ≤ 1
        · obtain ⟨st₁, deleted | ⟨-, deleted⟩, chain'⟩ := listDel_near chain near rounds
          · simp only [deleted]
            exact ih chain' (next_call ▸ fun few => many ⟨near, few⟩) rounds
          · simp only [deleted]
        · simp only [listDel_later chain (by omega)]

end

theorem unmountsEach_iff {st : ListState KlDisk} {disks : List (Loc × KlDisk)}
    (chain : Chain st.heap st.root disks) (umount : Nat → Option Nat) :
    UnmountsEach umount st disks ↔ FewKept umount disks.length := by
  have start : st.root = disks.head?.map Prod.fst := chain.start
  rw [fewKept_iff]
  constructor
  · rintro ⟨rounds, st', run, -⟩
    by_contra many
    have never : unmountLoop umount rounds (disks.head?.map Prod.fst) st [] = none :=
      @unmountLoop_many umount st [] disks [] chain many rounds
    rw [← start] at never
    rw [unmountAll, never] at run
    cases run
  · intro few
    obtain ⟨st', run, left⟩ :=
      @unmountLoop_few umount st [] disks [] chain few (disks.length + 1) (Nat.lt_succ_self _)
    rw [← start] at run
    exact ⟨disks.length + 1, st', run, left⟩

/-- `unmount_all` does what it says exactly if no call goes well after two that failed,
and `list_del` if the node is one of the first two. -/
theorem unmountAll_iff (umount : Nat → Option Nat) :
    (∀ (st : ListState KlDisk) disks, Chain st.heap st.root disks →
        (UnmountsEach umount st disks ↔ FewKept umount disks.length)) ∧
      ∀ (α : Type) (st : ListState α) nodes, Chain st.heap st.root nodes →
        ∀ node ∈ nodes.map Prod.fst, Unlinks st nodes node ↔ node ∈ (nodes.take 2).map Prod.fst :=
  ⟨fun _ _ chain => unmountsEach_iff chain umount,
    fun _ _ _ chain _ listed => unlinks_iff chain listed⟩

/-- Three disks, of which the first two are in use. -/
theorem third_disk_hangs :
    ¬ ∀ (st : ListState KlDisk) disks umount, Chain st.heap st.root disks →
      UnmountsEach umount st disks := by
  intro all
  let heap : Heap KlDisk := fun l => if l < 3 then some ⟨initDisk, if l = 2 then none else some (l + 1)⟩ else none
  let disks : List (Loc × KlDisk) := [(0, initDisk), (1, initDisk), (2, initDisk)]
  have chain : Chain heap (some 0) disks := ⟨rfl, _, rfl, rfl, _, rfl, rfl, _, rfl, rfl⟩
  have each := all ⟨some 0, heap⟩ disks (fun n => if n < 2 then some EBUSY else none) chain
  have few := (unmountsEach_iff chain _).mp each
  exact absurd (few 0 1 2 (by decide) (by decide) (by decide) rfl rfl) (by decide)

end KexecLoader
