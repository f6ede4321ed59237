import KexecLoader.Menu

/-!
# The menu highlights what it boots

Scrolling is decided from the row on the screen. What ties the row to the list is
that the top row shows the head of the list whenever it is selected, and the
bottom row its end.
-/
namespace KexecLoader

section
variable (rows : Nat) (targets : List KlTarget)

/-- The row of the selected entry on a screen whose top row shows `first`. -/
structure Placed (count first entry row : Nat) : Prop where
  ordered : first ≤ entry
  inside : entry < count
  distance : row = 6 + (entry - first)
  bottom : row + 2 ≤ rows
  head : row = 6 → first = 0
  last : row + 2 = rows → entry + 1 = count

/-- The selection is at `entry`, with the node `first` on the top row. -/
structure MenuInv (m : Menu) (first entry : Nat) : Prop where
  start : m.start = some first
  target : m.target = some entry
  placed : Placed rows targets.length first entry m.row

def Menu.Drawn (m : Menu) : Prop := m.screen = drawMenu rows targets m.start m.row

/-! ### The list -/

theorem listNext_some (node next : Nat) :
    listNext targets node = some next ↔ next = node + 1 ∧ next < targets.length := by
  unfold listNext
  split
  next more => simp only [Option.some.injEq]; omega
  next last => simp only [reduceCtorEq, false_iff]; omega

theorem listNext_isSome (node : Nat) :
    (listNext targets node).isSome = true ↔ node + 1 < targets.length := by
  unfold listNext
  split <;> simp [*]

theorem listPrev_zero : listPrev targets (some 0) = none := by
  unfold listPrev
  rw [List.find?_eq_none]
  intro ptr _
  simp [listNext_some]

theorem listPrev_succ (node : Nat) (inside : node + 1 < targets.length) :
    listPrev targets (some (node + 1)) = some node := by
  unfold listPrev
  rw [List.find?_range_eq_some]
  refine ⟨by simp [listNext_some, inside], by simp; omega, fun ptr before => ?_⟩
  simp only [Bool.not_eq_eq_eq_not, Bool.not_true, beq_eq_false_iff_ne, ne_eq, listNext_some]
  omega

/-! ### What is drawn -/

/-- Exactly one line is inverted if the selected row is among those drawn. -/
theorem drawLines_inverted (selected : Nat) (nodes : List KlTarget) (entry row : Nat)
    (below : row ≤ selected) (on_screen : selected ≤ rows - 2)
    (inside : selected - row < nodes.length) :
    (drawLines rows selected nodes entry row).filter (·.inverted) =
      [⟨selected, entry + (selected - row), (nodes[selected - row]).title.str, true⟩] := by
  induction nodes generalizing entry row with
  | nil => simp at inside
  | cons t rest ih =>
    rw [drawLines, if_pos (by omega)]
    by_cases here : row = selected
    · subst here
      -- the lines below are on other rows
      have others : ∀ (nodes : List KlTarget) (entry row' : Nat), row < row' →
          (drawLines rows row nodes entry row').filter (·.inverted) = [] := by
        intro nodes
        induction nodes with
        | nil => exact fun _ _ _ => rfl
        | cons t nodes ih =>
          intro entry row' after
          rw [drawLines]
          split
          · rw [List.filter_cons_of_neg (by simp; omega), ih _ _ (by omega)]
          · rfl
      rw [List.filter_cons_of_pos (by simp), others rest _ _ (by omega)]
      simp
    · obtain ⟨distance, eq⟩ : ∃ n, selected - row = n + 1 := ⟨selected - row - 1, by omega⟩
      have next : selected - (row + 1) = distance := by omega
      rw [List.filter_cons_of_neg (by simpa using here)]
      simp only [eq, List.length_cons] at inside
      rw [ih (entry + 1) (row + 1) (by omega) (by omega)]
      simp only [next, eq, List.getElem_cons_succ, List.cons.injEq, MenuLine.mk.injEq, true_and,
        and_true]
      omega

theorem drawMenu_inverted (first entry : Nat) (ordered : first ≤ entry)
    (inside : entry < targets.length) (on_screen : 6 + (entry - first) ≤ rows - 2) :
    (drawMenu rows targets (some first) (6 + (entry - first))).filter (·.inverted) =
      [⟨6 + (entry - first), entry, targets[entry].title.str, true⟩] := by
  have distance : 6 + (entry - first) - 6 = entry - first := by omega
  have back : first + (entry - first) = entry := by omega
  rw [drawMenu, drawLines_inverted rows _ (targets.drop first) first 6 (by omega) on_screen
    (by rw [List.length_drop]; omega)]
  simp only [distance, List.getElem_drop, back]

/-! ### Moving the selection -/

variable {rows targets} {m : Menu} {first entry : Nat}

theorem Placed.down {count row : Nat} (placed : Placed rows count first entry row)
    (tall : 10 ≤ rows) (more : entry + 1 < count) :
    if row + 3 = rows ∧ entry + 1 + 1 < count then
      Placed rows count (first + 1) (entry + 1) row
    else Placed rows count first (entry + 1) (row + 1) := by
  obtain ⟨ordered, inside, distance, bottom, head, last⟩ := placed
  split <;> constructor <;> omega

/-- Below the top row there is an entry before, since the first one is never
below the top row. -/
theorem Placed.up {count row : Nat} (placed : Placed rows count first entry row)
    (tall : 10 ≤ rows) (below : 6 < row) :
    0 < entry ∧ if row = 7 ∧ 0 < first then Placed rows count (first - 1) (entry - 1) row
      else Placed rows count first (entry - 1) (row - 1) := by
  obtain ⟨ordered, inside, distance, bottom, head, last⟩ := placed
  refine ⟨by omega, ?_⟩
  split <;> constructor <;> omega

theorem menuDown_inv (inv : MenuInv rows targets m first entry) (tall : 10 ≤ rows)
    (more : entry + 1 < targets.length) :
    ∃ m' first', menuDown rows targets m = some m' ∧
      MenuInv rows targets m' first' (entry + 1) ∧ m'.timeout = m.timeout := by
  have next : listNext targets entry = some (entry + 1) := by simp [listNext_some, more]
  have placed := inv.placed.down tall more
  simp only [menuDown, inv.target, Option.bind_some, next, inv.start, Option.map_some]
  split
  next second_last =>
    split
    next scroll =>
      -- the row stays, the list moves under it
      rw [listNext_isSome] at scroll
      rw [if_pos ⟨second_last, scroll⟩] at placed
      have ordered := placed.ordered
      have inside := placed.inside
      have first_next : listNext targets first = some (first + 1) := by
        rw [listNext_some]
        omega
      exact ⟨_, first + 1, rfl, ⟨first_next, rfl, placed⟩, rfl⟩
    next no_scroll =>
      rw [listNext_isSome] at no_scroll
      rw [if_neg (by simp [no_scroll])] at placed
      exact ⟨_, first, rfl, ⟨rfl, rfl, placed⟩, rfl⟩
  next above =>
    rw [if_neg (by simp [above])] at placed
    exact ⟨_, first, rfl, ⟨rfl, rfl, placed⟩, rfl⟩

theorem menuUp_inv (inv : MenuInv rows targets m first entry) (tall : 10 ≤ rows)
    (below : 6 < m.row) :
    ∃ first', MenuInv rows targets (menuUp targets m) first' (entry - 1) ∧
      (menuUp targets m).timeout = m.timeout := by
  obtain ⟨later, placed⟩ := inv.placed.up tall below
  have inside := inv.placed.inside
  have ordered := inv.placed.ordered
  -- the entry has a predecessor, since the row is not the top one
  obtain ⟨before, rfl⟩ : ∃ n, entry = n + 1 := ⟨entry - 1, by omega⟩
  have prev := listPrev_succ targets before inside
  cases first with
  | zero =>
    simp only [Nat.lt_irrefl, and_false, if_false] at placed
    simp only [menuUp, inv.target, inv.start, prev, listPrev_zero, Option.isSome_none,
      Bool.false_eq_true, and_false, if_false]
    exact ⟨0, ⟨rfl, rfl, placed⟩, trivial⟩
  | succ above =>
    have first_prev := listPrev_succ targets above (by omega)
    simp only [menuUp, inv.target, inv.start, prev, first_prev, Option.isSome_some, and_true]
    split
    next second =>
      -- on the second row the list moves, the row stays
      rw [if_pos ⟨second, by omega⟩] at placed
      exact ⟨above, ⟨rfl, rfl, placed⟩, rfl⟩
    next lower =>
      rw [if_neg (by simp [lower])] at placed
      exact ⟨above + 1, ⟨rfl, rfl, placed⟩, rfl⟩

/-- The invariant does not depend on the timeout. -/
theorem MenuInv.timed (inv : MenuInv rows targets m first entry) (timeout : Int) :
    MenuInv rows targets { m with timeout := timeout } first entry :=
  ⟨inv.start, inv.target, inv.placed⟩

theorem menuInv_draw (inv : MenuInv rows targets m first entry) :
    MenuInv rows targets (m.draw rows targets) first entry ∧
      (m.draw rows targets).Drawn rows targets :=
  ⟨⟨inv.start, inv.target, inv.placed⟩, rfl⟩

/-- Where a key takes the selection. -/
def movedTo (targets : List KlTarget) (entry : Nat) (c : Int) : Nat :=
  if c = KEY_DOWN then if entry + 1 < targets.length then entry + 1 else entry
  else if c = KEY_UP then entry - 1
  else entry

theorem menuMove_inv (inv : MenuInv rows targets m first entry) (drawn : m.Drawn rows targets)
    (tall : 10 ≤ rows) (c : Int) :
    ∃ m' first', menuMove rows targets c m = some m' ∧
      MenuInv rows targets m' first' (movedTo targets entry c) ∧ m'.Drawn rows targets ∧
      m'.timeout = m.timeout := by
  unfold movedTo
  by_cases down : c = KEY_DOWN
  · have not_up : ¬ (c = KEY_UP ∧ 6 < m.row) := by simp [down, KEY_UP, KEY_DOWN]
    simp only [menuMove, if_neg not_up, if_pos down, inv.target, Option.bind_some,
      listNext_isSome]
    split
    next more =>
      obtain ⟨m', first', moved, inv', same⟩ := menuDown_inv inv tall more
      obtain ⟨inv', drawn'⟩ := menuInv_draw inv'
      exact ⟨_, first', by rw [moved]; rfl, inv', drawn', same⟩
    next last => exact ⟨m, first, rfl, inv, drawn, rfl⟩
  · simp only [menuMove, if_neg down]
    by_cases up : c = KEY_UP
    · by_cases below : 6 < m.row
      · obtain ⟨first', inv', same⟩ := menuUp_inv inv tall below
        obtain ⟨inv', drawn'⟩ := menuInv_draw inv'
        rw [if_pos ⟨up, below⟩, if_pos up]
        exact ⟨_, first', rfl, inv', drawn', same⟩
      · -- the top row is selected, so it shows the first entry
        have distance := inv.placed.distance
        have ordered := inv.placed.ordered
        have head := inv.placed.head
        have first_entry : entry - 1 = entry := by omega
        rw [if_neg (by simp [below]), if_pos up, first_entry]
        exact ⟨m, first, rfl, inv, drawn, rfl⟩
    · rw [if_neg (by simp [up]), if_neg up]
      exact ⟨m, first, rfl, inv, drawn, rfl⟩

/-! ### The first selection -/

theorem menuSeek_inv (inv : MenuInv rows targets m first entry) (tall : 10 ≤ rows) (tptr fuel : Nat)
    (ahead : entry ≤ tptr) (inside : tptr < targets.length) (enough : tptr ≤ entry + fuel) :
    ∃ m' first', menuSeek rows targets tptr fuel m = some m' ∧
      MenuInv rows targets m' first' tptr ∧ m'.timeout = m.timeout := by
  induction fuel generalizing m first entry with
  | zero =>
    have here : entry = tptr := by omega
    subst here
    exact ⟨m, first, by simp [menuSeek, inv.target], inv, rfl⟩
  | succ fuel ih =>
    rw [menuSeek, inv.target]
    by_cases here : entry = tptr
    · subst here
      exact ⟨m, first, by simp, inv, rfl⟩
    · rw [if_neg (by simpa using here)]
      obtain ⟨m₁, first₁, moved, inv₁, same₁⟩ := menuDown_inv inv tall (by omega)
      obtain ⟨m', first', found, inv', same⟩ := ih inv₁ (by omega) (by omega)
      exact ⟨m', first', by rw [moved]; exact found, inv', same.trans same₁⟩

variable (targets) in
/-- The first entry flagged as the default, or the first one. -/
def firstDefault : Nat := (targets.findIdx? isDefault).getD 0

theorem menuInit_inv (timeout : Int) (nonempty : targets ≠ []) (tall : 10 ≤ rows) :
    ∃ m first, menuInit rows targets timeout = some m ∧
      MenuInv rows targets m first (firstDefault targets) ∧ m.Drawn rows targets := by
  have pos : 0 < targets.length := List.length_pos_iff.mpr nonempty
  have placed : Placed rows targets.length 0 0 6 := by constructor <;> omega
  -- the selection starts at the first entry and moves down to the default
  have top : MenuInv rows targets ⟨some 0, some 0, 6, timeout, []⟩ 0 0 := ⟨rfl, rfl, placed⟩
  unfold menuInit firstDefault
  rw [if_neg nonempty]
  cases default : targets.findIdx? isDefault with
  | none =>
    obtain ⟨inv, drawn⟩ := menuInv_draw top
    exact ⟨_, 0, rfl, inv, drawn⟩
  | some tptr =>
    have inside : tptr < targets.length := (List.findIdx?_eq_some_iff_getElem.mp default).1
    obtain ⟨m, first, found, inv, -⟩ :=
      menuSeek_inv top tall tptr targets.length (Nat.zero_le _) inside (by omega)
    obtain ⟨inv, drawn⟩ := menuInv_draw inv
    exact ⟨_, first, by simp only [found, Option.map_some], inv, drawn⟩

/-! ### Every step -/

theorem menuKey_inv (inv : MenuInv rows targets m first entry) (drawn : m.Drawn rows targets)
    (tall : 10 ≤ rows) (c : Int) :
    ∃ m' first' action, menuKey rows targets c m = some (m', action) ∧
      MenuInv rows targets m' first' (movedTo targets entry c) ∧ m'.Drawn rows targets ∧
      ∀ node, action = some (.boot node) ↔ c = 10 ∧ node = entry := by
  -- the move comes first, then the key is tested for the other actions
  obtain ⟨m₁, first₁, moved, inv₁, drawn₁, -⟩ := menuMove_inv inv drawn tall c
  obtain ⟨inv₂, drawn₂⟩ := menuInv_draw inv₁
  simp only [menuKey, moved, Option.bind_some]
  by_cases enter : c = 10
  · have stays : movedTo targets entry c = entry := by simp [movedTo, enter, KEY_DOWN, KEY_UP]
    rw [stays] at inv₁ inv₂ ⊢
    rw [if_pos enter, menuBoot, inv₁.target]
    exact ⟨_, first₁, _, rfl, inv₂, drawn₂, by simp [enter, eq_comm]⟩
  · simp only [if_neg enter]
    split_ifs
    · exact ⟨m₁, first₁, _, rfl, inv₁, drawn₁, by simp [enter]⟩
    · exact ⟨_, first₁, _, rfl, inv₂, drawn₂, by simp [enter]⟩
    · exact ⟨_, first₁, _, rfl, inv₂, drawn₂, by simp [enter]⟩
    · exact ⟨m₁, first₁, _, rfl, inv₁, drawn₁, by simp [enter]⟩

theorem menuBoot_inv (inv : MenuInv rows targets m first entry) :
    ∃ m', menuBoot rows targets m = some (m', some (.boot entry)) ∧
      MenuInv rows targets m' first entry ∧ m'.Drawn rows targets := by
  obtain ⟨inv', drawn'⟩ := menuInv_draw inv
  exact ⟨_, by rw [menuBoot, inv.target]; rfl, inv', drawn'⟩

/-- Where an input takes the selection. -/
def MenuInput.movedTo (targets : List KlTarget) (entry : Nat) : MenuInput → Nat
  | .key c => KexecLoader.movedTo targets entry c
  | _ => entry

/-- The inputs that boot the selected entry. -/
def MenuInput.Boots : MenuInput → Prop
  | .poll _ => False
  | .expired => True
  | .key c => c = 10

theorem menuStep_inv (inv : MenuInv rows targets m first entry) (drawn : m.Drawn rows targets)
    (tall : 10 ≤ rows) (input : MenuInput) :
    ∃ m' first' action, menuStep rows targets m input = some (m', action) ∧
      MenuInv rows targets m' first' (input.movedTo targets entry) ∧ m'.Drawn rows targets ∧
      ∀ node, action = some (.boot node) ↔ input.Boots ∧ node = entry := by
  cases input with
  | poll pressed =>
    refine ⟨_, first, none, rfl, ?_, ?_, by simp [MenuInput.Boots]⟩
    · cases pressed <;> exact ⟨inv.start, inv.target, inv.placed⟩
    · cases pressed <;> exact drawn
  | expired =>
    obtain ⟨m', booted, inv', drawn'⟩ := menuBoot_inv inv
    refine ⟨{ m' with timeout := -1 }, first, some (.boot entry), by rw [menuStep, booted]; rfl,
      inv'.timed _, drawn', by simp [MenuInput.Boots, eq_comm]⟩
  | key c => exact menuKey_inv inv drawn tall c

/-- What the menu promises of a state: the row is where the selected entry stands,
on the screen, and it is the one that is inverted. -/
structure Menu.Selects (rows : Nat) (targets : List KlTarget) (m : Menu) (first entry : Nat) :
    Prop where
  start : m.start = some first
  target : m.target = some entry
  inside : first ≤ entry ∧ entry < targets.length
  distance : m.row - 6 = entry - first
  on_screen : 6 ≤ m.row ∧ m.row ≤ rows - 2
  inverted : ∃ t, targets[entry]? = some t ∧
    m.screen.filter (·.inverted) = [⟨m.row, entry, t.title.str, true⟩]

theorem MenuInv.selects (inv : MenuInv rows targets m first entry) (drawn : m.Drawn rows targets) :
    m.Selects rows targets first entry := by
  obtain ⟨ordered, inside, distance, bottom, -, -⟩ := inv.placed
  refine ⟨inv.start, inv.target, ⟨ordered, inside⟩, by omega, by omega, targets[entry],
    List.getElem?_eq_getElem inside, ?_⟩
  rw [Menu.Drawn] at drawn
  rw [drawn, inv.start, distance]
  exact drawMenu_inverted rows targets first entry ordered inside (by omega)

theorem menu_run_inv {init : Menu} {entry₀ first₀ : Nat}
    (inv : MenuInv rows targets init first₀ entry₀) (drawn : init.Drawn rows targets)
    (tall : 10 ≤ rows) {trace : List (MenuInput × Option MenuAction)}
    (run : Run init (MenuStep rows targets) trace m) :
    ∃ first entry, MenuInv rows targets m first entry ∧ m.Drawn rows targets := by
  -- every step is deterministic, so that what it leads to is what `menuStep_inv` gives
  refine @Run.invariant _ _ init _ (fun _ m => ∃ first entry, MenuInv rows targets m first entry ∧
    m.Drawn rows targets) ⟨first₀, entry₀, inv, drawn⟩ ?_ _ _ run
  rintro trace s e s' ⟨first, entry, inv, drawn⟩ ⟨-, step⟩
  obtain ⟨m', first', action, stepped, inv', drawn', -⟩ := menuStep_inv inv drawn tall e.1
  obtain rfl : m' = s' := congrArg Prod.fst (Option.some.inj (stepped.symm.trans step))
  exact ⟨first', _, inv', drawn'⟩

/-- In every state of the menu the inverted line is the entry that ENTER or the
end of the countdown boots; the cursor keys move by one entry and stop at the
ends, and nothing else moves. -/
theorem menu_selection (rows : Nat) (targets : List KlTarget) (timeout : Int)
    (nonempty : targets ≠ []) (tall : 10 ≤ rows) :
    ∃ init first, menuInit rows targets timeout = some init ∧
      init.Selects rows targets first (firstDefault targets) ∧
      ∀ trace m, Run init (MenuStep rows targets) trace m →
        ∃ first entry, m.Selects rows targets first entry ∧
          ∀ input, ∃ m' first' action, menuStep rows targets m input = some (m', action) ∧
            m'.Selects rows targets first' (input.movedTo targets entry) ∧
            ∀ node, action = some (.boot node) ↔ input.Boots ∧ node = entry := by
  obtain ⟨init, first, started, inv, drawn⟩ := menuInit_inv timeout nonempty tall
  refine ⟨init, first, started, inv.selects drawn, fun trace m run => ?_⟩
  obtain ⟨first, entry, inv, drawn⟩ := menu_run_inv inv drawn tall run
  refine ⟨first, entry, inv.selects drawn, fun input => ?_⟩
  obtain ⟨m', first', action, stepped, inv', drawn', boots⟩ := menuStep_inv inv drawn tall input
  exact ⟨m', first', action, stepped, inv'.selects drawn', boots⟩

/-- Three entries, the last of them the default. -/
def menuSample : List KlTarget :=
  [initTarget, initTarget, { initTarget with flags := TARGET_DEFAULT }]

theorem menu_selection_sample :
    menuSample ≠ [] ∧ 10 ≤ 10 ∧
    ∃ init first, menuInit 10 menuSample 5 = some init ∧
      init.Selects 10 menuSample first (firstDefault menuSample) ∧
      ∀ trace m, Run init (MenuStep 10 menuSample) trace m →
        ∃ first entry, m.Selects 10 menuSample first entry ∧
          ∀ input, ∃ m' first' action, menuStep 10 menuSample m input = some (m', action) ∧
            m'.Selects 10 menuSample first' (input.movedTo menuSample entry) ∧
            ∀ node, action = some (.boot node) ↔ input.Boots ∧ node = entry :=
  ⟨by simp [menuSample], Nat.le_refl _,
    menu_selection 10 menuSample 5 (by simp [menuSample]) (Nat.le_refl _)⟩

end

end KexecLoader
