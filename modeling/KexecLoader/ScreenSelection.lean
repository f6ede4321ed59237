import KexecLoader.Countdown
import KexecLoader.Grub
import KexecLoader.MenuScreen
import KexecLoader.MenuSelection

/-!
# What is inverted is what is booted

`draw_menu` only draws over the entries it has to show. As the list scrolls only while it
fills its rows, no entry stays behind, and in every run of the menu the screen shows the
targets around the selected one, and this one inverted.
-/
namespace KexecLoader

/-! ### The screen of menu_main -/

namespace Display

variable {rows cols : Nat}

def countdownText (title : Str) (timeout : Int) : Str :=
  bytes "Booting '" ++ title ++ bytes "' in " ++ decimalInt timeout ++
    (if 1 < timeout then bytes " seconds..." else bytes " second...")

def showCountdown (title : Str) (timeout : Int) (d : Display rows cols) : Display rows cols :=
  ((d.consoleSetpos 1 2).consoleErase .line).fputs (countdownText title timeout)

def showHelp (d : Display rows cols) : Display rows cols :=
  let d := ((d.consoleSetpos 1 2).consoleErase .line).puts
    (bytes "Scroll through the list using the up/down arrow keys and press ENTER to select")
  ((d.consoleSetpos 1 3).consoleErase .line).puts
    (bytes "a target, D to display disks or C to open the console.")

end Display

section
variable {rows cols : Nat} (version : Str) (targets : List KlTarget)

/-- `target->title`. -/
def Menu.title (m : Menu) : Str := (m.target.bind (targets[·]?)).elim [] (·.title.str)

/-- From `FOOBAR` to the first key or second that is waited for. -/
def menuEnter (alert : Bool) (m : Menu) (d : Display rows cols) : Display rows cols :=
  let d := (d.drawStatic version alert).drawMenu targets m
  if 0 ≤ m.timeout then
    let d := (d.consoleSetpos 1 3).puts (bytes "Press any key to abort")
    if m.timeout = 0 then d else d.showCountdown (m.title targets) m.timeout
  else d.showHelp

/-- An input, and the screen that `boot_target`, `list_disks` or `shell_main` leaves, where
it comes to that; they start on a screen that is erased from some row on. -/
structure ScreenInput (rows cols : Nat) where
  input : MenuInput
  left : Display rows cols
  alert : Bool

structure MenuScreen (rows cols : Nat) where
  menu : Menu
  display : Display rows cols

/-- What a step of the menu shows. -/
def menuShows (m m' : Menu) (action : Option MenuAction) (e : ScreenInput rows cols) (d : Display rows cols) :
    Display rows cols :=
  match e.input with
  | .poll true => d.showHelp
  | .poll false => if m'.timeout = 0 then d else d.showCountdown (m.title targets) m'.timeout
  | .expired => menuEnter version targets e.alert m' e.left
  | .key c =>
    let d := if c = KEY_UP ∧ 6 < m.row then d.drawMenu targets m' else d
    let d :=
      if c = KEY_DOWN ∧ m.target.any (fun node => (listNext targets node).isSome) then d.drawMenu targets m' else d
    if action.isSome then menuEnter version targets e.alert m' e.left else d

def ScreenStep (s : MenuScreen rows cols) (e : ScreenInput rows cols) (s' : MenuScreen rows cols) : Prop :=
  e.input.Enabled s.menu ∧ ∃ action, menuStep rows targets s.menu e.input = some (s'.menu, action) ∧
    s'.display = menuShows version targets s.menu s'.menu action e s.display

end

/-! ### The list fills its rows -/

section
variable {rows : Nat} {targets : List KlTarget} {m m' : Menu} {first entry : Nat}

/-- A list that is scrolled reaches to the last row. -/
def Menu.Filled (rows : Nat) (targets : List KlTarget) (m : Menu) : Prop :=
  ∀ first, m.start = some first → first = 0 ∨ first + (rows - 7) ≤ targets.length

theorem menuDown_filled (inv : MenuInv rows targets m first entry) (tall : 10 ≤ rows)
    (filled : m.Filled rows targets) (down : menuDown rows targets m = some m') : m'.Filled rows targets := by
  obtain ⟨ordered, inside, distance, bottom, head, last⟩ := inv.placed
  unfold menuDown at down
  simp only [inv.target, Option.bind_some] at down
  split at down
  next second_last =>
    obtain ⟨next, next_eq, down⟩ := Option.bind_eq_some_iff.mp down
    split at down
    next more =>
      obtain ⟨start, start_eq, rfl⟩ := Option.map_eq_some_iff.mp down
      obtain rfl := Option.some.inj (inv.start.symm.trans start_eq)
      intro first' moved
      obtain ⟨rfl, -⟩ := (listNext_some targets _ _).mp next_eq
      obtain ⟨rfl, -⟩ := (listNext_some targets _ _).mp moved
      rw [listNext_isSome] at more
      omega
    next => exact Option.some.inj down ▸ filled
  next => exact Option.some.inj down ▸ filled

theorem menuUp_filled (inv : MenuInv rows targets m first entry) (filled : m.Filled rows targets) :
    (menuUp targets m).Filled rows targets := by
  have ordered := inv.placed.ordered
  have inside := inv.placed.inside
  have here := filled first inv.start
  unfold menuUp
  dsimp only
  split
  next =>
    intro first' moved
    rw [show ({ m with target := listPrev targets m.target, start := listPrev targets m.start } : Menu).start =
      listPrev targets m.start from rfl, inv.start] at moved
    cases first with
    | zero => rw [listPrev_zero] at moved; cases moved
    | succ above =>
      rw [listPrev_succ targets above (by omega)] at moved
      obtain rfl := Option.some.inj moved
      omega
  next => exact filled

theorem menuMove_filled (inv : MenuInv rows targets m first entry) (tall : 10 ≤ rows)
    (filled : m.Filled rows targets) {c : Int} (moved : menuMove rows targets c m = some m') :
    m'.Filled rows targets := by
  unfold menuMove at moved
  by_cases down : c = KEY_DOWN
  · have not_up : ¬ (c = KEY_UP ∧ 6 < m.row) := by simp [down, KEY_UP, KEY_DOWN]
    simp only [if_neg not_up, if_pos down, inv.target, Option.bind_some] at moved
    split at moved
    · obtain ⟨m₁, stepped, rfl⟩ := Option.map_eq_some_iff.mp moved
      have filled₁ : m₁.Filled rows targets := menuDown_filled inv tall filled stepped
      exact filled₁
    · exact Option.some.inj moved ▸ filled
  · simp only [if_neg down] at moved
    split at moved
    · obtain rfl := Option.some.inj moved
      exact menuUp_filled inv filled
    · exact Option.some.inj moved ▸ filled

theorem menuStep_filled (inv : MenuInv rows targets m first entry) (tall : 10 ≤ rows)
    (filled : m.Filled rows targets) {input : MenuInput} {action : Option MenuAction}
    (step : menuStep rows targets m input = some (m', action)) : m'.Filled rows targets := by
  -- booting draws the same list again
  have booted : ∀ {m m' : Menu} {action : Option MenuAction}, m.Filled rows targets →
      menuBoot rows targets m = some (m', action) → m'.Filled rows targets := by
    intro m m' action filled boot
    obtain ⟨node, -, same⟩ := Option.map_eq_some_iff.mp boot
    obtain rfl := congrArg Prod.fst same
    exact filled
  cases input with
  | poll pressed =>
    obtain rfl := congrArg Prod.fst (Option.some.inj step)
    cases pressed <;> exact filled
  | expired =>
    obtain ⟨⟨m₁, action₁⟩, boot, same⟩ := Option.map_eq_some_iff.mp step
    have filled₁ := booted filled boot
    obtain rfl := congrArg Prod.fst same
    exact filled₁
  | key c =>
    obtain ⟨m₁, moved, step⟩ := Option.bind_eq_some_iff.mp step
    have filled₁ := menuMove_filled inv tall filled moved
    split_ifs at step
    · exact booted filled₁ step
    all_goals
      obtain rfl := congrArg Prod.fst (Option.some.inj step)
      exact filled₁

theorem menuSeek_filled (inv : MenuInv rows targets m first entry) (tall : 10 ≤ rows)
    (filled : m.Filled rows targets) {tptr fuel : Nat} (ahead : entry ≤ tptr) (inside : tptr < targets.length)
    (found : menuSeek rows targets tptr fuel m = some m') : m'.Filled rows targets := by
  induction fuel generalizing m first entry with
  | zero =>
    unfold menuSeek at found
    split at found
    · exact Option.some.inj found ▸ filled
    · cases found
  | succ fuel ih =>
    unfold menuSeek at found
    split at found
    · exact Option.some.inj found ▸ filled
    next other =>
      have before : entry ≠ tptr := fun same => other (same ▸ inv.target)
      obtain ⟨m₁, first₁, down, inv₁, -⟩ := menuDown_inv inv tall (by omega)
      rw [down, Option.bind_some] at found
      exact ih inv₁ (menuDown_filled inv tall filled down) (by omega) found

theorem menuInit_filled (nonempty : targets ≠ []) (tall : 10 ≤ rows) {timeout : Int}
    (started : menuInit rows targets timeout = some m) : m.Filled rows targets := by
  have pos : 0 < targets.length := List.length_pos_iff.mpr nonempty
  have placed : Placed rows targets.length 0 0 6 := by constructor <;> omega
  have top : MenuInv rows targets ⟨some 0, some 0, 6, timeout, []⟩ 0 0 := ⟨rfl, rfl, placed⟩
  have filled : Menu.Filled rows targets ⟨some 0, some 0, 6, timeout, []⟩ :=
    fun first start => .inl (Option.some.inj start).symm
  unfold menuInit at started
  rw [if_neg nonempty] at started
  split at started
  · exact Option.some.inj started ▸ filled
  next tptr default =>
    obtain ⟨m₁, found, rfl⟩ := Option.map_eq_some_iff.mp started
    have inside := (List.findIdx?_eq_some_iff_getElem.mp default).1
    have filled₁ : m₁.Filled rows targets := menuSeek_filled top tall filled (Nat.zero_le _) inside found
    exact filled₁

end

/-! ### What stands on the screen -/

namespace Display

variable {rows cols : Nat} {version : Str} {targets : List KlTarget} {first first' selected : Nat}

/-- The titles from `first` on inside the frame, the one in the row `selected` inverted. -/
def menuCell (cols rows : Nat) (targets : List KlTarget) (first selected r c : Nat) : ScreenChar :=
  if 6 ≤ r ∧ r ≤ rows - 2 ∧ c + 1 < cols then
    (targets[first + (r - 6)]?).elim (frameCell rows cols r c) fun t => entryCell t.title.str (r == selected) c
  else frameCell rows cols r c

/-- The frame stands wherever `draw_menu` is not going to draw. -/
structure Around (targets : List KlTarget) (first : Nat) (d : Display rows cols) : Prop where
  plain : d.attrib = 0
  cells : ∀ r c, 5 ≤ r → r < rows → c < cols →
    (6 ≤ r → r ≤ rows - 2 → c + 1 < cols → targets.length ≤ first + (r - 6)) →
      d.grid.cells r c = frameCell rows cols r c

structure ShowsMenu (targets : List KlTarget) (first selected : Nat) (d : Display rows cols) : Prop where
  plain : d.attrib = 0
  cells : ∀ r c, 5 ≤ r → r < rows → c < cols → d.grid.cells r c = menuCell cols rows targets first selected r c

theorem drawStatic_around (d : Display rows cols) (printable : Printable version) (alert : Bool) (tall : 10 ≤ rows)
    (wide : 40 ≤ cols) : Around targets first (drawStatic version alert d) := by
  obtain ⟨plain, cells⟩ := d.drawStatic_cells printable alert tall wide
  exact ⟨plain, fun r c low on_screen inside _ => cells r c low on_screen inside⟩

/-- A list that fills its rows leaves nothing of another one behind. -/
theorem ShowsMenu.around {d : Display rows cols} (shows : ShowsMenu targets first selected d)
    (filled : first' = 0 ∨ first' + (rows - 7) ≤ targets.length) : Around targets first' d := by
  refine ⟨shows.plain, fun r c low on_screen inside free => ?_⟩
  rw [shows.cells r c low on_screen inside, menuCell]
  split
  next entry =>
    have below := free entry.1 entry.2.1 entry.2.2
    rw [List.getElem?_eq_none (by omega), Option.elim_none]
  next => rfl

theorem Around.drawMenu {d : Display rows cols} (around : Around targets first d) (tall : 10 ≤ rows)
    (titles : ∀ t ∈ targets, Printable t.title.str ∧ t.title.str.length + 3 ≤ cols) {m : Menu}
    (start : m.start = some first) : ShowsMenu targets first m.row (d.drawMenu targets m) := by
  unfold Display.drawMenu
  rw [start, Option.elim_some]
  obtain ⟨plain, cells⟩ := d.drawEntries_cells m.row (targets.drop first) 6 around.plain (by omega)
    fun t member => titles t (List.mem_of_mem_drop member)
  refine ⟨plain, fun r c low on_screen inside => ?_⟩
  rw [cells r c inside, menuCell, List.getElem?_drop]
  split
  next entry =>
    cases found : targets[first + (r - 6)]? with
    | some t => rfl
    | none => exact around.cells r c low on_screen inside fun _ _ _ => List.getElem?_eq_none_iff.mp found
  next outside =>
    exact around.cells r c low on_screen inside fun a b c => absurd ⟨a, b, c⟩ outside

/-! ### The lines above the list -/

theorem consoleSetpos_erase (d : Display rows cols) (col row : Nat) (mode : EraseMode) :
    (d.consoleSetpos col row).consoleErase mode =
      ((d.consoleSetpos col row).consoleErase mode).consoleSetpos col row :=
  rfl

/-- Moving to a line above the frame and erasing it keeps the entries. -/
theorem ShowsMenu.erase {d : Display rows cols} (shows : ShowsMenu targets first selected d) (col : Nat) {row : Nat}
    (header : row < 5) :
    ShowsMenu targets first selected ((d.consoleSetpos col row).consoleErase .line) := by
  refine ⟨shows.plain, fun r c low on_screen inside => ?_⟩
  have apart : (EraseMode.line.gone (min row (rows - 1)) (min col (cols - 1)) r c) = false := by
    simp only [EraseMode.gone, decide_eq_false_iff_not]
    omega
  have kept : ((d.consoleSetpos col row).consoleErase .line).grid.cells r c = d.grid.cells r c := by
    simp only [consoleErase, consoleSetpos, Grid.erase, Grid.moveTo, apart, Bool.false_eq_true, if_false]
  exact kept.trans (shows.cells r c low on_screen inside)

/-- A text that ends above the frame keeps the entries. -/
theorem ShowsMenu.header {d : Display rows cols} (shows : ShowsMenu targets first selected d) (tall : 10 ≤ rows)
    (col row : Nat) (text : Str) (col_lt : col < cols) (header : row < 5) (printable : Printable text)
    (room : row * cols + col + text.length ≤ 5 * cols) :
    ShowsMenu targets first selected ((d.consoleSetpos col row).fputs text) ∧
      ShowsMenu targets first selected ((d.consoleSetpos col row).puts text) := by
  obtain ⟨fputs_plain, puts_plain, kept⟩ := d.fputs_header col row tall (by omega) col_lt printable room
  exact ⟨⟨fputs_plain.trans shows.plain, fun r c low on_screen inside =>
      (kept r c low inside).1.trans (shows.cells r c low on_screen inside)⟩,
    ⟨puts_plain.trans shows.plain, fun r c low on_screen inside =>
      (kept r c low inside).2.trans (shows.cells r c low on_screen inside)⟩⟩

/-- The same for a line that is erased first. -/
theorem ShowsMenu.line {d : Display rows cols} (shows : ShowsMenu targets first selected d) (tall : 10 ≤ rows)
    (col row : Nat) (text : Str) (col_lt : col < cols) (header : row < 5) (printable : Printable text)
    (room : row * cols + col + text.length ≤ 5 * cols) :
    ShowsMenu targets first selected (((d.consoleSetpos col row).consoleErase .line).fputs text) ∧
      ShowsMenu targets first selected (((d.consoleSetpos col row).consoleErase .line).puts text) := by
  rw [consoleSetpos_erase]
  exact (shows.erase col header).header tall col row text col_lt header printable room

theorem Printable.append {a b : Str} (left : Printable a) (right : Printable b) : Printable (a ++ b) :=
  fun c member => (List.mem_append.mp member).elim (left c) (right c)

/-- The digits of an `int`. -/
theorem decimalInt_short {timeout : Int} (positive : 0 ≤ timeout) (int : timeout < 2 ^ 31) :
    Printable (decimalInt timeout) ∧ (decimalInt timeout).length ≤ 10 := by
  rw [decimalInt, if_neg (by omega)]
  refine ⟨fun c member => ?_, length_numeralDigits_le (by decide) (by decide) (by omega)⟩
  have digit := isDigitOf_isdigit (numeralDigits_isDigitOf (by decide) (Nat.le_refl 10) _ c member)
  obtain ⟨low, high⟩ := (isdigit_iff c).mp digit
  refine ⟨UInt8.le_iff_toNat_le.mpr (Nat.le_trans (by decide) low), ?_⟩
  rintro rfl
  exact absurd high (by decide)

theorem ShowsMenu.countdown {d : Display rows cols} (shows : ShowsMenu targets first selected d) (tall : 10 ≤ rows)
    (wide : 40 ≤ cols) {title : Str} (printable : Printable title) (fits : title.length + 3 ≤ cols) {timeout : Int}
    (positive : 0 ≤ timeout) (int : timeout < 2 ^ 31) :
    ShowsMenu targets first selected (d.showCountdown title timeout) := by
  obtain ⟨digits, short⟩ := decimalInt_short positive int
  have text : Printable (countdownText title timeout) := by
    have ends : Printable (if 1 < timeout then bytes " seconds..." else bytes " second...") := by
      split <;> decide
    have front : Printable (bytes "Booting '") := by decide
    have middle : Printable (bytes "' in ") := by decide
    exact (((front.append printable).append middle).append digits).append ends
  have length : (countdownText title timeout).length ≤ cols + 32 := by
    have ends : (if 1 < timeout then bytes " seconds..." else bytes " second...").length ≤ 11 := by
      split <;> decide
    simp only [countdownText, List.length_append]
    rw [show (bytes "Booting '").length = 9 from rfl, show (bytes "' in ").length = 5 from rfl]
    omega
  exact (shows.line tall 1 2 _ (by omega) (by omega) text (by omega)).1

theorem ShowsMenu.help {d : Display rows cols} (shows : ShowsMenu targets first selected d) (tall : 10 ≤ rows)
    (wide : 40 ≤ cols) : ShowsMenu targets first selected d.showHelp := by
  let upper := bytes "Scroll through the list using the up/down arrow keys and press ENTER to select"
  let lower := bytes "a target, D to display disks or C to open the console."
  have upper_length : upper.length = 78 := rfl
  have lower_length : lower.length = 54 := rfl
  -- on a narrow screen the first text goes on in the next line
  have first_line := (shows.line tall 1 2 upper (by omega) (by decide) (by decide) (by omega)).2
  exact (first_line.line tall 1 3 lower (by omega) (by decide) (by decide) (by omega)).2

end Display

/-! ### Runs -/

section
variable {rows cols : Nat} {version : Str} {targets : List KlTarget} {m m' : Menu} {first entry : Nat}

open Display

/-- Only a move redraws; the other keys leave the list where it is. -/
theorem menuKey_still {c : Int} {action : Option MenuAction} (up : ¬ (c = KEY_UP ∧ 6 < m.row))
    (down : ¬ (c = KEY_DOWN ∧ m.target.any fun node => (listNext targets node).isSome))
    (inv : MenuInv rows targets m first entry) (key : menuKey rows targets c m = some (m', action)) :
    m'.start = m.start ∧ m'.row = m.row := by
  have moved : menuMove rows targets c m = some m := by
    simp only [menuMove, if_neg up, inv.target, Option.bind_some]
    split
    next is_down =>
      have last : (listNext targets entry).isSome ≠ true := fun more => down ⟨is_down, by simpa [inv.target] using more⟩
      rw [if_neg last]
    next => rfl
  rw [menuKey, moved, Option.bind_some] at key
  split_ifs at key with enter
  · obtain ⟨node, -, same⟩ := Option.map_eq_some_iff.mp key
    obtain rfl := congrArg Prod.fst same
    exact ⟨rfl, rfl⟩
  all_goals
    obtain rfl := congrArg Prod.fst (Option.some.inj key)
    exact ⟨rfl, rfl⟩

variable (printable : Printable version) (tall : 10 ≤ rows) (wide : 40 ≤ cols)
  (titles : ∀ t ∈ targets, Printable t.title.str ∧ t.title.str.length + 3 ≤ cols)

include wide titles in
theorem Menu.title_fits (m : Menu) : Printable (m.title targets) ∧ (m.title targets).length + 3 ≤ cols := by
  unfold Menu.title
  cases found : m.target.bind (targets[·]?) with
  | none => exact ⟨List.forall_mem_nil _, by simp; omega⟩
  | some t =>
    obtain ⟨entry, -, here⟩ := Option.bind_eq_some_iff.mp found
    exact titles t (List.mem_of_getElem? here)

include printable tall wide titles in
/-- Whatever the screen was left with, it is drawn anew. -/
theorem menuEnter_shows (inv : MenuInv rows targets m first entry) (int : m.timeout < 2 ^ 31) (alert : Bool)
    (d : Display rows cols) : ShowsMenu targets first m.row (menuEnter version targets alert m d) := by
  have listed := (d.drawStatic_around printable alert tall wide).drawMenu tall titles inv.start
  unfold menuEnter
  dsimp only
  split
  next counting =>
    have abort : (bytes "Press any key to abort").length = 22 := rfl
    have asked := (listed.header tall 1 3 (bytes "Press any key to abort") (by omega) (by decide) (by decide)
      (by omega)).2
    split
    next => exact asked
    next =>
      obtain ⟨plain, fits⟩ := m.title_fits wide titles
      exact asked.countdown tall wide plain fits counting int
  next => exact listed.help tall wide

include printable tall wide titles in
theorem menuShows_shows (inv : MenuInv rows targets m first entry) {first' entry' : Nat}
    (inv' : MenuInv rows targets m' first' entry') (filled' : m'.Filled rows targets) (int' : m'.timeout < 2 ^ 31)
    {action : Option MenuAction} {e : ScreenInput rows cols} (enabled : e.input.Enabled m)
    (step : menuStep rows targets m e.input = some (m', action)) {d : Display rows cols}
    (shows : ShowsMenu targets first m.row d) :
    ShowsMenu targets first' m'.row (menuShows version targets m m' action e d) := by
  obtain ⟨input, left, alert⟩ := e
  have same_list : m'.start = m.start ∧ m'.row = m.row → ShowsMenu targets first' m'.row d := by
    rintro ⟨start, row⟩
    obtain rfl := Option.some.inj (inv'.start.symm.trans (start.trans inv.start))
    rwa [row]
  cases input with
  | poll pressed =>
    obtain rfl := congrArg Prod.fst (Option.some.inj step)
    cases pressed with
    | true => exact (same_list ⟨rfl, rfl⟩).help tall wide
    | false =>
      have counts : 0 < m.timeout := enabled
      have left : 0 ≤ (menuPoll false m).timeout := Int.sub_nonneg_of_le counts
      obtain ⟨plain, fits⟩ := m.title_fits wide titles
      simp only [menuShows]
      split
      · exact same_list ⟨rfl, rfl⟩
      · exact (same_list ⟨rfl, rfl⟩).countdown tall wide plain fits left int'
  | expired => exact menuEnter_shows printable tall wide titles inv' int' alert left
  | key c =>
    simp only [menuShows]
    split
    next => exact menuEnter_shows printable tall wide titles inv' int' alert left
    next =>
      -- drawing twice shows what drawing once does
      have again : ∀ {d : Display rows cols} {selected : Nat} {first : Nat}, ShowsMenu targets first selected d →
          ShowsMenu targets first' m'.row (d.drawMenu targets m') := fun shows =>
        (shows.around (filled' first' inv'.start)).drawMenu tall titles inv'.start
      by_cases down : c = KEY_DOWN ∧ m.target.any fun node => (listNext targets node).isSome
      · rw [if_pos down]
        split
        · exact again (again shows)
        · exact again shows
      · rw [if_neg down]
        split
        next => exact again shows
        next up => exact same_list (menuKey_still up down inv step)

/-- What holds of the menu and its screen at any time. -/
structure MenuScreen.Inv (targets : List KlTarget) (s : MenuScreen rows cols) (first entry : Nat) : Prop where
  menu : MenuInv rows targets s.menu first entry
  drawn : s.menu.Drawn rows targets
  filled : s.menu.Filled rows targets
  int : s.menu.timeout < 2 ^ 31
  shows : ShowsMenu targets first s.menu.row s.display

include printable tall wide titles in
theorem screenStep_inv {s s' : MenuScreen rows cols} {e : ScreenInput rows cols} {first entry : Nat}
    (inv : s.Inv targets first entry) (step : ScreenStep version targets s e s') :
    ∃ first', s'.Inv targets first' (e.input.movedTo targets entry) := by
  obtain ⟨enabled, action, step, display⟩ := step
  obtain ⟨m', first', action', stepped, inv', drawn', -⟩ := menuStep_inv inv.menu inv.drawn tall e.input
  obtain rfl : m' = s'.menu := congrArg Prod.fst (Option.some.inj (stepped.symm.trans step))
  have filled' := menuStep_filled inv.menu tall inv.filled step
  have int' : s'.menu.timeout < 2 ^ 31 := by
    have int := inv.int
    rw [menuStep_leaves step]
    cases e.input with
    | poll pressed => cases pressed <;> simp only [MenuInput.leaves] <;> omega
    | expired => exact (by decide : (-1 : Int) < 2 ^ 31)
    | key c => exact int
  refine ⟨first', inv', drawn', filled', int', ?_⟩
  rw [display]
  exact menuShows_shows printable tall wide titles inv.menu inv' filled' int' enabled step inv.shows

theorem frameCell_plain (rows cols r c : Nat) : (frameCell rows cols r c).inverted = false := by
  unfold frameCell
  split_ifs <;> rfl

theorem entryCell_inverted (title : Str) (inverted : Bool) (c : Nat) :
    (entryCell title inverted c).inverted = true ↔ inverted = true ∧ 2 ≤ c ∧ c < 2 + title.length := by
  have front : (cellsOf 0 (bytes "| ")).length = 2 := rfl
  unfold entryCell
  by_cases left : c < 2
  · rw [List.getElem?_append_left (by omega)]
    have plain : ((cellsOf 0 (bytes "| "))[c]?.getD default).inverted = false := by
      obtain rfl | rfl : c = 0 ∨ c = 1 := by omega
      all_goals rfl
    simp only [plain, Bool.false_eq_true, false_iff]
    omega
  · rw [List.getElem?_append_right (by omega), front, cellsOf, List.getElem?_map]
    by_cases inside : c - 2 < title.length
    · rw [List.getElem?_eq_getElem inside, Option.map_some, Option.getD_some]
      cases inverted
      · simp [CONS_INVERT]
      · simp only [if_true, beq_self_eq_true, true_and, true_iff]
        omega
    · rw [List.getElem?_eq_none (by omega), Option.map_none, Option.getD_none]
      simp only [show (default : ScreenChar).inverted = false from rfl, Bool.false_eq_true, false_iff]
      omega

/-- The title in the selected row is all that is inverted. -/
theorem menuCell_inverted {t : KlTarget} {row r c : Nat} (here : targets[entry]? = some t) (later : first ≤ entry)
    (distance : row = 6 + (entry - first)) (bottom : row ≤ rows - 2) (fits : t.title.str.length + 3 ≤ cols) :
    (menuCell cols rows targets first row r c).inverted = true ↔ r = row ∧ 2 ≤ c ∧ c < 2 + t.title.str.length := by
  by_cases selected : r = row
  · subst selected
    have node : first + (r - 6) = entry := by omega
    unfold menuCell
    rw [node, here, Option.elim_some]
    split
    next => simp only [entryCell_inverted, beq_self_eq_true, true_and]
    next outside =>
      simp only [frameCell_plain, Bool.false_eq_true, false_iff]
      omega
  · have other : (r == row) = false := beq_false_of_ne selected
    have plain : (menuCell cols rows targets first row r c).inverted ≠ true := by
      unfold menuCell
      rw [other]
      split
      · cases targets[first + (r - 6)]? with
        | none => simp [frameCell_plain]
        | some t' => simp [entryCell_inverted]
      · simp [frameCell_plain]
    simp [plain, selected]

/-- Where the cursor keys have led from the default target. -/
def selectedAfter (targets : List KlTarget) (trace : List (ScreenInput rows cols)) : Nat :=
  trace.foldl (fun entry e => e.input.movedTo targets entry) (firstDefault targets)

/-- In every run of the menu the screen shows the frame and, from some target on, the
titles that fit into it, one a row from row 6 on. The row of the selected target is that
of the one to which the cursor keys have led; its title is inverted, and nothing else
below the heading is; and it is the one that Enter and the end of the countdown boot. -/
theorem menuScreen_shows (version : Str) (targets : List KlTarget) (timeout : Int) (alert : Bool)
    (left : Display rows cols) (nonempty : targets ≠ []) (tall : 10 ≤ rows) (wide : 40 ≤ cols)
    (printable : Printable version) (titles : ∀ t ∈ targets, Printable t.title.str ∧ t.title.str.length + 3 ≤ cols)
    (int : timeout < 2 ^ 31) :
    ∃ init, menuInit rows targets timeout = some init ∧
      ∀ trace s, Run ⟨init, menuEnter version targets alert init left⟩ (ScreenStep version targets) trace s →
        ∃ first t, targets[selectedAfter targets trace]? = some t ∧ ShowsMenu targets first s.menu.row s.display ∧
          first ≤ selectedAfter targets trace ∧ s.menu.row = 6 + (selectedAfter targets trace - first) ∧
          (∀ r c, 5 ≤ r → r < rows → c < cols →
            ((s.display.grid.cells r c).inverted = true ↔
              r = s.menu.row ∧ 2 ≤ c ∧ c < 2 + t.title.str.length)) ∧
          ∀ input m node, menuStep rows targets s.menu input = some (m, some (.boot node)) →
            node = selectedAfter targets trace := by
  obtain ⟨init, first, started, inv, drawn⟩ := menuInit_inv timeout nonempty tall
  have int' : init.timeout < 2 ^ 31 := by
    rw [menuInit_timeout started]
    exact int
  have entered := menuEnter_shows printable tall wide titles inv int' alert left
  refine ⟨init, started, fun trace s run => ?_⟩
  obtain ⟨first, inv⟩ : ∃ first, s.Inv targets first (selectedAfter targets trace) := by
    refine @Run.invariant _ _ _ _ (fun trace s => ∃ first, MenuScreen.Inv targets s first (selectedAfter targets trace))
      ⟨first, inv, drawn, menuInit_filled nonempty tall started, int', entered⟩ ?_ _ _ run
    rintro trace s e s' ⟨first, inv⟩ step
    rw [selectedAfter, List.foldl_append]
    exact screenStep_inv printable tall wide titles inv step
  have placed := inv.menu.placed
  have bottom := placed.bottom
  have here := List.getElem?_eq_getElem placed.inside
  have fits := (titles _ (List.getElem_mem placed.inside)).2
  refine ⟨first, _, here, inv.shows, placed.ordered, placed.distance, fun r c low on_screen inside => ?_,
    fun input m node boots => ?_⟩
  · rw [inv.shows.cells r c low on_screen inside]
    exact menuCell_inverted here placed.ordered placed.distance (by omega) fits
  · obtain ⟨m', first', action, stepped, -, -, booted⟩ := menuStep_inv inv.menu inv.drawn tall input
    obtain rfl : action = some (.boot node) := congrArg Prod.snd (Option.some.inj (stepped.symm.trans boots))
    exact ((booted node).mp rfl).2

/-- The second target is the default; the screen comes from something else. -/
def screenTargets : List KlTarget :=
  [{ initTarget with title := strlcpy (bytes "Linux") },
    { initTarget with title := strlcpy (bytes "memtest"), flags := TARGET_DEFAULT }]

def usedScreen : Display 10 40 := ⟨⟨fun _ _ => ⟨63, true⟩, 9, 39, true, by decide, by decide, fun _ => rfl⟩, 7⟩

theorem menuScreen_shows_default :
    ∃ init, menuInit 10 screenTargets 5 = some init ∧
      ∀ trace s, Run ⟨init, menuEnter (bytes "kexec-loader") screenTargets true init usedScreen⟩
          (ScreenStep (bytes "kexec-loader") screenTargets) trace s →
        ∃ first t, screenTargets[selectedAfter screenTargets trace]? = some t ∧
          ShowsMenu screenTargets first s.menu.row s.display ∧
          first ≤ selectedAfter screenTargets trace ∧
          s.menu.row = 6 + (selectedAfter screenTargets trace - first) ∧
          (∀ r c, 5 ≤ r → r < 10 → c < 40 →
            ((s.display.grid.cells r c).inverted = true ↔
              r = s.menu.row ∧ 2 ≤ c ∧ c < 2 + t.title.str.length)) ∧
          ∀ input m node, menuStep 10 screenTargets s.menu input = some (m, some (.boot node)) →
            node = selectedAfter screenTargets trace :=
  menuScreen_shows _ _ 5 true usedScreen (List.cons_ne_nil _ _) (Nat.le_refl _) (Nat.le_refl _) (by decide)
    (by decide) (by decide)

end

end KexecLoader
