import KexecLoader.Console
import KexecLoader.Library.Runs
import KexecLoader.Settings

/-!
# The target menu

A pointer into the list of targets is the position of its node, `none` is NULL.
What `menu_main` does with a key is a step that may dereference NULL.
-/
namespace KexecLoader

/-- A line `draw_menu` writes: the node it shows, and whether it is inverted. -/
structure MenuLine where
  row : Nat
  entry : Nat
  title : Str
  inverted : Bool
deriving DecidableEq

/-- The local variables of `menu_main`, the countdown, and what `draw_menu` last
drew. -/
structure Menu where
  start : Option Nat
  target : Option Nat
  row : Nat
  timeout : Int
  screen : List MenuLine
deriving DecidableEq

inductive MenuAction where
  | boot (target : Nat)
  | listDisks
  | shell
deriving DecidableEq

/-- What the menu waits for. -/
inductive MenuInput where
  /-- `poll` returns within the second, because of a key or not. -/
  | poll (pressed : Bool)
  /-- The countdown has come to zero. -/
  | expired
  | key (c : Int)

section
variable (rows : Nat) (targets : List KlTarget)

/-- `node->next`. -/
def listNext (node : Nat) : Option Nat :=
  if node + 1 < targets.length then some (node + 1) else none

/-- `list_prev`: the first node whose `next` is the one given. -/
def listPrev (node : Option Nat) : Option Nat :=
  (List.range targets.length).find? fun ptr => listNext targets ptr == node

/-- The loop of `draw_menu` from a node on. -/
def drawLines (selected : Nat) : List KlTarget → Nat → Nat → List MenuLine
  | [], _, _ => []
  | t :: rest, entry, row =>
    if row ≤ rows - 2 then
      ⟨row, entry, t.title.str, row == selected⟩ :: drawLines selected rest (entry + 1) (row + 1)
    else []

def drawMenu (start : Option Nat) (selected : Nat) : List MenuLine :=
  match start with
  | none => []
  | some node => drawLines rows selected (targets.drop node) node 6

def Menu.draw (m : Menu) : Menu := { m with screen := drawMenu rows targets m.start m.row }

/-- Moving on by one entry, in the loop that looks for the default as well as
for `KEY_DOWN`: only the last row but one scrolls. -/
def menuDown (m : Menu) : Option Menu :=
  m.target.bind fun node =>
    let m := { m with target := listNext targets node }
    if m.row + 3 = rows then
      m.target.bind fun node =>
        -- the list scrolls while there is an entry to come
        if (listNext targets node).isSome then
          m.start.map fun first => { m with start := listNext targets first }
        else some { m with row := m.row + 1 }
    else some { m with row := m.row + 1 }

def menuUp (m : Menu) : Menu :=
  let m := { m with target := listPrev targets m.target }
  let tptr := listPrev targets m.start
  -- the row below the top one scrolls while there is an entry above
  if m.row = 7 ∧ tptr.isSome then { m with start := tptr } else { m with row := m.row - 1 }

/-- `while(target != tptr)` with at most `fuel` rounds. -/
def menuSeek (tptr : Nat) : Nat → Menu → Option Menu
  | 0, m => if m.target = some tptr then some m else none
  | fuel + 1, m =>
    if m.target = some tptr then some m else (menuDown rows targets m).bind (menuSeek tptr fuel)

def isDefault (t : KlTarget) : Bool := t.flags &&& TARGET_DEFAULT != 0

/-- `menu_main` up to the first `draw_menu`. -/
def menuInit (timeout : Int) : Option Menu :=
  let first := if targets = [] then none else some 0
  let m : Menu := ⟨first, first, 6, timeout, []⟩
  match targets.findIdx? isDefault with
  | none => some (m.draw rows targets)
  | some tptr => (menuSeek rows targets tptr targets.length m).map (Menu.draw rows targets)

/-- The countdown: a key stops it, a second without one shortens it. -/
def menuPoll (pressed : Bool) (m : Menu) : Menu :=
  if pressed then { m with timeout := -1 } else { m with timeout := m.timeout - 1 }

/-- `boot_target(target)`. When it comes back the menu is drawn again. -/
def menuBoot (m : Menu) : Option (Menu × Option MenuAction) :=
  m.target.map fun node => (m.draw rows targets, some (.boot node))

/-- The two branches for the cursor keys. -/
def menuMove (c : Int) (m : Menu) : Option Menu :=
  let m := if c = KEY_UP ∧ 6 < m.row then (menuUp targets m).draw rows targets else m
  if c = KEY_DOWN then
    m.target.bind fun node =>
      if (listNext targets node).isSome then
        (menuDown rows targets m).map (Menu.draw rows targets)
      else some m
  else some m

/-- `toupper(c)` of a `char`. -/
def toupperInt (c : Int) : Int := if 97 ≤ c ∧ c ≤ 122 then c - 32 else c

def menuKey (c : Int) (m : Menu) : Option (Menu × Option MenuAction) :=
  (menuMove rows targets c m).bind fun m =>
    if c = 10 then menuBoot rows targets m
    -- a special key is no character
    else if c < -127 ∨ 127 < c then some (m, none)
    else if toupperInt c = 68 then some (m.draw rows targets, some .listDisks)
    else if toupperInt c = 67 then some (m.draw rows targets, some .shell)
    else some (m, none)

def menuStep (m : Menu) : MenuInput → Option (Menu × Option MenuAction)
  | .poll pressed => some (menuPoll pressed m, none)
  | .expired => (menuBoot rows targets m).map fun (m, action) => ({ m with timeout := -1 }, action)
  | .key c => menuKey rows targets c m

end

/-- Keys are read once there is no countdown, or no longer one. -/
def MenuInput.Enabled (m : Menu) : MenuInput → Prop
  | .poll _ => 0 < m.timeout
  | .expired => m.timeout = 0
  | .key _ => m.timeout < 0

/-- The menu as a transition system. -/
def MenuStep (rows : Nat) (targets : List KlTarget) (m : Menu)
    (e : MenuInput × Option MenuAction) (m' : Menu) : Prop :=
  e.1.Enabled m ∧ menuStep rows targets m e.1 = some (m', e.2)

end KexecLoader
