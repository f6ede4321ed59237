import KexecLoader.Grub

/-!
# Reading menu.lst
-/
namespace KexecLoader

/-- The global settings and the local variables of `load_menu`. -/
structure MenuState where
  settings : Settings
  lnum : Nat
  topen : Nat
  defnum : Int
  tnum : Nat
  tskip : Bool
  target : KlTarget

def MenuState.printD (st : MenuState) (lnum : Nat) (text : Str) : MenuState :=
  { st with settings := st.settings.printD (bytes "menu.lst:" ++ decimal lnum ++ bytes ": " ++ text) }

/-- `GRUB_CONV_PATH`. A device that was found ends with the bracket `strchr` looks
for. -/
def grubConvPath (devmap : List KlGdev) (src : Str) : Option (Buf 1024) :=
  if src.head? = some 40 then
    (lookupGdev devmap src).map fun dev =>
      strlcpy (bytes "(" ++ dev ++ bytes ")" ++ ((strchr src 41).getD []).drop 1)
  else some (strlcpy src)

/-- `GRUB_CHECK_TOPEN()` before the rest of a directive's body. -/
def grubCheckTopen (st : MenuState) (name : Str) (body : MenuState) : MenuState :=
  if st.topen = 0 then st.printD st.lnum (name ++ bytes " must come after a title directive")
  else body

/-- `GRUB_CHECK_ARG()` before the rest of a directive's body. -/
def grubCheckArg (st : MenuState) (name val : Str) (body : MenuState) : MenuState :=
  if val = [] then st.printD st.lnum (name ++ bytes " requires an argument") else body

/-- `GRUB_ADD_TARGET()`. -/
def grubAddTarget (st : MenuState) : MenuState :=
  if st.topen = 0 ∨ st.tskip = true then st
  else
    -- both messages are printed if both are missing
    let st' := if st.target.root.str = [] then
      st.printD st.topen (bytes "No root device specified") else st
    let st' := if st.target.kernel.str = [] then
      st'.printD st.topen (bytes "No kernel specified") else st'
    if st.target.root.str = [] ∨ st.target.kernel.str = [] then st'
    else
      { st' with settings := { st'.settings with targets := st'.settings.targets ++ [st.target] } }

def menuTimeout (st : MenuState) (name val : Str) : MenuState :=
  if st.settings.timeout = -1 then
    grubCheckArg st name val { st with settings := { st.settings with timeout := atoi val } }
  else st

def menuDefault (st : MenuState) (name val : Str) : MenuState :=
  grubCheckArg st name val { st with defnum := atoi val }

def menuTitle (st : MenuState) (name val : Str) : MenuState :=
  grubCheckArg st name val
    (let st := grubAddTarget st
    -- entries count from 0, and the `default` line has to come before
    let flags := TARGET_RESET ||| if (st.tnum : Int) = st.defnum then TARGET_DEFAULT else 0
    { st with
      target := { initTarget with title := strlcpy val, flags := flags }
      topen := st.lnum
      tskip := false
      tnum := st.tnum + 1 })

def menuRoot (st : MenuState) (name val : Str) : MenuState :=
  grubCheckTopen st name
    (if val = [] then { st with tskip := true }
    else
      match lookupGdev st.settings.grubDevmap val with
      | none => st.printD st.lnum (bytes "Invalid GRUB device")
      | some dev => { st with target := { st.target with root := strlcpy dev } })

/-- What a directive with a path does after its checks: `set` gets the path if its
device is found. -/
def menuPath (st : MenuState) (src : Str) (set : KlTarget → Buf 1024 → KlTarget) : MenuState :=
  match grubConvPath st.settings.grubDevmap src with
  | none => st.printD st.lnum (bytes "Invalid GRUB device")
  | some path => { st with target := set st.target path }

/-- The arguments behind the path are the command line, also if the path fails. -/
def menuKernel (st : MenuState) (name val : Str) : MenuState :=
  grubCheckTopen st name (grubCheckArg st name val
    (let (path, cmdline) := nextValue val
    menuPath { st with target := { st.target with cmdline := strlcpy cmdline } } path
      fun t p => { t with kernel := p }))

def menuInitrd (st : MenuState) (name val : Str) : MenuState :=
  grubCheckTopen st name (grubCheckArg st name val
    (menuPath st val fun t p => { t with initrd := p }))

def menuModule (st : MenuState) (name val : Str) : MenuState :=
  grubCheckTopen st name (grubCheckArg st name val
    (let (path, args) := nextValue val
    menuPath st path fun t p => { t with modules := t.modules ++ [⟨p, strlcpy args⟩] }))

/-- The comparisons with the directive names, of which one holds at most. -/
def menuDirective (st : MenuState) (name val : Str) : MenuState :=
  if klStreq name (bytes "timeout") then menuTimeout st name val
  else if klStreq name (bytes "default") then menuDefault st name val
  else if klStreq name (bytes "title") then menuTitle st name val
  else if klStreq name (bytes "root") then menuRoot st name val
  else if klStreq name (bytes "kernel") then menuKernel st name val
  else if klStreq name (bytes "initrd") then menuInitrd st name val
  else if klStreq name (bytes "module") then menuModule st name val
  else if klStreq name (bytes "chainloader") then { st with tskip := true }
  else st

/-- One round of the loop of `load_menu`. -/
def menuLine (st : MenuState) (piece : Str) : MenuState :=
  let buf := piece.take (strcspn piece newlines)
  let st := { st with lnum := st.lnum + 1 }
  let (name, val) := nextValue (buf.drop (strspn buf (newlines ++ blanks)))
  if name.isEmpty || name.head? == some 35 then st else menuDirective st name val

/-- `load_menu`, given what opening the file yields: its content, or the text of
the error. Until the first title `tskip` is whatever the stack held. -/
def loadMenu (tskip : Bool) (s : Settings) (file : Except Str Str) : Settings :=
  match file with
  | .error reason => s.printD (bytes "Error opening menu.lst: " ++ reason)
  | .ok content =>
    (grubAddTarget (((pieces 1024 content).map cstr).foldl menuLine
      ⟨s, 0, 0, -1, 0, tskip, initTarget⟩)).settings

end KexecLoader
