import KexecLoader.Grub

/-!
# Reading kexec-loader.conf

Every line is one directive. The target under construction is a local record of
`load_conf` that is reused for every block; `topen` is the line of its title, or
zero before the first title.
-/
namespace KexecLoader

/-- The global settings and the local variables of `load_conf`. -/
structure ConfState where
  settings : Settings
  lnum : Nat
  topen : Nat
  target : KlTarget

section
variable (fname : Str)

/-- `"%s:%d: "`. -/
def linePrefix (lnum : Nat) : Str := fname ++ bytes ":" ++ decimal lnum ++ bytes ": "

def quoted (name : Str) : Str := bytes "'" ++ name ++ bytes "'"

def ConfState.printD (st : ConfState) (lnum : Nat) (text : Str) : ConfState :=
  { st with settings := st.settings.printD (linePrefix fname lnum ++ text) }

/-- The arguments `CFG_CHECK_ARGS` counts, at most `n`. -/
def countArgs : Nat → Str → Nat
  | 0, _ => 0
  | n + 1, s =>
    if s = [] then 0
    else
      let rest := s.drop (strcspn s blanks)
      countArgs n (rest.drop (strspn rest blanks)) + 1

/-- `CFG_CHECK_ARGS(n)` before the rest of a directive's body. -/
def cfgCheckArgs (n : Nat) (st : ConfState) (name val : Str) (body : ConfState) : ConfState :=
  if countArgs n val < n then
    st.printD fname st.lnum (quoted name ++
      if n = 1 then bytes " requires an argument"
      else bytes " requires " ++ decimal n ++ bytes " arguments")
  else body

/-- `CFG_CHECK_TOPEN()` before the rest of a directive's body. -/
def cfgCheckTopen (st : ConfState) (name : Str) (body : ConfState) : ConfState :=
  if st.topen = 0 then
    st.printD fname st.lnum (quoted name ++ bytes " must be within a target block")
  else body

/-- `CFG_ADD_TARGET()`: a target without root or kernel is dropped. -/
def cfgAddTarget (st : ConfState) : ConfState :=
  let st' := if st.target.root.str = [] then
    st.printD fname st.topen (bytes "No root device specified") else st
  let st' := if st.target.kernel.str = [] then
    st'.printD fname st.topen (bytes "No kernel specified") else st'
  if st.target.root.str = [] ∨ st.target.kernel.str = [] then st'
  else { st' with settings := { st'.settings with targets := st'.settings.targets ++ [st.target] } }

def confTimeout (st : ConfState) (name val : Str) : ConfState :=
  cfgCheckArgs fname 1 st name val
    { st with settings := { st.settings with
        timeout := if klStreq val (bytes "off") then -2 else atoi val } }

def confGrubPath (st : ConfState) (name val : Str) : ConfState :=
  cfgCheckArgs fname 1 st name val
    (if val.head? != some 40 then st.printD fname st.lnum (bytes "No device specified")
    else { st with settings := { st.settings with grubPath := some val } })

/-- `next_value` has already cut `val` at its first blank when the arguments in
it are counted. -/
def confGrubMap (st : ConfState) (name val : Str) : ConfState :=
  let (val, val2) := nextValue val
  cfgCheckArgs fname 2 st name val
    (match parseGdev val with
    | none => st.printD fname st.lnum (bytes "Invalid GRUB device " ++ quoted val)
    | some gdev => { st with settings := { st.settings with
        grubDevmap := st.settings.grubDevmap ++ [{ gdev with device := strlcpy val2 }] } })

def confGrubAutodetect (st : ConfState) (name val : Str) : ConfState :=
  cfgCheckArgs fname 1 st name val
    (if klStrceq val (bytes "on") then
      { st with settings := { st.settings with grubAutodetect := 2 } }
    else if klStrceq val (bytes "off") then
      { st with settings := { st.settings with grubAutodetect := 0 } }
    else st.printD fname st.lnum (bytes "Expected 'on' or 'off' after grub-autodetect"))

def confTitle (st : ConfState) (name val : Str) : ConfState :=
  cfgCheckArgs fname 1 st name val
    (let st := if st.topen ≠ 0 then cfgAddTarget fname st else st
    { st with target := { initTarget with title := strlcpy val }, topen := st.lnum })

/-- The directives that copy their value into a field of the target. -/
def confField (set : KlTarget → Str → KlTarget) (st : ConfState) (name val : Str) : ConfState :=
  cfgCheckTopen fname st name
    (cfgCheckArgs fname 1 st name val { st with target := set st.target val })

/-- The directives that set a flag of the target; what follows them is ignored. -/
def confFlag (flag : Nat) (st : ConfState) (name _val : Str) : ConfState :=
  cfgCheckTopen fname st name
    { st with target := { st.target with flags := st.target.flags ||| flag } }

def confRoot := confField fname fun t v => { t with root := strlcpy v }

def confKernel := confField fname fun t v => { t with kernel := strlcpy v }

def confInitrd := confField fname fun t v => { t with initrd := strlcpy v }

def confCmdline := confField fname fun t v => { t with cmdline := strlcpy v }

def confAppend := confField fname fun t v => { t with append := strlcpy v }

def confDefault := confFlag fname TARGET_DEFAULT

def confResetVga := confFlag fname TARGET_RESET

/-- Name and arguments of a `module` or `kmod` line. -/
def readModule (val : Str) : KlModule :=
  let (name, args) := nextValue val
  ⟨strlcpy name, strlcpy args⟩

def confModule := confField fname fun t v => { t with modules := t.modules ++ [readModule v] }

def confKmod (st : ConfState) (name val : Str) : ConfState :=
  cfgCheckTopen fname st name
    (cfgCheckArgs fname 1 st name val
      { st with settings := { st.settings with kmods := st.settings.kmods ++ [readModule val] } })

/-- The chain of comparisons with the directive names. -/
def confDirective (st : ConfState) (name val : Str) : ConfState :=
  if klStreq name (bytes "timeout") then confTimeout fname st name val
  else if klStreq name (bytes "grub-path") then confGrubPath fname st name val
  else if klStreq name (bytes "grub-map") then confGrubMap fname st name val
  else if klStreq name (bytes "grub-autodetect") then confGrubAutodetect fname st name val
  else if klStreq name (bytes "title") then confTitle fname st name val
  else if klStreq name (bytes "root") then confRoot fname st name val
  else if klStreq name (bytes "kernel") then confKernel fname st name val
  else if klStreq name (bytes "initrd") then confInitrd fname st name val
  else if klStreq name (bytes "cmdline") then confCmdline fname st name val
  else if klStreq name (bytes "append") then confAppend fname st name val
  else if klStreq name (bytes "default") then confDefault fname st name val
  else if klStreq name (bytes "reset-vga") then confResetVga fname st name val
  else if klStreq name (bytes "module") then confModule fname st name val
  else if klStreq name (bytes "kmod") then confKmod fname st name val
  else st.printD fname st.lnum (bytes "Unknown directive " ++ quoted name)

/-- One round of the loop of `load_conf`. -/
def confLine (st : ConfState) (piece : Str) : ConfState :=
  let line := piece.take (strcspn piece newlines)
  let st := { st with lnum := st.lnum + 1 }
  let (name, val) := nextValue (line.drop (strspn line (newlines ++ blanks)))
  -- comments and blank lines count, but say nothing
  if name.head? == some 35 || name.isEmpty then st else confDirective fname st name val

/-- `load_conf`, given what opening the file yields: its content, or the text of
the error. -/
def loadConf (s : Settings) (file : Except Str Str) : Settings :=
  match file with
  | .error reason =>
    s.printD (bytes "Error opening " ++ fname ++ bytes ": " ++ reason)
  | .ok content =>
    let st := ((pieces 1024 content).map cstr).foldl (confLine fname) ⟨s, 0, 0, initTarget⟩
    -- the last target ends with the file
    (if st.topen ≠ 0 then cfgAddTarget fname st else st).settings

end

end KexecLoader
