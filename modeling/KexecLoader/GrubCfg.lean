import KexecLoader.Grub

/-!
# Reading grub.cfg
-/
namespace KexecLoader

/-- The separators of `grub2_val`, `"\t ="`. -/
def grub2Seps : Str := blanks ++ [61]

/-- `grub2_val`: the value, without its quotes, and what follows it; none where the
closing quote is missing. -/
def grub2Val (cur : Str) : Option (Str × Str) :=
  let skip (next : Str) := (next.drop 1).drop (strspn (next.drop 1) grub2Seps)
  if cur.head? = some 39 ∨ cur.head? = some 34 then
    let quote := cur.head?.getD 0
    (strchr (cur.drop 1) quote).map fun next => ((cur.drop 1).takeWhile (· ≠ quote), skip next)
  else some (cur.take (strcspn cur grub2Seps), skip (cur.drop (strcspn cur grub2Seps)))

/-- The global settings and the local variables of `load_grub2_cfg`. -/
structure GrubCfgState where
  settings : Settings
  lnum : Nat
  entryStart : Nat
  skipEntry : Bool
  defaultTitle : Option (Buf 256)
  defaultIndex : Int
  curIndex : Nat
  target : KlTarget

def GrubCfgState.printD (st : GrubCfgState) (lnum : Nat) (text : Str) : GrubCfgState :=
  { st with settings := st.settings.printD (bytes "grub.cfg:" ++ decimal lnum ++ text) }

/-- How a round of the loop ends: with the next state, or at the label `END`. -/
abbrev GrubCfgEnd := Except Settings GrubCfgState

/-- `if(!grub2_val(...)) goto END`, and else the rest of the body. -/
def grub2Arg (st : GrubCfgState) (cur : Str) (body : Str → Str → GrubCfgEnd) : GrubCfgEnd :=
  match grub2Val cur with
  | none =>
    .error (st.printD st.lnum
      (bytes " missing terminating '" ++ cur.take 1 ++ bytes "'")).settings
  | some (val, next) => body val next

def grubCfgMenuentry (st : GrubCfgState) (args : Str) : GrubCfgEnd :=
  grub2Arg st args fun title _ =>
    -- the stored title of the default was cut, this one is not
    let chosen := (st.curIndex : Int) = st.defaultIndex ∨
      st.defaultTitle.any (klStreq ·.str title) = true
    let flags := if chosen then TARGET_DEFAULT else st.target.flags
    .ok { st with
      target := { st.target with title := strlcpy title, flags := flags }
      curIndex := st.curIndex + 1
      entryStart := st.lnum
      skipEntry := false }

/-- The bracket that closes an entry. -/
def grubCfgClose (st : GrubCfgState) : GrubCfgState :=
  let added :=
    if st.skipEntry then st
    else
      let st' := if st.target.root.str = [] then
        st.printD st.entryStart (bytes ": No root device specified") else st
      let st' := if st.target.kernel.str = [] then
        st'.printD st.entryStart (bytes ": No kernel specified") else st'
      if st.target.root.str = [] ∨ st.target.kernel.str = [] then st'
      else
        { st' with settings := { st'.settings with targets := st'.settings.targets ++ [st.target] } }
  { added with target := initTarget, entryStart := 0 }

def grubCfgDefault (st : GrubCfgState) (envVal : Str) : GrubCfgState :=
  if envVal.all isdigit then { st with defaultIndex := atoi envVal, defaultTitle := none }
  else if (strchr envVal 62).isSome then
    ({ st with defaultIndex := -1, defaultTitle := none } : GrubCfgState).printD st.lnum
      (bytes " 'default' using title of submenu item not supported")
  else { st with defaultIndex := -1, defaultTitle := some (strlcpy envVal) }

def grubCfgSet (st : GrubCfgState) (args : Str) : GrubCfgEnd :=
  grub2Arg st args fun envName rest =>
    grub2Arg st rest fun envVal _ =>
      .ok (if klStreq envName (bytes "root") then
          { st with target := { st.target with root := strlcpy envVal } }
        else if klStreq envName (bytes "default") then grubCfgDefault st envVal
        else if klStreq envName (bytes "timeout") && st.settings.timeout == -1 then
          { st with settings := { st.settings with timeout := atoi envVal } }
        else st)

def grubCfgLinux (st : GrubCfgState) (args : Str) : GrubCfgEnd :=
  grub2Arg st args fun kernel kArgs =>
    .ok { st with target := { st.target with kernel := strlcpy kernel, append := strlcpy kArgs } }

def grubCfgInitrd (st : GrubCfgState) (args : Str) : GrubCfgEnd :=
  grub2Arg st args fun initrd _ =>
    .ok { st with target := { st.target with initrd := strlcpy initrd } }

inductive SearchBy where
  | unknown
  | file
  | fsLabel
  | fsUuid
deriving DecidableEq

/-- The variables of a `search` command. -/
structure SearchState where
  searchBy : SearchBy
  setRoot : Bool
  lSet : Bool

/-- What one argument does; its first `len` bytes are compared. -/
def searchArg (st : SearchState) (args : Str) (len : Nat) (isLast : Bool) : SearchState :=
  if klStrneq args (bytes "-f") len || klStrneq args (bytes "--file") len then
    { st with searchBy := .file }
  else if klStrneq args (bytes "-l") len || klStrneq args (bytes "--label") len then
    { st with searchBy := .fsLabel }
  else if klStrneq args (bytes "-u") len || klStrneq args (bytes "--fs-uuid") len then
    { st with searchBy := .fsUuid }
  else if klStrneq args (bytes "--set") len then { st with lSet := true }
  else if st.lSet && (isLast || klStrneq args (bytes "root") len) then
    { st with setRoot := true, lSet := false }
  else st

/-- The loop over the arguments, which ends at the last one. A round takes at least
one byte. -/
def searchArgs : Nat → SearchState → Str → SearchState × Str
  | 0, st, args => (st, args)
  | fuel + 1, st, args =>
    if args = [] then (st, args)
    else
      let assigned := klStrneq args (bytes "--set=") 6
      let len := if assigned then 5 else strcspn args blanks
      let next := if assigned then args.drop 6
        else (args.drop len).drop (strspn (args.drop len) blanks)
      let st := searchArg st args len next.isEmpty
      if next = [] then (st, args) else searchArgs fuel st next

/-- What the name of the command says about the search. -/
def searchCommand (cmd : Str) : SearchBy :=
  if klStreq cmd (bytes "search.file") then .file
  else if klStreq cmd (bytes "search.fs_label") then .fsLabel
  else if klStreq cmd (bytes "search.fs_uuid") then .fsUuid
  else .unknown

/-- The `switch` behind the loop; `args` is the last argument. -/
def grubCfgSearchRoot (st : GrubCfgState) (search : SearchState) (args : Str) : GrubCfgState :=
  if search.setRoot then
    match search.searchBy with
    | .unknown => st.printD st.lnum (bytes ": Unknown search type")
    | .file => st.printD st.lnum (bytes ": search with --file unsupported")
    | .fsLabel => { st with target := { st.target with root := strlcpy (bytes "LABEL=" ++ args) } }
    | .fsUuid => { st with target := { st.target with root := strlcpy (bytes "UUID=" ++ args) } }
  else st

def grubCfgSearch (st : GrubCfgState) (cmd args : Str) : GrubCfgState :=
  let (search, args) := searchArgs args.length ⟨searchCommand cmd, false, false⟩ args
  grubCfgSearchRoot st search args

/-- The chain of comparisons with the names of the commands. -/
def grubCfgCommand (st : GrubCfgState) (cmd args : Str) : GrubCfgEnd :=
  if klStreq cmd (bytes "menuentry") then grubCfgMenuentry st args
  else if klStreq cmd (bytes "\x7d") && st.entryStart != 0 then .ok (grubCfgClose st)
  else if klStreq cmd (bytes "chainloader") then .ok { st with skipEntry := true }
  else if klStreq cmd (bytes "set") then grubCfgSet st args
  else if klStreq cmd (bytes "linux") || klStreq cmd (bytes "linux16") then grubCfgLinux st args
  else if klStreq cmd (bytes "initrd") || klStreq cmd (bytes "initrd16") then grubCfgInitrd st args
  else if klStreq cmd (bytes "search") || klStreq cmd (bytes "search.file") ||
      klStreq cmd (bytes "search.fs_label") || klStreq cmd (bytes "search.fs_uuid") then
    .ok (grubCfgSearch st cmd args)
  else .ok st

/-- One round of the loop of `load_grub2_cfg`. -/
def grubCfgLine (st : GrubCfgState) (piece : Str) : GrubCfgEnd :=
  let st := { st with lnum := st.lnum + 1 }
  let lStart := piece.drop (strspn piece (newlines ++ blanks))
  let lStart := lStart.take (strcspn lStart newlines)
  if lStart.head? == some 35 || lStart.isEmpty then .ok st
  else grubCfgCommand st (nextValue lStart).1 (nextValue lStart).2

def grubCfgLoop (st : GrubCfgState) : List Str → Settings
  | [] => st.settings
  | piece :: rest =>
    match grubCfgLine st piece with
    | .error settings => settings
    | .ok st => grubCfgLoop st rest

/-- `load_grub2_cfg`, given what opening the file yields: its content, or the text
of the error. -/
def loadGrub2Cfg (s : Settings) (file : Except Str Str) : Settings :=
  match file with
  | .error reason => s.printD (bytes "Error opening grub.cfg: " ++ reason)
  | .ok content =>
    grubCfgLoop ⟨s, 0, 0, false, none, -1, 0, initTarget⟩ ((pieces 1024 content).map cstr)

end KexecLoader
