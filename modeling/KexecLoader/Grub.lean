import KexecLoader.Library.Stream
import KexecLoader.Settings

/-!
# GRUB device names and the device map
-/
namespace KexecLoader

/-- How `PARSE_TOKEN` goes on after a token: `return 1`, or the next token. -/
inductive TokenEnd where
  | done
  | more (src : Str)

/-- The token itself: one letter unless it is the first, or digits with an
optional `msdos` before them; a field keeps the first 15. -/
def tokenText (first : Bool) (src : Str) : Option (Buf 16 × Str) :=
  let numbered := bytes "msdos" <+: src ∧ (src.drop 5).head?.any isdigit = true
  if !first && src.head?.any islower then some (strlcpy (src.take 1), src.drop 1)
  else if src.head?.any isdigit ∨ numbered then
    let src := if src.head?.any isdigit then src else src.drop 5
    some (strlcpy (src.takeWhile isdigit), src.dropWhile isdigit)
  else none

/-- `PARSE_TOKEN`: none is `return 0`. -/
def parseToken (brackets first : Bool) (src : Str) : Option (Buf 16 × TokenEnd) :=
  match tokenText first src with
  | none => none
  | some (token, src) =>
    if (!brackets && src.isEmpty) || (brackets && src.head? == some 41) then some (token, .done)
    else if src.head? == some 44 then some (token, .more (src.drop 1))
    else none

/-- `parse_gdev` after the bracket and the type. -/
def parseParts (brackets : Bool) (dest : KlGdev) (src : Str) : Option KlGdev :=
  match parseToken brackets true src with
  | none => none
  | some (p1, .done) => some { dest with p1 := p1 }
  | some (p1, .more src) =>
    match parseToken brackets false src with
    | none => none
    | some (p2, .done) => some { dest with p1 := p1, p2 := p2 }
    | some (p2, .more src) =>
      match parseToken brackets false src with
      | some (p3, .done) => some { dest with p1 := p1, p2 := p2, p3 := p3 }
      | _ => none

def parseGdev (src : Str) : Option KlGdev :=
  let brackets := src.head? == some 40
  let src := if brackets then src.drop 1 else src
  if bytes "fd" <+: src ∨ bytes "hd" <+: src then
    parseParts brackets { initGdev with type := strlcpy (src.take 2) } (src.drop 2)
  else none

/-- The comparison of the first search of `lookup_gdev`: parts the request does
not have are not compared. -/
def absoluteMatch (gdev entry : KlGdev) : Bool :=
  klStreq gdev.type.str entry.type.str && klStreq gdev.p1.str entry.p1.str &&
    (gdev.p2.str.isEmpty || klStreq gdev.p2.str entry.p2.str) &&
    (gdev.p3.str.isEmpty || klStreq gdev.p3.str entry.p3.str)

/-- The comparison of the second search: an entry for the whole disk. -/
def wholeDiskMatch (gdev entry : KlGdev) : Bool :=
  entry.p2.str.isEmpty && klStreq gdev.type.str entry.type.str &&
    klStreq gdev.p1.str entry.p1.str

def isDigitHead (s : Str) : Bool := s.head?.any isdigit

/-- `%d` of an `int`. -/
def decimalInt (n : Int) : Str :=
  if n < 0 then 45 :: decimal n.natAbs else decimal n.natAbs

/-- `atoi(gdev.p2)+1` in an `int`. -/
def nextInt (n : Int) : Int := if n = 2 ^ 31 - 1 then -2 ^ 31 else n + 1

/-- The last resort: whole floppies have a name of their own. -/
def lookupFloppy (gdev : KlGdev) : Option Str :=
  if klStreq gdev.type.str (bytes "fd") && isDigitHead gdev.p1.str && gdev.p2.str.isEmpty then
    some (bytes "fd" ++ decimalInt (atoi gdev.p1.str))
  else none

def lookupParsed (devmap : List KlGdev) (gdev : KlGdev) : Option Str :=
  match devmap.find? (absoluteMatch gdev) with
  | some entry => some entry.device.str
  | none =>
    -- only a numbered partition can be derived from an entry for its disk
    if !isDigitHead gdev.p2.str || !gdev.p3.str.isEmpty then lookupFloppy gdev
    else
      match devmap.find? (wholeDiskMatch gdev) with
      | some entry => some (entry.device.str ++ decimalInt (nextInt (atoi gdev.p2.str)))
      | none => lookupFloppy gdev

def lookupGdev (devmap : List KlGdev) (dev : Str) : Option Str :=
  (parseGdev dev).bind (lookupParsed devmap)

/-- One round of the loop of `load_devmap`; `line` counts the rounds. -/
def devmapLine (s : Settings) (line : Nat) (piece : Str) : Settings :=
  let buf := piece.take (strcspn piece newlines)
  let (name, val) := nextValue (buf.drop (strspn buf (newlines ++ blanks)))
  if name.isEmpty || name.head? == some 35 then s
  else if name.head? != some 40 || name.getLast? != some 41 || val.isEmpty then
    s.printD (bytes "Syntax error at device.map:" ++ decimal line)
  else
    match parseGdev (name.dropLast.drop 1) with
    | none => s.printD (bytes "Invalid GRUB device at device.map:" ++ decimal line)
    | some gdev => { s with grubDevmap := s.grubDevmap ++ [{ gdev with device := strlcpy val }] }

def devmapLoop (s : Settings) (line : Nat) : List Str → Settings
  | [] => s
  | piece :: rest => devmapLoop (devmapLine s (line + 1) piece) (line + 1) rest

/-- `load_devmap`, given what opening the file yields: its content, or the text
of the error. -/
def loadDevmap (s : Settings) (file : Except Str Str) : Settings :=
  match file with
  | .error reason => s.printD (bytes "Error opening device.map: " ++ reason)
  | .ok content => devmapLoop s 0 ((pieces 1024 content).map cstr)

end KexecLoader
