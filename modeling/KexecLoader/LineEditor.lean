import KexecLoader.Console
import KexecLoader.Library.Memory

/-!
# The line editor of the shell

`read_cmd` without what it draws. The completions that `ac_search` finds come with
the TAB that asks for them. `offset` never exceeds `cmdlen`, so that the lengths
the source computes are never negative.
-/
namespace KexecLoader

def CMDBUF_SIZE : Nat := 1024

def HISTORY_SIZE : Nat := 32

/-- The local variables of `read_cmd`. -/
structure Editor where
  cmdbuf : Memory
  cmdlen : Nat
  offset : Nat
  hnum : Int
deriving DecidableEq

/-- What `console_getchar` returns, and the `append` of each completion if it is a
TAB. -/
structure KeyPress where
  c : Int
  completions : List Str
deriving DecidableEq

/-- `(char)c`. -/
def charOf (c : Int) : UInt8 := UInt8.ofNat (c % 256).toNat

/-- The array is cleared, and behind it are the bytes of `stack`. -/
def editorInit (stack : Str) : Editor :=
  ⟨⟨List.replicate CMDBUF_SIZE 0 ++ stack, []⟩, 0, 0, -1⟩

/-- `kl_strins`; what it returns is not used here. -/
def klStrins (mem : Memory) (src : Str) (offset size : Nat) : Memory :=
  let size := size - offset
  let dlen := (mem.strFrom offset).length
  let slen := src.length
  if size < slen + 1 then mem.strlcpy offset src size
  -- the text behind the insertion is cut
  else if size < dlen + slen + 1 then
    ((mem.memmove (offset + slen) offset (size - slen - 1)).write offset src).write
      (offset + size - 1) [0]
  else
    ((mem.memmove (offset + slen) offset dlen).write offset src).write (offset + dlen + slen) [0]

def klStrMatchLen : Str → Str → Nat
  | a :: s1, b :: s2 => if a = b then klStrMatchLen s1 s2 + 1 else 0
  | _, _ => 0

/-- The loop over neighbouring completions. -/
def sharedLen : Nat → List Str → Nat
  | appChars, a :: b :: rest => sharedLen (min (klStrMatchLen a b) appChars) (b :: rest)
  | appChars, _ => appChars

def appChars : List Str → Nat
  | [] => 0
  | [a] => a.length
  | list => sharedLen (2 ^ 31 - 1) list

/-- The text a TAB inserts: the first completion, cut after `app_chars`. -/
def completionText (list : List Str) : Str := (list.head?.getD []).take (appChars list)

/-! ### The branches of the loop -/

def editBackspace (e : Editor) : Editor :=
  if 0 < e.offset then
    { e with
      cmdbuf := e.cmdbuf.memmove (e.offset - 1) e.offset (e.cmdlen - e.offset + 1)
      offset := e.offset - 1
      cmdlen := e.cmdlen - 1 }
  else e

/-- One byte more than there is behind the deleted one is moved. -/
def editDel (e : Editor) : Editor :=
  if e.offset < e.cmdlen then
    { e with
      cmdbuf := e.cmdbuf.memmove e.offset (e.offset + 1) (e.cmdlen - e.offset + 1)
      cmdlen := e.cmdlen - 1 }
  else e

/-- A line of the history replaces the text. -/
def editRecall (e : Editor) (line : Str) : Editor :=
  let cmdbuf := e.cmdbuf.strlcpy 0 line CMDBUF_SIZE
  let cmdlen := (cmdbuf.strFrom 0).length
  { e with cmdbuf := cmdbuf, cmdlen := cmdlen, offset := cmdlen }

/-- An entry of the array of lines. -/
def historyLine (history : List (Option Str)) (n : Int) : Option Str :=
  if n < 0 then none else (history[n.toNat]?).join

def editUp (history : List (Option Str)) (e : Editor) : Editor :=
  if e.hnum + 1 < HISTORY_SIZE then
    match historyLine history (e.hnum + 1) with
    | some line => editRecall { e with hnum := e.hnum + 1 } line
    | none => e
  else e

def editDown (history : List (Option Str)) (e : Editor) : Editor :=
  if 0 ≤ e.hnum then
    -- past the newest line the text is empty
    if e.hnum - 1 = -1 then
      { e with cmdbuf := e.cmdbuf.write 0 [0], cmdlen := 0, offset := 0, hnum := -1 }
    else editRecall { e with hnum := e.hnum - 1 } ((historyLine history (e.hnum - 1)).getD [])
  else e

def editTab (e : Editor) (completions : List Str) : Editor :=
  if appChars completions = 0 then e
  else
    let cmdbuf := klStrins e.cmdbuf (completionText completions) e.offset CMDBUF_SIZE
    let cmdlen := (cmdbuf.strFrom 0).length
    { e with
      cmdbuf := cmdbuf
      cmdlen := cmdlen
      offset := min (e.offset + appChars completions) cmdlen }

def editInsert (e : Editor) (c : UInt8) : Editor :=
  if e.cmdlen + 2 < CMDBUF_SIZE then
    let cmdbuf := e.cmdbuf.memmove (e.offset + 1) e.offset (e.cmdlen - e.offset)
    { e with
      cmdbuf := (cmdbuf.write e.offset [c]).write (e.cmdlen + 1) [0]
      cmdlen := e.cmdlen + 1
      offset := e.offset + 1 }
  else e

/-- One round of the loop for a key other than Enter. -/
def editKey (history : List (Option Str)) (e : Editor) (key : KeyPress) : Editor :=
  let c := key.c
  -- the branches follow one another in the source, without an `else` up to the TAB
  let e := if c = KEY_BACKSPACE then editBackspace e else e
  let e := if c = KEY_LEFT ∧ 0 < e.offset then { e with offset := e.offset - 1 } else e
  let e := if c = KEY_RIGHT ∧ e.offset < e.cmdlen then { e with offset := e.offset + 1 } else e
  let e := if c = KEY_HOME then { e with offset := 0 } else e
  let e := if c = KEY_END then { e with offset := e.cmdlen } else e
  let e := if c = KEY_DEL then editDel e else e
  let e := if c = KEY_UP then editUp history e else e
  let e := if c = KEY_DOWN then editDown history e else e
  if c = 9 then editTab e key.completions
  else if c < -127 then e
  else editInsert e (charOf c)

/-- The loop, up to the Enter that ends it. -/
def editLoop (history : List (Option Str)) : Editor → List KeyPress → Option Editor
  | _, [] => none
  | e, key :: keys => if key.c = 10 then some e else editLoop history (editKey history e key) keys

/-- The shift of the history. -/
def rotateHistory (history : List (Option Str)) (line : Str) : List (Option Str) :=
  some line :: history.take (HISTORY_SIZE - 1)

/-- `read_cmd`: the command and the history it leaves; none while no Enter has been
typed. -/
def readCmd (stack : Str) (history : List (Option Str)) (keys : List KeyPress) :
    Option (Str × List (Option Str)) :=
  (editLoop history (editorInit stack) keys).map fun e =>
    let cmd := e.cmdbuf.strFrom 0
    let cstart := cmd.drop (strspn cmd [space])
    (cstart, if cstart = [] then history else rotateHistory history cmd)

end KexecLoader
