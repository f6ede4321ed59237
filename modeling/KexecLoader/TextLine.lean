import KexecLoader.LineEditor

/-!
# The plain model of a line editor

A text with a cursor, and how many lines back in the history it is. `fit` is what
is kept of a text that does not fit: everything in the plain model, and the first
1023 bytes in the buffer of `read_cmd`.
-/
namespace KexecLoader

structure TextLine where
  text : Str
  cursor : Nat
  recalled : Nat
deriving DecidableEq

inductive EditKey where
  | insert (c : UInt8)
  | backspace
  | delete
  | left
  | right
  | home
  | stop
  | older
  | newer
  | complete (text : Str)
  | ignored
deriving DecidableEq

/-- What a key asks for. -/
def KeyPress.edit (key : KeyPress) : EditKey :=
  if key.c = KEY_BACKSPACE then .backspace
  else if key.c = KEY_LEFT then .left
  else if key.c = KEY_RIGHT then .right
  else if key.c = KEY_HOME then .home
  else if key.c = KEY_END then .stop
  else if key.c = KEY_DEL then .delete
  else if key.c = KEY_UP then .older
  else if key.c = KEY_DOWN then .newer
  else if key.c = 9 then .complete (completionText key.completions)
  else if key.c < -127 then .ignored
  else .insert (charOf key.c)

namespace TextLine

def init : TextLine := ⟨[], 0, 0⟩

variable (fit : Str → Str) (history : List Str)

def put (l : TextLine) (text : Str) : TextLine := { l with text := text, cursor := text.length }

/-- One key; `history` has the newest line first. -/
def step (l : TextLine) : EditKey → TextLine
  | .insert c =>
    if l.text.length < 1022 then
      { l with
        text := l.text.take l.cursor ++ c :: l.text.drop l.cursor
        cursor := l.cursor + 1 }
    else l
  | .backspace =>
    if 0 < l.cursor then
      { l with text := l.text.eraseIdx (l.cursor - 1), cursor := l.cursor - 1 }
    else l
  | .delete => { l with text := l.text.eraseIdx l.cursor }
  | .left => { l with cursor := l.cursor - 1 }
  | .right => { l with cursor := min (l.cursor + 1) l.text.length }
  | .home => { l with cursor := 0 }
  | .stop => { l with cursor := l.text.length }
  | .older =>
    match history[l.recalled]? with
    | some line => put { l with recalled := l.recalled + 1 } (fit line)
    | none => l
  | .newer =>
    if l.recalled = 0 then l
    else
      put { l with recalled := l.recalled - 1 }
        (if l.recalled = 1 then [] else fit ((history[l.recalled - 2]?).getD []))
  | .complete text =>
    let before := fit (l.text.take l.cursor ++ text)
    { l with text := fit (l.text.take l.cursor ++ text ++ l.text.drop l.cursor), cursor := before.length }
  | .ignored => l

def run (keys : List KeyPress) : TextLine :=
  keys.foldl (fun l key => step fit history l key.edit) init

end TextLine

/-- The history after a line was entered: only a line with more than spaces in it
counts, and the oldest beyond 32 is dropped. -/
def enterLine (history : List Str) (text : Str) : List Str :=
  if text.any (· != space) then (text :: history).take HISTORY_SIZE else history

/-- The array that holds a history. -/
def historySlots (history : List Str) : List (Option Str) :=
  history.map some ++ List.replicate (HISTORY_SIZE - history.length) none

end KexecLoader
