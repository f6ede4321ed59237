import KexecLoader.Library.Numeral
import KexecLoader.Library.Stream

/-!
# Symbols of a stack trace

`lookup_sym` leaves the name it has found in a static buffer, which starts with three
question marks, and returns the buffer.
-/
namespace KexecLoader

def isxdigit (c : UInt8) : Bool := isdigit c || (65 ≤ c && c ≤ 70) || (97 ≤ c && c ≤ 102)

def hexValue (c : UInt8) : Nat :=
  if isdigit c then c.toNat - 48
  else if c ≤ 70 then c.toNat - 55
  else c.toNat - 87

def hexNumeral (digits : Str) : Nat := digits.foldl (fun n c => 16 * n + hexValue c) 0

/-- `0x` in front of a hexadecimal digit. -/
def skipHexMark : Str → Str
  | 48 :: x :: d :: rest => if (x = 120 ∨ x = 88) ∧ isxdigit d then d :: rest else 48 :: x :: d :: rest
  | s => s

/-- `strtoul(s, NULL, 16)`. -/
def strtoulHex (s : Str) : Nat :=
  let magnitude := hexNumeral ((skipHexMark (readSign s).2).takeWhile isxdigit)
  if 2 ^ 32 ≤ magnitude then 2 ^ 32 - 1
  else if (readSign s).1 then (2 ^ 32 - magnitude) % 2 ^ 32
  else magnitude

def unknownSym : Str := bytes "???"

def symbolDigits : Str := bytes "1234567890ABCDEFabcdef"

/-- One round of `lookup_sym`: `cptr`, which is 0 at first, and `ret_sym`. -/
def lookupLine (addr : Nat) (s : Nat × Str) (buf : Str) : Nat × Str :=
  let ptr := strtoulHex buf
  if ptr ≤ addr ∧ s.1 < ptr then
    let name := buf.drop (strspn buf symbolDigits)
    let name := name.drop (strspn name [tab])
    (ptr, name.take (strcspn name [lf]))
  else s

/-- `lookup_sym`: what it returns, and what it leaves in `ret_sym`. Without the table the
message for the error is returned. -/
def lookupSym (table : Option Str) (error : Str) (addr : Nat) (retSym : Str) : Str × Str :=
  match table with
  | none => (error, retSym)
  | some content =>
    let found := ((pieces 256 content).map cstr).foldl (lookupLine addr) (0, retSym)
    (found.2, found.2)

/-- One lookup of a trace: the address, what was in `ret_sym`, and what was returned. -/
structure Lookup where
  addr : Nat
  retSym : Str
  result : Str
deriving DecidableEq

/-- The lookups of `stacktrace`, one frame after another. -/
def traceLookups (table : Option Str) (error : Str) : List Nat → Str → List Lookup
  | [], _ => []
  | addr :: addrs, retSym =>
    ⟨addr, retSym, (lookupSym table error addr retSym).1⟩ ::
      traceLookups table error addrs (lookupSym table error addr retSym).2

end KexecLoader
