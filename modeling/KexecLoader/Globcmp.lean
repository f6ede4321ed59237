import KexecLoader.Library.CString

/-!
# Comparing a string with a wildcard pattern

The pointers of `globcmp` are offsets. A read behind the terminator yields none, and
so does a loop that is not done after the rounds it was given.
-/
namespace KexecLoader

def GLOB_IGNCASE : Nat := 1

def GLOB_STAR : Nat := 2

def GLOB_SINGLE : Nat := 4

def GLOB_HASH : Nat := 8

def star : UInt8 := 42

def hasFlag (flags flag : Nat) : Bool := flags &&& flag != 0

/-- `s[i]`; the terminator is the last byte that may be read. -/
def charAt (s : Str) (i : Nat) : Option UInt8 := (s ++ [0])[i]?

/-- The string a pointer leads to. -/
def stringAt (s : Str) (i : Nat) : Option Str := if i ≤ s.length then some (s.drop i) else none

/-- `RCASE`. -/
def rcase (flags : Nat) (c : UInt8) : UInt8 := if hasFlag flags GLOB_IGNCASE then tolower c else c

section
variable (flags : Nat) (str expr : Str)

/-- `mycmp` of `len` characters at the offsets. -/
def mycmp : Nat → Nat → Nat → Option Bool
  | _, _, 0 => some true
  | i, j, len + 1 => do
    let s ← charAt str i
    let e ← charAt expr j
    if rcase flags s = rcase flags e then
      -- both strings end here
      if s = 0 then some true else mycmp (i + 1) (j + 1) len
    else if hasFlag flags GLOB_SINGLE && e == 63 && s != 0 then mycmp (i + 1) (j + 1) len
    else if hasFlag flags GLOB_HASH && e == 35 && isdigit s then mycmp (i + 1) (j + 1) len
    else some false

/-- The loop that moves `str` until the next `n` characters of the pattern match:
where they do, or none where the string ends. -/
def globSeek (j n : Nat) : Nat → Nat → Option (Option Nat)
  | 0, _ => none
  | fuel + 1, i => do
    let found ← mycmp flags str expr i j n
    if found then some (some i)
    else
      let s ← charAt str (i + 1)
      if s = 0 then some none else globSeek j n fuel (i + 1)

/-- The outer loop, each round of which takes some of the pattern. -/
def globLoop : Nat → Nat → Nat → Option Bool
  | 0, _, _ => none
  | fuel + 1, i, j => do
    let e ← charAt expr j
    if hasFlag flags GLOB_STAR && e == star then
      let stars ← stringAt expr j
      let j := j + strspn stars [star]
      let s ← charAt str i
      if s = 0 then some true
      else
        let e ← charAt expr j
        if e = 0 then some true
        else
          let rest ← stringAt expr j
          let n := strcspn rest [star]
          let e ← charAt expr (j + n)
          if e = star then
            match ← globSeek flags str expr j n (str.length + 1) i with
            | none => some false
            | some i => globLoop fuel (i + n) (j + n)
          else
            -- the last part of the pattern is compared with the end of the string
            let s ← stringAt str i
            if s.length < n then some false else mycmp flags str expr (i + s.length - n) j n
    else
      let same ← mycmp flags str expr i j 1
      if !same then some false
      else
        let e ← charAt expr j
        if e = 0 then some true else globLoop fuel (i + 1) (j + 1)

def globcmp : Option Bool := globLoop flags str expr (expr.length + 1) 0 0

end

end KexecLoader
