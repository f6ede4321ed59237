import KexecLoader.Library.Memory
import KexecLoader.Library.Stream
import KexecLoader.Misc

/-!
# The kernel command line

`get_cmdline` leaves every value in the same buffer. As long as `debug` has not
opened its terminal it asks for the option with its name on every call, and the
answer takes the place of the value that was fetched last.
-/
namespace KexecLoader

/-- The loop of `get_cmdline`: what follows the name of an option, and the equals
sign. A name counts at the start of the line and behind a space. -/
def findOption (name : Str) : Bool → Str → Option Str
  | _, [] => none
  | start, c :: rest =>
    -- a name inside another word is passed over
    if start && klStrneq (c :: rest) name name.length then
      match (c :: rest).drop name.length with
      | [] => some []
      | d :: value =>
        if d = 61 then some value
        -- no value: what is copied ends at once
        else if d = lf ∨ d = space then some (d :: value)
        else findOption name (c == space) rest
    else findOption name (c == space) rest

/-- `r` of `get_cmdline` behind its loop; the file is there, since main has mounted
/proc. -/
def optionText (cmdline name : Str) : Option Str :=
  match fgets 1024 cmdline with
  | none => none
  | some (buf, _) => findOption name true (cstr buf)

/-- The buffer of `get_cmdline`, the file of `debug`, and how often `debug` was
called. -/
structure DebugState where
  val : Memory
  debugFh : Bool
  calls : Nat

def initDebug : DebugState := ⟨⟨List.replicate 256 0, []⟩, false, 0⟩

def debugTty : Str := bytes "/dev/tty3"

/-- The end of a value. -/
def valueEnds : Str := [space, lf]

section
variable (cmdline : Str) (opens : Nat → Str → Bool)

/-- Is there a value, which stands at the start of the buffer then. -/
def getCmdline (name : Str) (s : DebugState) : Bool × DebugState :=
  match optionText cmdline name with
  | none => (false, s)
  | some r =>
    -- everything up to the end of the line is copied, then cut at the first space
    let val := s.val.strlcpy 0 r 256
    (true, { s with val := val.write (strcspn (val.strFrom 0) valueEnds) [0] })

/-- `debug`, where `opens` is what opening the terminal comes to in each call. -/
def debug (s : DebugState) : DebugState :=
  if s.debugFh then { s with calls := s.calls + 1 }
  else
    match getCmdline cmdline (bytes "debug_tty") s with
    | (found, s) =>
      let path := if found then s.val.strFrom 0 else debugTty
      { s with debugFh := opens s.calls path, calls := s.calls + 1 }

end

/-! ### What the buffer holds -/

/-- The value of an option, as far as it fits. -/
def optionValue (cmdline name : Str) : Option Str :=
  (optionText cmdline name).map fun r => (r.take 255).takeWhile (· ∉ valueEnds)

theorem findOption_suffix (name : Str) (start : Bool) (line r : Str)
    (found : findOption name start line = some r) : r <:+ line := by
  induction line generalizing start with
  | nil => cases found
  | cons c rest ih =>
    -- the loop goes on behind the first byte
    have later : ∀ start, findOption name start rest = some r → r <:+ c :: rest :=
      fun start found => (ih start found).trans (List.suffix_cons c rest)
    unfold findOption at found
    split at found
    next =>
      have behind := List.drop_suffix name.length (c :: rest)
      split at found
      next =>
        cases found
        exact List.nil_suffix
      next d value shape =>
        rw [shape] at behind
        split_ifs at found
        · cases found
          exact (List.suffix_cons d r).trans behind
        · cases found
          exact behind
        · exact later _ found
    next => exact later _ found

theorem optionText_no_nul {cmdline name r : Str} (found : optionText cmdline name = some r) :
    0 ∉ r := by
  unfold optionText at found
  split at found
  next => cases found
  next buf _ _ =>
    intro member
    have inside := (findOption_suffix _ _ _ _ found).subset member
    exact no_nul_cstr _ inside

/-- A value that is found is what the buffer holds. -/
theorem getCmdline_some {cmdline name value : Str} (given : optionValue cmdline name = some value)
    (s : DebugState) : (getCmdline cmdline name s).1 = true ∧
      (getCmdline cmdline name s).2.val.Holds value := by
  obtain ⟨r, text, rfl⟩ := Option.map_eq_some_iff.mp given
  have no_nul : 0 ∉ r.take 255 := fun member => optionText_no_nul text (List.mem_of_mem_take member)
  -- the copy, before it is cut
  have copied : (s.val.strlcpy 0 r 256).Holds (r.take 255) := by
    refine ⟨no_nul, s.val.bytes.drop (0 + (r.take 255 ++ [0]).length), ?_⟩
    simp [Memory.strlcpy, Memory.write, overwrite]
  have string : (s.val.strlcpy 0 r 256).strFrom 0 = r.take 255 := copied.strFrom_zero
  have cut := copied
  rw [← List.takeWhile_append_dropWhile (p := (· ∉ valueEnds)) (l := r.take 255)] at cut
  have ended := cut.write_tail [] (by simp)
  rw [List.append_nil, List.nil_append] at ended
  simp only [getCmdline, text, string]
  exact ⟨trivial, ended⟩

theorem getCmdline_none {cmdline name : Str} (absent : optionValue cmdline name = none)
    (s : DebugState) : getCmdline cmdline name s = (false, s) := by
  have text : optionText cmdline name = none := Option.map_eq_none_iff.mp absent
  simp only [getCmdline, text]

theorem getCmdline_fst (cmdline name : Str) (s : DebugState) :
    (getCmdline cmdline name s).1 = (optionValue cmdline name).isSome := by
  cases given : optionValue cmdline name with
  | none => rw [getCmdline_none given]; rfl
  | some value => rw [(getCmdline_some given s).1]; rfl

/-- The value of an option, read as soon as it is there. -/
theorem getCmdline_read (cmdline name : Str) (s : DebugState) :
    (if (getCmdline cmdline name s).1 then some ((getCmdline cmdline name s).2.val.strFrom 0)
      else none) = optionValue cmdline name := by
  rw [getCmdline_fst]
  cases given : optionValue cmdline name with
  | none => rfl
  | some value =>
    have string : (getCmdline cmdline name s).2.val.strFrom 0 = value :=
      (getCmdline_some given s).2.strFrom_zero
    rw [string]
    rfl

theorem getCmdline_frame (cmdline name : Str) (s : DebugState) :
    (getCmdline cmdline name s).2.debugFh = s.debugFh ∧
      (getCmdline cmdline name s).2.calls = s.calls := by
  unfold getCmdline
  split <;> exact ⟨rfl, rfl⟩

/-- One of the first calls of `debug` has opened the terminal. -/
def TerminalOpen (cmdline : Str) (opens : Nat → Str → Bool) (n : Nat) : Prop :=
  ∃ i < n, opens i ((optionValue cmdline (bytes "debug_tty")).getD debugTty) = true

/-- The file is open if one of the calls so far has opened it. -/
def DebugState.Tracks (cmdline : Str) (opens : Nat → Str → Bool) (s : DebugState) : Prop :=
  s.debugFh = true ↔ TerminalOpen cmdline opens s.calls

section
variable {cmdline : Str} {opens : Nat → Str → Bool} {s : DebugState}

theorem terminalOpen_succ (n : Nat) : TerminalOpen cmdline opens (n + 1) ↔
    TerminalOpen cmdline opens n ∨
      opens n ((optionValue cmdline (bytes "debug_tty")).getD debugTty) = true := by
  simp only [TerminalOpen, Nat.lt_succ_iff_lt_or_eq, or_and_right, exists_or, exists_eq_left]

theorem initDebug_tracks : initDebug.Tracks cmdline opens := by
  constructor
  · intro file
    cases file
  · rintro ⟨i, early, -⟩
    exact absurd early (Nat.not_lt_zero i)

theorem getCmdline_tracks (name : Str) (tracks : s.Tracks cmdline opens) :
    (getCmdline cmdline name s).2.Tracks cmdline opens := by
  obtain ⟨file, calls⟩ := getCmdline_frame cmdline name s
  rwa [DebugState.Tracks, file, calls]

theorem debug_open (opened : s.debugFh = true) :
    debug cmdline opens s = { s with calls := s.calls + 1 } := by
  rw [debug, if_pos opened]

/-- What a call does while the terminal is not open. -/
theorem debug_closed (closed : s.debugFh = false) :
    debug cmdline opens s =
      { (getCmdline cmdline (bytes "debug_tty") s).2 with
        debugFh := opens s.calls ((optionValue cmdline (bytes "debug_tty")).getD debugTty)
        calls := s.calls + 1 } := by
  obtain ⟨-, calls⟩ := getCmdline_frame cmdline (bytes "debug_tty") s
  rw [debug, if_neg (by simp [closed])]
  cases tty : optionValue cmdline (bytes "debug_tty") with
  | none =>
    rw [getCmdline_none tty]
    rfl
  | some value =>
    obtain ⟨found, holds⟩ := getCmdline_some tty s
    have string : (getCmdline cmdline (bytes "debug_tty") s).2.val.strFrom 0 = value :=
      holds.strFrom_zero
    simp only [found, string, calls, if_true, Option.getD_some]

@[simp] theorem debug_calls : (debug cmdline opens s).calls = s.calls + 1 := by
  cases file : s.debugFh with
  | true => rw [debug_open file]
  | false => rw [debug_closed file]

theorem debug_tracks (tracks : s.Tracks cmdline opens) :
    (debug cmdline opens s).Tracks cmdline opens := by
  unfold DebugState.Tracks at tracks ⊢
  rw [debug_calls, terminalOpen_succ, ← tracks]
  cases file : s.debugFh with
  | true => simp [debug_open file, file]
  | false => simp [debug_closed file]

theorem iterate_debug_calls (n : Nat) : ((debug cmdline opens)^[n] s).calls = s.calls + n := by
  induction n with
  | zero => rfl
  | succ n ih => rw [Function.iterate_succ_apply', debug_calls, ih, Nat.add_assoc]

theorem iterate_debug_tracks (tracks : s.Tracks cmdline opens) (n : Nat) :
    ((debug cmdline opens)^[n] s).Tracks cmdline opens := by
  induction n with
  | zero => exact tracks
  | succ n ih =>
    rw [Function.iterate_succ_apply']
    exact debug_tracks ih

/-- Calls of `debug` leave a value alone: the option of the terminal is not given, or
has the same value, or the terminal has been opened. -/
def Harmless (cmdline : Str) (opens : Nat → Str → Bool) (n : Nat) (value : Str) : Prop :=
  (∀ tty ∈ optionValue cmdline (bytes "debug_tty"), tty = value) ∨ TerminalOpen cmdline opens n

theorem debug_harmless {value : Str} (tracks : s.Tracks cmdline opens)
    (harmless : Harmless cmdline opens s.calls value) (holds : s.val.Holds value) :
    (debug cmdline opens s).val.Holds value := by
  cases file : s.debugFh with
  | true => rwa [debug_open file]
  | false =>
    have closed : ¬ TerminalOpen cmdline opens s.calls := fun opened => by
      simp [tracks.mpr opened] at file
    -- the answer is written over the value, so that it has to be the same
    have same := harmless.resolve_right closed
    rw [debug_closed file]
    cases tty : optionValue cmdline (bytes "debug_tty") with
    | none => rwa [getCmdline_none tty]
    | some other =>
      obtain rfl := same other tty
      exact (getCmdline_some tty s).2

theorem Harmless.later {n m : Nat} {value : Str} (harmless : Harmless cmdline opens n value)
    (later : n ≤ m) : Harmless cmdline opens m value :=
  harmless.imp_right fun ⟨i, before, opened⟩ => ⟨i, by omega, opened⟩

theorem iterate_debug_harmless {value : Str} (tracks : s.Tracks cmdline opens)
    (harmless : Harmless cmdline opens s.calls value) (holds : s.val.Holds value) (n : Nat) :
    ((debug cmdline opens)^[n] s).val.Holds value := by
  induction n with
  | zero => exact holds
  | succ n ih =>
    rw [Function.iterate_succ_apply']
    refine debug_harmless (iterate_debug_tracks tracks n) (harmless.later ?_) ih
    rw [iterate_debug_calls]
    omega

/-- The first call that finds the terminal closed puts its name in place of the
value, and it stays there. -/
theorem iterate_debug_overwrites {tty : Str} (tracks : s.Tracks cmdline opens)
    (closed : ¬ TerminalOpen cmdline opens s.calls)
    (given : optionValue cmdline (bytes "debug_tty") = some tty) (n : Nat) :
    ((debug cmdline opens)^[n + 1] s).val.Holds tty := by
  have file : s.debugFh = false := by
    rw [← Bool.not_eq_true]
    exact fun opened => closed (tracks.mp opened)
  -- from the first call on the value is that of the option, which later calls do no harm to
  have first : (debug cmdline opens s).val.Holds tty := by
    rw [debug_closed file]
    exact (getCmdline_some given s).2
  rw [Function.iterate_succ_apply]
  refine iterate_debug_harmless (debug_tracks tracks) (.inl fun other also => ?_) first n
  rw [given] at also
  exact (Option.some.inj also).symm

end

end KexecLoader
