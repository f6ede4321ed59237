import KexecLoader.Boot
import KexecLoader.GrubLoad

/-!
# Booting a target

`boot_target` gathers the arguments of kexec in an array of 256 slots, one of which is
for the null pointer behind them. A path that does not translate, or an argument too many,
sends it to its cleanup.
-/
namespace KexecLoader

def MAX_ARGV : Nat := 256

/-- What the system answers while `boot_target` runs. -/
structure BootHost where
  /-- At the n-th translation of a path. -/
  access : Nat → DiskOs × MountCall
  /-- What lies behind `disk_buf`. -/
  stack : Str
  strerror : Nat → Str
  /-- The error of `fork`, if it fails. -/
  forkError : Option Nat
  /-- What `wait` stores. -/
  status : Boot.Status
  rebootError : Nat

structure BootState where
  vfs : Vfs
  translations : Nat
  /-- `argv[0..argc)`. -/
  argv : List Str
  /-- The slots of `argv` that were written. -/
  slots : List Nat
  shown : List Str
  alert : Bool

namespace BootState

/-- `printd` and `printm`. -/
def printd (s : BootState) (text : Str) : BootState := { s with shown := s.shown ++ [text.take 1023] }

def printD (s : BootState) (text : Str) : BootState := { s.printd text with alert := true }

end BootState

/-- Why the arguments are not complete: `goto CLEANUP`, or a translation that has no
result. -/
inductive BootStop where
  | cleanup (s : BootState)
  | crash (s : BootState)

/-- `ARGV_COPY`, `ARGV_ADD` and `ARGV_PRINTF`. -/
def argvAdd (text : Str) (s : BootState) : Except BootStop BootState :=
  if s.argv.length + 1 = MAX_ARGV then
    .error (.cleanup (s.printD (bytes "Too many arguments for kexec")))
  else
    .ok { s with
      argv := s.argv ++ [text]
      slots := s.slots ++ [s.argv.length, s.argv.length + 1] }

section
variable (host : BootHost)

/-- `MOUNT_VPATH`. -/
def mountVpath (path : Str) (s : BootState) : Except BootStop (Str × BootState) :=
  let (os, mount) := host.access s.translations
  match vfsTranslatePath os mount s.vfs host.stack path with
  | (.ok real, vfs) => .ok (real.str, { s with vfs := vfs, translations := s.translations + 1 })
  | (.fail errno, vfs) =>
    let s := { s with vfs := vfs, translations := s.translations + 1 }
    .error (.cleanup (s.printD (path ++ bytes ": " ++ klStrerror host.strerror errno)))
  | (.crash, vfs) => .error (.crash { s with vfs := vfs, translations := s.translations + 1 })

/-- An argument with a field of the target, unless it is empty. -/
def argvField (option field : Str) (s : BootState) : Except BootStop BootState :=
  if field = [] then .ok s else argvAdd (option ++ field) s

def argvFlags (flags : Nat) (s : BootState) : Except BootStop BootState :=
  if flags &&& TARGET_RESET ≠ 0 then argvAdd (bytes "--reset-vga") s else .ok s

def argvInitrd (initrd : Str) (s : BootState) : Except BootStop BootState :=
  if initrd = [] then .ok s
  else do
    let (tmp, s) ← mountVpath host initrd s
    argvAdd (bytes "--initrd=" ++ tmp) s

def moduleArg (tmp args : Str) : Str :=
  if args = [] then bytes "--module=" ++ tmp else bytes "--module=" ++ tmp ++ bytes " " ++ args

/-- The loop over the modules. -/
def argvModules : List KlModule → BootState → Except BootStop BootState
  | [], s => .ok s
  | m :: modules, s => do
    let (tmp, s) ← mountVpath host m.name.str s
    let s ← argvAdd (moduleArg tmp m.args.str) s
    argvModules modules s

/-- The arguments, up to the first failure. -/
def argvTarget (target : KlTarget) (s : BootState) : Except BootStop BootState := do
  let s ← argvAdd (bytes "kexec") s
  let s ← argvAdd (bytes "-l") s
  let (tmp, s) ← mountVpath host target.kernel.str s
  let s ← argvAdd tmp s
  let s ← argvInitrd host target.initrd.str s
  let s ← argvField (bytes "--command-line=") target.cmdline.str s
  let s ← argvField (bytes "--append=") target.append.str s
  let s ← argvFlags target.flags s
  argvModules host target.modules s

/-- What is shown of a target. -/
def showTarget (target : KlTarget) (s : BootState) : BootState :=
  let s := (s.printd (bytes "Preparing to boot...")).printd []
  let s := s.printd (bytes "device: " ++ target.root.str)
  let s := s.printd (bytes "kernel: " ++ target.kernel.str)
  let s := if target.initrd.str = [] then s else s.printd (bytes "initrd: " ++ target.initrd.str)
  let both := target.cmdline.str ≠ [] ∧ target.append.str ≠ []
  let s :=
    if target.cmdline.str = [] ∧ target.append.str = [] then s
    else s.printd (bytes "command line: " ++ target.cmdline.str ++ (if both then bytes " " else []) ++
      target.append.str)
  s.printd []

inductive BootEvent where
  /-- A child that runs `kexec_main`. -/
  | kexec (argv : List Str)
  /-- `call_reboot(LINUX_REBOOT_CMD_KEXEC)`. -/
  | reboot
deriving DecidableEq

structure BootEnd where
  events : List BootEvent
  state : BootState

/-- `CLEANUP`: the arguments are freed from the last one on. -/
def BootState.cleanup (s : BootState) : BootState := { s with argv := [] }

/-- `boot_target`, which returns when it has failed. -/
def bootTarget (vfs : Vfs) (target : KlTarget) : BootEnd :=
  let vfs := vfsSetRoot vfs (some target.root.str)
  match argvTarget host target (showTarget target ⟨vfs, 0, [], [], [], false⟩) with
  | .error (.crash s) => ⟨[], s⟩
  | .error (.cleanup s) => ⟨[], s.cleanup⟩
  | .ok s =>
    let s := s.printd (bytes "Loading kernel...")
    match host.forkError with
    | some errno => ⟨[], (s.printD (bytes "Fork failed: " ++ host.strerror errno)).cleanup⟩
    | none =>
      if host.status = .exited 0 then
        let s := s.printd (bytes "Booting system...")
        ⟨[.kexec s.argv, .reboot],
          (s.printD (bytes "Reboot failed: " ++ host.strerror host.rebootError)).cleanup⟩
      else ⟨[.kexec s.argv], { s with alert := true }.cleanup⟩

end

end KexecLoader
