import KexecLoader.ConfView

/-!
# The commands of the shell

`shell_main` without its line editor: what one command does to the target the
shell configures. The functions that only show something are named, not modelled.
-/
namespace KexecLoader

/-- The static `target` of shell.c, the root set with `vfs_set_root`, and what was
printed. -/
structure Shell where
  target : KlTarget
  root : Option Str
  printed : Str
deriving DecidableEq

/-- How a round of the loop of `shell_main` ends. -/
inductive ShellAction where
  | prompt
  | exit
  | boot (target : KlTarget)
  | listDisks
  | ls (args : Str)
  | find (args : Str)
  | cat (args : Str)
deriving DecidableEq

/-- `commands`, names and help. -/
def shellCommands : List (Str × Str) :=
  [(bytes "root", bytes "root <device>\t\tSet root device"),
    (bytes "kernel", bytes "kernel <file>\t\tSelect a kernel"),
    (bytes "initrd", bytes "initrd <file>\t\tSelect an initrd"),
    (bytes "cmdline", bytes "cmdline <text>\t\tSet the kernel command line"),
    (bytes "append", bytes "append <text>\t\tLike cmdline, but less portable"),
    (bytes "boot", bytes "boot\t\t\tBoot the system"),
    (bytes "module", bytes "module <file> [<args>]\tLoad a multiboot module"),
    (bytes "reset-vga", bytes "reset-vga\t\tEnable the kexec --reset-vga switch"),
    (bytes "ls", bytes "ls <path>\t\tList the contents of a directory"),
    (bytes "find", bytes "find <name> <path>\tSearch for files named <name>"),
    (bytes "cat", bytes "cat <file>\t\tDisplay the contents of a file"),
    (bytes "disks", bytes "disks\t\t\tDisplay disks which have been detected"),
    (bytes "exit", bytes "exit\t\t\tReturn to the menu")]

def shellHelp : Str :=
  bytes "Available commands:\n\n" ++ shellCommands.flatMap fun command => command.2 ++ [lf]

/-- The state `shell_main` starts with. -/
def shellInit : Shell := ⟨initTarget, none, []⟩

def Shell.print (sh : Shell) (text : Str) : Shell := { sh with printed := sh.printed ++ text }

/-- What `vfs_exists` finds out about a path: that there is something, or the text
of the error. -/
abbrev VfsExists := Str → Except Str Unit

/-- `PATH_COMMAND`. -/
def pathCommand (vfsExists : VfsExists) (set : KlTarget → Str → KlTarget) (sh : Shell) (args : Str) :
    Shell :=
  if args = [] then { sh with target := set sh.target args }
  else
    match vfsExists args with
    | .ok () => { sh with target := set sh.target args }
    | .error reason => sh.print (bytes "Error: " ++ reason ++ [lf])

/-- `TEXT_COMMAND`. -/
def textCommand (set : KlTarget → Str → KlTarget) (sh : Shell) (args : Str) : Shell :=
  { sh with target := set sh.target args }

def rootCommand (sh : Shell) (args : Str) : Shell :=
  { sh with
    root := if args = [] then none else some args
    target := { sh.target with root := strlcpy args } }

def bootCommand (sh : Shell) : Shell × ShellAction :=
  if sh.target.root.str = [] then (sh.print (bytes "Root device not set\n"), .prompt)
  else if sh.target.kernel.str = [] then (sh.print (bytes "Kernel not set\n"), .prompt)
  else (sh, .boot sh.target)

def cmdModule (sh : Shell) (args : Str) : Shell :=
  if args = [] then sh.print (bytes "Usage: module <file> [<args>]\n")
  else { sh with target := { sh.target with modules := sh.target.modules ++ [readModule args] } }

/-- One round of the loop of `shell_main`, on the line `read_cmd` returns. -/
def shellCommand (vfsExists : VfsExists) (sh : Shell) (line : Str) : Shell × ShellAction :=
  let (cmd, args) := nextValue line
  if cmd = [] then (sh, .prompt)
  else if klStreq cmd (bytes "exit") then (sh, .exit)
  else if klStreq cmd (bytes "help") then (sh.print shellHelp, .prompt)
  else if klStreq cmd (bytes "kernel") then
    (pathCommand vfsExists (fun t v => { t with kernel := strlcpy v }) sh args, .prompt)
  else if klStreq cmd (bytes "initrd") then
    (pathCommand vfsExists (fun t v => { t with initrd := strlcpy v }) sh args, .prompt)
  else if klStreq cmd (bytes "cmdline") then
    (textCommand (fun t v => { t with cmdline := strlcpy v }) sh args, .prompt)
  else if klStreq cmd (bytes "append") then
    (textCommand (fun t v => { t with append := strlcpy v }) sh args, .prompt)
  else if klStreq cmd (bytes "root") then (rootCommand sh args, .prompt)
  else if klStreq cmd (bytes "reset-vga") then
    ({ sh with target := { sh.target with flags := sh.target.flags ||| TARGET_RESET } }, .prompt)
  else if klStreq cmd (bytes "boot") then bootCommand sh
  else if klStreq cmd (bytes "disks") then (sh, .listDisks)
  -- the commands of the table that have a function
  else if klStreq cmd (bytes "module") then (cmdModule sh args, .prompt)
  else if klStreq cmd (bytes "ls") then (sh, .ls args)
  else if klStreq cmd (bytes "find") then (sh, .find args)
  else if klStreq cmd (bytes "cat") then (sh, .cat args)
  else (sh.print (bytes "Unknown command: " ++ cmd ++ [lf]), .prompt)

end KexecLoader
