import KexecLoader.Library.Numeral
import KexecLoader.Misc

/-!
# Targets, modules and the global settings the configuration files write
-/
namespace KexecLoader

structure KlModule where
  name : Buf 1024
  args : Buf 1024
deriving DecidableEq

def TARGET_DEFAULT : Nat := 1

def TARGET_RESET : Nat := 2

@[ext]
structure KlTarget where
  title : Buf 256
  flags : Nat
  root : Buf 256
  kernel : Buf 1024
  initrd : Buf 1024
  cmdline : Buf 1024
  append : Buf 1024
  modules : List KlModule
deriving DecidableEq

/-- `INIT_TARGET`. -/
def initTarget : KlTarget := ⟨default, 0, default, default, default, default, default, []⟩

/-- A GRUB device and the disk it is mapped to. -/
structure KlGdev where
  type : Buf 16
  p1 : Buf 16
  p2 : Buf 16
  p3 : Buf 16
  device : Buf 16
deriving DecidableEq

/-- `INIT_GDEV`. -/
def initGdev : KlGdev := ⟨default, default, default, default, default⟩

/-- The global variables of misc.c and grub.c, and the messages `printD` has
shown, oldest first. -/
structure Settings where
  timeout : Int
  grubPath : Option Str
  targets : List KlTarget
  kmods : List KlModule
  grubAutodetect : Int
  grubDevmap : List KlGdev
  shown : List Str
deriving DecidableEq

/-- Their initial values. -/
def initSettings : Settings := ⟨-1, none, [], [], 1, [], []⟩

def Settings.printD (s : Settings) (message : Str) : Settings :=
  { s with shown := s.shown ++ [message] }

@[simp] theorem Settings.printD_timeout (s : Settings) (m : Str) :
    (s.printD m).timeout = s.timeout := rfl

@[simp] theorem Settings.printD_targets (s : Settings) (m : Str) :
    (s.printD m).targets = s.targets := rfl

@[simp] theorem Settings.printD_kmods (s : Settings) (m : Str) : (s.printD m).kmods = s.kmods := rfl

@[simp] theorem Settings.printD_grubDevmap (s : Settings) (m : Str) :
    (s.printD m).grubDevmap = s.grubDevmap := rfl

end KexecLoader
