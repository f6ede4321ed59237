import KexecLoader.ConfView
import KexecLoader.ModuleOrder

/-!
# Module options

A `kmod` line is documented as global. The options that reach a module are those
of the lines read while a target is open; the theorem at the end says when these
are the documented ones.
-/
namespace KexecLoader

/-- The name and the arguments of a `kmod` line. -/
def kmodOption (line : Str) : Option (Str × Str) :=
  match lineCommand line with
  | some (.kmod val) => some (nextValue val)
  | _ => none

/-- A `title` line with a text. -/
def isTitle (line : Str) : Bool :=
  match lineCommand line with
  | some (.title _) => true
  | _ => false

/-- The options the file sets, wherever their lines stand. -/
def documentedOptions (content : Str) : List (Str × Str) :=
  ((fileLines content).map cstr).filterMap kmodOption

/-- The options read behind the first title, on lines as `fgets` delivers them. -/
def effectiveOptions (content : Str) : List (Str × Str) :=
  (((pieces 1024 content).map cstr).dropWhile (!isTitle ·)).filterMap kmodOption

/-- The first option for a name counts. -/
def optionArgs (options : List (Str × Str)) (name : Str) : Str :=
  ((options.find? fun option => option.1 = name).map Prod.snd).getD []

/-- Modules are named after files. -/
structure ModuleName (name : Str) : Prop where
  no_slash : slash ∉ name
  no_nul : 0 ∉ name

/-- Whatever modules are loaded after `load_conf`, the kernel gets the arguments
the file sets for them. -/
def OptionsReach (fname content : Str) : Prop :=
  ∀ calls : List (ModuleHost × Nat × Option Str),
    (∀ call ∈ calls, call.1.kmods = (loadConf fname initSettings (.ok content)).kmods) →
    ∀ name image args errno, ModuleName name →
      .initModule name image args errno ∈ loadKmods calls [] →
        args = optionArgs (documentedOptions content) name

/-! ### What load_conf stores -/

def storedModule (option : Str × Str) : KlModule := ⟨strlcpy option.1, strlcpy option.2⟩

theorem ConfView.line_kmods (v : ConfView) (line : Str) :
    (v.line line).settings.kmods = v.settings.kmods ++
      if v.current.isSome then ((kmodOption line).map storedModule).toList else [] := by
  unfold ConfView.line kmodOption
  cases lineCommand line with
  | none => simp
  | some command =>
    cases command with
    | kmod val =>
      simp only [Option.elim_some, ConfView.step]
      split <;> simp [readModule, storedModule]
    | title val => simp [ConfView.step, ConfView.close]
    | _ => simp [ConfView.step]

theorem ConfView.line_open (v : ConfView) (line : Str) :
    (v.line line).current.isSome = (v.current.isSome || isTitle line) := by
  unfold ConfView.line isTitle
  cases lineCommand line with
  | none => simp
  | some command =>
    cases command with
    | title val => simp [ConfView.step]
    | kmod val =>
      simp only [Option.elim_some, ConfView.step]
      split <;> simp [*]
    | _ => simp [ConfView.step]

theorem foldl_kmods_open (lines : List Str) (v : ConfView) (opened : v.current.isSome = true) :
    (lines.foldl ConfView.line v).settings.kmods =
      v.settings.kmods ++ (lines.filterMap kmodOption).map storedModule := by
  induction lines generalizing v with
  | nil => simp
  | cons line lines ih =>
    -- once a target is open there always is one
    rw [List.foldl_cons, ih _ (by simp [ConfView.line_open, opened]), ConfView.line_kmods,
      if_pos opened, List.filterMap_cons]
    cases kmodOption line <;> simp

theorem foldl_kmods_closed (lines : List Str) (v : ConfView) (closed : v.current.isSome = false) :
    (lines.foldl ConfView.line v).settings.kmods = v.settings.kmods ++
      ((lines.dropWhile (!isTitle ·)).filterMap kmodOption).map storedModule := by
  induction lines generalizing v with
  | nil => simp
  | cons line lines ih =>
    have kmods := v.line_kmods line
    have current := v.line_open line
    rw [closed] at kmods current
    cases title : isTitle line with
    | true =>
      -- a title line sets no option itself
      have no_option : kmodOption line = none := by
        unfold isTitle at title
        unfold kmodOption
        split at title <;> simp_all
      rw [List.foldl_cons, foldl_kmods_open lines _ (by simp [current, title]), kmods]
      simp [title, no_option]
    | false =>
      rw [List.foldl_cons, ih _ (by simp [current, title]), kmods]
      simp [title]

theorem loadConf_kmods (fname content : Str) :
    (loadConf fname initSettings (.ok content)).kmods =
      (effectiveOptions content).map storedModule := by
  have silent := congrArg Settings.kmods (loadConf_silent fname initSettings content)
  have stored := foldl_kmods_closed ((pieces 1024 content).map cstr)
    ⟨initSettings.silent, none⟩ rfl
  exact silent.trans
    (by simpa [ConfView.close, Settings.silent, initSettings, effectiveOptions] using stored)

/-- The values of a line fit into the fields of a module. -/
theorem kmodOption_fits (line : Str) (short : line.length < 1024) (option : Str × Str)
    (found : kmodOption line = some option) :
    option.1.length < 1024 ∧ option.2.length < 1024 := by
  have text := lineText_length line
  have words := nextValue_length (lineText line)
  unfold kmodOption at found
  split at found
  next val command =>
    -- the command carries the value of the line
    have value : val = (lineWords line).2 :=
      (confCommand_kmod (lineCommand_some command).2).2.2.symm
    have parts := nextValue_length val
    rw [value, lineWords] at parts
    cases found
    rw [value, lineWords]
    omega
  next => cases found

/-- Looking a module up among what is stored finds the option as it was read. -/
theorem moduleArgs_stored (options : List (Str × Str)) (name : Str)
    (fits : ∀ option ∈ options, option.1.length < 1024 ∧ option.2.length < 1024) :
    moduleArgs (options.map storedModule) name = optionArgs options name := by
  induction options with
  | nil => rfl
  | cons option options ih =>
    have rest := ih fun o member => fits o (by simp [member])
    obtain ⟨name_fits, args_fits⟩ := fits option (by simp)
    have stored : storedModule option = ⟨⟨option.1, name_fits⟩, ⟨option.2, args_fits⟩⟩ := by
      rw [storedModule, strlcpy_fits _ name_fits, strlcpy_fits _ args_fits]
    unfold moduleArgs optionArgs at rest ⊢
    rw [List.map_cons, stored]
    -- the lookup compares in order, and so does the search among the options
    by_cases same : option.1 = name
    · have found : klStreq name name = true := (klStreq_iff _ _).mpr rfl
      simp [found, same]
    · simpa [(klStreq_eq_false _ _).mpr (Ne.symm same), same] using rest

theorem effectiveOptions_fit (content : Str) (option : Str × Str)
    (member : option ∈ effectiveOptions content) :
    option.1.length < 1024 ∧ option.2.length < 1024 := by
  obtain ⟨line, read, found⟩ := List.mem_filterMap.mp member
  obtain ⟨piece, delivered, rfl⟩ := List.mem_map.mp ((List.dropWhile_suffix _).subset read)
  apply kmodOption_fits _ _ option found
  have short := length_of_mem_pieces 1022 content piece delivered
  have cut := length_cstr_le piece
  omega

theorem moduleArgs_loadConf (fname content name : Str) :
    moduleArgs (loadConf fname initSettings (.ok content)).kmods name =
      optionArgs (effectiveOptions content) name := by
  rw [loadConf_kmods, moduleArgs_stored _ _ (effectiveOptions_fit content)]

/-! ### What modprobe passes on -/

/-- The arguments of a module are looked up when it is loaded. -/
def TakesArgs (kmods : List KlModule) : Event → Prop
  | .initModule name _ args _ => args = moduleArgs kmods name
  | _ => True

/-- A call after which every module in the log has taken its arguments. -/
def KeepsArgs (kmods : List KlModule) (log : List Event) (r : Status × List Event) : Prop :=
  (∀ e ∈ log, TakesArgs kmods e) → ∀ e ∈ r.2, TakesArgs kmods e

section
variable {kmods : List KlModule}

theorem keepsArgs_snoc (log : List Event) (e : Event) (status : Status)
    (takes : TakesArgs kmods e) : KeepsArgs kmods log (status, log ++ [e]) := by
  intro good d member
  obtain old | new := List.mem_append.mp member
  · exact good d old
  · exact List.mem_singleton.mp new ▸ takes

theorem KeepsArgs.trans {log : List Event} {r r' : Status × List Event}
    (first : KeepsArgs kmods log r) (second : KeepsArgs kmods r.2 r') :
    KeepsArgs kmods log r' := second ∘ first

variable (host : ModuleHost) {load : Load}
  (loads : ∀ dep log, KeepsArgs kmods log (load dep log))
include loads

theorem loadDeps_args (name : Str) (image : Image) (deps : List Str) (log : List Event) :
    KeepsArgs kmods log (loadDeps load name image deps log) := by
  induction deps generalizing log with
  | nil => exact id
  | cons dep deps ih =>
    have first := loads dep log
    rw [loadDeps]
    split
    next => exact id
    next =>
      cases called : load dep log with
      | mk status log' =>
        rw [called] at first
        cases status with
        | done loaded =>
          cases loaded with
          | true => exact first.trans (ih log')
          | false => exact first.trans (keepsArgs_snoc log' _ _ trivial)
        | overflow => exact first
        | deeper => exact first

theorem modprobe_args (shared : host.kmods = kmods) (name : Str) (image : Image)
    (log : List Event) : KeepsArgs kmods log (modprobe host load name image log) := by
  have deps := loadDeps_args loads name image image.depends log
  rw [modprobe]
  cases called : loadDeps load name image image.depends log with
  | mk status log' =>
    rw [called] at deps
    -- the dependencies are loaded first, the module itself asks for its arguments last
    have asked (status : Status) : KeepsArgs kmods log' (status, log' ++
        [.initModule name image (moduleArgs host.kmods name)
          (host.initModule log' image (moduleArgs host.kmods name))]) :=
      keepsArgs_snoc log' _ status (by rw [shared]; exact rfl)
    cases status with
    | done loaded =>
      cases loaded with
      | true =>
        dsimp only
        split
        next => exact deps.trans (asked _)
        next => exact (deps.trans (asked (.done false))).trans (keepsArgs_snoc _ _ _ trivial)
      | false => exact deps
    | overflow => exact deps
    | deeper => exact deps

variable (shared : host.kmods = kmods) (dir : Str) (modname : Option Str)
include shared

theorem modprobeEntry_args (node : DirEntry) (log : List Event) :
    KeepsArgs kmods log (modprobeEntry host load dir modname node log) := by
  simp only [modprobeEntry]
  split
  next => exact keepsArgs_snoc log _ _ trivial
  next =>
    split
    next =>
      split
      next => exact id
      next =>
        split
        next => exact keepsArgs_snoc log _ _ trivial
        next => exact keepsArgs_snoc log _ _ trivial
        next => exact modprobe_args host loads shared _ _ log
    next => exact id

theorem modprobeEntries_args (nodes : List DirEntry) (ret : Bool) (log : List Event) :
    KeepsArgs kmods log (modprobeEntries host load dir modname nodes ret log) := by
  induction nodes generalizing ret log with
  | nil => exact id
  | cons node nodes ih =>
    have first := modprobeEntry_args host loads shared dir modname node log
    rw [modprobeEntries]
    cases called : modprobeEntry host load dir modname node log with
    | mk status log' =>
      rw [called] at first
      cases status with
      | done loaded => exact first.trans (ih (ret || loaded) log')
      | overflow => exact first
      | deeper => exact first

theorem modprobeDir_args (nodes : Except Str (List DirEntry)) (log : List Event) :
    KeepsArgs kmods log (modprobeDir host load dir nodes modname log) := by
  cases nodes with
  | error reason => exact keepsArgs_snoc log _ _ trivial
  | ok nodes => exact modprobeEntries_args host loads shared dir modname nodes false log

end

/-- By induction on the fuel, like the order of the dependencies. -/
theorem loadKmod_args (host : ModuleHost) (fuel : Nat) (module : Option Str) (log : List Event) :
    KeepsArgs host.kmods log (loadKmod host fuel module log) := by
  induction fuel generalizing module log with
  | zero => exact id
  | succ fuel ih =>
    have loads (dep : Str) (log : List Event) :
        KeepsArgs host.kmods log (loadKmod host fuel (some dep) log) := ih (some dep) log
    have first := modprobeDir_args host loads rfl initramfsModules module host.initramfs log
    rw [loadKmod]
    cases called : modprobeDir host (fun dep => loadKmod host fuel (some dep)) initramfsModules
        host.initramfs module log with
    | mk status log' =>
      rw [called] at first
      cases status with
      | done loaded =>
        cases loaded with
        | true => exact first
        | false =>
          dsimp only
          split
          next => exact first.trans (modprobeDir_args host loads rfl diskModules module host.disk log')
          next => exact first
      | overflow => exact first
      | deeper => exact first

theorem loadKmods_args (kmods : List KlModule) (calls : List (ModuleHost × Nat × Option Str))
    (shared : ∀ call ∈ calls, call.1.kmods = kmods) :
    ∀ e ∈ loadKmods calls [], TakesArgs kmods e := by
  -- each call adds to the log of the calls before
  have kept : ∀ log, (∀ e ∈ log, TakesArgs kmods e) →
      ∀ e ∈ loadKmods calls log, TakesArgs kmods e := by
    induction calls with
    | nil => exact fun _ => id
    | cons call calls ih =>
      intro log good
      have here := loadKmod_args call.1 call.2.1 call.2.2 log
      rw [shared call (by simp)] at here
      exact ih (fun c member => shared c (by simp [member])) _ (here good)
  exact kept [] (by simp)

/-! ### Loading one module -/

/-- A host with one module file and a kernel that takes everything. -/
def oneModule (kmods : List KlModule) (name : Str) : ModuleHost where
  initramfs := .ok [⟨name ++ bytes ".ko", .ok S_IFREG, .ok (), .ok none⟩]
  bootDisk := false
  modulesExists := false
  disk := .error []
  kmods := kmods
  initModule := fun _ _ _ => 0
  strerror := fun _ => []

theorem loadKmods_oneModule (kmods : List KlModule) (name : Str) :
    ∃ image, .initModule name image (moduleArgs kmods name) 0 ∈
      loadKmods [(oneModule kmods name, 1, some name)] [] := by
  have tail : klStreqEnd (name ++ bytes ".ko") (bytes ".ko") = true :=
    (klStreqEnd_iff _ _).mpr (List.suffix_append _ _)
  -- the file is found by its name and loaded without dependencies
  have regular : S_IFREG &&& (S_IFREG ||| S_IFLNK) ≠ 0 := by decide
  have ending : (bytes ".ko").length = 3 := rfl
  have asked : klStreq name name = true := (klStreq_iff _ _).mpr rfl
  simp [loadKmods, loadKmod, modprobeDir, modprobeEntries, modprobeEntry, oneModule, tail, regular,
    ending, asked, modprobe, Image.depends, loadDeps]

/-- Every module gets the arguments of the first `kmod` line for it behind the
first title. -/
theorem loaded_args (fname content : Str) (calls : List (ModuleHost × Nat × Option Str))
    (shared : ∀ call ∈ calls, call.1.kmods = (loadConf fname initSettings (.ok content)).kmods)
    (name : Str) (image : Image) (args : Str) (errno : Nat)
    (loaded : .initModule name image args errno ∈ loadKmods calls []) :
    args = optionArgs (effectiveOptions content) name := by
  have takes := loadKmods_args _ calls shared _ loaded
  exact takes.trans (moduleArgs_loadConf fname content name)

theorem options_lost (fname content name : Str) (valid : ModuleName name)
    (differs : optionArgs (effectiveOptions content) name ≠
      optionArgs (documentedOptions content) name) : ¬ OptionsReach fname content := by
  intro reach
  obtain ⟨image, loaded⟩ :=
    loadKmods_oneModule (loadConf fname initSettings (.ok content)).kmods name
  have args := reach [_] (by simp [oneModule]) name image _ 0 valid loaded
  rw [moduleArgs_loadConf] at args
  exact differs args

/-- The documented options reach the modules exactly if leaving out the lines
before the first title, and cutting long lines, changes no module's arguments. -/
theorem optionsReach_iff (fname content : Str) :
    OptionsReach fname content ↔
      ∀ name, ModuleName name → optionArgs (effectiveOptions content) name =
        optionArgs (documentedOptions content) name := by
  constructor
  · intro reach name valid
    by_contra differs
    exact options_lost fname content name valid differs reach
  · intro same calls shared name image args errno valid loaded
    rw [loaded_args fname content calls shared name image args errno loaded, same name valid]

/-- A global directive before the first title, as it is documented. -/
def globalKmod : Str := bytes "kmod loop max_loop=8\ntitle Linux\n"

theorem optionsReach_global : ¬ OptionsReach (bytes "/kexec-loader.conf") globalKmod := by
  apply options_lost _ _ (bytes "loop") ⟨by decide, by decide⟩
  have none_left : effectiveOptions globalKmod = [] := by decide
  have documented : documentedOptions globalKmod = [(bytes "loop", bytes "max_loop=8")] := by
    decide
  rw [none_left, documented]
  decide

end KexecLoader
