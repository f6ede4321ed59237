import KexecLoader.DiskBay
import KexecLoader.DiskTags
import KexecLoader.GrubCfgFidelity

/-!
# A grub.cfg is booted as it says

The entries of a grub.cfg become targets, the menu runs on these, and every attempt it makes
calls kexec with the files the entry names, on the disk the entry searches for, whatever was
mounted by the attempts before.
-/
namespace KexecLoader

/-! ### What an entry says -/

/-- The arguments of kexec for an entry, given the real path of a file on the disk of an
id. -/
def CfgEntry.command (file : Str → Str → Str) (e : CfgEntry) : Option (List Str) :=
  if .chainloader ∈ e.body then none
  else
    match latest CfgSetting.root? e.body, latest CfgSetting.linux? e.body with
    | some root, some (kernel, args) =>
      some ([bytes "kexec", bytes "-l", file root.str kernel.str] ++
        ((latest CfgSetting.initrd? e.body).toList.map fun path =>
          bytes "--initrd=" ++ file root.str path.str) ++
        (if args.str = [] then [] else [bytes "--append=" ++ args.str]))
    | _, _ => none

/-- The disk that is searched for is there, and paths are absolute. -/
structure CfgEntry.Located (bay : DiskBay) (e : CfgEntry) : Prop where
  root : ∀ root, .search root ∈ e.body → ∃ disk, bay.Names root.str disk
  kernel : ∀ kernel args, .linux kernel args ∈ e.body → kernel.str.head? = some slash
  initrd : ∀ path, .initrd path ∈ e.body → path.str.head? = some slash

section
variable {body : List CfgSetting}

theorem latest_search {root : Buf 256} (found : latest CfgSetting.root? body = some root) :
    .search root ∈ body := by
  obtain ⟨s, member, given⟩ := latest_mem found
  cases s <;> cases given
  exact member

theorem latest_linux {kernel args : Buf 1024}
    (found : latest CfgSetting.linux? body = some (kernel, args)) : .linux kernel args ∈ body := by
  obtain ⟨s, member, given⟩ := latest_mem found
  cases s <;> cases given
  exact member

theorem latest_initrd {path : Buf 1024} (found : latest CfgSetting.initrd? body = some path) :
    .initrd path ∈ body := by
  obtain ⟨s, member, given⟩ := latest_mem found
  cases s <;> cases given
  exact member

end

theorem defaultFlag_reset (choice : Option CfgDefault) (index : Nat) (title : Str) :
    defaultFlag choice index title &&& TARGET_RESET = 0 := by
  unfold defaultFlag
  split <;> rfl

/-- The plan for a target as an entry describes it. -/
theorem bootPlan_entry (title root : Buf 256) {flags : Nat} (kernel initrd append : Buf 1024)
    (no_reset : flags &&& TARGET_RESET = 0) :
    bootPlan { initTarget with
        title := title, flags := flags, root := root, kernel := kernel, append := append, initrd := initrd } =
      [.plain (bytes "kexec"), .plain (bytes "-l"), .path kernel.str id] ++
        (if initrd.str = [] then [] else [.path initrd.str (bytes "--initrd=" ++ ·)]) ++
        (if append.str = [] then [] else [.plain (bytes "--append=" ++ append.str)]) := by
  have no_cmdline : initTarget.cmdline.str = [] := rfl
  have no_modules : initTarget.modules = [] := rfl
  simp [bootPlan, no_cmdline, no_modules, no_reset]

section
variable {bay : DiskBay} {e : CfgEntry} (located : e.Located bay)
include located

/-- With an initrd there is one argument more, and none has a device. -/
theorem CfgEntry.Located.initrd_arg (root : Str) :
    let initrd := (latest CfgSetting.initrd? e.body).getD default
    initrd.str.head? ≠ some 40 ∧
      ((latest CfgSetting.initrd? e.body).toList.map fun path => bytes "--initrd=" ++ bay.file root path.str) =
        if initrd.str = [] then [] else [bytes "--initrd=" ++ bay.file root initrd.str] := by
  cases found : latest CfgSetting.initrd? e.body with
  | none => exact ⟨by decide, rfl⟩
  | some path =>
    have absolute := located.initrd path (latest_initrd found)
    have given : path.str ≠ [] := by
      rintro empty
      rw [empty] at absolute
      cases absolute
    refine ⟨?_, (if_neg given).symm⟩
    rw [Option.getD_some, absolute]
    decide

/-- Its target can be booted, with the arguments the entry says. -/
theorem CfgEntry.Located.target {t : KlTarget} {choice : Option CfgDefault} {index : Nat}
    (described : e.target (defaultFlag choice index e.title.str) = some t) :
    bay.Boots t ∧ e.command bay.file = some (bay.args t) := by
  unfold CfgEntry.target at described
  split at described
  · cases described
  next loads =>
    rw [CfgEntry.command, if_neg loads]
    cases root_found : latest CfgSetting.root? e.body with
    | none => simp [root_found] at described
    | some root =>
      cases linux_found : latest CfgSetting.linux? e.body with
      | none => simp [root_found, linux_found] at described
      | some linux =>
        obtain ⟨kernel, args⟩ := linux
        simp only [root_found, linux_found, Option.some.injEq] at described
        have searched := located.root root (latest_search root_found)
        have absolute := located.kernel kernel args (latest_linux linux_found)
        have bare : kernel.str.head? ≠ some 40 := by
          rw [absolute]
          decide
        -- a named initrd keeps the entry's record out of the goals
        obtain ⟨initrd, is_initrd⟩ : ∃ initrd, (latest CfgSetting.initrd? e.body).getD default = initrd := ⟨_, rfl⟩
        have plan := bootPlan_entry e.title root kernel initrd args (defaultFlag_reset choice index e.title.str)
        rw [is_initrd] at described
        rw [described] at plan
        have names : t.root = root := by rw [← described]
        obtain ⟨initrd_bare, initrd_arg⟩ := located.initrd_arg root.str
        rw [is_initrd] at initrd_bare initrd_arg
        refine ⟨⟨names ▸ searched, ?_, ?_⟩, ?_⟩
        · rw [plan]
          by_cases no_initrd : initrd.str = [] <;> by_cases no_args : args.str = [] <;>
            simp [no_initrd, no_args, BootArg.Located, bare, initrd_bare]
        · rw [plan]
          by_cases no_initrd : initrd.str = [] <;> by_cases no_args : args.str = [] <;> simp [no_initrd, no_args]
        · dsimp only
          rw [DiskBay.args, plan, names, initrd_arg]
          by_cases no_initrd : initrd.str = [] <;> by_cases no_args : args.str = [] <;>
            simp [no_initrd, no_args, BootArg.filled, DiskBay.real_bare, bare, initrd_bare]

end

theorem CfgEntry.command_none {e : CfgEntry} {flags : Nat} (file : Str → Str → Str)
    (undescribed : e.target flags = none) : e.command file = none := by
  unfold CfgEntry.target at undescribed
  unfold CfgEntry.command
  split at undescribed
  next loads => exact if_pos loads
  next loads =>
    rw [if_neg loads]
    cases root : latest CfgSetting.root? e.body with
    | none => rfl
    | some root =>
      cases linux : latest CfgSetting.linux? e.body with
      | none => rfl
      | some linux => simp [*] at undescribed

/-- The targets of the entries are booted as these say, one by one. -/
theorem entryTargets_boots {bay : DiskBay} (choice : Option CfgDefault) (first : Nat) (entries : List CfgEntry)
    (located : ∀ e ∈ entries, e.Located bay) :
    (∀ t ∈ entryTargets choice first entries, bay.Boots t) ∧
      (entryTargets choice first entries).map bay.args = entries.filterMap (CfgEntry.command bay.file) := by
  induction entries generalizing first with
  | nil => exact ⟨by simp [entryTargets], rfl⟩
  | cons e entries ih =>
    obtain ⟨boots, same⟩ := ih (first + 1) fun e member => located e (List.mem_cons_of_mem _ member)
    rw [entryTargets_cons, List.filterMap_cons]
    cases described : e.target (defaultFlag choice first e.title.str) with
    | none =>
      rw [CfgEntry.command_none bay.file described]
      exact ⟨boots, same⟩
    | some t =>
      obtain ⟨here, command⟩ := (located e List.mem_cons_self).target described
      rw [command]
      exact ⟨List.forall_mem_cons.mpr ⟨here, boots⟩, congrArg (bay.args t :: ·) same⟩

/-! ### The file -/

/-- The line with the default comes first and opens nothing. -/
theorem runCommands_default (s : Settings) {choice : Option CfgDefault}
    (sound : ∀ d ∈ choice.toList.map CfgDirective.default, d.Sound) :
    ∃ st, runCommands (grubCfgStart s) ((choice.toList.map CfgDirective.default).map CfgDirective.command) =
        .ok st ∧ Idle st ∧ Follows st choice ∧ st.settings.targets = s.targets ∧ st.curIndex = 0 := by
  cases choice with
  | none => exact ⟨_, rfl, ⟨rfl, rfl⟩, fun index title => by simp [grubCfgStart], rfl, rfl⟩
  | some choice =>
    obtain ⟨value, spelled⟩ := sound (.default choice) (by simp)
    refine ⟨_, rfl, ?_, setDefault_follows _ spelled, ?_⟩ <;> rw [GrubCfgState.setDefault] <;>
      split <;> exact ⟨rfl, rfl⟩

theorem CfgFile.targets {content : Str} {choice : Option CfgDefault} {items : List CfgItem}
    (file : CfgFile content (choice.toList.map .default ++ items.flatMap CfgItem.directives))
    {s : Settings} (fresh : s.targets = []) :
    (loadGrub2Cfg s (.ok content)).targets = entryTargets choice 0 (items.filterMap CfgItem.entry?) := by
  obtain ⟨held, spelled, laid_out⟩ := file.spelled
  have no_nul : 0 ∉ content := fun member => (file.text 0 member).1 rfl
  have one_line : ∀ line ∈ fileLines content, ∀ c ∈ line, c ∉ newlines := by
    intro line member c inside
    obtain ⟨no_lf, within⟩ := mem_fileLines member
    have no_cr := (file.text c (within c inside)).2
    have other : c ≠ lf := fun same => no_lf (same ▸ inside)
    simp [newlines, no_cr, other]
  have sound := held_sound spelled
  rw [laid_out] at sound
  obtain ⟨st, first, idle, follows, same, counted⟩ :=
    runCommands_default s.silent fun d member => sound d (List.mem_append_left _ member)
  obtain ⟨last, rest, added⟩ := runCommands_items idle follows items
    fun d member => sound d (List.mem_append_right _ member)
  have read := loadGrub2Cfg_lines s file.short no_nul
  rw [runCommands_held _ spelled one_line, laid_out, List.map_append, runCommands_append, first] at read
  have ends : (loadGrub2Cfg s (.ok content)).silent = last.settings := read.trans (congrArg endSettings rest)
  have targets : (loadGrub2Cfg s (.ok content)).silent.targets = last.settings.targets :=
    congrArg Settings.targets ends
  rw [added, same, counted, show s.silent.targets = [] from fresh, List.nil_append] at targets
  exact targets

/-- An entry that searches for a label. -/
def labelEntry : CfgEntry :=
  ⟨strlcpy (bytes "A"), [.search (strlcpy (bytes "LABEL=Root")), .linux (strlcpy (bytes "/k")) (strlcpy (bytes "ro"))]⟩

def labelLines : List Str :=
  [bytes "menuentry 'A' \x7b", bytes "search --label --set=root Root", bytes "linux /k ro", bytes "\x7d"]

theorem labelLines_file : CfgFile (labelLines.flatMap (· ++ [lf]))
    ((none : Option CfgDefault).toList.map .default ++ [CfgItem.entry labelEntry].flatMap CfgItem.directives) := by
  have gap : Gap [space] := ⟨by decide, by decide⟩
  have root : SearchName (bytes "root") := ⟨⟨by decide, by decide⟩, by decide⟩
  let search : PlainSearch :=
    ⟨[([space], .by .fsLabel false), ([space], .setTo none (bytes "root"))], [space], bytes "Root", [],
      by simp [SearchOption.Sound, gap, root], gap, ⟨⟨by decide, by decide⟩, by decide⟩⟩
  have read := fileLines_lines labelLines (by decide)
  have spelled : List.Forall₂ CfgText (labelLines ++ [[]]) _ :=
    .cons (.menuentry (strlcpy (bytes "A")) [] [space] 39 (bytes " \x7b") (by decide) gap (.inl rfl)
      (by decide)) <|
    .cons (.search (strlcpy (bytes "LABEL=Root")) [] search (by decide) ⟨rfl, rfl, bytes "LABEL=", rfl, rfl⟩) <|
    .cons (.linux (strlcpy (bytes "/k")) (strlcpy (bytes "ro")) [] _ [space] [space] (by decide)
      (.inl rfl) gap ⟨by decide, by decide⟩ (by decide) (by decide) (by decide)) <|
    .cons (.bracket [] [] (by decide) (by decide)) <| .cons (.empty [] (by decide)) .nil
  exact ⟨by decide, read ▸ by decide, _, read ▸ spelled, rfl⟩

theorem labelEntry_located : labelEntry.Located sampleBay where
  root := by
    intro root member
    simp only [labelEntry, List.mem_cons, CfgSetting.search.injEq, reduceCtorEq, List.not_mem_nil, or_false] at member
    obtain rfl := member
    exact ⟨samplePartition, by decide +kernel, by decide +kernel, .inl (by decide +kernel), by decide, by decide, by decide, by decide,
      by decide⟩
  kernel := by
    intro kernel args member
    simp only [labelEntry, List.mem_cons, CfgSetting.linux.injEq, reduceCtorEq, List.not_mem_nil, or_false,
      false_or] at member
    obtain ⟨rfl, rfl⟩ := member
    decide
  initrd := by simp [labelEntry]

end KexecLoader
