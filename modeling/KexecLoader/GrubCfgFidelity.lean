import KexecLoader.GrubCfgCommands
import KexecLoader.GrubCfgFormat
import KexecLoader.GdevLookup

/-!
# Reading grub.cfg

The commands of the lines are the directives they spell, and running the directives of
an entry adds its target.
-/
namespace KexecLoader

/-! ### Values -/

theorem grub2Val_quoted {quote : UInt8} (quoted : quote = 39 ∨ quote = 34) {val : Str}
    (free : quote ∉ val) (rest : Str) :
    ∃ next, grub2Val (quote :: (val ++ quote :: rest)) = some (val, next) := by
  have marked : some quote = some 39 ∨ some quote = some 34 := by simpa using quoted
  have taken : (val ++ quote :: rest).takeWhile (· ≠ quote) = val :=
    takeWhile_append_stop (fun c member => decide_eq_true fun same => free (same ▸ member)) (by simp)
  obtain ⟨next, closing⟩ := Option.isSome_iff_exists.mp
    ((strchr_isSome (val ++ quote :: rest) quote).mpr (by simp))
  simp only [grub2Val, List.drop_succ_cons, List.drop_zero, List.head?_cons, Option.getD_some]
  rw [if_pos marked, closing]
  exact ⟨_, congrArg (fun taken => some (taken, _)) taken⟩

theorem grub2Val_plain {val rest : Str} (nonempty : val ≠ []) (whole : ∀ c ∈ val, c ∉ grub2Seps)
    (unquoted : ∀ c ∈ val.head?, c ∉ [39, 34]) (stop : ∀ c ∈ rest.head?, c ∈ grub2Seps) :
    grub2Val (val ++ rest) = some (val, (rest.drop 1).dropWhile (· ∈ grub2Seps)) := by
  obtain ⟨c, more, rfl⟩ := List.exists_cons_of_ne_nil nonempty
  have unmarked : ¬ ((c :: more ++ rest).head? = some 39 ∨ (c :: more ++ rest).head? = some 34) := by
    simpa using unquoted
  simp only [grub2Val, if_neg unmarked, drop_strspn]
  rw [take_strcspn_stop whole stop, drop_strcspn_stop whole stop]

/-! ### The word of a line -/

theorem grubCfgText_line {indent text : Str} (indented : Blank indent)
    (starts : ∀ c ∈ text.head?, c ∉ newlines ++ blanks) (one_line : ∀ c ∈ text, c ∉ newlines) :
    grubCfgText (indent ++ text) = text := by
  rw [grubCfgText, dropWhile_append_stop (fun c member => by simp [indented c member])
    fun c first => decide_eq_false (starts c first)]
  exact List.takeWhile_eq_self_iff.mpr fun c member => decide_eq_true (one_line c member)

/-- A word that can stand at the start of a line. -/
structure LeadingWord (word : Str) : Prop where
  nonempty : word ≠ []
  no_comment : word.head? ≠ some 35
  whole : ∀ c ∈ word, c ∉ blanks

theorem grubCfgLineCommand_word {indent word gap args : Str} (indented : Blank indent)
    (leading : LeadingWord word) (blank : Blank gap) (apart : gap = [] → args = [])
    (starts : ∀ c ∈ args.head?, c ∉ blanks)
    (one_line : ∀ c ∈ indent ++ (word ++ (gap ++ args)), c ∉ newlines) :
    grubCfgLineCommand (indent ++ (word ++ (gap ++ args))) = grubCfgAsks word args := by
  obtain ⟨letter, more, rfl⟩ := List.exists_cons_of_ne_nil leading.nonempty
  have text : grubCfgText (indent ++ ((letter :: more) ++ (gap ++ args))) =
      (letter :: more) ++ (gap ++ args) := by
    refine grubCfgText_line indented ?_ fun c member => one_line c (List.mem_append_right _ member)
    simp only [List.cons_append, List.head?_cons, Option.mem_def, Option.some.injEq, forall_eq',
      List.mem_append, not_or]
    exact ⟨one_line letter (by simp), leading.whole letter (by simp)⟩
  have command : ¬ (((letter :: more) ++ (gap ++ args)).head? = some 35 ∨
      (letter :: more) ++ (gap ++ args) = []) := by
    simpa using leading.no_comment
  rw [grubCfgLineCommand, text, grubCfgTextCommand, if_neg command,
    nextValue_split (letter :: more) gap args leading.whole apart blank starts]

theorem Behind.split {rest : Str} (behind : Behind rest) :
    ∃ gap args, rest = gap ++ args ∧ Blank gap ∧ (gap = [] → args = []) ∧
      ∀ c ∈ args.head?, c ∉ blanks := by
  refine ⟨rest.takeWhile (· ∈ blanks), rest.dropWhile (· ∈ blanks),
    List.takeWhile_append_dropWhile.symm, ?_, ?_, ?_⟩
  · exact fun c member => by simpa using List.mem_takeWhile_imp member
  · intro none
    cases rest with
    | nil => rfl
    | cons c rest =>
      have blank : decide (c ∈ blanks) = true := decide_eq_true (behind c rfl)
      simp [blank] at none
  · exact fun c first => of_decide_eq_false (dropWhile_head_fails c first)

/-! ### The directive of a line -/

def CfgSetting.command : CfgSetting → GrubCfgCommand
  | search root => .root root.str
  | linux kernel args => .linux kernel.str args.str
  | initrd path => .initrd path.str
  | chainloader => .chainloader

def CfgDirective.command : CfgDirective → GrubCfgCommand
  | default choice => .default choice.text
  | menuentry title => .menuentry title.str
  | setting s => s.command
  | bracket => .close

theorem PlainPath.grub2Val {path rest : Str} (plain : PlainPath path)
    (stop : ∀ c ∈ rest.head?, c ∈ grub2Seps) :
    grub2Val (path ++ rest) = some (path, (rest.drop 1).dropWhile (· ∈ grub2Seps)) := by
  have parts : ∀ c ∈ path, c ∉ grub2Seps ∧ c ∉ [39, 34] := by
    intro c member
    have whole := plain.whole c member
    simp only [grub2Seps, List.mem_append, List.mem_cons, List.not_mem_nil, or_false, not_or] at whole ⊢
    exact ⟨⟨whole.1, whole.2.2.2⟩, whole.2.1, whole.2.2.1⟩
  exact grub2Val_plain plain.nonempty (fun c member => (parts c member).1)
    (fun c first => (parts c (List.mem_of_mem_head? first)).2) stop

theorem PlainPath.starts {path : Str} (plain : PlainPath path) (rest : Str) :
    ∀ c ∈ (path ++ rest).head?, c ∉ blanks := by
  obtain ⟨letter, more, rfl⟩ := List.exists_cons_of_ne_nil plain.nonempty
  have whole := plain.whole letter List.mem_cons_self
  intro c first blank
  obtain rfl : letter = c := by simpa using first
  exact whole (List.mem_append_left _ blank)

/-- Between a kernel and its arguments. -/
theorem grub2Seps_skipped {sep args : Str} (blank : Blank sep) (apart : sep = [] → args = [])
    (starts : ∀ c ∈ args.head?, c ∉ grub2Seps) :
    (∀ c ∈ (sep ++ args).head?, c ∈ grub2Seps) ∧
      ((sep ++ args).drop 1).dropWhile (· ∈ grub2Seps) = args := by
  cases sep with
  | nil => simp [apart rfl]
  | cons b sep =>
    have sep_bytes : ∀ c ∈ b :: sep, c ∈ grub2Seps :=
      fun c member => List.mem_append_left _ (blank c member)
    refine ⟨by simpa using sep_bytes b List.mem_cons_self, ?_⟩
    exact dropWhile_append_stop
      (fun c member => decide_eq_true (sep_bytes c (List.mem_cons_of_mem _ member)))
      fun c first => decide_eq_false (starts c first)

theorem digit_plain {c : UInt8} (digit : isdigit c = true) : c ∉ grub2Seps ∧ c ∉ [39, 34] := by
  rw [isdigit_iff] at digit
  have bytes : ∀ b ∈ grub2Seps ++ [39, 34], b.toNat < 48 ∨ 57 < b.toNat := by decide
  refine ⟨fun member => ?_, fun member => ?_⟩
  · have := bytes c (List.mem_append_left _ member)
    omega
  · have := bytes c (List.mem_append_right _ member)
    omega

theorem CfgDefault.Spelled.grub2Val {choice : CfgDefault} {value : Str} (spelled : choice.Spelled value) :
    ∃ next, grub2Val value = some (choice.text, next) := by
  cases spelled with
  | bare _ nonempty numeric =>
    have taken := @grub2Val_plain value [] nonempty (fun c member => (digit_plain (numeric c member)).1)
      (fun c first => (digit_plain (numeric c (List.mem_of_mem_head? first))).2) (by simp)
    rw [List.append_nil] at taken
    exact ⟨_, taken⟩
  | quoted digits nonempty numeric small =>
    refine grub2Val_quoted (.inr rfl) (fun member => ?_) []
    exact (digit_plain (numeric 34 member)).2 (by decide)
  | title title other no_submenu no_quote fits => exact grub2Val_quoted (.inr rfl) no_quote []

theorem CfgDefault.Spelled.starts {choice : CfgDefault} {value : Str} (spelled : choice.Spelled value) :
    ∀ c ∈ value.head?, c ∉ grub2Seps := by
  cases spelled with
  | bare _ _ numeric =>
    exact fun c first => (digit_plain (numeric c (List.mem_of_mem_head? first))).1
  | quoted => simp [grub2Seps, blanks]; decide
  | title => simp [grub2Seps, blanks]; decide

theorem CfgDefault.Spelled.asks {choice : CfgDefault} {value : Str} (spelled : choice.Spelled value) :
    grubCfgAsks (bytes "set") (bytes "default=" ++ value) = .default choice.text := by
  have asks : ∀ args, grubCfgAsks (bytes "set") args = grub2Command args fun name rest =>
      grub2Command rest fun val _ => setCommand name val := fun _ => rfl
  have name := @grub2Val_plain (bytes "default") (61 :: value) (by decide) (by decide) (by decide)
    (by simp [grub2Seps])
  have behind : ((61 :: value).drop 1).dropWhile (· ∈ grub2Seps) = value := by
    exact @dropWhile_append_stop _ [] value (by simp) fun c first => decide_eq_false (spelled.starts c first)
  obtain ⟨next, taken⟩ := spelled.grub2Val
  have split : bytes "default=" ++ value = bytes "default" ++ 61 :: value := rfl
  rw [split, asks, grub2Command, name, behind]
  simp only [grub2Command, taken]
  rfl

theorem setsRoot_links (gap : Str) {o : SearchOption} (sets : o.setsRoot = true) :
    .set ∈ (o.links gap).map (·.2) ∨ .assign ∈ (o.links gap).map (·.2) := by
  rcases o with _ | _ | _ | ⟨_ | between, var⟩ | _
  · cases sets
  · cases sets
  · cases sets
  · exact .inr List.mem_cons_self
  · exact .inl List.mem_cons_self
  · exact .inl List.mem_cons_self

theorem RootSearch.asks {line : PlainSearch} {root : Str} (searched : RootSearch line root) {args : Str}
    (run : ∀ search, searchArgs args.length search args =
      (runTokens search (SearchCommand.search line).tokens, (SearchCommand.search line).lastWord)) :
    grubCfgAsks (bytes "search") args = .root root := by
  obtain ⟨pre, known, rfl⟩ := searched.found
  have links : (SearchCommand.search line).links =
      line.before.flatMap (fun o => o.2.links o.1) ++ [(line.gap, .plain line.id)] := by
    simp [SearchCommand.links, searched.last]
  have tokens : (SearchCommand.search line).tokens =
      (line.before.flatMap fun o => o.2.links o.1).map (·.2) ++ [.plain line.id] := by
    rw [SearchCommand.tokens, links, List.map_append]
    rfl
  have last : (SearchCommand.search line).lastWord = line.id := by
    simp [SearchCommand.lastWord, tokens, SearchToken.text]
  -- the option that sets the root stands in front of the id, which is the last word
  have taken : TakenForRoot (SearchCommand.search line).tokens := by
    refine ⟨_, line.id, [], tokens, ?_, .inl rfl⟩
    have sets := searched.sets
    rw [SearchCommand.setsRoot, searched.last, List.append_nil] at sets
    obtain ⟨o, member, sets⟩ := List.any_eq_true.mp sets
    have inside : ∀ t ∈ (o.2.links o.1).map (·.2),
        t ∈ (line.before.flatMap fun o => o.2.links o.1).map (·.2) := fun t there => by
      obtain ⟨link, linked, rfl⟩ := List.mem_map.mp there
      exact List.mem_map_of_mem (List.mem_flatMap.mpr ⟨o, member, linked⟩)
    exact (setsRoot_links o.1 sets).imp (inside _) (inside _)
  have set_root := (SearchCommand.search line).run_setRoot.mpr taken
  have by_kind := (SearchCommand.search line).run_searchBy
  have name : (SearchCommand.search line).name = bytes "search" := rfl
  have asks : grubCfgAsks (bytes "search") args =
      searchedRoot (searchArgs args.length ⟨searchCommand (bytes "search"), false, false⟩ args).1
        (searchArgs args.length ⟨searchCommand (bytes "search"), false, false⟩ args).2 := rfl
  rw [asks, run, ← name, searchedRoot, if_pos set_root, by_kind, last]
  generalize (SearchCommand.search line).kind = kind at known
  rcases kind with _ | _ | _ | _ <;> cases known <;> rfl

theorem grubCfgAsks_foreign {word : Str} (unknown : word ∉ grubCfgNames) (args : Str) :
    grubCfgAsks word args = .nothing := by
  simp only [grubCfgNames, List.cons_append, List.nil_append, List.mem_cons, not_or] at unknown
  obtain ⟨menuentry, bracket, chainloader, set, linux, linux16, initrd, initrd16, search⟩ := unknown
  simp only [searchNames, List.mem_cons, List.not_mem_nil, or_false] at search
  rw [grubCfgAsks, if_neg menuentry, if_neg bracket, if_neg chainloader, if_neg set,
    if_neg (not_or.mpr ⟨linux, linux16⟩), if_neg (not_or.mpr ⟨initrd, initrd16⟩), if_neg search]

theorem grubCfgNames_leading : ∀ word ∈ grubCfgNames, LeadingWord word := by
  intro word member
  have all : ∀ word ∈ grubCfgNames, word ≠ [] ∧ word.head? ≠ some 35 ∧ ∀ c ∈ word, c ∉ blanks := by
    decide
  obtain ⟨nonempty, no_comment, whole⟩ := all word member
  exact ⟨nonempty, no_comment, whole⟩

/-- A name the loop knows, with a gap in front of its arguments. -/
theorem grubCfgLineCommand_known {indent word gap args : Str} (indented : Blank indent)
    (listed : word ∈ grubCfgNames) (gapped : Gap gap) (starts : ∀ c ∈ args.head?, c ∉ blanks)
    (one_line : ∀ c ∈ indent ++ (word ++ (gap ++ args)), c ∉ newlines) :
    grubCfgLineCommand (indent ++ (word ++ (gap ++ args))) = grubCfgAsks word args := by
  have apart : gap = [] → args = [] := fun none => absurd none gapped.nonempty
  exact grubCfgLineCommand_word indented (grubCfgNames_leading word listed) gapped.blank apart starts
    one_line

/-- The command of a line is the directive it spells. -/
theorem CfgText.command {text : Str} {d : Option CfgDirective} (spelled : CfgText text d)
    (one_line : ∀ c ∈ text, c ∉ newlines) :
    grubCfgLineCommand text = (d.map CfgDirective.command).getD .nothing := by
  cases spelled with
  | empty _ indented =>
    have text := @grubCfgText_line text [] indented (by simp) (by simp)
    rw [List.append_nil] at text
    rw [grubCfgLineCommand, text]
    rfl
  | comment indent text indented =>
    have text := @grubCfgText_line indent (35 :: text) indented (by simp; decide)
      fun c member => one_line c (List.mem_append_right _ member)
    rw [grubCfgLineCommand, text]
    rfl
  | foreign indent word rest indented nonempty no_comment whole unknown behind =>
    obtain ⟨gap, args, rfl, blank, apart, starts⟩ := behind.split
    rw [grubCfgLineCommand_word indented ⟨nonempty, no_comment, whole⟩ blank apart starts one_line]
    exact grubCfgAsks_foreign unknown args
  | default choice indent gap value indented gapped spelled =>
    have starts : ∀ c ∈ (bytes "default=" ++ value).head?, c ∉ blanks := by
      simp [bytes]; decide
    rw [grubCfgLineCommand_known indented (by decide) gapped starts one_line]
    exact spelled.asks
  | menuentry title indent gap quote rest indented gapped quoted free =>
    have starts : ∀ c ∈ (quote :: (title.str ++ quote :: rest)).head?, c ∉ blanks := by
      rcases quoted with rfl | rfl <;> simp [blanks] <;> decide
    rw [grubCfgLineCommand_known indented (by decide) gapped starts one_line]
    have asks : ∀ args, grubCfgAsks (bytes "menuentry") args =
        grub2Command args fun title _ => .menuentry title := fun _ => rfl
    obtain ⟨next, taken⟩ := grub2Val_quoted quoted free rest
    rw [asks, grub2Command, taken]
    rfl
  | search root indent line indented searched =>
    obtain ⟨gap, args, gapped, linked, starts, run⟩ := (SearchCommand.search line).args [] (by simp [Blank])
    rw [List.append_nil] at linked
    rw [linked] at one_line ⊢
    rw [grubCfgLineCommand_known indented (by decide) gapped starts one_line]
    simp only [List.append_nil] at run
    exact searched.asks run
  | linux kernel args indent word gap sep indented named gapped path blank apart starts =>
    have listed : word ∈ grubCfgNames := by rcases named with rfl | rfl <;> decide
    rw [grubCfgLineCommand_known indented listed gapped (path.starts _) one_line]
    have asks : grubCfgAsks word (kernel.str ++ (sep ++ args.str)) =
        grub2Command (kernel.str ++ (sep ++ args.str)) .linux := by
      rcases named with rfl | rfl <;> rfl
    obtain ⟨stop, behind⟩ := grub2Seps_skipped blank apart starts
    rw [asks, grub2Command, path.grub2Val stop, behind]
    rfl
  | initrd path indent word gap indented named gapped plain =>
    have listed : word ∈ grubCfgNames := by rcases named with rfl | rfl <;> decide
    have starts := plain.starts []
    rw [List.append_nil] at starts
    rw [grubCfgLineCommand_known indented listed gapped starts one_line]
    have asks : grubCfgAsks word path.str = grub2Command path.str fun path _ => .initrd path := by
      rcases named with rfl | rfl <;> rfl
    have taken := @PlainPath.grub2Val path.str [] plain (by simp)
    rw [List.append_nil] at taken
    rw [asks, grub2Command, taken]
    rfl
  | chainloader indent rest indented behind =>
    obtain ⟨gap, args, rfl, blank, apart, starts⟩ := behind.split
    rw [grubCfgLineCommand_word indented (grubCfgNames_leading _ (by decide)) blank apart
      starts one_line]
    rfl
  | bracket indent rest indented behind =>
    obtain ⟨gap, args, rfl, blank, apart, starts⟩ := behind.split
    rw [grubCfgLineCommand_word indented (grubCfgNames_leading _ (by decide)) blank apart
      starts one_line]
    rfl

/-! ### Running the directives -/

def CfgSetting.Sound : CfgSetting → Prop
  | search root => root.str ≠ []
  | linux kernel _ => kernel.str ≠ []
  | _ => True

def CfgDirective.Sound : CfgDirective → Prop
  | default choice => ∃ value, choice.Spelled value
  | setting s => s.Sound
  | _ => True

theorem CfgText.sound {text : Str} {d : CfgDirective} (spelled : CfgText text (some d)) : d.Sound := by
  cases spelled with
  | default choice indent gap value indented gapped spelled => exact ⟨value, spelled⟩
  | search root indent line indented searched =>
    obtain ⟨pre, -, root⟩ := searched.found
    rw [CfgDirective.Sound, CfgSetting.Sound, root]
    exact List.append_ne_nil_of_right_ne_nil _ line.named.nonempty
  | linux kernel args indent word gap sep indented named gapped path => exact path.nonempty
  | _ => trivial

/-- Between the entries: nothing is open and nothing is filled in. -/
structure Idle (st : GrubCfgState) : Prop where
  target : st.target = initTarget
  closed : st.entryStart = 0

/-- The state has the default that was chosen. -/
def Follows (st : GrubCfgState) (choice : Option CfgDefault) : Prop :=
  ∀ (index : Nat) (title : Str),
    (index : Int) = st.defaultIndex ∨ st.defaultTitle.any (klStreq ·.str title) = true ↔
      choice.any (·.marks index title) = true

theorem setDefault_follows (st : GrubCfgState) {choice : CfgDefault} {value : Str}
    (spelled : choice.Spelled value) : Follows (st.setDefault choice.text) (some choice) := by
  have number : ∀ digits : Str, digits ≠ [] → (∀ c ∈ digits, isdigit c = true) →
      numeral 10 digits < 2 ^ 31 → Follows (st.setDefault digits) (some (.number digits)) := by
    intro digits nonempty numeric small index title
    have value : atoi digits = numeral 10 digits := by
      rw [atoi_digits nonempty numeric]
      omega
    rw [GrubCfgState.setDefault, if_pos (List.all_eq_true.mpr numeric), value]
    simp [CfgDefault.marks]
  cases spelled with
  | bare _ nonempty numeric small => exact number _ nonempty numeric small
  | quoted digits nonempty numeric small => exact number digits nonempty numeric small
  | title title other no_submenu no_quote fits =>
    intro index entry
    have not_digits : ¬ title.all isdigit = true := by simpa using other
    have no_chr : (strchr title 62).isSome = false := by
      rw [Bool.eq_false_iff, ne_eq, strchr_isSome]
      exact no_submenu
    have stored : (strlcpy title : Buf 256).str = title := by
      rw [strlcpy_fits title fits]
    simp only [CfgDefault.text, GrubCfgState.setDefault, if_neg not_digits, no_chr, Bool.false_eq_true,
      if_false, Option.any_some, stored, klStreq_iff, CfgDefault.marks, decide_eq_true_eq]
    constructor
    · rintro (number | same)
      · omega
      · exact same.symm
    · exact fun same => .inr same.symm

theorem runCommands_settings (st : GrubCfgState) (body : List CfgSetting) :
    runCommands st (body.map CfgSetting.command) =
      .ok (st.withEntry ((body.map CfgSetting.command).foldl GrubCfgCommand.edit st.entry)) := by
  induction body generalizing st with
  | nil => rfl
  | cons setting body ih =>
    have here : setting.command.apply st = .ok (st.withEntry (setting.command.edit st.entry)) := by
      cases setting <;> rfl
    rw [List.map_cons, runCommands_cons, here]
    exact ih _

theorem latest_command {α : Type} {field : GrubCfgCommand → Option α} {own : CfgSetting → Option α}
    (same : ∀ s : CfgSetting, field s.command = own s) (body : List CfgSetting) :
    latest field (body.map CfgSetting.command) = latest own body := by
  rw [latest, List.filterMap_map]
  exact congrArg (fun f => (body.filterMap f).getLast?) (funext same)

/-- A target filled with the settings of an entry. -/
theorem givenLast_settings (t : KlTarget) (body : List CfgSetting) :
    givenLast t (body.map CfgSetting.command) = { t with
      root := (latest CfgSetting.root? body).getD t.root
      kernel := ((latest CfgSetting.linux? body).getD (t.kernel, t.append)).1
      append := ((latest CfgSetting.linux? body).getD (t.kernel, t.append)).2
      initrd := (latest CfgSetting.initrd? body).getD t.initrd } := by
  have title : latest GrubCfgCommand.title? (body.map CfgSetting.command) = none := by
    refine List.getLast?_eq_none_iff.mpr (List.filterMap_eq_nil_iff.mpr fun c member => ?_)
    obtain ⟨s, -, rfl⟩ := List.mem_map.mp member
    cases s <;> rfl
  have root : latest GrubCfgCommand.root? (body.map CfgSetting.command) = latest CfgSetting.root? body :=
    latest_command (fun s => by
      cases s <;> simp [CfgSetting.command, GrubCfgCommand.root?, CfgSetting.root?]) body
  have linux : latest GrubCfgCommand.linux? (body.map CfgSetting.command) = latest CfgSetting.linux? body :=
    latest_command (fun s => by
      cases s <;> simp [CfgSetting.command, GrubCfgCommand.linux?, CfgSetting.linux?]) body
  have initrd : latest GrubCfgCommand.initrd? (body.map CfgSetting.command) =
      latest CfgSetting.initrd? body :=
    latest_command (fun s => by
      cases s <;> simp [CfgSetting.command, GrubCfgCommand.initrd?, CfgSetting.initrd?]) body
  rw [givenLast, title, root, linux, initrd, Option.getD_none]

theorem latest_mem {κ α : Type} {f : κ → Option α} {lines : List κ} {a : α}
    (found : latest f lines = some a) : ∃ k ∈ lines, f k = some a :=
  List.mem_filterMap.mp (List.mem_of_getLast? found)

theorem settings_skip (t : KlTarget) (body : List CfgSetting) :
    ((body.map CfgSetting.command).foldl GrubCfgCommand.edit ⟨t, false⟩).skip = true ↔
      .chainloader ∈ body := by
  rw [foldl_edit_skip]
  · simp only [Bool.false_eq_true, false_or, List.mem_map]
    constructor
    · rintro ⟨s, member, same⟩
      cases s <;> cases same
      exact member
    · exact fun member => ⟨_, member, rfl⟩
  · intro c member
    obtain ⟨s, -, rfl⟩ := List.mem_map.mp member
    cases s <;> rfl

/-- What an entry is filled with is its target, if it has one. -/
theorem settings_finished (e : CfgEntry) (sound : ∀ s ∈ e.body, s.Sound) (flags : Nat) :
    ((e.body.map CfgSetting.command).foldl GrubCfgCommand.edit
      ⟨{ initTarget with title := e.title, flags := flags }, false⟩).finished =
        (e.target flags).toList := by
  have skip := settings_skip { initTarget with title := e.title, flags := flags } e.body
  have target := foldl_edit_target ⟨{ initTarget with title := e.title, flags := flags }, false⟩
    (e.body.map CfgSetting.command)
  rw [givenLast_settings] at target
  rw [MenuEntry.finished, target, CfgEntry.target]
  by_cases skipped : .chainloader ∈ e.body
  · rw [if_pos (skip.mpr skipped), if_pos skipped]
    rfl
  rw [if_neg (mt skip.mp skipped), if_neg skipped, finished]
  cases root : latest CfgSetting.root? e.body with
  | none => exact if_pos (.inl rfl)
  | some root_buf =>
    have has_root : root_buf.str ≠ [] := by
      obtain ⟨s, member, given⟩ := latest_mem root
      cases s <;> cases given
      exact sound _ member
    cases linux : latest CfgSetting.linux? e.body with
    | none => exact if_pos (.inr rfl)
    | some pair =>
      have has_kernel : pair.1.str ≠ [] := by
        obtain ⟨s, member, given⟩ := latest_mem linux
        cases s <;> cases given
        exact sound _ member
      exact if_neg (not_or.mpr ⟨has_root, has_kernel⟩)

/-- Running an entry adds its target. -/
theorem runCommands_entry {st : GrubCfgState} (idle : Idle st) (e : CfgEntry)
    (sound : ∀ s ∈ e.body, s.Sound) :
    ∃ st', runCommands st (e.directives.map CfgDirective.command) = .ok st' ∧ Idle st' ∧
      st'.settings.targets = st.settings.targets ++
        (e.target (if st.Chosen e.title.str then TARGET_DEFAULT else 0)).toList ∧
      st'.curIndex = st.curIndex + 1 ∧ st'.defaultIndex = st.defaultIndex ∧
      st'.defaultTitle = st.defaultTitle := by
  let opened : GrubCfgState := { st with
    target := { initTarget with
      title := e.title
      flags := if st.Chosen e.title.str then TARGET_DEFAULT else 0 }
    skipEntry := false
    curIndex := st.curIndex + 1
    entryStart := 1 }
  have menuentry : (CfgDirective.menuentry e.title).command.apply st = .ok opened := by
    simp only [CfgDirective.command, GrubCfgCommand.apply, GrubCfgCommand.edit, GrubCfgState.entry,
      GrubCfgState.mark, GrubCfgState.withEntry, idle.target, strlcpy_buf]
    rfl
  have body : (e.body.map CfgDirective.setting).map CfgDirective.command = e.body.map CfgSetting.command := by
    rw [List.map_map]
    rfl
  have split : e.directives.map CfgDirective.command =
      (CfgDirective.menuentry e.title).command :: (e.body.map CfgSetting.command ++ [.close]) := by
    rw [CfgEntry.directives, List.map_cons, List.map_append, body]
    rfl
  refine ⟨(opened.withEntry ((e.body.map CfgSetting.command).foldl GrubCfgCommand.edit opened.entry)).closed,
    ?_, ⟨rfl, rfl⟩, ?_, rfl, rfl, rfl⟩
  · rw [split, runCommands_cons, menuentry]
    exact (runCommands_append opened _ _).trans (by rw [runCommands_settings]; rfl)
  · exact congrArg (st.settings.targets ++ ·) (settings_finished e sound _)

theorem entryTargets_cons (choice : Option CfgDefault) (first : Nat) (e : CfgEntry)
    (entries : List CfgEntry) : entryTargets choice first (e :: entries) =
      (e.target (defaultFlag choice first e.title.str)).toList ++
        entryTargets choice (first + 1) entries := by
  simp only [entryTargets, List.zipIdx_cons, List.filterMap_cons]
  cases e.target (defaultFlag choice first e.title.str) <;> rfl

/-- Running the items adds the targets of the entries. -/
theorem runCommands_items {st : GrubCfgState} (idle : Idle st) {choice : Option CfgDefault}
    (follows : Follows st choice) (items : List CfgItem)
    (sound : ∀ d ∈ items.flatMap CfgItem.directives, d.Sound) :
    ∃ st', runCommands st ((items.flatMap CfgItem.directives).map CfgDirective.command) = .ok st' ∧
      st'.settings.targets = st.settings.targets ++
        entryTargets choice st.curIndex (items.filterMap CfgItem.entry?) := by
  induction items generalizing st with
  | nil => exact ⟨st, rfl, (List.append_nil _).symm⟩
  | cons item items ih =>
    rw [List.flatMap_cons] at sound
    have later := fun d member => sound d (List.mem_append_right _ member)
    rw [List.flatMap_cons, List.map_append]
    cases item with
    | bracket =>
      -- nothing is open that it could close
      have closed : GrubCfgCommand.close.apply st = .ok st := congrArg Except.ok (if_pos idle.closed)
      obtain ⟨st', run, targets⟩ := ih idle follows later
      refine ⟨st', ?_, targets⟩
      have front : CfgItem.bracket.directives.map CfgDirective.command = [.close] := rfl
      rw [front, List.singleton_append, runCommands_cons, closed]
      exact run
    | entry e =>
      have settings : ∀ s ∈ e.body, s.Sound := fun s member =>
        sound (.setting s) (List.mem_append_left _ (by simp [CfgItem.directives, CfgEntry.directives, member]))
      obtain ⟨next, run, idle', targets, index, number, title⟩ := runCommands_entry idle e settings
      have follows' : Follows next choice := by
        rw [Follows, number, title]
        exact follows
      obtain ⟨st', rest, targets'⟩ := ih idle' follows' later
      have flag : (if st.Chosen e.title.str then TARGET_DEFAULT else 0) =
          defaultFlag choice st.curIndex e.title.str := by
        rw [defaultFlag]
        simp only [← follows st.curIndex e.title.str]
        rfl
      refine ⟨st', ?_, ?_⟩
      · rw [runCommands_append, CfgItem.directives, run]
        exact rest
      · rw [targets', targets, index, flag, List.append_assoc, List.filterMap_cons, CfgItem.entry?,
          entryTargets_cons]

/-! ### Reading the file -/

/-- The line feed of a line does not matter. -/
theorem grubCfgText_lf (line : Str) : grubCfgText (cstr (line ++ [lf])) = grubCfgText (cstr line) := by
  by_cases nul : 0 ∈ line
  · obtain ⟨front, rest, rfl, no_nul⟩ := List.eq_append_cons_of_mem nul
    rw [List.append_assoc, cstr_append _ no_nul, cstr_append _ no_nul, List.cons_append, cstr_nul,
      cstr_nul]
  · have ended : cstr [lf] = [lf] := rfl
    rw [cstr_append _ nul, cstr_of_no_nul nul, ended, grubCfgText, grubCfgText, List.dropWhile_append]
    split
    next blank =>
      rw [List.isEmpty_iff.mp blank]
      rfl
    next => exact takeWhile_concat _ (by decide)

/-- A round on a line, unless the loop has ended. -/
def cfgRound (r : GrubCfgEnd) (line : Str) : GrubCfgEnd :=
  r.bind fun st => (grubCfgLineCommand line).apply st

theorem foldl_cfgRound (r : GrubCfgEnd) (lines : List Str) :
    lines.foldl cfgRound r = r.bind fun st => runCommands st (lines.map grubCfgLineCommand) := by
  induction lines generalizing r with
  | nil => cases r <;> rfl
  | cons line lines ih =>
    rw [List.foldl_cons, ih]
    cases r <;> rfl

/-- A file of short lines is read line by line. -/
theorem loadGrub2Cfg_lines (s : Settings) {content : Str}
    (short : ∀ line ∈ fileLines content, line.length ≤ 1022) (no_nul : 0 ∉ content) :
    (loadGrub2Cfg s (.ok content)).silent = endSettings (runCommands (grubCfgStart s.silent)
      ((fileLines content).map grubCfgLineCommand)) := by
  have read := foldl_fileLines 1022 cfgRound (.ok (grubCfgStart s.silent)) content
    (fun r line _ => by
      rw [cfgRound, cfgRound, grubCfgLineCommand, grubCfgLineCommand, grubCfgText_lf])
    (fun r => by cases r <;> rfl) short
  have whole : (fileLines content).map cstr = fileLines content := by
    refine (List.map_congr_left fun line member => ?_).trans (List.map_id _)
    exact cstr_of_no_nul fun zero => no_nul ((mem_fileLines member).2 0 zero)
  rw [foldl_cfgRound, foldl_cfgRound, whole] at read
  rw [loadGrub2Cfg_commands]
  exact congrArg endSettings read

/-- The lines ask for the directives they hold. -/
theorem runCommands_held (st : GrubCfgState) {lines : List Str} {held : List (Option CfgDirective)}
    (spelled : List.Forall₂ CfgText lines held)
    (one_line : ∀ line ∈ lines, ∀ c ∈ line, c ∉ newlines) :
    runCommands st (lines.map grubCfgLineCommand) =
      runCommands st ((held.filterMap id).map CfgDirective.command) := by
  induction spelled generalizing st with
  | nil => rfl
  | @cons line d lines held here _ ih =>
    have command := here.command (one_line line List.mem_cons_self)
    have later := fun st => ih st fun l member => one_line l (List.mem_cons_of_mem _ member)
    rw [List.map_cons, runCommands_cons, command]
    cases d with
    | none => exact later st
    | some d =>
      have kept : (some d :: held).filterMap id = d :: held.filterMap id := rfl
      rw [kept, List.map_cons, runCommands_cons]
      exact congrArg _ (funext later)

theorem held_sound {lines : List Str} {held : List (Option CfgDirective)}
    (spelled : List.Forall₂ CfgText lines held) : ∀ d ∈ held.filterMap id, d.Sound := by
  induction spelled with
  | nil => simp
  | @cons line d lines held here _ ih =>
    cases d with
    | none => exact ih
    | some d =>
      have kept : (some d :: held).filterMap id = d :: held.filterMap id := rfl
      intro other member
      rw [kept] at member
      rcases List.mem_cons.mp member with rfl | member
      · exact here.sound
      · exact ih other member

/-- Reading a file of entries adds the targets of those that have a root and a kernel
and load nothing else, in order. -/
theorem loadGrub2Cfg_entries (s : Settings) (content : Str) (choice : Option CfgDefault)
    (items : List CfgItem)
    (file : CfgFile content
      (choice.toList.map .default ++ items.flatMap CfgItem.directives)) :
    (loadGrub2Cfg s (.ok content)).targets =
      s.targets ++ entryTargets choice 0 (items.filterMap CfgItem.entry?) := by
  obtain ⟨held, spelled, laid_out⟩ := file.spelled
  have no_nul : 0 ∉ content := fun member => (file.text 0 member).1 rfl
  have one_line : ∀ line ∈ fileLines content, ∀ c ∈ line, c ∉ newlines := by
    intro line member c inside
    obtain ⟨no_lf, within⟩ := mem_fileLines member
    have no_cr := (file.text c (within c inside)).2
    have other : c ≠ lf := fun same => no_lf (same ▸ inside)
    simp [newlines, no_cr, other]
  have sound := held_sound spelled
  rw [laid_out] at sound
  have read := loadGrub2Cfg_lines s file.short no_nul
  rw [runCommands_held _ spelled one_line, laid_out, List.map_append, runCommands_append] at read
  -- the line with the default is read first
  obtain ⟨st, first, idle, follows, same⟩ : ∃ st,
      runCommands (grubCfgStart s.silent) ((choice.toList.map CfgDirective.default).map
        CfgDirective.command) = .ok st ∧ Idle st ∧ Follows st choice ∧
      st.settings.targets = s.targets ∧ st.curIndex = 0 := by
    cases choice with
    | none => exact ⟨_, rfl, ⟨rfl, rfl⟩, fun index title => by simp [grubCfgStart], rfl, rfl⟩
    | some choice =>
      obtain ⟨value, spelled⟩ := sound (.default choice) (by simp)
      refine ⟨_, rfl, ?_, setDefault_follows _ spelled, ?_⟩ <;> rw [GrubCfgState.setDefault] <;>
        split <;> exact ⟨rfl, rfl⟩
  obtain ⟨end_state, rest, added⟩ := runCommands_items idle follows items
    fun d member => sound d (List.mem_append_right _ member)
  have run : endSettings ((runCommands (grubCfgStart s.silent) ((choice.toList.map CfgDirective.default).map
      CfgDirective.command)).bind fun st => runCommands st ((items.flatMap CfgItem.directives).map
        CfgDirective.command)) = end_state.settings := by
    rw [first]
    exact congrArg endSettings rest
  have targets := congrArg Settings.targets (read.trans run)
  rw [added, same.1, same.2] at targets
  exact targets

/-- An entry chosen by its title, with a comment and a command that is not read. -/
theorem loadGrub2Cfg_entries_debian :
    let lines := [bytes "set default=\"Debian\"", bytes "# menu", bytes "menuentry 'Debian' os \x7b",
      bytes "\tinsmod ext2", bytes "\tsearch --fs-uuid --set=root 1234", bytes "\tlinux /vmlinuz ro",
      bytes "\x7d"]
    (loadGrub2Cfg initSettings (.ok (lines.flatMap (· ++ [lf])))).targets =
      [{ initTarget with
        title := strlcpy (bytes "Debian")
        flags := TARGET_DEFAULT
        root := strlcpy (bytes "UUID=1234")
        kernel := strlcpy (bytes "/vmlinuz")
        append := strlcpy (bytes "ro") }] := by
  intro lines
  have gap : Gap [space] := ⟨by decide, by decide⟩
  have root : SearchName (bytes "root") := ⟨⟨by decide, by decide⟩, by decide⟩
  let search : PlainSearch :=
    ⟨[([space], .by .fsUuid false), ([space], .setTo none (bytes "root"))], [space], bytes "1234", [],
      by simp [SearchOption.Sound, gap, root], gap, ⟨⟨by decide, by decide⟩, by decide⟩⟩
  let entry : CfgEntry := ⟨strlcpy (bytes "Debian"),
    [.search (strlcpy (bytes "UUID=1234")), .linux (strlcpy (bytes "/vmlinuz")) (strlcpy (bytes "ro"))]⟩
  have read := fileLines_lines lines (by decide)
  have spelled : List.Forall₂ CfgText (lines ++ [[]]) _ :=
    .cons (.default (.titled (bytes "Debian")) [] [space] _ (by decide) gap
      (.title _ (by decide) (by decide) (by decide) (by decide))) <|
    .cons (.comment [] (bytes " menu") (by decide)) <|
    .cons (.menuentry (strlcpy (bytes "Debian")) [] [space] 39 (bytes " os \x7b") (by decide) gap (.inl rfl)
      (by decide)) <|
    .cons (.foreign [tab] (bytes "insmod") (bytes " ext2") (by decide) (by decide) (by decide) (by decide)
      (by decide) (by decide)) <|
    .cons (.search (strlcpy (bytes "UUID=1234")) [tab] search (by decide)
      ⟨rfl, rfl, bytes "UUID=", rfl, rfl⟩) <|
    .cons (.linux (strlcpy (bytes "/vmlinuz")) (strlcpy (bytes "ro")) [tab] _ [space] [space] (by decide)
      (.inl rfl) gap ⟨by decide, by decide⟩ (by decide) (by decide) (by decide)) <|
    .cons (.bracket [] [] (by decide) (by decide)) <| .cons (.empty [] (by decide)) .nil
  exact loadGrub2Cfg_entries initSettings _ (some (.titled (bytes "Debian"))) [.entry entry]
    ⟨by decide, read ▸ by decide, _, read ▸ spelled, rfl⟩

end KexecLoader
