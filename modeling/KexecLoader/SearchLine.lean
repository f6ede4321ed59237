import KexecLoader.GrubCfg

/-!
# Search commands of grub.cfg

A line is seen as the options its words are, each behind some blanks. The loop over
the arguments finds the same words, and takes for the id what it ends at; of a
variable it compares as many bytes as it has.
-/
namespace KexecLoader

inductive SearchKind where
  | file
  | fsLabel
  | fsUuid
deriving DecidableEq

def SearchKind.by : SearchKind → SearchBy
  | .file => .file
  | .fsLabel => .fsLabel
  | .fsUuid => .fsUuid

/-- The option for a kind, short or long. -/
def SearchKind.option : SearchKind → Bool → Str
  | .file, short => if short then bytes "-f" else bytes "--file"
  | .fsLabel, short => if short then bytes "-l" else bytes "--label"
  | .fsUuid, short => if short then bytes "-u" else bytes "--fs-uuid"

/-- What the loop tells apart. -/
inductive SearchToken where
  | by (kind : SearchKind) (short : Bool)
  | set
  | assign
  | plain (word : Str)
deriving DecidableEq

def SearchToken.text : SearchToken → Str
  | .by kind short => kind.option short
  | .set => bytes "--set"
  | .assign => bytes "--set="
  | .plain word => word

/-- A word without blanks. -/
structure OneWord (w : Str) : Prop where
  nonempty : w ≠ []
  whole : ∀ c ∈ w, c ∉ newlines ++ blanks

/-- A word that does not look like an option of the loop, not even in part. -/
structure PlainWord (w : Str) : Prop extends OneWord w where
  not_kind : ∀ kind short, ¬ w <+: SearchKind.option kind short
  not_set : ¬ w <+: bytes "--set"
  not_assign : ¬ bytes "--set=" <+: w

def SearchToken.Sound : SearchToken → Prop
  | .plain word => PlainWord word
  | _ => True

/-! ### One word -/

/-- `strncmp` with the length of a word. -/
theorem klStrneq_word (w rest pat : Str) : klStrneq (w ++ rest) pat w.length = true ↔ w <+: pat := by
  induction w generalizing pat with
  | nil => simp [klStrneq]
  | cons a w ih =>
    cases pat with
    | nil => simp [klStrneq]
    | cons b pat => simp [klStrneq, ih, List.cons_prefix_cons]

/-- What a word does to the variables of the loop. -/
def tokenStep (st : SearchState) (isLast : Bool) : SearchToken → SearchState
  | .by kind _ => { st with searchBy := kind.by }
  | .set => { st with lSet := true }
  | .assign => { st with lSet := true }
  | .plain word =>
    if st.lSet = true ∧ (isLast = true ∨ word <+: bytes "root") then
      { st with setRoot := true, lSet := false }
    else st

theorem searchArg_by (st : SearchState) (kind : SearchKind) (short : Bool) (rest : Str) (isLast : Bool) :
    searchArg st (kind.option short ++ rest) (kind.option short).length isLast =
      tokenStep st isLast (.by kind short) := by
  have prefixes : ∀ pat : Str, (klStrneq (kind.option short ++ rest) pat (kind.option short).length = true) =
      (kind.option short <+: pat) := fun pat => propext (klStrneq_word _ _ _)
  simp only [searchArg, Bool.or_eq_true, prefixes]
  cases kind <;> cases short <;> rfl

theorem searchArg_set (st : SearchState) (rest : Str) (isLast : Bool) :
    searchArg st (bytes "--set" ++ rest) 5 isLast = { st with lSet := true } := by
  have prefixes : ∀ pat : Str, (klStrneq (bytes "--set" ++ rest) pat 5 = true) = (bytes "--set" <+: pat) :=
    fun pat => propext (klStrneq_word (bytes "--set") rest pat)
  simp only [searchArg, Bool.or_eq_true, prefixes]
  rfl

theorem searchArg_plain (st : SearchState) {word : Str} (plain : PlainWord word) (rest : Str) (isLast : Bool) :
    searchArg st (word ++ rest) word.length isLast = tokenStep st isLast (.plain word) := by
  have prefixes : ∀ pat : Str, (klStrneq (word ++ rest) pat word.length = true) = (word <+: pat) :=
    fun pat => propext (klStrneq_word _ _ _)
  have file := And.intro (plain.not_kind .file true) (plain.not_kind .file false)
  have label := And.intro (plain.not_kind .fsLabel true) (plain.not_kind .fsLabel false)
  have uuid := And.intro (plain.not_kind .fsUuid true) (plain.not_kind .fsUuid false)
  simp only [SearchKind.option, if_true, Bool.false_eq_true, if_false] at file label uuid
  simp only [searchArg, Bool.or_eq_true, Bool.and_eq_true, prefixes, file, label, uuid, plain.not_set,
    or_self, if_false, tokenStep]

/-! ### The words of a line -/

/-- Words with what stands in front of them, behind a token: blanks, but nothing
behind the equals sign. -/
inductive Linked : SearchToken → List (Str × SearchToken) → Prop where
  | nil {t : SearchToken} : t ≠ .assign → Linked t []
  | gap {t next : SearchToken} {gap : Str} {rest : List (Str × SearchToken)} : t ≠ .assign → gap ≠ [] →
      Blank gap → next.Sound → Linked next rest → Linked t ((gap, next) :: rest)
  | assigned {word : Str} {rest : List (Str × SearchToken)} : PlainWord word →
      Linked (.plain word) rest → Linked .assign (([], .plain word) :: rest)

def linksText (links : List (Str × SearchToken)) : Str := links.flatMap fun l => l.1 ++ l.2.text

/-- The tokens one after another, the last one told apart. -/
def runTokens (st : SearchState) : List SearchToken → SearchState
  | [] => st
  | t :: rest => runTokens (tokenStep st rest.isEmpty t) rest

/-- The word the loop ends at. -/
def lastToken : SearchToken → List (Str × SearchToken) → SearchToken
  | t, [] => t
  | _, (_, next) :: rest => lastToken next rest

/-- A token is text without blanks, and an assignment only when it is meant as one. -/
theorem SearchToken.Sound.text {t : SearchToken} (sound : t.Sound) :
    t.text ≠ [] ∧ (∀ c ∈ t.text, c ∉ blanks) := by
  cases t with
  | «by» kind short => cases kind <;> cases short <;> decide
  | set => decide
  | assign => decide
  | plain word =>
    exact ⟨sound.nonempty, fun c member blank => sound.whole c member (List.mem_append_right _ blank)⟩

theorem SearchToken.Sound.not_assign {t : SearchToken} (sound : t.Sound) (other : t ≠ .assign) :
    ¬ bytes "--set=" <+: t.text := by
  cases t with
  | «by» kind short => cases kind <;> cases short <;> decide
  | set => decide
  | assign => exact absurd rfl other
  | plain word => exact PlainWord.not_assign sound

theorem searchArg_token (st : SearchState) {t : SearchToken} (sound : t.Sound)
    (other : t ≠ .assign) (rest : Str)
    (isLast : Bool) : searchArg st (t.text ++ rest) t.text.length isLast = tokenStep st isLast t := by
  cases t with
  | «by» kind short => exact searchArg_by st kind short rest isLast
  | set => exact searchArg_set st rest isLast
  | assign => exact absurd rfl other
  | plain word => exact searchArg_plain st sound rest isLast

/-- One round of the loop: a word and the blanks behind it. -/
theorem searchArgs_word (fuel : Nat) (st : SearchState) {t : SearchToken} (sound : t.Sound)
    (other : t ≠ .assign) (gap next : Str) (blank : Blank gap) (apart : gap = [] → next = [])
    (starts : ∀ c ∈ next.head?, c ∉ blanks) :
    searchArgs (fuel + 1) st (t.text ++ (gap ++ next)) =
      if next = [] then (tokenStep st next.isEmpty t, t.text ++ (gap ++ next))
      else searchArgs fuel (tokenStep st next.isEmpty t) next := by
  obtain ⟨nonempty, whole⟩ := sound.text
  have stop : ∀ c ∈ (gap ++ next).head?, c ∈ blanks := by
    intro c first
    rcases gap with _ | ⟨b, gap⟩
    · rw [apart rfl] at first
      cases first
    · exact blank c (by simp_all)
  have not_assigned : klStrneq (t.text ++ (gap ++ next)) (bytes "--set=") 6 = false := by
    rw [← Bool.not_eq_true]
    intro assigned
    have assigned : bytes "--set=" <+: t.text ++ (gap ++ next) := (klStrneq_iff _ (bytes "--set=")).mp assigned
    -- the equals sign would have to stand in the word
    obtain front | ⟨more, longer⟩ := List.prefix_or_prefix_of_prefix assigned (List.prefix_append t.text _)
    · exact sound.not_assign other front
    · obtain ⟨behind, split⟩ := assigned
      rw [← longer, List.append_assoc, List.append_cancel_left_eq] at split
      rcases more with _ | ⟨c, more⟩
      · rw [List.append_nil] at longer
        exact sound.not_assign other (longer ▸ List.prefix_rfl)
      · have letters : ∀ c ∈ bytes "--set=", c ∉ blanks := by decide
        exact letters c (by rw [← longer]; simp) (stop c (by rw [← split]; rfl))
  have len := strcspn_stop whole stop
  have skipped := drop_strspn_stop blank starts
  have args : t.text ++ (gap ++ next) ≠ [] := by simp [nonempty]
  rw [searchArgs, if_neg args]
  simp only [not_assigned, Bool.false_eq_true, if_false, len, List.drop_left, skipped,
    searchArg_token st sound other]

/-- The round that takes `--set=`. -/
theorem searchArgs_assign (fuel : Nat) (st : SearchState) (next : Str) (some_text : next ≠ []) :
    searchArgs (fuel + 1) st (bytes "--set=" ++ next) = searchArgs fuel { st with lSet := true } next := by
  have assigned : klStrneq (bytes "--set=" ++ next) (bytes "--set=") 6 = true :=
    (klStrneq_iff _ (bytes "--set=")).mpr (List.prefix_append _ _)
  have dropped : (bytes "--set=" ++ next).drop 6 = next := @List.drop_left _ (bytes "--set=") next
  have step : searchArg st (bytes "--set=" ++ next) 5 next.isEmpty = { st with lSet := true } :=
    searchArg_set st (61 :: next) next.isEmpty
  have args : bytes "--set=" ++ next ≠ [] := by simp [some_text]
  rw [searchArgs, if_neg args]
  simp only [assigned, if_true, dropped, step, some_text, if_false]

/-- The loop finds the words of the line. -/
theorem searchArgs_links {t : SearchToken} {links : List (Str × SearchToken)} (linked : Linked t links)
    (sound : t.Sound) {trailing : Str} (blank : Blank trailing) (fuel : Nat) (st : SearchState)
    (enough : (t.text ++ (linksText links ++ trailing)).length ≤ fuel) :
    searchArgs fuel st (t.text ++ (linksText links ++ trailing)) =
      (runTokens st (t :: links.map (·.2)), (lastToken t links).text ++ trailing) := by
  induction linked generalizing fuel st with
  | nil other =>
    have size := List.length_pos_iff.mpr sound.text.1
    rw [List.length_append] at enough
    obtain ⟨fuel, rfl⟩ : ∃ f, fuel = f + 1 := ⟨fuel - 1, by omega⟩
    have round := searchArgs_word fuel st sound other trailing [] blank (fun _ => rfl) (by simp)
    rw [List.append_nil, if_pos rfl] at round
    exact round
  | @gap t next gap rest other apart between next_sound linked ih =>
    -- a word, the white space behind it, and the loop goes on at the next
    have text : linksText ((gap, next) :: rest) ++ trailing =
        gap ++ (next.text ++ (linksText rest ++ trailing)) := by simp [linksText]
    rw [text] at enough ⊢
    have size := List.length_pos_iff.mpr sound.text.1
    rw [List.length_append, List.length_append] at enough
    obtain ⟨fuel, rfl⟩ : ∃ f, fuel = f + 1 := ⟨fuel - 1, by omega⟩
    obtain ⟨c, word, cons⟩ := List.exists_cons_of_ne_nil next_sound.text.1
    have starts : ∀ b ∈ (next.text ++ (linksText rest ++ trailing)).head?, b ∉ blanks := by
      intro b first
      obtain rfl : c = b := by simpa [cons] using first
      exact next_sound.text.2 c (by simp [cons])
    have more : next.text ++ (linksText rest ++ trailing) ≠ [] := by simp [cons]
    rw [searchArgs_word fuel st sound other gap _ between (fun none => absurd none apart) starts, if_neg more,
      ih next_sound fuel _ (by omega)]
    simp [cons, runTokens, lastToken]
  | @assigned word rest plain linked ih =>
    -- `--set=` and its value are two rounds with nothing between them
    have text : linksText (([], .plain word) :: rest) ++ trailing =
        word ++ (linksText rest ++ trailing) := by simp [linksText, SearchToken.text]
    rw [text] at enough ⊢
    rw [List.length_append] at enough
    have size : 0 < SearchToken.assign.text.length := by decide
    obtain ⟨fuel, rfl⟩ : ∃ f, fuel = f + 1 := ⟨fuel - 1, by omega⟩
    have more : word ++ (linksText rest ++ trailing) ≠ [] := by simp [plain.nonempty]
    have round := searchArgs_assign fuel st _ more
    have later := ih plain fuel { st with lSet := true } (by
      rw [SearchToken.text]
      omega)
    exact round.trans later

/-- Where the next round of the loop starts. -/
def searchNext (args : Str) : Str :=
  if klStrneq args (bytes "--set=") 6 then args.drop 6
  else (args.drop (strcspn args blanks)).drop (strspn (args.drop (strcspn args blanks)) blanks)

theorem searchArgs_round (st : SearchState) {args : Str} (more : args ≠ []) :
    ∃ st', ∀ fuel, searchArgs (fuel + 1) st args =
      if searchNext args = [] then (st', args) else searchArgs fuel st' (searchNext args) := by
  refine ⟨searchArg st args (if klStrneq args (bytes "--set=") 6 then 5 else strcspn args blanks)
    (searchNext args).isEmpty, fun fuel => ?_⟩
  rw [searchArgs, if_neg more]
  cases assigned : klStrneq args (bytes "--set=") 6 <;>
    simp only [searchNext, assigned, if_true, if_false, Bool.false_eq_true]

/-- Every round takes some of the line. -/
theorem searchNext_shorter {args : Str} (more : args ≠ []) : (searchNext args).length < args.length := by
  have size := List.length_pos_iff.mpr more
  unfold searchNext
  split
  · rw [List.length_drop]
    omega
  · rw [drop_strspn, drop_strcspn]
    obtain ⟨c, rest, rfl⟩ := List.exists_cons_of_ne_nil more
    by_cases blank : c ∈ blanks
    · -- a blank in front is skipped
      rw [List.dropWhile_cons_of_neg (by simpa using blank), List.dropWhile_cons_of_pos (by simpa using blank)]
      exact Nat.lt_succ_of_le (length_dropWhile_le _ rest)
    · rw [List.dropWhile_cons_of_pos (by simpa using blank)]
      exact Nat.lt_succ_of_le ((length_dropWhile_le _ _).trans (length_dropWhile_le _ rest))

/-- The loop ends on every line: its rounds are no more than the bytes. -/
theorem searchArgs_ends (fuel more : Nat) (st : SearchState) (args : Str) (enough : args.length ≤ fuel)
    (plenty : args.length ≤ more) : searchArgs fuel st args = searchArgs more st args := by
  induction fuel generalizing more st args with
  | zero =>
    obtain rfl := List.eq_nil_of_length_eq_zero (Nat.le_zero.mp enough)
    cases more <;> rfl
  | succ fuel ih =>
    by_cases ended : args = []
    · subst ended
      cases more <;> rfl
    · have size := List.length_pos_iff.mpr ended
      have shorter := searchNext_shorter ended
      obtain ⟨more, rfl⟩ : ∃ m, more = m + 1 := ⟨more - 1, by omega⟩
      obtain ⟨st', round⟩ := searchArgs_round st ended
      rw [round, round]
      split
      · rfl
      · exact ih more st' _ (by omega) (by omega)

/-! ### What the words amount to -/

/-- The kind named last. -/
def lastKind (init : SearchBy) (tokens : List SearchToken) : SearchBy :=
  tokens.foldl (fun by_so_far t =>
    match t with
    | .by kind _ => kind.by
    | _ => by_so_far) init

theorem runTokens_searchBy (st : SearchState) (tokens : List SearchToken) :
    (runTokens st tokens).searchBy = lastKind st.searchBy tokens := by
  induction tokens generalizing st with
  | nil => rfl
  | cons t rest ih =>
    rw [runTokens, ih]
    cases t with
    | plain word =>
      rw [tokenStep]
      split <;> rfl
    | _ => rfl

/-- Some word behind a `--set` is the last one, or begins the word root. -/
def TakenForRoot (tokens : List SearchToken) : Prop :=
  ∃ front word back, tokens = front ++ .plain word :: back ∧ (.set ∈ front ∨ .assign ∈ front) ∧
    (back = [] ∨ word <+: bytes "root")

/-- The same when a `--set` stands in front of the words. -/
def TakenPending (tokens : List SearchToken) : Prop :=
  ∃ front word back, tokens = front ++ .plain word :: back ∧ (back = [] ∨ word <+: bytes "root")

theorem takenPending_cons (t : SearchToken) (rest : List SearchToken) : TakenPending (t :: rest) ↔
    (∃ word, t = .plain word ∧ (rest = [] ∨ word <+: bytes "root")) ∨ TakenPending rest := by
  constructor
  · rintro ⟨_ | ⟨first, front⟩, word, back, split, taken⟩
    · obtain ⟨rfl, rfl⟩ := List.cons.inj split
      exact .inl ⟨word, rfl, taken⟩
    · obtain ⟨rfl, rfl⟩ := List.cons.inj split
      exact .inr ⟨front, word, back, rfl, taken⟩
  · rintro (⟨word, rfl, taken⟩ | ⟨front, word, back, rfl, taken⟩)
    · exact ⟨[], word, rest, rfl, taken⟩
    · exact ⟨t :: front, word, back, rfl, taken⟩

theorem takenForRoot_cons (t : SearchToken) (rest : List SearchToken) : TakenForRoot (t :: rest) ↔
    (t = .set ∨ t = .assign) ∧ TakenPending rest ∨ TakenForRoot rest := by
  constructor
  · rintro ⟨_ | ⟨first, front⟩, word, back, split, setting, taken⟩
    · simp at setting
    · obtain ⟨rfl, rfl⟩ := List.cons.inj split
      rw [List.mem_cons, List.mem_cons] at setting
      rcases setting with (first_set | later) | (first_set | later)
      · exact .inl ⟨.inl first_set.symm, front, word, back, rfl, taken⟩
      · exact .inr ⟨front, word, back, rfl, .inl later, taken⟩
      · exact .inl ⟨.inr first_set.symm, front, word, back, rfl, taken⟩
      · exact .inr ⟨front, word, back, rfl, .inr later, taken⟩
  · rintro (⟨setting, front, word, back, rfl, taken⟩ | ⟨front, word, back, rfl, setting, taken⟩)
    · refine ⟨t :: front, word, back, rfl, ?_, taken⟩
      rcases setting with rfl | rfl
      · exact .inl List.mem_cons_self
      · exact .inr List.mem_cons_self
    · refine ⟨t :: front, word, back, rfl, ?_, taken⟩
      exact setting.imp (List.mem_cons_of_mem _) (List.mem_cons_of_mem _)

theorem takenForRoot_pending {tokens : List SearchToken} (taken : TakenForRoot tokens) :
    TakenPending tokens := by
  obtain ⟨front, word, back, split, -, last⟩ := taken
  exact ⟨front, word, back, split, last⟩

theorem runTokens_setRoot (st : SearchState) (tokens : List SearchToken) :
    (runTokens st tokens).setRoot = true ↔
      st.setRoot = true ∨ st.lSet = true ∧ TakenPending tokens ∨ TakenForRoot tokens := by
  induction tokens generalizing st with
  | nil => simp [runTokens, TakenPending, TakenForRoot]
  | cons t rest ih =>
    rw [runTokens, ih, takenPending_cons, takenForRoot_cons]
    cases t with
    | «by» kind short => simp [tokenStep]
    | set =>
      have more := @takenForRoot_pending rest
      simp only [tokenStep]
      grind
    | assign =>
      have more := @takenForRoot_pending rest
      simp only [tokenStep]
      grind
    | plain word =>
      by_cases here : st.lSet = true ∧ (rest.isEmpty = true ∨ word <+: bytes "root")
      · -- the variable is taken to be root
        rw [tokenStep, if_pos here]
        refine iff_of_true (.inl rfl) (.inr (.inl ⟨here.1, .inl ⟨word, rfl, ?_⟩⟩))
        exact here.2.imp_left List.isEmpty_iff.mp
      · rw [tokenStep, if_neg here]
        simp only [List.isEmpty_iff] at here
        grind

/-! ### The commands -/

structure Gap (s : Str) : Prop where
  nonempty : s ≠ []
  blank : Blank s

/-- An id or the name of a variable. -/
structure SearchName (w : Str) : Prop extends OneWord w where
  no_dash : w.head? ≠ some 45

inductive SearchOption where
  | by (kind : SearchKind) (short : Bool)
  | noFloppy
  | hint (rest : Str)
  /-- Behind an equals sign, or blanks. -/
  | setTo (between : Option Str) (var : Str)
  | set

def SearchOption.Sound : SearchOption → Prop
  | .hint rest => ∀ c ∈ rest, c ∉ newlines ++ blanks
  | .setTo between var => SearchName var ∧ ∀ gap ∈ between, Gap gap
  | _ => True

/-- The words of an option behind its gap. -/
def SearchOption.links (gap : Str) : SearchOption → List (Str × SearchToken)
  | .by kind short => [(gap, .by kind short)]
  | .noFloppy => [(gap, .plain (bytes "--no-floppy"))]
  | .hint rest => [(gap, .plain (bytes "--hint" ++ rest))]
  | .setTo none var => [(gap, .assign), ([], .plain var)]
  | .setTo (some between) var => [(gap, .set), (between, .plain var)]
  | .set => [(gap, .set)]

def SearchOption.setsRoot : SearchOption → Bool
  | .setTo _ var => var == bytes "root"
  | .set => true
  | _ => false

def SearchOption.kind : SearchOption → Option SearchKind
  | .by kind _ => some kind
  | _ => none

/-- `search`, with options before and after the id. -/
structure PlainSearch where
  before : List (Str × SearchOption)
  gap : Str
  id : Str
  after : List (Str × SearchOption)
  sound : ∀ o ∈ before ++ after, Gap o.1 ∧ o.2.Sound
  gapped : Gap gap
  named : SearchName id

/-- `search.file` and the like: the id, the variable, and hints, which are plain words. -/
structure DottedSearch where
  kind : SearchKind
  idGap : Str
  id : Str
  varGap : Str
  var : Str
  hints : List (Str × Str)
  id_gapped : Gap idGap
  id_named : SearchName id
  var_gapped : Gap varGap
  var_named : SearchName var
  hinted : ∀ h ∈ hints, Gap h.1 ∧ PlainWord h.2

inductive SearchCommand where
  | search (line : PlainSearch)
  | dotted (line : DottedSearch)

namespace SearchCommand

def name : SearchCommand → Str
  | search _ => bytes "search"
  | dotted line =>
    match line.kind with
    | .file => bytes "search.file"
    | .fsLabel => bytes "search.fs_label"
    | .fsUuid => bytes "search.fs_uuid"

def links : SearchCommand → List (Str × SearchToken)
  | search line =>
    line.before.flatMap (fun o => o.2.links o.1) ++
      (line.gap, .plain line.id) :: line.after.flatMap fun o => o.2.links o.1
  | dotted line =>
    (line.idGap, .plain line.id) :: (line.varGap, .plain line.var) ::
      line.hints.map fun h => (h.1, .plain h.2)

def id : SearchCommand → Str
  | search line => line.id
  | dotted line => line.id

/-- What is searched by: the option given last, or the command itself. -/
def kind : SearchCommand → Option SearchKind
  | search line => ((line.before ++ line.after).filterMap fun o => o.2.kind).getLast?
  | dotted line => some line.kind

/-- The variable that is set is root. -/
def setsRoot : SearchCommand → Bool
  | search line => (line.before ++ line.after).any fun o => o.2.setsRoot
  | dotted line => line.var == bytes "root"

end SearchCommand

/-- What goes in front of an id. -/
def idPrefix : Option SearchKind → Option Str
  | some .fsLabel => some (bytes "LABEL=")
  | some .fsUuid => some (bytes "UUID=")
  | _ => none

/-- The root a command asks for, if it does. -/
def SearchCommand.due (c : SearchCommand) : Option Str :=
  if c.setsRoot then (idPrefix c.kind).map (· ++ c.id) else none

def SearchCommand.tokens (c : SearchCommand) : List SearchToken := c.links.map (·.2)

/-- The last word of a command. -/
def SearchCommand.lastWord (c : SearchCommand) : Str := (c.tokens.getLast?.map SearchToken.text).getD []

/-- A line with a command as the loop gets it. -/
structure SearchLine where
  indent : Str
  command : SearchCommand
  trailing : Str
  ending : Str
  indented : ∀ c ∈ indent, c ∈ newlines ++ blanks
  blank : Blank trailing
  ended : ∀ c ∈ ending.head?, c ∈ newlines

def SearchLine.text (l : SearchLine) : Str :=
  l.indent ++ ((l.command.name ++ (linksText l.command.links ++ l.trailing)) ++ l.ending)

/-- When the kind is one with ids, a `--set` is taken for one of root exactly when it
is one; and then the line ends with the id, as far as the root has room. -/
def SearchLine.Readable (l : SearchLine) : Prop :=
  ∀ pre, idPrefix l.command.kind = some pre →
    (l.command.setsRoot = true ↔ TakenForRoot l.command.tokens) ∧
      (l.command.setsRoot = true → (l.command.lastWord ++ l.trailing).take (255 - pre.length) = l.command.id)

/-! ### The words of a command -/

theorem SearchName.plain {w : Str} (name : SearchName w) : PlainWord w := by
  have no_option : ∀ option : Str, option.head? = some 45 → ¬ w <+: option := by
    rintro option dash ⟨more, rfl⟩
    obtain ⟨c, rest, rfl⟩ := List.exists_cons_of_ne_nil name.nonempty
    exact name.no_dash dash
  refine ⟨name.toOneWord, fun kind short => no_option _ ?_, no_option _ rfl, ?_⟩
  · cases kind <;> cases short <;> rfl
  · rintro ⟨more, rfl⟩
    exact name.no_dash rfl

theorem hint_plain {rest : Str} (whole : ∀ c ∈ rest, c ∉ newlines ++ blanks) :
    PlainWord (bytes "--hint" ++ rest) := by
  have letters : ∀ c ∈ bytes "--hint", c ∉ newlines ++ blanks := by decide
  have no_option : ∀ option : Str, ¬ bytes "--hint" <+: option → ¬ bytes "--hint" ++ rest <+: option :=
    fun option other longer => other ((List.prefix_append _ rest).trans longer)
  refine ⟨⟨by simp [bytes], fun c member => ?_⟩, fun kind short => no_option _ ?_,
    no_option _ (by decide), ?_⟩
  · rcases List.mem_append.mp member with front | back
    · exact letters c front
    · exact whole c back
  · cases kind <;> cases short <;> decide
  · rintro ⟨more, split⟩
    -- they differ behind the dashes
    have third := congrArg (fun s : Str => s[2]?) split
    simp [bytes] at third
    revert third
    decide

theorem noFloppy_plain : PlainWord (bytes "--no-floppy") := by
  refine ⟨⟨by decide, by decide⟩, fun kind short => ?_, by decide, by decide⟩
  cases kind <;> cases short <;> decide

/-- Words that may stand behind any word. -/
def Free (links : List (Str × SearchToken)) : Prop := ∀ t, t ≠ .assign → Linked t links

theorem free_nil : Free [] := fun _ other => .nil other

theorem free_cons {gap : Str} {t : SearchToken} {rest : List (Str × SearchToken)} (gapped : Gap gap)
    (sound : t.Sound) (other : t ≠ .assign) (free : Free rest) : Free ((gap, t) :: rest) :=
  fun _ before => .gap before gapped.nonempty gapped.blank sound (free t other)

theorem free_option {gap : Str} {o : SearchOption} {rest : List (Str × SearchToken)} (gapped : Gap gap)
    (sound : o.Sound) (free : Free rest) : Free (o.links gap ++ rest) := by
  cases o with
  | «by» kind short => exact free_cons gapped trivial (by simp) free
  | noFloppy => exact free_cons gapped noFloppy_plain (by simp) free
  | hint text => exact free_cons gapped (hint_plain sound) (by simp) free
  | setTo between var =>
    obtain ⟨named, apart⟩ := sound
    rcases between with _ | between
    · exact fun _ before => .gap before gapped.nonempty gapped.blank trivial
        (.assigned named.plain (free _ (by simp)))
    · exact free_cons gapped trivial (by simp) (free_cons (apart between rfl) named.plain (by simp) free)
  | set => exact free_cons gapped trivial (by simp) free

theorem free_options {options : List (Str × SearchOption)} (sound : ∀ o ∈ options, Gap o.1 ∧ o.2.Sound)
    {rest : List (Str × SearchToken)} (free : Free rest) :
    Free (options.flatMap (fun o => o.2.links o.1) ++ rest) := by
  induction options with
  | nil => exact free
  | cons o options ih =>
    obtain ⟨gapped, here⟩ := sound o List.mem_cons_self
    rw [List.flatMap_cons, List.append_assoc]
    exact free_option gapped here (ih fun other member => sound other (List.mem_cons_of_mem _ member))

theorem SearchCommand.free (c : SearchCommand) : Free c.links := by
  cases c with
  | search line =>
    have last : Free (line.after.flatMap (fun o => o.2.links o.1) ++ []) :=
      free_options (fun o member => line.sound o (List.mem_append_right _ member)) free_nil
    rw [List.append_nil] at last
    exact free_options (fun o member => line.sound o (List.mem_append_left _ member))
      (free_cons line.gapped line.named.plain (by simp) last)
  | dotted line =>
    have hints : ∀ hints : List (Str × Str),
        (∀ h ∈ hints, Gap h.1 ∧ PlainWord h.2) →
        Free (hints.map fun h => (h.1, .plain h.2)) := by
      intro hints
      induction hints with
      | nil => exact fun _ => free_nil
      | cons h hints ih =>
        intro hinted
        obtain ⟨gapped, plain⟩ := hinted h List.mem_cons_self
        exact free_cons gapped plain (by simp)
          (ih fun other member => hinted other (List.mem_cons_of_mem _ member))
    exact free_cons line.id_gapped line.id_named.plain (by simp)
      (free_cons line.var_gapped line.var_named.plain (by simp) (hints _ line.hinted))

/-! ### What the command does -/

def byKind (kind : Option SearchKind) : SearchBy := (kind.map SearchKind.by).getD .unknown

def SearchToken.kind : SearchToken → Option SearchKind
  | .by kind _ => some kind
  | _ => none

theorem lastKind_eq (init : SearchBy) (tokens : List SearchToken) :
    lastKind init tokens = ((tokens.filterMap SearchToken.kind).getLast?.map SearchKind.by).getD init := by
  induction tokens generalizing init with
  | nil => rfl
  | cons t rest ih =>
    rw [lastKind, List.foldl_cons, ← lastKind, ih]
    cases t with
    | «by» kind short =>
      have named : (SearchToken.by kind short :: rest).filterMap SearchToken.kind =
          kind :: rest.filterMap SearchToken.kind := rfl
      rw [named, List.getLast?_cons]
      cases (rest.filterMap SearchToken.kind).getLast? <;> rfl
    | set => rfl
    | assign => rfl
    | plain word => rfl

theorem options_kinds (options : List (Str × SearchOption)) :
    ((options.flatMap fun o => o.2.links o.1).map (·.2)).filterMap SearchToken.kind =
      options.filterMap fun o => o.2.kind := by
  induction options with
  | nil => rfl
  | cons o options ih =>
    rw [List.flatMap_cons, List.map_append, List.filterMap_append, ih]
    obtain ⟨gap, o⟩ := o
    rcases o with _ | _ | _ | ⟨_ | between, var⟩ | _ <;> rfl

/-- What the loop searches by is the kind of the command. -/
theorem SearchCommand.searchBy (c : SearchCommand) :
    lastKind (searchCommand c.name) c.tokens = byKind c.kind := by
  rw [lastKind_eq]
  cases c with
  | search line =>
    have kinds : (SearchCommand.search line).tokens.filterMap SearchToken.kind =
        (line.before ++ line.after).filterMap fun o => o.2.kind := by
      simp only [tokens, links, List.map_append, List.map_cons, List.filterMap_append, options_kinds]
      exact congrArg _ (options_kinds line.after)
    rw [kinds]
    rfl
  | dotted line =>
    have kinds : (SearchCommand.dotted line).tokens.filterMap SearchToken.kind = [] := by
      rw [List.filterMap_eq_nil_iff]
      intro t member
      simp only [tokens, links, List.map_cons, List.map_map, List.mem_cons, List.mem_map] at member
      rcases member with rfl | rfl | ⟨h, -, rfl⟩ <;> rfl
    rw [kinds]
    obtain ⟨kind⟩ := line
    cases kind <;> rfl

/-- Only a search that sets the root changes it. -/
theorem searchRoot_str (st : GrubCfgState) (kind : Option SearchKind) (search : SearchState)
    (by_kind : search.searchBy = byKind kind) (args : Str) :
    (grubCfgSearchRoot st search args).target.root.str =
      match idPrefix kind with
      | some pre => if search.setRoot then (pre ++ args).take 255 else st.target.root.str
      | none => st.target.root.str := by
  unfold grubCfgSearchRoot
  rw [by_kind]
  cases search.setRoot with
  | false => cases idPrefix kind <;> rfl
  | true => rcases kind with _ | _ | _ | _ <;> rfl

theorem lastToken_getLast (t : SearchToken) (links : List (Str × SearchToken)) :
    (t :: links.map (·.2)).getLast? = some (lastToken t links) := by
  induction links generalizing t with
  | nil => rfl
  | cons link rest ih =>
    rw [List.map_cons, List.getLast?_cons_cons, ih]
    rfl

/-- The command and its arguments, with the word they start with. -/
theorem SearchCommand.args (c : SearchCommand) (trailing : Str) (blank : Blank trailing) :
    ∃ gap args, Gap gap ∧ linksText c.links ++ trailing = gap ++ args ∧
      (∀ b ∈ args.head?, b ∉ blanks) ∧
      ∀ st, searchArgs args.length st args = (runTokens st c.tokens, c.lastWord ++ trailing) := by
  have some_links : c.links ≠ [] := by
    cases c with
    | search line => simp [links]
    | dotted line => simp [links]
  have linked := c.free .set (by simp)
  have last : c.tokens.getLast? = c.tokens.getLast? := rfl
  simp only [tokens] at last ⊢
  rw [lastWord, tokens]
  generalize c.links = links at some_links linked
  cases linked with
  | nil _ => exact absurd rfl some_links
  | @gap _ next gap rest _ nonempty blank_gap sound linked =>
    refine ⟨gap, next.text ++ (linksText rest ++ trailing), ⟨nonempty, blank_gap⟩,
      by simp [linksText], ?_, ?_⟩
    · intro b first
      obtain ⟨letter, word, cons⟩ := List.exists_cons_of_ne_nil sound.text.1
      obtain rfl : letter = b := by simpa [cons] using first
      exact sound.text.2 letter (by simp [cons])
    · intro st
      rw [searchArgs_links linked sound blank _ st (Nat.le_refl _), List.map_cons, lastToken_getLast]
      rfl

theorem SearchCommand.run_searchBy (c : SearchCommand) :
    (runTokens ⟨searchCommand c.name, false, false⟩ c.tokens).searchBy = byKind c.kind := by
  rw [runTokens_searchBy]
  exact c.searchBy

theorem SearchCommand.run_setRoot (c : SearchCommand) :
    (runTokens ⟨searchCommand c.name, false, false⟩ c.tokens).setRoot = true ↔
      TakenForRoot c.tokens := by
  rw [runTokens_setRoot]
  simp

/-- A command leaves the root, but for what the loop takes for its id. -/
theorem SearchCommand.root (c : SearchCommand) (st : GrubCfgState) (args rest : Str)
    (run : ∀ search, searchArgs args.length search args = (runTokens search c.tokens, rest))
    [Decidable (TakenForRoot c.tokens)] :
    (grubCfgSearch st c.name args).target.root.str =
      match idPrefix c.kind with
      | some pre => if TakenForRoot c.tokens then (pre ++ rest).take 255 else st.target.root.str
      | none => st.target.root.str := by
  simp only [grubCfgSearch, run]
  rw [searchRoot_str st c.kind _ c.run_searchBy]
  simp only [c.run_setRoot]

/-! ### The line -/

def searchNames : List Str :=
  [bytes "search", bytes "search.file", bytes "search.fs_label", bytes "search.fs_uuid"]

theorem SearchCommand.name_mem (c : SearchCommand) : c.name ∈ searchNames := by
  rcases c with line | ⟨_ | _ | _⟩ <;> simp [name, searchNames]

theorem SearchCommand.name_word (c : SearchCommand) :
    c.name ≠ [] ∧ c.name.head? ≠ some 35 ∧ ∀ b ∈ c.name, b ∉ newlines ++ blanks := by
  have all : ∀ name ∈ searchNames,
      name ≠ [] ∧ name.head? ≠ some 35 ∧ ∀ b ∈ name, b ∉ newlines ++ blanks := by
    decide
  exact all c.name c.name_mem

theorem grubCfgCommand_search (c : SearchCommand) (st : GrubCfgState) (args : Str) :
    grubCfgCommand st c.name args = .ok (grubCfgSearch st c.name args) := by
  rcases c with line | ⟨_ | _ | _⟩ <;> rfl

theorem links_one_line {t : SearchToken} {links : List (Str × SearchToken)} (linked : Linked t links) :
    ∀ b ∈ linksText links, b ∉ newlines := by
  have words : ∀ t : SearchToken, t.Sound → ∀ b ∈ t.text, b ∉ newlines := by
    intro t sound b member newline
    cases t with
    | «by» kind short => revert b; cases kind <;> cases short <;> decide
    | set => revert b; decide
    | assign => revert b; decide
    | plain word => exact sound.whole b member (List.mem_append_left _ newline)
  induction linked with
  | nil _ => simp [linksText]
  | gap _ _ blank sound _ ih =>
    intro b member
    simp only [linksText, List.flatMap_cons, List.append_assoc, List.mem_append] at member
    rcases member with between | word | later
    · exact blank_not_newline (blank b between)
    · exact words _ sound b word
    · exact ih b later
  | assigned plain _ ih =>
    intro b member
    simp only [linksText, List.flatMap_cons, List.nil_append, List.mem_append] at member
    rcases member with word | later
    · exact words (.plain _) plain b word
    · exact ih b later

/-- The loop of `load_grub2_cfg` gets the command and its arguments. -/
theorem grubCfgLine_search (l : SearchLine) (st : GrubCfgState) :
    ∃ args, grubCfgLine st l.text =
        .ok (grubCfgSearch { st with lnum := st.lnum + 1 } l.command.name args) ∧
      ∀ search, searchArgs args.length search args =
        (runTokens search l.command.tokens, l.command.lastWord ++ l.trailing) := by
  obtain ⟨gap, args, gapped, text, starts, run⟩ := l.command.args l.trailing l.blank
  obtain ⟨nonempty, no_comment, word⟩ := l.command.name_word
  refine ⟨args, ?_, run⟩
  obtain ⟨letter, more, name⟩ := List.exists_cons_of_ne_nil nonempty
  have one_line : ∀ b ∈ l.command.name ++ (linksText l.command.links ++ l.trailing), b ∉ newlines := by
    intro b member
    rcases List.mem_append.mp member with front | args
    · exact fun newline => word b front (List.mem_append_left _ newline)
    · rcases List.mem_append.mp args with linked | behind
      · exact links_one_line (l.command.free .set (by simp)) b linked
      · exact blank_not_newline (l.blank b behind)
  have not_indent : ∀ b ∈ ((l.command.name ++ (linksText l.command.links ++ l.trailing)) ++ l.ending).head?,
      b ∉ newlines ++ blanks := by
    intro b first
    obtain rfl : letter = b := by simpa [name] using first
    exact word letter (by simp [name])
  have start := drop_strspn_stop l.indented not_indent
  have cut := take_strcspn_stop one_line l.ended
  have split := nextValue_split l.command.name gap args
    (fun b member blank => word b member (List.mem_append_right _ blank))
    (fun none => absurd none gapped.nonempty)
    gapped.blank starts
  have command : ((l.command.name ++ (gap ++ args)).head? == some 35 ||
      (l.command.name ++ (gap ++ args)).isEmpty) = false := by
    have other : letter ≠ 35 := by simpa [name] using no_comment
    simp [name, other]
  rw [text] at start cut
  simp only [grubCfgLine, SearchLine.text, text, start, cut, split, command, Bool.false_eq_true, if_false]
  exact grubCfgCommand_search l.command _ args

theorem idPrefix_some {kind : Option SearchKind} {pre : Str} (known : idPrefix kind = some pre) :
    pre.length ≤ 255 ∧ pre ≠ [] := by
  have two : pre = bytes "LABEL=" ∨ pre = bytes "UUID=" := by
    rcases kind with _ | _ | _ | _
    · cases known
    · cases known
    · exact .inl (Option.some.inj known).symm
    · exact .inr (Option.some.inj known).symm
  rcases two with rfl | rfl <;> decide

theorem SearchLine.readable_iff {l : SearchLine} {pre : Str} (known : idPrefix l.command.kind = some pre) :
    l.Readable ↔ (l.command.setsRoot = true ↔ TakenForRoot l.command.tokens) ∧
      (l.command.setsRoot = true →
        (pre ++ (l.command.lastWord ++ l.trailing)).take 255 = pre ++ l.command.id) := by
  rw [List.take_append, List.take_of_length_le (idPrefix_some known).1, List.append_cancel_left_eq, Readable,
    known]
  exact ⟨fun all => all pre rfl, fun here other same => Option.some.inj same ▸ here⟩

open Classical in
theorem SearchLine.root (l : SearchLine) {pre : Str} (known : idPrefix l.command.kind = some pre)
    (st : GrubCfgState) : ∃ after, grubCfgLine st l.text = .ok after ∧ after.target.root.str =
      if TakenForRoot l.command.tokens then (pre ++ (l.command.lastWord ++ l.trailing)).take 255
      else st.target.root.str := by
  obtain ⟨args, line, run⟩ := grubCfgLine_search l st
  have root := l.command.root { st with lnum := st.lnum + 1 } args _ run
  rw [known] at root
  exact ⟨_, line, root⟩

/-- The root a search by UUID or label leaves is the one due when it is readable. -/
theorem SearchLine.root_due_iff (l : SearchLine) {pre : Str} (known : idPrefix l.command.kind = some pre) :
    (∀ st, ∃ after, grubCfgLine st l.text = .ok after ∧
      after.target.root.str = l.command.due.getD st.target.root.str) ↔ l.Readable := by
  classical
  have due : l.command.due = if l.command.setsRoot = true then some (pre ++ l.command.id) else none := by
    rw [SearchCommand.due, known]
    rfl
  rw [SearchLine.readable_iff known, due]
  constructor
  · intro all
    -- a state without a root shows what the line does
    obtain ⟨after, line, root⟩ := all ⟨initSettings, 0, 0, false, none, -1, 0, initTarget⟩
    obtain ⟨shown, shown_line, shown_root⟩ :=
      l.root known ⟨initSettings, 0, 0, false, none, -1, 0, initTarget⟩
    obtain rfl : shown = after := Except.ok.inj (shown_line.symm.trans line)
    rw [shown_root] at root
    have no_root : initTarget.root.str = [] := rfl
    rw [no_root] at root
    by_cases sets : l.command.setsRoot = true
    · rw [if_pos sets, Option.getD_some] at root
      by_cases taken : TakenForRoot l.command.tokens
      · rw [if_pos taken] at root
        exact ⟨iff_of_true sets taken, fun _ => root⟩
      · rw [if_neg taken] at root
        exact absurd (List.append_eq_nil_iff.mp root.symm).1 (idPrefix_some known).2
    · rw [if_neg sets, Option.getD_none] at root
      have not_taken : ¬ TakenForRoot l.command.tokens := by
        intro taken
        rw [if_pos taken, List.take_eq_nil_iff] at root
        rcases root with size | empty
        · cases size
        · exact (idPrefix_some known).2 (List.append_eq_nil_iff.mp empty).1
      exact ⟨iff_of_false sets not_taken, fun other => absurd other sets⟩
  · rintro ⟨same, whole⟩ st
    obtain ⟨after, line, root⟩ := l.root known st
    refine ⟨after, line, ?_⟩
    rw [root]
    by_cases sets : l.command.setsRoot = true
    · rw [if_pos (same.mp sets), whole sets, if_pos sets, Option.getD_some]
    · rw [if_neg fun taken => sets (same.mpr taken), if_neg sets, Option.getD_none]

/-- The loop over the arguments ends, and a search command sets the root it asks for
exactly when it is readable. -/
theorem searchRoot_iff (l : SearchLine) :
    ((∀ st args fuel, args.length ≤ fuel → searchArgs fuel st args = searchArgs args.length st args) ∧
      ∀ st, ∃ after, grubCfgLine st l.text = .ok after ∧
        after.target.root.str = l.command.due.getD st.target.root.str) ↔ l.Readable := by
  rw [and_iff_right fun st args fuel enough =>
    searchArgs_ends fuel args.length st args enough (Nat.le_refl args.length)]
  rcases known : idPrefix l.command.kind with _ | pre
  · -- no ids: nothing is set, and nothing is due
    refine iff_of_true (fun st => ?_) fun pre found => by rw [known] at found; cases found
    obtain ⟨args, line, run⟩ := grubCfgLine_search l st
    have unchanged := @SearchCommand.root l.command { st with lnum := st.lnum + 1 } args _ run (Classical.dec _)
    rw [known] at unchanged
    refine ⟨_, line, unchanged.trans ?_⟩
    simp [SearchCommand.due, known]
  · exact l.root_due_iff known

/-- Another variable is taken for root when the id comes last. -/
theorem search_other_variable :
    let id : SearchName (bytes "1234") := ⟨⟨by decide, by decide⟩, by decide⟩
    let var : SearchName (bytes "boot") := ⟨⟨by decide, by decide⟩, by decide⟩
    let gap : Gap [space] := ⟨by decide, by decide⟩
    let command : SearchCommand := .search
      ⟨[([space], .by .fsUuid false), ([space], .setTo none (bytes "boot"))],
      [space], bytes "1234", [], by simp [SearchOption.Sound, gap, var], gap, id⟩
    let line : SearchLine := ⟨[], command, [], [lf], by simp, by simp [Blank], by decide⟩
    line.text = bytes "search --fs-uuid --set=boot 1234\n" ∧ command.due = none ∧
      ∃ after, grubCfgLine ⟨initSettings, 0, 0, false, none, -1, 0, initTarget⟩ line.text = .ok after ∧
        after.target.root.str = bytes "UUID=1234" := by
  refine ⟨by decide, by decide, _, rfl, by decide⟩

end KexecLoader
