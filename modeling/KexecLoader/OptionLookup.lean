import KexecLoader.Cmdline

/-!
# Options of the kernel command line

The search for an option goes from one occurrence of its name to the next. What it finds
is the value of the first word that is the name, alone or with a value, and no other
occurrence makes a difference.
-/
namespace KexecLoader

/-- The words of a command line. -/
def cmdlineWords (text : Str) : List Str := (text.splitOn space).filter (· ≠ [])

/-- The value a word gives an option. -/
def wordValue (name word : Str) : Option Str :=
  if word = name then some []
  else if name ++ [61] <+: word then some (word.drop (name.length + 1))
  else none

/-- The value of the first word that has one, as far as it fits. -/
def lookupOption (name text : Str) : Option Str :=
  ((cmdlineWords text).findSome? (wordValue name)).map (·.take 255)

/-- A name that can be a word of its own, or stand before an equals sign. -/
structure OptionName (name : Str) : Prop where
  nonempty : name ≠ []
  no_space : space ∉ name
  no_equals : 61 ∉ name
  no_lf : lf ∉ name
  no_nul : 0 ∉ name

/-- A line of words, which may end with a line feed. -/
structure CommandLine (text ending : Str) : Prop where
  no_lf : lf ∉ text
  no_nul : 0 ∉ text
  ended : ending = [] ∨ ending = [lf]
  short : text.length ≤ 1022

/-! ### Words -/

theorem cmdlineWords_space (word rest : Str) :
    cmdlineWords (word ++ space :: rest) = cmdlineWords word ++ cmdlineWords rest := by
  simp only [cmdlineWords, List.splitOn_append_cons_self, List.filter_append]

theorem cmdlineWords_plain {word : Str} (plain : space ∉ word) :
    cmdlineWords word = if word = [] then [] else [word] := by
  unfold cmdlineWords
  rw [List.splitOn_eq_singleton plain]
  by_cases empty : word = [] <;> simp [empty]

/-! ### The search -/

/-- What is kept of the text behind a name. -/
def keptValue (r : Str) : Str := (r.take 255).takeWhile (· ∉ valueEnds)

theorem optionValue_eq (cmdline name : Str) :
    optionValue cmdline name = (optionText cmdline name).map keptValue := rfl

/-- A value up to the end of its word. -/
theorem keptValue_word (value : Str) {rest : Str} (inside : ∀ c ∈ value, c ∉ valueEnds)
    (stop : ∀ c ∈ rest.head?, c ∈ valueEnds) : keptValue (value ++ rest) = value.take 255 := by
  rw [keptValue, List.take_append]
  refine takeWhile_append_stop (fun c member => ?_) fun c head => ?_
  · simpa using inside c (List.mem_of_mem_take member)
  · have first := stop c (by
      rw [Option.mem_def, List.head?_take] at head
      split at head
      · cases head
      · exact head)
    simpa using first

/-- Behind the first byte of a word nothing is found before its end. -/
theorem findOption_skip (name : Str) {word : Str} (rest : Str) (no_space : space ∉ word) :
    findOption name false (word ++ rest) = findOption name false rest := by
  induction word with
  | nil => rfl
  | cons c word ih =>
    simp only [List.mem_cons, not_or] at no_space
    rw [List.cons_append, findOption]
    simp only [Bool.false_and, Bool.false_eq_true, if_false]
    rw [show (c == space) = false by simpa using Ne.symm no_space.1, ih no_space.2]

section
variable {name : Str} (option : OptionName name)
include option

/-- A space is no word, and a word can start behind it. -/
theorem findOption_space (start : Bool) (rest : Str) :
    findOption name start (space :: rest) = findOption name true rest := by
  have other : klStrneq (space :: rest) name name.length = false := by
    rw [Bool.eq_false_iff]
    intro same
    obtain ⟨c, tail, cons⟩ := List.exists_cons_of_ne_nil option.nonempty
    have front := (klStrneq_iff (space :: rest) name).mp same
    rw [cons, List.cons_prefix_cons] at front
    exact option.no_space (by rw [cons, front.1]; simp)
  rw [findOption, other]
  simp

/-- A name in front of a word that ends is one in front of the word. -/
theorem name_prefix_iff (word : Str) {rest : Str} (stop : ∀ c ∈ rest.head?, c ∈ valueEnds) :
    name <+: word ++ rest ↔ name <+: word := by
  constructor
  · intro front
    rcases List.prefix_or_prefix_of_prefix front (List.prefix_append word rest) with inside | ⟨tail, rfl⟩
    · exact inside
    · cases tail with
      | nil => simp
      | cons c tail =>
        -- the name goes on with the end of the word
        rw [List.prefix_append_right_inj] at front
        cases rest with
        | nil => simp at front
        | cons d rest =>
          rw [List.cons_prefix_cons] at front
          have ends := stop d (by simp)
          rw [← front.1] at ends
          rcases (by simpa [valueEnds] using ends : c = space ∨ c = lf) with rfl | rfl
          · exact absurd (by simp) option.no_space
          · exact absurd (by simp) option.no_lf
  · exact fun front => front.trans (List.prefix_append _ _)

/-- A word is found by its value, or the search goes on behind it. -/
theorem findOption_word {word : Str} (rest : Str) (nonempty : word ≠ []) (inside : ∀ c ∈ word, c ∉ valueEnds)
    (stop : ∀ c ∈ rest.head?, c ∈ valueEnds) :
    (findOption name true (word ++ rest)).map keptValue =
      match wordValue name word with
      | some value => some (value.take 255)
      | none => (findOption name false rest).map keptValue := by
  obtain ⟨c, tail, rfl⟩ := List.exists_cons_of_ne_nil nonempty
  have spaceless : space ∉ c :: tail := fun member => inside space member (by decide)
  have on : findOption name (c == space) (tail ++ rest) = findOption name false rest := by
    simp only [List.mem_cons, not_or] at spaceless
    rw [show (c == space) = false by simpa using Ne.symm spaceless.1,
      findOption_skip name rest spaceless.2]
  have compared : klStrneq (c :: (tail ++ rest)) name name.length = true ↔ name <+: c :: tail :=
    (klStrneq_iff _ name).trans (name_prefix_iff option (c :: tail) stop)
  rw [List.cons_append, findOption, Bool.true_and, on]
  by_cases front : name <+: c :: tail
  · rw [if_pos (compared.mpr front)]
    obtain ⟨behind, split⟩ := front
    have dropped : (c :: (tail ++ rest)).drop name.length = behind ++ rest := by
      rw [← List.cons_append, ← split, List.append_assoc, List.drop_left]
    rw [dropped, ← split, wordValue]
    cases behind with
    | nil =>
      rw [List.append_nil, List.nil_append, if_pos rfl]
      cases rest with
      | nil => rfl
      | cons d rest =>
        -- the word ends here, and nothing is kept of the next one
        have ends := stop d (by simp)
        have kept := keptValue_word [] (by simp) stop
        rcases (by simpa [valueEnds] using ends : d = space ∨ d = lf) with rfl | rfl
        · exact congrArg some kept
        · exact congrArg some kept
    | cons d more =>
      have last : ∀ c ∈ d :: more, c ∉ valueEnds := fun c member =>
        inside c (split ▸ List.mem_append_right name member)
      rw [if_neg (by simp), List.cons_append]
      dsimp only
      by_cases equals : d = 61
      · subst equals
        rw [if_pos rfl, if_pos ((List.prefix_append_right_inj name).mpr (by simp)), Option.map_some,
          keptValue_word more (fun c member => last c (by simp [member])) stop]
        simp
      · have here := last d (by simp)
        simp only [valueEnds, List.mem_cons, List.not_mem_nil, or_false, not_or] at here
        rw [if_neg equals, if_neg (by simp [here]), if_neg]
        rw [List.prefix_append_right_inj]
        simp [Ne.symm equals]
  · rw [if_neg (mt compared.mp front), wordValue, if_neg, if_neg]
    · exact fun longer => front ((List.prefix_append name [61]).trans longer)
    · rintro rfl
      exact front (List.prefix_refl _)

/-- The search through a line goes from word to word. -/
theorem findOption_words {ending : Str} (ended : ending = [] ∨ ending = [lf]) (text : Str)
    (no_lf : lf ∉ text) : (findOption name true (text ++ ending)).map keptValue =
      lookupOption name text := by
  have nothing : findOption name false ending = none := by
    rcases ended with rfl | rfl
    · rfl
    · simp [findOption]
  have stop : ∀ c ∈ ending.head?, c ∈ valueEnds := by
    rcases ended with rfl | rfl
    · simp
    · simp [valueEnds]
  have inside {word : Str} (no_space : space ∉ word) (no_lf : lf ∉ word) : ∀ c ∈ word, c ∉ valueEnds := by
    intro c member ends
    rcases (by simpa [valueEnds] using ends : c = space ∨ c = lf) with rfl | rfl
    · exact no_space member
    · exact no_lf member
  -- word by word; an empty one stands for each space more than one
  induction text using separated_induction space with
  | last word plain =>
    rw [lookupOption, cmdlineWords_plain plain]
    by_cases empty : word = []
    · have none_here : findOption name true ending = none := by
        rcases ended with rfl | rfl
        · rfl
        · have other : klStrneq [lf] name name.length = false := by
            rw [Bool.eq_false_iff]
            intro same
            have front := (name_prefix_iff option [] stop).mp ((klStrneq_iff [lf] name).mp same)
            exact option.nonempty (List.prefix_nil.mp front)
          simp [findOption, other]
      rw [if_pos empty, empty, List.nil_append, none_here]
      rfl
    · rw [if_neg empty, findOption_word option ending empty (inside plain no_lf) stop, nothing]
      cases value : wordValue name word <;> simp [value]
  | more word rest plain ih =>
    simp only [List.mem_append, List.mem_cons, not_or] at no_lf
    have later := ih no_lf.2.2
    rw [lookupOption] at later ⊢
    rw [cmdlineWords_space, cmdlineWords_plain plain, List.append_assoc, List.cons_append]
    by_cases empty : word = []
    · rw [if_pos empty, empty, List.nil_append, List.nil_append, findOption_space option, later]
    · rw [if_neg empty, findOption_word option _ empty (inside plain no_lf.1) (by simp [valueEnds]),
        findOption_space option, later]
      cases value : wordValue name word <;> simp [value]

end

theorem optionValue_lookup {name text ending : Str} (option : OptionName name)
    (line : CommandLine text ending) : optionValue (text ++ ending) name = lookupOption name text := by
  rw [← findOption_words option line.ended text line.no_lf, optionValue_eq, optionText, fgets]
  split
  next unread =>
    split at unread
    next empty =>
      rw [empty]
      rfl
    next => cases unread
  next buf rest read =>
    split at read
    next => cases read
    next =>
      have short := line.short
      have no_nul : 0 ∉ text ++ ending := by
        rcases line.ended with rfl | rfl
        · simpa using line.no_nul
        · simpa [lf] using line.no_nul
      have whole : (fgetsPiece (1024 - 1) (text ++ ending)).1 = text ++ ending := by
        rcases line.ended with rfl | rfl
        · rw [List.append_nil, fgetsPiece_whole _ text line.no_lf (by omega)]
        · rw [fgetsPiece_line _ text [] line.no_lf (by omega)]
      obtain rfl : text ++ ending = buf := by
        rw [← whole]
        exact (Prod.mk.inj (Option.some.inj read)).1
      rw [cstr_of_no_nul no_nul]

/-- An option is looked up among the words of the line. -/
theorem getCmdline_lookup {name text ending : Str} (option : OptionName name)
    (line : CommandLine text ending) (s : DebugState) :
    match lookupOption name text with
    | none => getCmdline (text ++ ending) name s = (false, s)
    | some value => (getCmdline (text ++ ending) name s).1 = true ∧
        (getCmdline (text ++ ending) name s).2.val.Holds value := by
  have given := optionValue_lookup option line
  cases found : lookupOption name text with
  | none => exact getCmdline_none (given.trans found) s
  | some value => exact getCmdline_some (given.trans found) s

/-- The name stands in other words first, and in the value of one. -/
def sampleLine : Str := bytes "xroot=1  root2=root root=/dev/sda quiet root=b"

theorem getCmdline_lookup_sample :
    (getCmdline (sampleLine ++ [lf]) (bytes "root") initDebug).2.val.Holds (bytes "/dev/sda") := by
  have option : OptionName (bytes "root") := ⟨by decide, by decide, by decide, by decide, by decide⟩
  have line : CommandLine sampleLine [lf] := ⟨by decide, by decide, .inr rfl, by decide⟩
  have found := getCmdline_lookup option line initDebug
  rw [show lookupOption (bytes "root") sampleLine = some (bytes "/dev/sda") by decide] at found
  exact found.2

/-- A name with a line feed is found at the end of a line. -/
theorem getCmdline_line_feed : (∀ word ∈ cmdlineWords (bytes "a"), wordValue (bytes "a\n") word = none) ∧
    (getCmdline (bytes "a\n") (bytes "a\n") initDebug).1 = true := by
  refine ⟨by decide, by decide⟩

end KexecLoader
