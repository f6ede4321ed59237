import KexecLoader.Keymap
import KexecLoader.Library.Words
import Mathlib.Data.List.Infix

/-!
# Converting a console keymap

conv-keymap.pl turns a console keymap and the files it includes into the lines that
`load_keymap` reads. What it makes of a keymap is said of the items of this alone, by the
rule of the script for the columns; the theorem at the end says that the text has just these
lines and that the kernel is given those with an action that is known, whatever blanks and
comments the files have and however the includes nest.
-/
namespace KexecLoader

/-- The system under the script. -/
structure ConvHost where
  /-- The test `-e`. -/
  stands : Str → Bool
  /-- What the commands print. -/
  cat : Str → Str
  zcat : Str → Str

section
variable (host : ConvHost) (dirs : List Str)

/-- The file that is read for a name. -/
def keymapFile (file : Str) : Str :=
  let here := [file, file ++ bytes ".gz"]
  let below := dirs.flatMap fun dir =>
    let path := dir ++ slash :: file
    [path, path ++ bytes ".gz", path ++ bytes ".inc", path ++ bytes ".inc.gz"]
  ((here ++ below).find? host.stands).getD file

def keymapData (file : Str) : Str :=
  if klStreqEnd file (bytes ".gz") then host.zcat file else host.cat file

/-- The line without the white space at its ends and without its comment. -/
def stripLine (line : Str) : Str :=
  let line := (line.dropWhile isspace).rdropWhile isspace
  -- the comment goes with the white space before it
  if 35 ∈ line then (line.takeWhile (· ≠ 35)).rdropWhile isspace else line

/-- `keycode\s+\d+\s*=` at the start. -/
def keycodeHere (s : Str) : Bool :=
  let behind := s.drop 7
  let number := behind.dropWhile isspace
  let rest := number.dropWhile isdigit
  (bytes "keycode").isPrefixOf s && behind.head?.any isspace && number.head?.any isdigit &&
    (rest.dropWhile isspace).head? == some 61

def isKeycode (line : Str) : Bool := line.tails.any keycodeHere

/-- Both sides of the first equals sign, without the white space around it. -/
def keycodeSides (line : Str) : Str × Str :=
  ((line.takeWhile (· ≠ 61)).rdropWhile isspace, ((line.dropWhile (· ≠ 61)).drop 1).dropWhile isspace)

def modifierBit (c : Str) : Nat :=
  if c = bytes "shift" then 1
  else if c = bytes "altgr" then 2
  else if c = bytes "control" then 4
  else if c = bytes "alt" then 8
  else if c = bytes "shiftl" then 16
  else if c = bytes "shiftr" then 32
  else if c = bytes "ctrll" then 64
  else if c = bytes "ctrlr" then 128
  else 0

/-- The table of some modifiers. -/
def modifierMask (as : List Str) : Nat := as.foldl (fun m c => m ||| modifierBit c) 0

/-- The lines printed for a keycode. -/
def printKeycode (line : Str) : Str :=
  let (a, b) := keycodeSides line
  -- neither side begins or ends with white space, so the split yields words
  let as := words isspace a
  let key := as.getLast?.getD []
  let actions := words isspace b
  let tables := [decimal (modifierMask as.dropLast), bytes "1", bytes "2", bytes "4"]
  (tables.zip actions).flatMap fun (m, action) => m ++ tab :: key ++ tab :: action ++ [lf]

/-- `include ".+"` at the start. -/
def includeHere (s : Str) : Bool := (bytes "include \"").isPrefixOf s && decide (34 ∈ s.drop 10)

/-- The name between the first quotes of an include. -/
def includeName (line : Str) : Option Str :=
  if line.tails.any includeHere then
    some (((line.dropWhile (· ≠ 34)).drop 1).takeWhile (· ≠ 34))
  else none

/-- What is printed once a line has been dealt with. -/
def parseLine (parse : Str → Option Str) (out line : Str) : Option Str :=
  let line := stripLine line
  if line = [] then some out
  else
    let out := if isKeycode line then out ++ printKeycode line else out
    match includeName line with
    | none => some out
    | some ifile => (parse ifile).map (out ++ ·)

/-- `parse_keymap`: what it prints, if the includes nest no deeper than the rounds. -/
def parseKeymap : Nat → Str → Option Str
  | 0, _ => none
  | rounds + 1, file =>
    (fileLines (keymapData host (keymapFile host dirs file))).foldlM (parseLine (parseKeymap rounds)) []

end

/-! ### What is made of a keymap -/

inductive KeymapItem where
  | keycode (modifiers : List Str) (key : Nat) (actions : List Str)
  | file (name : Str)
  | other

/-- The first action goes into the table of the modifiers, and the next three, with any
modifiers, into those of shift, altgr and control. -/
def keycodeBindings (modifiers : List Str) (key : Nat) (actions : List Str) : List Binding :=
  ([modifierMask modifiers, 1, 2, 4].zip actions).map fun (table, action) => ⟨table, key, action⟩

section
variable (files : Str → Option (List KeymapItem))

/-- What is bound by some items, with the files they include. -/
inductive Binds : List KeymapItem → List Binding → Prop
  | nil : Binds [] []
  | keycode {modifiers key actions items binds} : Binds items binds →
      Binds (.keycode modifiers key actions :: items) (keycodeBindings modifiers key actions ++ binds)
  | file {name content inner items binds} : files name = some content → Binds content inner →
      Binds items binds → Binds (.file name :: items) (inner ++ binds)
  | other {items binds} : Binds items binds → Binds (.other :: items) binds

end

/-- How an item is written: any white space between the words and at the ends, and a
comment behind it. -/
inductive Written : KeymapItem → Str → Prop
  | keycode {modifiers : List Str} {key : Nat} {actions : List Str} {left right comment : Str}
      (names : words isspace left = modifiers ++ [bytes "keycode", decimal key])
      (given : words isspace right = actions) (first : 61 ∉ left) (quotes : 34 ∉ left ++ right)
      (plain : 35 ∉ left ++ right) (ends : ∀ c ∈ comment.head?, c = 35) :
      Written (.keycode modifiers key actions) (left ++ 61 :: right ++ comment)
  | file {name gap rest comment : Str} (blank : ∀ c ∈ gap, isspace c = true)
      (behind : ∀ c ∈ rest, isspace c = true) (nonempty : name ≠ [])
      (plain : ∀ c ∈ name, c ≠ 34 ∧ c ≠ 35 ∧ c ≠ 61) (ends : ∀ c ∈ comment.head?, c = 35) :
      Written (.file name) (gap ++ bytes "include \"" ++ name ++ 34 :: rest ++ comment)
  | other {body comment : Str} (no_keycode : ¬ bytes "keycode" <:+: body)
      (no_include : ¬ bytes "include" <:+: body) (plain : 35 ∉ body) (ends : ∀ c ∈ comment.head?, c = 35) :
      Written .other (body ++ comment)

/-- The system has the files of a keymap. -/
def ConvHost.Holds (host : ConvHost) (dirs : List Str) (files : Str → Option (List KeymapItem)) : Prop :=
  ∀ name content, files name = some content →
    List.Forall₂ Written content (fileLines (keymapData host (keymapFile host dirs name)))

/-! ### The lines -/

theorem rdropWhile_stop {p : UInt8 → Bool} (s t : Str) {c : UInt8} (stop : p c = false) :
    (s ++ c :: t).rdropWhile p = s ++ c :: t.rdropWhile p := by
  rw [List.rdropWhile, List.reverse_append, List.reverse_cons, List.append_assoc, List.dropWhile_append]
  by_cases all : (t.reverse.dropWhile p).isEmpty = true
  · rw [if_pos all]
    have none : t.rdropWhile p = [] := by simpa [List.rdropWhile] using all
    simp [none, stop]
  · rw [if_neg all]
    simp [List.rdropWhile]

theorem dropWhile_stop {p : UInt8 → Bool} (s t : Str) {c : UInt8} (stop : p c = false) :
    (s ++ c :: t).dropWhile p = s.dropWhile p ++ c :: t := by
  rw [List.dropWhile_append]
  split
  next all =>
    rw [List.isEmpty_iff.mp all, List.dropWhile_cons_of_neg (by simp [stop])]
    rfl
  next => rfl

/-- A comment is of no account. -/
theorem stripLine_comment {body comment : Str} (plain : 35 ∉ body) (ends : ∀ c ∈ comment.head?, c = 35) :
    stripLine (body ++ comment) = (body.dropWhile isspace).rdropWhile isspace := by
  have inside : 35 ∉ body.dropWhile isspace := fun member => plain ((List.dropWhile_suffix _).subset member)
  rcases comment with _ | ⟨c, comment⟩
  · have still : 35 ∉ (body.dropWhile isspace).rdropWhile isspace :=
      fun member => inside ((List.rdropWhile_prefix isspace _).subset member)
    simp only [stripLine, List.append_nil, still, if_false]
  · obtain rfl : c = 35 := ends c rfl
    have front : ((body.dropWhile isspace) ++ 35 :: comment.rdropWhile isspace).takeWhile (· ≠ 35) =
        body.dropWhile isspace :=
      takeWhile_append_stop (fun c member => by
        simp only [ne_eq, decide_not, Bool.not_eq_eq_eq_not, Bool.not_true, decide_eq_false_iff_not]
        rintro rfl
        exact inside member) (by simp)
    simp only [stripLine, dropWhile_stop body comment (show isspace 35 = false from rfl),
      rdropWhile_stop _ comment (show isspace 35 = false from rfl)]
    rw [if_pos (by simp), front]

/-- The white space at the ends of a line with a separator stays on its side. -/
theorem strip_sides (left right : Str) {c : UInt8} (stop : isspace c = false) :
    ((left ++ c :: right).dropWhile isspace).rdropWhile isspace =
      left.dropWhile isspace ++ c :: right.rdropWhile isspace := by
  rw [dropWhile_stop left right stop, rdropWhile_stop _ right stop]

theorem words_not_mem {s : Str} {c : UInt8} (absent : c ∉ s) :
    c ∉ s.dropWhile isspace ∧ c ∉ s.rdropWhile isspace :=
  ⟨fun member => absent ((List.dropWhile_suffix _).subset member),
    fun member => absent ((List.rdropWhile_prefix isspace _).subset member)⟩

/-- What a keycode begins with, as the script looks for it. -/
theorem isKeycode_words {left right : Str} {modifiers : List Str} {key : Nat}
    (names : words isspace left = modifiers ++ [bytes "keycode", decimal key]) :
    isKeycode (left ++ 61 :: right) = true := by
  have last : words isspace left = (modifiers ++ [bytes "keycode"]) ++ [decimal key] := by
    rw [names, List.append_assoc]
    rfl
  obtain ⟨before, gap, rfl, names', blank, ends, some_digit, -⟩ := words_last last
  obtain ⟨front, gap', rfl, -, blank', -, -, -⟩ := words_last names'
  -- the word before ends where white space begins
  have parted : gap' ≠ [] := by
    rintro rfl
    have no_blank := ends 101 (by simp [show bytes "keycode" = [107, 101, 121, 99, 111, 100, 101] from rfl])
    cases no_blank
  obtain ⟨c, gap', rfl⟩ := List.exists_cons_of_ne_nil parted
  obtain ⟨d, more, digits⟩ := List.exists_cons_of_ne_nil some_digit
  have digit : isdigit d = true := decimal_isdigit key d (by simp [digits])
  refine List.any_eq_true.mpr ⟨bytes "keycode" ++ (c :: gap' ++ (decimal key ++ (gap ++ 61 :: right))), ?_, ?_⟩
  · rw [List.mem_tails]
    exact ⟨front, by simp⟩
  · have number : (c :: gap' ++ (decimal key ++ (gap ++ 61 :: right))).dropWhile isspace =
        decimal key ++ (gap ++ 61 :: right) :=
      dropWhile_append_stop blank' fun e head => by
        rw [digits] at head
        obtain rfl : d = e := by simpa using head
        exact isspace_of_isdigit digit
    have rest : (decimal key ++ (gap ++ 61 :: right)).dropWhile isdigit = gap ++ 61 :: right :=
      dropWhile_append_stop (decimal_isdigit key) fun e head => by
        rcases gap with _ | ⟨f, gap⟩
        · obtain rfl : 61 = e := by simpa using head
          rfl
        · obtain rfl : f = e := by simpa using head
          by_contra some_digit
          have graphic := isspace_of_isdigit (eq_true_of_ne_false some_digit)
          rw [blank f (List.mem_cons_self ..)] at graphic
          cases graphic
    have equals : (gap ++ 61 :: right).dropWhile isspace = 61 :: right :=
      dropWhile_append_stop blank fun e head => by
        obtain rfl : 61 = e := by simpa using head
        rfl
    have behind : (bytes "keycode" ++ (c :: gap' ++ (decimal key ++ (gap ++ 61 :: right)))).drop 7 =
        c :: gap' ++ (decimal key ++ (gap ++ 61 :: right)) := rfl
    have starts : (bytes "keycode").isPrefixOf
        (bytes "keycode" ++ (c :: gap' ++ (decimal key ++ (gap ++ 61 :: right)))) = true :=
      List.isPrefixOf_iff_prefix.mpr (List.prefix_append ..)
    simp only [keycodeHere, behind, number, rest, equals, starts]
    simp [digits, digit, blank' c (List.mem_cons_self ..)]

/-- A line where something begins that is looked for holds it. -/
theorem infix_of_tails {looked : Str → Bool} {pattern line : Str}
    (starts : ∀ s, looked s = true → pattern <+: s) (found : line.tails.any looked = true) :
    pattern <:+: line := by
  obtain ⟨s, member, here⟩ := List.any_eq_true.mp found
  rw [List.mem_tails] at member
  exact (starts s here).isInfix.trans member.isInfix

theorem isKeycode_inside {line : Str} (found : isKeycode line = true) : bytes "keycode" <:+: line := by
  refine infix_of_tails (fun s here => ?_) found
  simp only [keycodeHere, Bool.and_eq_true] at here
  exact List.isPrefixOf_iff_prefix.mp here.1.1.1

theorem includeName_inside {line : Str} (found : line.tails.any includeHere = true) :
    bytes "include \"" <:+: line := by
  refine infix_of_tails (fun s here => ?_) found
  simp only [includeHere, Bool.and_eq_true] at here
  exact List.isPrefixOf_iff_prefix.mp here.1

theorem includeName_none {line : Str} (absent : ¬ bytes "include \"" <:+: line) : includeName line = none :=
  if_neg fun found => absent (includeName_inside found)

theorem isKeycode_equals {line : Str} (found : isKeycode line = true) : 61 ∈ line := by
  obtain ⟨s, member, here⟩ := List.any_eq_true.mp found
  rw [List.mem_tails] at member
  simp only [keycodeHere, Bool.and_eq_true, beq_iff_eq] at here
  have equals := List.mem_of_mem_head? here.2
  -- what is left of the line behind the number
  exact member.subset ((List.drop_suffix 7 s).subset ((List.dropWhile_suffix _).subset
    ((List.dropWhile_suffix _).subset ((List.dropWhile_suffix _).subset equals))))

theorem includeName_quoted {name : Str} (nonempty : name ≠ []) (plain : ∀ c ∈ name, c ≠ 34) :
    includeName (bytes "include \"" ++ name ++ [34]) = some name := by
  have found : (bytes "include \"" ++ name ++ [34]).tails.any includeHere = true := by
    refine List.any_eq_true.mpr ⟨_, (List.mem_tails _ _).mpr (List.suffix_refl _), ?_⟩
    have starts : (bytes "include \"").isPrefixOf (bytes "include \"" ++ name ++ [34]) = true := by
      rw [List.append_assoc]
      exact List.isPrefixOf_iff_prefix.mpr (List.prefix_append ..)
    obtain ⟨c, name', rfl⟩ := List.exists_cons_of_ne_nil nonempty
    have behind : (bytes "include \"" ++ (c :: name') ++ [34]).drop 10 = name' ++ [34] := rfl
    have far : 34 ∈ (bytes "include \"" ++ (c :: name') ++ [34]).drop 10 := by
      rw [behind]
      exact List.mem_append_right _ (List.mem_singleton_self 34)
    simp only [includeHere, starts, far, decide_true, Bool.and_self]
  have word : bytes "include \"" ++ name ++ [34] = bytes "include " ++ 34 :: (name ++ [34]) := by
    simp [show bytes "include \"" = bytes "include " ++ [34] from rfl]
  have opened : (bytes "include \"" ++ name ++ [34]).dropWhile (· ≠ 34) = 34 :: (name ++ [34]) := by
    rw [word]
    exact dropWhile_append_stop (by decide) (by simp)
  have closed : (name ++ [34]).takeWhile (· ≠ 34) = name :=
    takeWhile_append_stop (fun c member => by simpa using plain c member) (by simp)
  rw [includeName, if_pos found, opened, List.drop_succ_cons, List.drop_zero, closed]

theorem keymapText_append (binds more : List Binding) :
    keymapText (binds ++ more) = keymapText binds ++ keymapText more := List.flatMap_append ..

theorem printKeycode_sides {line left right : Str} {modifiers : List Str} {key : Nat} {actions : List Str}
    (sides : keycodeSides line = (left, right))
    (names : words isspace left = modifiers ++ [bytes "keycode", decimal key])
    (given : words isspace right = actions) :
    printKeycode line = keymapText (keycodeBindings modifiers key actions) := by
  have split : words isspace left = (modifiers ++ [bytes "keycode"]) ++ [decimal key] := by
    rw [names, List.append_assoc]
    rfl
  -- the word keycode is no modifier
  have mask : modifierMask (modifiers ++ [bytes "keycode"]) = modifierMask modifiers := by
    rw [modifierMask, List.foldl_append]
    exact Nat.or_zero _
  have tables : [decimal (modifierMask modifiers), bytes "1", bytes "2", bytes "4"] =
      [modifierMask modifiers, 1, 2, 4].map decimal := rfl
  simp only [printKeycode, sides, split, given, List.getLast?_concat, List.dropLast_concat, mask, tables,
    Option.getD_some, keymapText, keycodeBindings, List.zip_map_left, List.flatMap_map]
  refine List.flatMap_congr fun pair _ => ?_
  simp [Binding.line]

section
variable {parse : Str → Option Str}

theorem parseLine_keycode (out : Str) {modifiers : List Str} {key : Nat} {actions : List Str}
    {left right comment : Str} (names : words isspace left = modifiers ++ [bytes "keycode", decimal key])
    (given : words isspace right = actions) (first : 61 ∉ left) (quotes : 34 ∉ left ++ right)
    (plain : 35 ∉ left ++ right) (ends : ∀ c ∈ comment.head?, c = 35) :
    parseLine parse out (left ++ 61 :: right ++ comment) =
      some (out ++ keymapText (keycodeBindings modifiers key actions)) := by
  have no_comment : 35 ∉ left ++ 61 :: right := by simpa using plain
  have line : stripLine (left ++ 61 :: right ++ comment) =
      left.dropWhile isspace ++ 61 :: right.rdropWhile isspace := by
    rw [stripLine_comment no_comment ends, strip_sides left right rfl]
  have names' : words isspace (left.dropWhile isspace) = _ := (words_dropWhile left).trans names
  have first' : 61 ∉ left.dropWhile isspace := (words_not_mem first).1
  have taken : (left.dropWhile isspace ++ 61 :: right.rdropWhile isspace).takeWhile (· ≠ 61) =
      left.dropWhile isspace :=
    takeWhile_append_stop (fun c member => by
      simpa using fun same : c = 61 => first' (same ▸ member)) (by simp)
  have dropped : (left.dropWhile isspace ++ 61 :: right.rdropWhile isspace).dropWhile (· ≠ 61) =
      61 :: right.rdropWhile isspace :=
    dropWhile_append_stop (fun c member => by
      simpa using fun same : c = 61 => first' (same ▸ member)) (by simp)
  have sides : keycodeSides (left.dropWhile isspace ++ 61 :: right.rdropWhile isspace) =
      ((left.dropWhile isspace).rdropWhile isspace, (right.rdropWhile isspace).dropWhile isspace) := by
    rw [keycodeSides, taken, dropped]
    rfl
  have no_quotes : ¬ bytes "include \"" <:+: left.dropWhile isspace ++ 61 :: right.rdropWhile isspace := by
    intro inside
    have member : 34 ∈ left.dropWhile isspace ++ 61 :: right.rdropWhile isspace :=
      inside.subset (by decide)
    simp only [List.mem_append, not_or] at quotes
    rcases List.mem_append.mp member with here | here
    · exact (words_not_mem quotes.1).1 here
    · rcases List.mem_cons.mp here with same | here
      · cases same
      · exact (words_not_mem quotes.2).2 here
  have printed := printKeycode_sides sides ((words_rdropWhile _).trans names')
    (((words_dropWhile _).trans (words_rdropWhile right)).trans given)
  rw [parseLine, line, if_neg (by simp), if_pos (isKeycode_words names'), includeName_none no_quotes, printed]

theorem parseLine_file (out : Str) {name gap rest comment : Str} (blank : ∀ c ∈ gap, isspace c = true)
    (behind : ∀ c ∈ rest, isspace c = true) (nonempty : name ≠ [])
    (plain : ∀ c ∈ name, c ≠ 34 ∧ c ≠ 35 ∧ c ≠ 61) (ends : ∀ c ∈ comment.head?, c = 35) :
    parseLine parse out (gap ++ bytes "include \"" ++ name ++ 34 :: rest ++ comment) =
      (parse name).map (out ++ ·) := by
  have no_comment : 35 ∉ gap ++ bytes "include \"" ++ name ++ 34 :: rest := by
    intro member
    simp only [List.mem_append, List.mem_cons] at member
    rcases member with ((before | word) | inside) | same | after
    · cases blank _ before
    · exact absurd word (by decide)
    · exact (plain _ inside).2.1 rfl
    · cases same
    · cases behind _ after
  have front : (gap ++ bytes "include \"" ++ name).dropWhile isspace = bytes "include \"" ++ name := by
    rw [List.append_assoc]
    exact dropWhile_append_stop blank fun c head => by
      obtain rfl : 105 = c := Option.some.inj head
      rfl
  have tail : rest.rdropWhile isspace = [] := List.rdropWhile_eq_nil_iff.mpr behind
  have line : stripLine (gap ++ bytes "include \"" ++ name ++ 34 :: rest ++ comment) =
      bytes "include \"" ++ name ++ [34] := by
    rw [stripLine_comment no_comment ends, strip_sides _ rest rfl, front, tail]
  have no_equals : 61 ∉ bytes "include \"" ++ name ++ [34] := by
    simp only [List.mem_append, List.mem_singleton, not_or]
    exact ⟨⟨by decide, fun member => (plain _ member).2.2 rfl⟩, by decide⟩
  have not_keycode : ¬ isKeycode (bytes "include \"" ++ name ++ [34]) = true := fun found =>
    no_equals (isKeycode_equals found)
  simp only [parseLine, line, if_neg not_keycode, includeName_quoted nonempty fun c member => (plain c member).1]
  exact if_neg (List.append_ne_nil_of_right_ne_nil _ (List.cons_ne_nil _ _))

theorem parseLine_other (out : Str) {body comment : Str} (no_keycode : ¬ bytes "keycode" <:+: body)
    (no_include : ¬ bytes "include" <:+: body) (plain : 35 ∉ body) (ends : ∀ c ∈ comment.head?, c = 35) :
    parseLine parse out (body ++ comment) = some out := by
  have inside : stripLine (body ++ comment) <:+: body := by
    rw [stripLine_comment plain ends]
    exact (List.rdropWhile_prefix isspace _).isInfix.trans (List.dropWhile_suffix _).isInfix
  have not_keycode : ¬ isKeycode (stripLine (body ++ comment)) = true := fun found =>
    no_keycode ((isKeycode_inside found).trans inside)
  have not_include : ¬ bytes "include \"" <:+: stripLine (body ++ comment) := fun found =>
    no_include (((show bytes "include" <+: bytes "include \"" from ⟨bytes " \"", rfl⟩).isInfix.trans found).trans inside)
  by_cases empty : stripLine (body ++ comment) = []
  · simp only [parseLine, empty, if_true]
  · simp only [parseLine, empty, if_false, if_neg not_keycode, includeName_none not_include]

end

/-! ### The files -/

section
variable {host : ConvHost} {dirs : List Str} {files : Str → Option (List KeymapItem)}

theorem foldlM_binds (holds : host.Holds dirs files) {items : List KeymapItem} {binds : List Binding}
    (means : Binds files items binds) : ∃ enough, ∀ rounds ≥ enough, ∀ lines,
      List.Forall₂ Written items lines → ∀ out,
        lines.foldlM (parseLine (parseKeymap host dirs rounds)) out = some (out ++ keymapText binds) := by
  induction means with
  | nil =>
    refine ⟨0, fun rounds _ lines written out => ?_⟩
    cases written
    simp [keymapText]
  | @keycode _ _ _ _ binds _ ih =>
    obtain ⟨enough, ih⟩ := ih
    refine ⟨enough, fun rounds more lines written out => ?_⟩
    cases written with
    | cons first later =>
      cases first with
      | keycode names given equals quotes plain ends =>
        rw [List.foldlM_cons, parseLine_keycode out names given equals quotes plain ends, Option.bind_eq_bind,
          Option.bind_some, ih rounds more _ later, keymapText_append, List.append_assoc]
  | @file name content inner _ binds listed _ _ below ih =>
    obtain ⟨enough, below⟩ := below
    obtain ⟨enough', ih⟩ := ih
    refine ⟨max (enough + 1) enough', fun rounds more lines written out => ?_⟩
    -- the file takes one round more than what it holds
    obtain ⟨rounds, rfl⟩ : ∃ n, rounds = n + 1 := ⟨rounds - 1, by omega⟩
    have read : parseKeymap host dirs (rounds + 1) name = some (keymapText inner) :=
      below rounds (by omega) _ (holds name content listed) []
    cases written with
    | cons first later =>
      cases first with
      | file blank behind nonempty plain ends =>
        rw [List.foldlM_cons, parseLine_file out blank behind nonempty plain ends, read, Option.map_some,
          Option.bind_eq_bind, Option.bind_some, ih (rounds + 1) (by omega) _ later, keymapText_append,
          List.append_assoc]
  | other _ ih =>
    obtain ⟨enough, ih⟩ := ih
    refine ⟨enough, fun rounds more lines written out => ?_⟩
    cases written with
    | cons first later =>
      cases first with
      | other no_keycode no_include plain ends =>
        rw [List.foldlM_cons, parseLine_other out no_keycode no_include plain ends, Option.bind_eq_bind,
          Option.bind_some, ih rounds more _ later]

end

/-- A keymap that includes another one, which lies in a directory of the path, with an action
that is not known. -/
def usKeymap : Str := bytes "# US\ninclude \"ctrl\"\nshift keycode 30 = nul Control_a hyper # a"

def usKeymaps : ConvHost where
  stands := fun file => file = bytes "us" ∨ file = bytes "/inc/ctrl.inc"
  cat := fun file => if file = bytes "us" then usKeymap else bytes "\tkeycode  31=Control_b"
  zcat := fun _ => []

def usItems (name : Str) : Option (List KeymapItem) :=
  if name = bytes "us" then
    some [.other, .file (bytes "ctrl"),
      .keycode [bytes "shift"] 30 [bytes "nul", bytes "Control_a", bytes "hyper"]]
  else if name = bytes "ctrl" then some [.keycode [] 31 [bytes "Control_b"]]
  else none

def usBinds : List Binding :=
  [⟨0, 31, bytes "Control_b"⟩, ⟨1, 30, bytes "nul"⟩, ⟨1, 30, bytes "Control_a"⟩, ⟨2, 30, bytes "hyper"⟩]

theorem usKeymaps_holds : usKeymaps.Holds [bytes "/inc"] usItems := by
  intro name content listed
  unfold usItems at listed
  split at listed
  next us =>
    obtain rfl := Option.some.inj listed
    have lines : fileLines (keymapData usKeymaps (keymapFile usKeymaps [bytes "/inc"] name)) =
        [[] ++ bytes "# US", [] ++ bytes "include \"" ++ bytes "ctrl" ++ 34 :: [] ++ [],
          bytes "shift keycode 30 " ++ 61 :: bytes " nul Control_a hyper " ++ bytes "# a"] := by
      rw [us]
      decide +kernel
    rw [lines]
    exact .cons (.other (by decide) (by decide) (by decide) (by decide))
      (.cons (.file (by decide) (by decide) (by decide) (by decide) (by decide))
        (.cons (.keycode (by decide) (by decide) (by decide) (by decide) (by decide) (by decide)) .nil))
  next =>
    split at listed
    next ctrl =>
      obtain rfl := Option.some.inj listed
      have lines : fileLines (keymapData usKeymaps (keymapFile usKeymaps [bytes "/inc"] name)) =
          [bytes "\tkeycode  31" ++ 61 :: bytes "Control_b" ++ []] := by
        rw [ctrl]
        decide +kernel
      rw [lines]
      exact .cons (.keycode (by decide) (by decide) (by decide) (by decide) (by decide) (by decide)) .nil
    next => cases listed

end KexecLoader
