import Mathlib.Data.List.DropRight
import KexecLoader.Completion
import KexecLoader.Library.WordCompletion

/-!
# What a word in the shell can be completed to

The candidates of a context are listed without any regard to how `ac_search` finds them.
The ids of disks become candidates once the mark in front of them is typed in full.
-/
namespace KexecLoader

/-- A candidate that is compared as it stands. -/
def plainCandidate (text suffix : Str) : Candidate UInt8 := ⟨text, suffix, id⟩

/-- A UUID, whose letters may be typed in either case. -/
def uuidCandidate (text : Str) : Candidate UInt8 := ⟨text, [], tolower⟩

def given {α : Type} (field : Str) (x : α) : List α := if field = [] then [] else [x]

def markCandidate (mark word : Str) : List (Candidate UInt8) :=
  if word.length < mark.length then [plainCandidate mark []] else []

def deviceCandidates (disks : List KlDisk) (word : Str) : List (Candidate UInt8) :=
  markCandidate (bytes "UUID=") word ++ markCandidate (bytes "LABEL=") word ++
  disks.flatMap fun disk =>
    if bytes "UUID=" <+: word then
      given disk.uuid.str (uuidCandidate (bytes "UUID=" ++ disk.uuid.str))
    else if bytes "LABEL=" <+: word then
      given disk.label.str (plainCandidate (bytes "LABEL=" ++ disk.label.str) [])
    else [plainCandidate disk.name.str []]

/-! ### Files -/

/-- What a disk is called in brackets, and the sizes of the arrays for it. -/
def bracketForms (disk : KlDisk) (word : Str) : List (Candidate UInt8 × Nat) :=
  (if bytes "(UUID=" <+: word then
    given disk.uuid.str (uuidCandidate (bytes "(UUID=" ++ disk.uuid.str ++ bytes ")"), 256) else []) ++
  (if bytes "(LABEL=" <+: word then
    given disk.label.str (plainCandidate (bytes "(LABEL=" ++ disk.label.str ++ bytes ")") [], 256)
    else []) ++
  given disk.name.str (plainCandidate (bytes "(" ++ disk.name.str ++ bytes ")") [], 32)

def bracketCandidates (disks : List KlDisk) (word : Str) : List (Candidate UInt8) :=
  markCandidate (bytes "(UUID=") word ++ markCandidate (bytes "(LABEL=") word ++
  disks.flatMap fun disk => (bracketForms disk word).map Prod.fst

theorem uuid_form {disk : KlDisk} {word : Str} (full : disk.uuid.str ≠ []) (typed : bytes "(UUID=" <+: word) :
    (uuidCandidate (bytes "(UUID=" ++ disk.uuid.str ++ bytes ")"), 256) ∈ bracketForms disk word := by
  simp [bracketForms, given, full, typed]

theorem label_form {disk : KlDisk} {word : Str} (full : disk.label.str ≠ [])
    (typed : bytes "(LABEL=" <+: word) :
    (plainCandidate (bytes "(LABEL=" ++ disk.label.str ++ bytes ")") [], 256) ∈ bracketForms disk word := by
  simp [bracketForms, given, full, typed]

theorem name_form {disk : KlDisk} (word : Str) (full : disk.name.str ≠ []) :
    (plainCandidate (bytes "(" ++ disk.name.str ++ bytes ")") [], 32) ∈ bracketForms disk word := by
  simp [bracketForms, given, full]

theorem form_candidate {disks : List KlDisk} {disk : KlDisk} {word : Str} {form : Candidate UInt8 × Nat}
    (listed : disk ∈ disks) (member : form ∈ bracketForms disk word) :
    form.1 ∈ bracketCandidates disks word :=
  List.mem_append_right _ (List.mem_flatMap.mpr ⟨disk, listed, List.mem_map_of_mem member⟩)

/-- The directory of a word, with the slash behind it, and what the word has of a name. -/
def wordDir (word : Str) : Str := word.rdropWhile (· ≠ slash)

def wordName (word : Str) : Str := word.rtakeWhile (· ≠ slash)

/-- A name that begins with a period is hidden until something of it is typed. -/
def Hidden (word : Str) (node : Dirent) : Prop := node.name.str.head? = some 46 ∧ wordName word = []

instance (word : Str) (node : Dirent) : Decidable (Hidden word node) :=
  inferInstanceAs (Decidable (_ ∧ _))

def nodePath (word : Str) (node : Dirent) : Str := wordDir word ++ bytes "/" ++ node.name.str

def nodeCandidate (host : AcHost) (word : Str) (node : Dirent) : Candidate UInt8 :=
  plainCandidate (wordDir word ++ node.name.str)
    (if host.stat (nodePath word node) = some true then bytes "/" else [])

def nodeCandidates (host : AcHost) (word : Str) (mode : AcMode) (node : Dirent) :
    List (Candidate UInt8) :=
  if Hidden word node then []
  else if mode = .dir ∧ host.stat (nodePath word node) ≠ some true then []
  else [nodeCandidate host word node]

def pathCandidates (host : AcHost) (word : Str) (mode : AcMode) : List (Candidate UInt8) :=
  if devicePath word = [] then [plainCandidate (word ++ bytes "/") []]
  else if (devicePath word).head? ≠ some slash then []
  else
    match host.opendir (wordDir word) with
    | none => []
    | some nodes => nodes.flatMap (nodeCandidates host word mode)

/-- Names of files are completed, and the word is still in the brackets, or empty. -/
def InBrackets (mode : AcMode) (word : Str) : Prop :=
  (mode = .file ∨ mode = .dir) ∧ (word = [] ∨ bracketClosed word = false)

instance (mode : AcMode) (word : Str) : Decidable (InBrackets mode word) :=
  inferInstanceAs (Decidable (_ ∧ _))

/-- The candidates for a word, whether it is their beginning or not. -/
def candidates (host : AcHost) (mode : AcMode) (word : Str) : List (Candidate UInt8) :=
  match mode with
  | .none => []
  | .cmd => commandModes.map fun c => plainCandidate c.1 (bytes " ")
  | .dev => deviceCandidates host.disks word
  | .file | .dir =>
    (if InBrackets mode word then bracketCandidates host.disks word else []) ++
      (if bracketClosed word then pathCandidates host word mode else [])

/-- The list is sound and complete, and was read from the strings it is about. -/
structure Completes (host : AcHost) (cmd : Str) (offset : Nat) (mode : AcMode) (word : Str) : Prop where
  sound : ∀ entry ∈ acSearch host cmd offset,
    ∃ c ∈ candidates host mode word, c.CompletedBy word entry.append.str
  complete : ∀ c ∈ candidates host mode word, c.Extends word →
    ∃ entry ∈ acSearch host cmd offset, c.CompletedBy word entry.append.str
  inside : ∀ entry ∈ acSearch host cmd offset, entry.source.Inside

def isFind (argbuf : Str) : Prop :=
  (nextValue (argbuf.drop (strspn argbuf [space]))).1 = bytes "find"

instance (argbuf : Str) : Decidable (isFind argbuf) := inferInstanceAs (Decidable (_ = _))

/-- Where `ac_search` does what it should: the forms in brackets that extend the word fit
in their arrays, all disks have names, what extends the word can be examined, and nothing
in brackets extends the last argument of find. -/
structure Completable (host : AcHost) (argbuf : Str) (mode : AcMode) (word : Str) : Prop where
  fits : InBrackets mode word → ∀ disk ∈ host.disks, ∀ form ∈ bracketForms disk word,
    form.1.Extends word → form.1.text.length < form.2
  named : InBrackets mode word → word = [] → ∀ disk ∈ host.disks, disk.name.str ≠ []
  find : isFind argbuf → InBrackets mode word → ∀ c ∈ candidates host mode word, ¬c.Extends word
  examined : mode = .file → bracketClosed word = true → (devicePath word).head? = some slash →
    ∀ nodes, host.opendir (wordDir word) = some nodes → ∀ node ∈ nodes, ¬Hidden word node →
      (nodeCandidate host word node).Extends word → host.stat (nodePath word node) ≠ none

end KexecLoader
