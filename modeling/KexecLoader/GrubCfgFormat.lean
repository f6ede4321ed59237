import KexecLoader.Library.Records
import KexecLoader.SearchLine

/-!
# The format of grub.cfg

What the file means as far as it is read: the default, the entries with their settings,
the targets these describe, and the texts that spell them.
-/
namespace KexecLoader

/-- The entry that is the default, by its number or its title. -/
inductive CfgDefault where
  | number (digits : Str)
  | titled (title : Str)

def CfgDefault.text : CfgDefault → Str
  | number digits => digits
  | titled title => title

inductive CfgSetting where
  | search (root : Buf 256)
  | linux (kernel args : Buf 1024)
  | initrd (path : Buf 1024)
  | chainloader
deriving DecidableEq

inductive CfgDirective where
  | default (choice : CfgDefault)
  | menuentry (title : Buf 256)
  | setting (setting : CfgSetting)
  | bracket

structure CfgEntry where
  title : Buf 256
  body : List CfgSetting

def CfgEntry.directives (e : CfgEntry) : List CfgDirective :=
  .menuentry e.title :: (e.body.map .setting ++ [.bracket])

/-- An entry, or a bracket that closes something that is not read. -/
inductive CfgItem where
  | entry (entry : CfgEntry)
  | bracket

def CfgItem.directives : CfgItem → List CfgDirective
  | entry e => e.directives
  | bracket => [.bracket]

def CfgItem.entry? : CfgItem → Option CfgEntry
  | entry e => some e
  | bracket => none

/-! ### The targets -/

namespace CfgSetting

def root? : CfgSetting → Option (Buf 256)
  | search root => some root
  | _ => none

def linux? : CfgSetting → Option (Buf 1024 × Buf 1024)
  | linux kernel args => some (kernel, args)
  | _ => none

def initrd? : CfgSetting → Option (Buf 1024)
  | initrd path => some path
  | _ => none

end CfgSetting

def CfgDefault.marks (index : Nat) (title : Str) : CfgDefault → Bool
  | number digits => index = numeral 10 digits
  | titled chosen => title = chosen

/-- An entry with a root and a kernel describes a target, unless it loads something
else. -/
def CfgEntry.target (e : CfgEntry) (flags : Nat) : Option KlTarget :=
  if .chainloader ∈ e.body then none
  else
    match latest CfgSetting.root? e.body, latest CfgSetting.linux? e.body with
    | some root, some linux =>
      some { initTarget with
        title := e.title
        flags := flags
        root := root
        kernel := linux.1
        append := linux.2
        initrd := (latest CfgSetting.initrd? e.body).getD default }
    | _, _ => none

def defaultFlag (choice : Option CfgDefault) (index : Nat) (title : Str) : Nat :=
  if choice.any (·.marks index title) then TARGET_DEFAULT else 0

/-- The targets of entries that are counted from `first` on. -/
def entryTargets (choice : Option CfgDefault) (first : Nat) (entries : List CfgEntry) : List KlTarget :=
  (entries.zipIdx first).filterMap fun (e, index) => e.target (defaultFlag choice index e.title.str)

/-! ### Spelling -/

/-- Behind a word: nothing, or a blank and any text. -/
def Behind (rest : Str) : Prop := ∀ c ∈ rest.head?, c ∈ blanks

instance (rest : Str) : Decidable (Behind rest) :=
  inferInstanceAs (Decidable (∀ c ∈ rest.head?, c ∈ blanks))

/-- A path without blanks, quotes and equals signs. -/
structure PlainPath (path : Str) : Prop where
  nonempty : path ≠ []
  whole : ∀ c ∈ path, c ∉ blanks ++ [39, 34, 61]

/-- The words the loader interprets. -/
def grubCfgNames : List Str :=
  [bytes "menuentry", bytes "\x7d", bytes "chainloader", bytes "set", bytes "linux", bytes "linux16",
    bytes "initrd", bytes "initrd16"] ++ searchNames

/-- The value of `default`. -/
inductive CfgDefault.Spelled : CfgDefault → Str → Prop where
  | bare (digits : Str) (nonempty : digits ≠ []) (numeric : ∀ c ∈ digits, isdigit c = true)
    (small : numeral 10 digits < 2 ^ 31) : Spelled (.number digits) digits
  | quoted (digits : Str) (nonempty : digits ≠ []) (numeric : ∀ c ∈ digits, isdigit c = true)
    (small : numeral 10 digits < 2 ^ 31) : Spelled (.number digits) (34 :: (digits ++ [34]))
  | title (title : Str) (other : ∃ c ∈ title, isdigit c = false) (no_submenu : 62 ∉ title)
    (no_quote : 34 ∉ title) (fits : title.length < 256) :
    Spelled (.titled title) (34 :: (title ++ [34]))

/-- A `search` that ends with the id and sets the root. -/
structure RootSearch (line : PlainSearch) (root : Str) : Prop where
  last : line.after = []
  sets : (SearchCommand.search line).setsRoot = true
  found : ∃ pre, idPrefix (SearchCommand.search line).kind = some pre ∧ root = pre ++ line.id

/-- The text of a line, and the directive it holds, if it is one that is read. -/
inductive CfgText : Str → Option CfgDirective → Prop where
  | empty (indent : Str) (indented : Blank indent) : CfgText indent none
  | comment (indent text : Str) (indented : Blank indent) : CfgText (indent ++ 35 :: text) none
  | foreign (indent word rest : Str) (indented : Blank indent) (nonempty : word ≠ [])
    (no_comment : word.head? ≠ some 35) (whole : ∀ c ∈ word, c ∉ blanks)
    (unknown : word ∉ grubCfgNames) (behind : Behind rest) : CfgText (indent ++ (word ++ rest)) none
  | default (choice : CfgDefault) (indent gap value : Str) (indented : Blank indent) (gapped : Gap gap)
    (spelled : choice.Spelled value) :
    CfgText (indent ++ (bytes "set" ++ (gap ++ (bytes "default=" ++ value)))) (some (.default choice))
  | menuentry (title : Buf 256) (indent gap : Str) (quote : UInt8) (rest : Str) (indented : Blank indent)
    (gapped : Gap gap) (quoted : quote = 39 ∨ quote = 34) (free : quote ∉ title.str) :
    CfgText (indent ++ (bytes "menuentry" ++ (gap ++ quote :: (title.str ++ quote :: rest))))
      (some (.menuentry title))
  | search (root : Buf 256) (indent : Str) (line : PlainSearch) (indented : Blank indent)
    (searched : RootSearch line root.str) :
    CfgText (indent ++ (bytes "search" ++ linksText (SearchCommand.search line).links))
      (some (.setting (.search root)))
  | linux (kernel args : Buf 1024) (indent word gap sep : Str) (indented : Blank indent)
    (named : word = bytes "linux" ∨ word = bytes "linux16") (gapped : Gap gap)
    (path : PlainPath kernel.str) (blank : Blank sep) (apart : sep = [] → args.str = [])
    (starts : ∀ c ∈ args.str.head?, c ∉ grub2Seps) :
    CfgText (indent ++ (word ++ (gap ++ (kernel.str ++ (sep ++ args.str)))))
      (some (.setting (.linux kernel args)))
  | initrd (path : Buf 1024) (indent word gap : Str) (indented : Blank indent)
    (named : word = bytes "initrd" ∨ word = bytes "initrd16") (gapped : Gap gap)
    (plain : PlainPath path.str) :
    CfgText (indent ++ (word ++ (gap ++ path.str))) (some (.setting (.initrd path)))
  | chainloader (indent rest : Str) (indented : Blank indent) (behind : Behind rest) :
    CfgText (indent ++ (bytes "chainloader" ++ rest)) (some (.setting .chainloader))
  | bracket (indent rest : Str) (indented : Blank indent) (behind : Behind rest) :
    CfgText (indent ++ (bytes "\x7d" ++ rest)) (some .bracket)

/-- A file of short lines, and what it holds. -/
structure CfgFile (content : Str) (directives : List CfgDirective) : Prop where
  text : ∀ c ∈ content, c ≠ 0 ∧ c ≠ cr
  short : ∀ line ∈ fileLines content, line.length ≤ 1022
  spelled : ∃ held : List (Option CfgDirective), List.Forall₂ CfgText (fileLines content) held ∧
    held.filterMap id = directives

end KexecLoader
