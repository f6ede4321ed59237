import KexecLoader.Misc
import KexecLoader.Settings

/-!
# The format of kexec-loader.conf

What the file means, independent of the code that reads it: directives, the
blocks they form, the target a block describes, and the texts that spell them.
-/
namespace KexecLoader

/-- A value that fits its field. -/
structure Value (size : Nat) where
  buf : Buf size
  ok : LineValue buf.str

/-- A value without blanks. -/
structure Word (size : Nat) extends Value size where
  whole : ∀ c ∈ buf.str, c ∉ blanks

/-- The fields of a target that take one value. -/
inductive Field where
  | root
  | kernel
  | initrd
  | cmdline
  | append
deriving DecidableEq

def Field.size : Field → Nat
  | .root => 256
  | _ => 1024

instance (f : Field) : NeZero f.size := by cases f <;> exact ⟨by decide⟩

def Field.word : Field → Str
  | .root => bytes "root"
  | .kernel => bytes "kernel"
  | .initrd => bytes "initrd"
  | .cmdline => bytes "cmdline"
  | .append => bytes "append"

def Field.get : (f : Field) → KlTarget → Buf f.size
  | .root, t => t.root
  | .kernel, t => t.kernel
  | .initrd, t => t.initrd
  | .cmdline, t => t.cmdline
  | .append, t => t.append

def Field.set : (f : Field) → KlTarget → Buf f.size → KlTarget
  | .root, t, b => { t with root := b }
  | .kernel, t, b => { t with kernel := b }
  | .initrd, t, b => { t with initrd := b }
  | .cmdline, t, b => { t with cmdline := b }
  | .append, t, b => { t with append := b }

inductive Flag where
  | default
  | resetVga
deriving DecidableEq

def Flag.word : Flag → Str
  | .default => bytes "default"
  | .resetVga => bytes "reset-vga"

def Flag.bit : Flag → Nat
  | .default => TARGET_DEFAULT
  | .resetVga => TARGET_RESET

/-- A directive inside a block. -/
inductive Setting where
  | field (f : Field) (value : Value f.size)
  | flag (f : Flag)
  | module (name : Word 1024) (args : Option (Value 1024))

inductive Directive where
  | title (value : Value 256)
  | setting (setting : Setting)

structure Block where
  title : Value 256
  body : List Setting

def Block.directives (b : Block) : List Directive := .title b.title :: b.body.map .setting

/-! ### The target of a block -/

def Setting.valueOf : (f : Field) → Setting → Option (Buf f.size)
  | .root, .field .root v => some v.buf
  | .kernel, .field .kernel v => some v.buf
  | .initrd, .field .initrd v => some v.buf
  | .cmdline, .field .cmdline v => some v.buf
  | .append, .field .append v => some v.buf
  | _, _ => none

def Setting.isFlag (f : Flag) : Setting → Bool
  | .flag g => f = g
  | _ => false

def Setting.asModule : Setting → Option KlModule
  | .module name none => some ⟨name.buf, default⟩
  | .module name (some args) => some ⟨name.buf, args.buf⟩
  | _ => none

/-- The last value given for a field. -/
def Block.last (b : Block) (f : Field) : Option (Buf f.size) :=
  (b.body.filterMap (Setting.valueOf f)).getLast?

def Block.flag (b : Block) (f : Flag) : Nat := if b.body.any (Setting.isFlag f) then f.bit else 0

/-- A block without a root or a kernel describes none. -/
def Block.target (b : Block) : Option KlTarget :=
  match b.last .root, b.last .kernel with
  | some root, some kernel =>
    some {
      title := b.title.buf
      flags := b.flag .default ||| b.flag .resetVga
      root := root
      kernel := kernel
      initrd := (b.last .initrd).getD default
      cmdline := (b.last .cmdline).getD default
      append := (b.last .append).getD default
      modules := b.body.filterMap Setting.asModule }
  | _, _ => none

/-! ### Spelling -/

/-- A directive's word and the text after the blanks that follow it. -/
inductive Directive.Spelled : Directive → Str → Str → Prop where
  | title (value : Value 256) : Spelled (.title value) (bytes "title") value.buf.str
  | field (f : Field) (value : Value f.size) :
    Spelled (.setting (.field f value)) f.word value.buf.str
  | flag (f : Flag) : Spelled (.setting (.flag f)) f.word []
  | module (name : Word 1024) :
    Spelled (.setting (.module name none)) (bytes "module") name.buf.str
  | moduleArgs (name : Word 1024) (args : Value 1024) (sep : Str) (apart : sep ≠ [])
    (blank : Blank sep) : Spelled (.setting (.module name (some args))) (bytes "module")
      (name.buf.str ++ (sep ++ args.buf.str))

/-- The text of a line, and the directive it holds unless it is blank or a
comment. -/
inductive LineText : Str → Option Directive → Prop where
  | empty (indent : Str) (blank : Blank indent) : LineText indent none
  | comment (indent text : Str) (blank : Blank indent) (one_line : ∀ c ∈ text, c ∉ newlines)
    (no_nul : 0 ∉ text) : LineText (indent ++ 35 :: text) none
  | directive (d : Directive) (indent word sep after : Str) (indented : Blank indent)
    (blank : Blank sep) (apart : sep = [] → after = []) (spelled : d.Spelled word after) :
    LineText (indent ++ (word ++ (sep ++ after))) (some d)

structure Line where
  text : Str
  directive : Option Directive
  reads : LineText text directive
  short : text.length ≤ 1022

inductive Ending where
  | lf
  | crlf

def Ending.text : Ending → Str
  | .lf => [KexecLoader.lf]
  | .crlf => [cr, KexecLoader.lf]

/-- The last line may be without an ending. -/
structure ConfFile where
  lines : List (Line × Ending)
  last : Option Line

def ConfFile.content (file : ConfFile) : Str :=
  file.lines.flatMap (fun (line, ending) => line.text ++ ending.text) ++
    (file.last.map Line.text).getD []

def ConfFile.directives (file : ConfFile) : List Directive :=
  file.lines.filterMap (fun (line, _) => line.directive) ++
    (file.last.bind Line.directive).toList

/-! ### Every line is one line of text -/

theorem Blank.not_newline {s : Str} (blank : Blank s) : ∀ c ∈ s, c ∉ newlines ∧ c ≠ 0 := by
  intro c member
  have : c = tab ∨ c = space := by simpa [blanks] using blank c member
  rcases this with rfl | rfl <;> decide

theorem LineValue.not_newline {s : Str} (ok : LineValue s) : ∀ c ∈ s, c ∉ newlines ∧ c ≠ 0 :=
  fun c member => ⟨ok.one_line c member, fun zero => ok.no_nul (zero ▸ member)⟩

theorem Directive.Spelled.word_bytes {d : Directive} {word after : Str}
    (spelled : d.Spelled word after) :
    word ≠ [] ∧ ∀ c ∈ word, c ∉ newlines ++ blanks ∧ c ≠ 0 ∧ c ≠ 35 := by
  cases spelled with
  | field f => cases f <;> decide
  | flag f => cases f <;> decide
  | title | module | moduleArgs => decide

theorem Directive.Spelled.after_bytes {d : Directive} {word after : Str}
    (spelled : d.Spelled word after) : ∀ c ∈ after, c ∉ newlines ∧ c ≠ 0 := by
  cases spelled with
  | title value => exact value.ok.not_newline
  | field f value => exact value.ok.not_newline
  | flag => simp
  | module name => exact name.ok.not_newline
  | moduleArgs name args sep apart blank =>
    intro c member
    obtain member | member | member : c ∈ name.buf.str ∨ c ∈ sep ∨ c ∈ args.buf.str := by
      simpa using member
    · exact name.ok.not_newline c member
    · exact blank.not_newline c member
    · exact args.ok.not_newline c member

theorem Directive.Spelled.after_starts {d : Directive} {word after : Str}
    (spelled : d.Spelled word after) : ∀ c ∈ after.head?, c ∉ blanks := by
  cases spelled with
  | title value => exact value.ok.starts
  | field f value => exact value.ok.starts
  | flag => simp
  | module name => exact name.ok.starts
  | moduleArgs name args sep apart blank =>
    obtain ⟨c, rest, cons⟩ := List.exists_cons_of_ne_nil name.ok.nonempty
    have starts := name.ok.starts
    rw [cons] at starts ⊢
    exact starts

theorem LineText.bytes {text : Str} {d : Option Directive} (reads : LineText text d) :
    ∀ c ∈ text, c ∉ newlines ∧ c ≠ 0 := by
  cases reads with
  | empty _ blank => exact blank.not_newline
  | comment indent text blank one_line no_nul =>
    intro c member
    obtain member | rfl | member : c ∈ indent ∨ c = 35 ∨ c ∈ text := by simpa using member
    · exact blank.not_newline c member
    · decide
    · exact ⟨one_line c member, fun zero => no_nul (zero ▸ member)⟩
  | directive d indent word sep after indented blank apart spelled =>
    intro c member
    obtain member | member | member | member : c ∈ indent ∨ c ∈ word ∨ c ∈ sep ∨ c ∈ after := by
      simpa using member
    · exact indented.not_newline c member
    · have := spelled.word_bytes.2 c member
      exact ⟨fun newline => this.1 (by simp [newline]), this.2.1⟩
    · exact blank.not_newline c member
    · exact spelled.after_bytes c member

theorem LineText.empty_none {text : Str} {d : Option Directive} (reads : LineText text d)
    (empty : text = []) : d = none := by
  cases reads with
  | empty => rfl
  | comment => simp at empty
  | directive d indent word sep after indented blank apart spelled =>
    simp [spelled.word_bytes.1] at empty

end KexecLoader
