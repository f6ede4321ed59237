import KexecLoader.Conf
import KexecLoader.ConfFormat

/-!
# load_conf reads the format

One round of the loop is one step of an abstract reader that has the list of
targets and the one that is open. A whole file is then a fold of that step over
its directives, and the fold over a block leaves the block's target.
-/
namespace KexecLoader

/-! ### The abstract reader -/

structure Reader where
  targets : List KlTarget
  current : Option KlTarget

def Setting.apply (t : KlTarget) : Setting → KlTarget
  | .field f v => f.set t v.buf
  | .flag f => { t with flags := t.flags ||| f.bit }
  | .module name args =>
    { t with modules := t.modules ++ [⟨name.buf, (args.map Value.buf).getD default⟩] }

/-- What closing a target adds to the list. -/
def finished (t : KlTarget) : List KlTarget :=
  if t.root.str = [] ∨ t.kernel.str = [] then [] else [t]

def Reader.close (r : Reader) : List KlTarget := r.targets ++ (r.current.map finished).getD []

def Reader.step (r : Reader) : Directive → Reader
  | .title v => ⟨r.close, some { initTarget with title := v.buf }⟩
  | .setting s => { r with current := r.current.map fun t => s.apply t }

/-! ### The target of a block -/

theorem Field.get_set (f g : Field) (t : KlTarget) (v : Value g.size) :
    f.get (g.set t v.buf) = ((Setting.field g v).valueOf f).getD (f.get t) := by
  cases f <;> cases g <;> rfl

theorem Setting.apply_get (f : Field) (t : KlTarget) (s : Setting) :
    f.get (s.apply t) = (s.valueOf f).getD (f.get t) := by
  cases s with
  | field g v => exact f.get_set g t v
  | flag g => cases f <;> rfl
  | module name args => cases f <;> rfl

theorem Setting.apply_title (t : KlTarget) (s : Setting) : (s.apply t).title = t.title := by
  cases s with
  | field g v => cases g <;> rfl
  | flag g => rfl
  | module name args => rfl

theorem Setting.apply_modules (t : KlTarget) (s : Setting) :
    (s.apply t).modules = t.modules ++ s.asModule.toList := by
  cases s with
  | field g v => cases g <;> simp [Setting.apply, Field.set, Setting.asModule]
  | flag g => simp [Setting.apply, Setting.asModule]
  | module name args => cases args <;> rfl

theorem Setting.apply_flags (t : KlTarget) (s : Setting) :
    (s.apply t).flags = t.flags |||
      ((if s.isFlag .default then TARGET_DEFAULT else 0) |||
        if s.isFlag .resetVga then TARGET_RESET else 0) := by
  cases s with
  | field g v => cases g <;> simp [Setting.apply, Field.set, Setting.isFlag]
  | flag g => cases g <;> rfl
  | module name args => simp [Setting.apply, Setting.isFlag]

section
variable (t : KlTarget) (body : List Setting)

theorem fold_get (f : Field) :
    f.get (body.foldl Setting.apply t) =
      ((body.filterMap (Setting.valueOf f)).getLast?).getD (f.get t) := by
  induction body generalizing t with
  | nil => rfl
  | cons s body ih =>
    rw [List.foldl_cons, ih, Setting.apply_get, List.filterMap_cons]
    -- the value given here counts only if no later line gives one
    cases s.valueOf f with
    | none => rfl
    | some v => rw [List.getLast?_cons]; rfl

theorem fold_title : (body.foldl Setting.apply t).title = t.title := by
  induction body generalizing t with
  | nil => rfl
  | cons s body ih => rw [List.foldl_cons, ih, Setting.apply_title]

theorem fold_modules :
    (body.foldl Setting.apply t).modules = t.modules ++ body.filterMap Setting.asModule := by
  induction body generalizing t with
  | nil => simp
  | cons s body ih =>
    rw [List.foldl_cons, ih, Setting.apply_modules, List.filterMap_cons]
    cases s.asModule <;> simp

theorem fold_flags :
    (body.foldl Setting.apply t).flags = t.flags |||
      ((if body.any (Setting.isFlag .default) then TARGET_DEFAULT else 0) |||
        if body.any (Setting.isFlag .resetVga) then TARGET_RESET else 0) := by
  induction body generalizing t with
  | nil => simp
  | cons s body ih =>
    rw [List.foldl_cons, ih, Setting.apply_flags, List.any_cons, List.any_cons]
    cases s.isFlag .default <;> cases s.isFlag .resetVga <;>
      cases body.any (Setting.isFlag .default) <;> cases body.any (Setting.isFlag .resetVga) <;>
      simp [TARGET_DEFAULT, TARGET_RESET, Nat.or_assoc]

end

/-- The target as it stands after the last line of a block. -/
def Block.build (b : Block) : KlTarget :=
  b.body.foldl Setting.apply { initTarget with title := b.title.buf }

theorem Block.build_title (b : Block) : b.build.title = b.title.buf := fold_title _ b.body

theorem Block.build_flags (b : Block) :
    b.build.flags = b.flag .default ||| b.flag .resetVga :=
  (fold_flags _ b.body).trans (Nat.zero_or _)

theorem Block.build_modules (b : Block) : b.build.modules = b.body.filterMap Setting.asModule :=
  fold_modules _ b.body

theorem Block.build_get (b : Block) (f : Field) : f.get b.build = (b.last f).getD default :=
  (fold_get _ b.body f).trans (by cases f <;> rfl)

theorem Setting.valueOf_nonempty (f : Field) (s : Setting) (v : Buf f.size)
    (given : s.valueOf f = some v) : v.str ≠ [] := by
  cases s with
  | field g value =>
    cases f <;> cases g <;> cases given <;> exact value.ok.nonempty
  | flag g => cases f <;> cases given
  | module name args => cases f <;> cases given

/-- A field of the finished target is empty only if its directive is missing. -/
theorem Block.build_empty (b : Block) (f : Field) :
    (f.get b.build).str = [] ↔ b.last f = none := by
  rw [b.build_get]
  cases last : b.last f with
  | none => exact ⟨fun _ => rfl, fun _ => rfl⟩
  | some v =>
    -- the value stands on some line of the block
    obtain ⟨s, -, given⟩ := List.mem_filterMap.mp (List.mem_of_getLast? last)
    simpa using s.valueOf_nonempty f v given

theorem Block.build_eq (b : Block) (root : Buf 256) (kernel : Buf 1024)
    (last_root : b.last .root = some root) (last_kernel : b.last .kernel = some kernel) :
    b.target = some b.build := by
  have root_eq : root = b.build.root :=
    ((b.build_get .root).trans (by rw [last_root]; rfl)).symm
  have kernel_eq : kernel = b.build.kernel :=
    ((b.build_get .kernel).trans (by rw [last_kernel]; rfl)).symm
  simp only [Block.target, last_root, last_kernel]
  exact congrArg some (KlTarget.ext b.build_title.symm b.build_flags.symm root_eq kernel_eq
    (b.build_get .initrd).symm (b.build_get .cmdline).symm (b.build_get .append).symm
    b.build_modules.symm)

/-- Closing the target of a block adds exactly the target the block describes. -/
theorem Block.finished_build (b : Block) : finished b.build = b.target.toList := by
  have no_root : b.build.root.str = [] ↔ b.last .root = none := b.build_empty .root
  have no_kernel : b.build.kernel.str = [] ↔ b.last .kernel = none := b.build_empty .kernel
  cases last_root : b.last .root with
  | none => simp [finished, no_root, Block.target, last_root]
  | some root =>
    cases last_kernel : b.last .kernel with
    | none => simp [finished, no_kernel, Block.target, last_kernel]
    | some kernel =>
      rw [b.build_eq root kernel last_root last_kernel]
      simp [finished, no_root, no_kernel, last_root, last_kernel]

/-- Reading a block: the target before it is closed, its own is left open. -/
theorem Reader.fold_block (r : Reader) (b : Block) :
    b.directives.foldl Reader.step r = ⟨r.close, some b.build⟩ := by
  -- behind the title a target is open, so that every line applies to it
  have body : ∀ (body : List Setting) (targets : List KlTarget) (t : KlTarget),
      (body.map Directive.setting).foldl Reader.step ⟨targets, some t⟩ =
        ⟨targets, some (body.foldl Setting.apply t)⟩ := by
    intro body
    induction body with
    | nil => exact fun _ _ => rfl
    | cons s body ih => exact fun targets t => ih targets (s.apply t)
  exact body b.body r.close _

/-- Reading all blocks and closing the last target adds the targets they
describe, in order. -/
theorem Reader.fold_blocks (r : Reader) (blocks : List Block) :
    ((blocks.flatMap Block.directives).foldl Reader.step r).close =
      r.close ++ blocks.filterMap Block.target := by
  induction blocks generalizing r with
  | nil => simp
  | cons b blocks ih =>
    rw [List.flatMap_cons, List.foldl_append, r.fold_block, ih, List.filterMap_cons]
    simp only [Reader.close, Option.map_some, Option.getD_some, b.finished_build]
    -- a block without a root or a kernel closes without a target
    cases b.target <;> simp

/-! ### One round of load_conf is one step of the reader -/

section
variable (fname : Str)

def ConfState.reader (st : ConfState) : Reader :=
  ⟨st.settings.targets, if st.topen = 0 then none else some st.target⟩

theorem cfgAddTarget_targets (st : ConfState) :
    (cfgAddTarget fname st).settings.targets = st.settings.targets ++ finished st.target := by
  unfold cfgAddTarget finished
  split_ifs <;> simp [ConfState.printD]

theorem cfgAddTarget_lnum (st : ConfState) : (cfgAddTarget fname st).lnum = st.lnum := by
  unfold cfgAddTarget
  split_ifs <;> rfl

theorem ConfState.close_reader (st : ConfState) :
    (if st.topen ≠ 0 then cfgAddTarget fname st else st).settings.targets = st.reader.close := by
  by_cases closed : st.topen = 0
  · simp [closed, ConfState.reader, Reader.close]
  · simp [closed, ConfState.reader, Reader.close, cfgAddTarget_targets]

theorem countArgs_pos (val : Str) (nonempty : val ≠ []) : ¬ countArgs 1 val < 1 := by
  simp [countArgs, nonempty]

theorem confTitle_reader (st : ConfState) (name : Str) (v : Value 256) (numbered : 0 < st.lnum) :
    (confTitle fname st name v.buf.str).reader = st.reader.step (.title v) := by
  -- the flag for an open target is the number of its first line
  have opened : st.lnum ≠ 0 := by omega
  have closed := st.close_reader fname
  have lnum : (if st.topen ≠ 0 then cfgAddTarget fname st else st).lnum = st.lnum := by
    split
    · exact cfgAddTarget_lnum fname st
    · rfl
  simp only [confTitle, cfgCheckArgs, if_neg (countArgs_pos _ v.ok.nonempty), strlcpy_buf]
  generalize (if st.topen ≠ 0 then cfgAddTarget fname st else st) = st' at closed lnum ⊢
  simp [ConfState.reader, Reader.step, lnum, opened, closed]

theorem confField_reader (st : ConfState) (name val : Str) (set : KlTarget → Str → KlTarget)
    (s : Setting) (nonempty : val ≠ []) (sets : ∀ t, set t val = s.apply t) :
    (confField fname set st name val).reader = st.reader.step (.setting s) := by
  unfold confField cfgCheckTopen
  split
  next closed =>
    -- without an open target there is only a message
    simp [ConfState.reader, Reader.step, ConfState.printD, closed]
  next opened =>
    rw [cfgCheckArgs, if_neg (countArgs_pos val nonempty)]
    simp [ConfState.reader, Reader.step, opened, sets]

theorem confFlag_reader (st : ConfState) (name val : Str) (f : Flag) :
    (confFlag fname f.bit st name val).reader = st.reader.step (.setting (.flag f)) := by
  unfold confFlag cfgCheckTopen
  split
  next closed => simp [ConfState.reader, Reader.step, ConfState.printD, closed]
  next opened => simp [ConfState.reader, Reader.step, opened, Setting.apply]

theorem readModule_word (name : Word 1024) : readModule name.buf.str = ⟨name.buf, default⟩ := by
  have token := nextValue_split name.buf.str [] [] name.whole (fun _ => rfl) (by simp [Blank])
    (by simp)
  simp only [List.append_nil] at token
  simp only [readModule, token, strlcpy_buf]
  rfl

theorem readModule_args (name : Word 1024) (args : Value 1024) (sep : Str) (apart : sep ≠ [])
    (blank : Blank sep) :
    readModule (name.buf.str ++ (sep ++ args.buf.str)) = ⟨name.buf, args.buf⟩ := by
  simp only [readModule, nextValue_split _ sep _ name.whole (fun none => absurd none apart) blank
    args.ok.starts, strlcpy_buf]

theorem confDirective_field (st : ConfState) (f : Field) (val : Str) :
    confDirective fname st f.word val =
      confField fname (fun t v => f.set t (strlcpy v)) st f.word val := by
  cases f <;> rfl

theorem confDirective_flag (st : ConfState) (f : Flag) (val : Str) :
    confDirective fname st f.word val = confFlag fname f.bit st f.word val := by
  cases f <;> rfl

theorem confDirective_module (st : ConfState) (val : Str) :
    confDirective fname st (bytes "module") val =
      confField fname (fun t v => { t with modules := t.modules ++ [readModule v] }) st
        (bytes "module") val := rfl

/-- A directive does to the state what it means. -/
theorem confDirective_reader (st : ConfState) (d : Directive) (word after : Str)
    (spelled : d.Spelled word after) (numbered : 0 < st.lnum) :
    (confDirective fname st word after).reader = st.reader.step d := by
  cases spelled with
  | title v => exact confTitle_reader fname st _ v numbered
  | field f v =>
    rw [confDirective_field]
    exact confField_reader fname st _ _ _ (.field f v) v.ok.nonempty
      fun t => by rw [strlcpy_buf, Setting.apply]
  | flag f =>
    rw [confDirective_flag]
    exact confFlag_reader fname st _ _ f
  | module name =>
    rw [confDirective_module]
    apply confField_reader fname st _ _ _ (.module name none) name.ok.nonempty
    intro t
    rw [readModule_word]
    rfl
  | moduleArgs name args sep apart blank =>
    have nonempty : name.buf.str ++ (sep ++ args.buf.str) ≠ [] := by simp [apart]
    rw [confDirective_module]
    apply confField_reader fname st _ _ _ (.module name (some args)) nonempty
    intro t
    rw [readModule_args name args sep apart blank]
    rfl

/-- Skipping the indentation of a line. -/
theorem skip_indent (indent rest : Str) (blank : Blank indent)
    (starts : ∀ c ∈ rest.head?, c ∉ newlines ++ blanks) :
    (indent ++ rest).drop (strspn (indent ++ rest) (newlines ++ blanks)) = rest :=
  drop_strspn_stop (fun c member => by simp [blank c member]) starts

/-- One round on the text of a line, with or without its ending. -/
theorem confLine_reader (st : ConfState) (text tail : Str) (d : Option Directive)
    (reads : LineText text d) (ends : ∀ c ∈ tail, c ∈ newlines) :
    (confLine fname st (text ++ tail)).reader = d.toList.foldl Reader.step st.reader := by
  have cut : (text ++ tail).take (strcspn (text ++ tail) newlines) = text :=
    take_strcspn_stop (fun c member => (reads.bytes c member).1)
      fun c head => ends c (List.mem_of_mem_head? head)
  simp only [confLine, cut]
  cases reads with
  | empty _ blank =>
    -- nothing is left behind the indentation
    have skipped := skip_indent text [] blank (by simp)
    rw [List.append_nil] at skipped
    rw [skipped]
    rfl
  | comment indent comment blank =>
    rw [skip_indent indent (35 :: comment) blank fun c head => by cases head; decide]
    -- the name starts with the hash, whatever blank ends it
    have hash : (nextValue (35 :: comment)).1.head? = some 35 := by
      rw [nextValue_token, List.takeWhile_cons_of_pos (by decide)]
      rfl
    simp only [hash]
    rfl
  | directive d indent word sep after indented blank apart spelled =>
    obtain ⟨nonempty, word_bytes⟩ := spelled.word_bytes
    obtain ⟨c, word', rfl⟩ := List.exists_cons_of_ne_nil nonempty
    have first := word_bytes c (by simp)
    rw [skip_indent indent _ indented (by simpa using first.1)]
    -- the tokenizer cuts the line into the word and its value
    have tokens := nextValue_split (c :: word') sep after
      (fun b member blank => (word_bytes b member).1 (by simp [blank])) apart blank
      spelled.after_starts
    simp only [tokens]
    -- the number of the line is no part of what the reader sees
    have counted := confDirective_reader fname { st with lnum := st.lnum + 1 } d _ _ spelled
      (Nat.succ_pos _)
    have same : ({ st with lnum := st.lnum + 1 } : ConfState).reader = st.reader := rfl
    rw [same] at counted
    simpa [first.2.2] using counted

/-! ### The whole file -/

/-- The loop of `load_conf` on what is left of the stream. -/
def readLines (st : ConfState) (stream : Str) : ConfState :=
  ((pieces 1024 stream).map cstr).foldl (confLine fname) st

theorem LineText.cstr_piece {text tail : Str} {d : Option Directive} (reads : LineText text d)
    (ends : ∀ c ∈ tail, c ∈ newlines) : cstr (text ++ tail) = text ++ tail := by
  apply cstr_of_no_nul
  intro member
  obtain member | member := List.mem_append.mp member
  · exact (reads.bytes 0 member).2 rfl
  · exact absurd (ends 0 member) (by decide)

theorem LineText.no_lf {text : Str} {d : Option Directive} (reads : LineText text d) :
    lf ∉ text := fun member => (reads.bytes lf member).1 (by decide)

/-- A line and its ending; a CRLF that does not fit is read as a blank line of
its own. -/
theorem readLines_line (st : ConfState) (line : Line) (ending : Ending) (rest : Str) :
    ∃ st' : ConfState, st'.reader = line.directive.toList.foldl Reader.step st.reader ∧
      readLines fname st (line.text ++ ending.text ++ rest) = readLines fname st' rest := by
  obtain ⟨text, d, reads, short⟩ := line
  have round := confLine_reader fname st text
  cases ending with
  | lf =>
    have ends : ∀ c ∈ [lf], c ∈ newlines := by decide
    refine ⟨confLine fname st (text ++ [lf]), round [lf] d reads ends, ?_⟩
    have read := pieces_line 1022 text rest reads.no_lf short
    simp only [readLines, Ending.text, List.append_assoc, List.singleton_append, read,
      List.map_cons, List.foldl_cons, reads.cstr_piece ends]
  | crlf =>
    have no_lf : lf ∉ text ++ [cr] := by
      simpa using ⟨reads.no_lf, by decide⟩
    have split : text ++ Ending.crlf.text ++ rest = (text ++ [cr]) ++ lf :: rest := by
      simp [Ending.text]
    by_cases fits : (text ++ [cr]).length ≤ 1022
    · have ends : ∀ c ∈ [cr, lf], c ∈ newlines := by decide
      refine ⟨confLine fname st (text ++ [cr, lf]), round [cr, lf] d reads ends, ?_⟩
      have joined : text ++ [cr] ++ [lf] = text ++ [cr, lf] := by simp
      simp only [readLines, split, pieces_line 1022 _ rest no_lf fits, joined, List.map_cons,
        List.foldl_cons, reads.cstr_piece ends]
    · -- the buffer is full behind the CR, and the LF is left for the next round
      have ends : ∀ c ∈ [cr], c ∈ newlines := by decide
      have blank := confLine_reader fname (confLine fname st (text ++ [cr])) [] [lf] none
        (.empty [] (by simp [Blank])) (by decide)
      refine ⟨confLine fname (confLine fname st (text ++ [cr])) [lf],
        blank.trans (round [cr] d reads ends), ?_⟩
      have full : (text ++ [cr]).length = 1022 + 1 := by simp at fits ⊢; omega
      have second : cstr [lf] = [lf] := by decide
      simp only [readLines, split, pieces_full_line 1022 _ rest no_lf full, List.map_cons,
        List.foldl_cons, reads.cstr_piece ends, second]

theorem readLines_last (st : ConfState) (line : Line) :
    (readLines fname st line.text).reader =
      line.directive.toList.foldl Reader.step st.reader := by
  obtain ⟨text, d, reads, short⟩ := line
  by_cases empty : text = []
  · -- an empty last line is not read at all, and says nothing
    obtain rfl := reads.empty_none empty
    subst empty
    rfl
  · have read := pieces_last 1022 text empty reads.no_lf (by omega)
    have piece : cstr (text ++ []) = text ++ [] := reads.cstr_piece (by simp)
    have round := confLine_reader fname st text [] d reads (by simp)
    rw [List.append_nil] at piece round
    simp only [readLines, read, List.map_cons, List.map_nil, List.foldl_cons, List.foldl_nil,
      piece, round]

theorem readLines_file (st : ConfState) (file : ConfFile) :
    (readLines fname st file.content).reader = file.directives.foldl Reader.step st.reader := by
  obtain ⟨lines, last⟩ := file
  -- on the lines: every round leaves the reader as the format says
  induction lines generalizing st with
  | nil =>
    cases last with
    | none => rfl
    | some line => exact readLines_last fname st line
  | cons entry lines ih =>
    obtain ⟨line, ending⟩ := entry
    obtain ⟨st', reader, read⟩ := readLines_line fname st line ending
      (ConfFile.content ⟨lines, last⟩)
    have content : ConfFile.content ⟨(line, ending) :: lines, last⟩ =
        line.text ++ ending.text ++ ConfFile.content ⟨lines, last⟩ := by
      simp [ConfFile.content]
    have directives : ConfFile.directives ⟨(line, ending) :: lines, last⟩ =
        line.directive.toList ++ ConfFile.directives ⟨lines, last⟩ := by
      cases found : line.directive <;> simp [ConfFile.directives, found]
    rw [content, read, ih, reader, directives, List.foldl_append]

end

/-- Reading a file whose directives are those of the blocks, in order, appends
to the list of targets exactly the targets the blocks describe. -/
theorem loadConf_targets (fname : Str) (s : Settings) (file : ConfFile) (blocks : List Block)
    (laid_out : file.directives = blocks.flatMap Block.directives) :
    (loadConf fname s (.ok file.content)).targets =
      s.targets ++ blocks.filterMap Block.target := by
  have read := readLines_file fname ⟨s, 0, 0, initTarget⟩ file
  have closed := (readLines fname ⟨s, 0, 0, initTarget⟩ file.content).close_reader fname
  have start : (ConfState.reader ⟨s, 0, 0, initTarget⟩).close = s.targets := List.append_nil _
  calc (loadConf fname s (.ok file.content)).targets
      = (readLines fname ⟨s, 0, 0, initTarget⟩ file.content).reader.close := closed
    _ = ((blocks.flatMap Block.directives).foldl Reader.step
          (ConfState.reader ⟨s, 0, 0, initTarget⟩)).close := by rw [read, laid_out]
    _ = s.targets ++ blocks.filterMap Block.target := by rw [Reader.fold_blocks, start]

/-- A directive behind some blanks, with one space behind its word. -/
def spacedLine {d : Directive} {word after : Str} (indent : Str) (indented : Blank indent)
    (spelled : d.Spelled word after) (short : (indent ++ (word ++ ([space] ++ after))).length ≤ 1022) : Line :=
  ⟨_, _, .directive d indent word [space] after indented (by decide) (by simp) spelled, short⟩

/-- Two blocks with a module each, the second of them unfinished, and between them one
without a kernel; with a comment, a blank line, indentation and mixed endings. -/
theorem loadConf_targets_linux :
    (loadConf [] initSettings (.ok (bytes ("title Linux\n root sda1\r\n# image\n\tkernel \t/vmlinuz\n" ++
      "module /a.o x=1\n\ntitle Broken\nroot sda2\n" ++
      "title Xen\nkernel /xen\nmodule /b.o\ndefault\n  root sda3")))).targets =
      [⟨strlcpy (bytes "Linux"), 0, strlcpy (bytes "sda1"), strlcpy (bytes "/vmlinuz"), default, default, default,
          [⟨strlcpy (bytes "/a.o"), strlcpy (bytes "x=1")⟩]⟩,
        ⟨strlcpy (bytes "Xen"), TARGET_DEFAULT, strlcpy (bytes "sda3"), strlcpy (bytes "/xen"), default, default,
          default, [⟨strlcpy (bytes "/b.o"), default⟩]⟩] := by
  let linux : Value 256 := ⟨strlcpy (bytes "Linux"), by decide, by decide, by decide, by decide⟩
  let broken : Value 256 := ⟨strlcpy (bytes "Broken"), by decide, by decide, by decide, by decide⟩
  let xen : Value 256 := ⟨strlcpy (bytes "Xen"), by decide, by decide, by decide, by decide⟩
  let sda1 : Value 256 := ⟨strlcpy (bytes "sda1"), by decide, by decide, by decide, by decide⟩
  let sda2 : Value 256 := ⟨strlcpy (bytes "sda2"), by decide, by decide, by decide, by decide⟩
  let sda3 : Value 256 := ⟨strlcpy (bytes "sda3"), by decide, by decide, by decide, by decide⟩
  let vmlinuz : Value 1024 := ⟨strlcpy (bytes "/vmlinuz"), by decide, by decide, by decide, by decide⟩
  let kernel : Value 1024 := ⟨strlcpy (bytes "/xen"), by decide, by decide, by decide, by decide⟩
  let first : Word 1024 := ⟨⟨strlcpy (bytes "/a.o"), by decide, by decide, by decide, by decide⟩, by decide⟩
  let args : Value 1024 := ⟨strlcpy (bytes "x=1"), by decide, by decide, by decide, by decide⟩
  let second : Word 1024 := ⟨⟨strlcpy (bytes "/b.o"), by decide, by decide, by decide, by decide⟩, by decide⟩
  have read := loadConf_targets [] initSettings
    ⟨[(spacedLine [] (by decide) (.title linux) (by decide), .lf),
        (spacedLine [space] (by decide) (.field .root sda1) (by decide), .crlf),
        (⟨_, _, .comment [] (bytes " image") (by decide) (by decide) (by decide), by decide⟩, .lf),
        (⟨_, _, .directive _ [tab] _ [space, tab] _ (by decide) (by decide) (by simp) (.field .kernel vmlinuz),
          by decide⟩, .lf),
        (spacedLine [] (by decide) (.moduleArgs first args [space] (by decide) (by decide)) (by decide), .lf),
        (⟨_, _, .empty [] (by decide), by decide⟩, .lf),
        (spacedLine [] (by decide) (.title broken) (by decide), .lf),
        (spacedLine [] (by decide) (.field .root sda2) (by decide), .lf),
        (spacedLine [] (by decide) (.title xen) (by decide), .lf),
        (spacedLine [] (by decide) (.field .kernel kernel) (by decide), .lf),
        (spacedLine [] (by decide) (.module second) (by decide), .lf),
        (⟨_, _, .directive _ [] _ [] _ (by decide) (by decide) (by simp) (.flag .default), by decide⟩, .lf)],
      some (spacedLine [space, space] (by decide) (.field .root sda3) (by decide))⟩
    [⟨linux, [.field .root sda1, .field .kernel vmlinuz, .module first (some args)]⟩,
      ⟨broken, [.field .root sda2]⟩,
      ⟨xen, [.field .kernel kernel, .module second none, .flag .default, .field .root sda3]⟩] rfl
  refine Eq.trans (congrArg (fun c => (loadConf [] initSettings (.ok c)).targets) ?_)
    (read.trans ?_) <;> decide +kernel

end KexecLoader
