import KexecLoader.Library.NumeralScan
import KexecLoader.Trace
import Mathlib.Data.List.Induction

/-!
# What a stack trace calls its frames

The right name is that of the first line with the greatest address that is not above the
one looked up. The loop over the table starts from the null pointer and from what the
lookup before has left, which makes a difference where no line is taken.
-/
namespace KexecLoader

/-! ### First of the greatest -/

/-- The first of the elements with the greatest key that is not above a bound. -/
def FirstGreatest {α : Type*} (bound : Nat) (list : List (Nat × α)) (best : Nat × α) : Prop :=
  ∃ before after, list = before ++ best :: after ∧ best.1 ≤ bound ∧
    (∀ other ∈ before, other.1 ≤ bound → other.1 < best.1) ∧
    ∀ other ∈ after, other.1 ≤ bound → other.1 ≤ best.1

namespace FirstGreatest

variable {α : Type*} {bound : Nat} {list : List (Nat × α)} {best : Nat × α}

theorem mem (first : FirstGreatest bound list best) : best ∈ list := by
  obtain ⟨before, after, rfl, -⟩ := first
  simp

theorem le (first : FirstGreatest bound list best) {other : Nat × α} (member : other ∈ list)
    (below : other.1 ≤ bound) : other.1 ≤ best.1 := by
  obtain ⟨before, after, rfl, -, earlier, later⟩ := first
  rcases List.mem_append.mp member with old | rest
  · exact Nat.le_of_lt (earlier other old below)
  · rcases List.mem_cons.mp rest with rfl | new
    · exact Nat.le_refl _
    · exact later other new below

/-- An element behind the others counts only if it is greater. -/
theorem concat_other (first : FirstGreatest bound list best) {new : Nat × α}
    (less : new.1 ≤ bound → new.1 ≤ best.1) : FirstGreatest bound (list ++ [new]) best := by
  obtain ⟨before, after, rfl, below, earlier, later⟩ := first
  refine ⟨before, after ++ [new], by simp, below, earlier, fun other member below => ?_⟩
  rcases List.mem_append.mp member with old | last
  · exact later other old below
  · rw [List.mem_singleton.mp last] at below ⊢
    exact less below

theorem concat_new {new : Nat × α} (below : new.1 ≤ bound)
    (greater : ∀ other ∈ list, other.1 ≤ bound → other.1 < new.1) :
    FirstGreatest bound (list ++ [new]) new :=
  ⟨list, [], rfl, below, greater, by simp⟩

theorem unique (first : FirstGreatest bound list best) {best' : Nat × α}
    (second : FirstGreatest bound list best') : best = best' := by
  have same : best.1 = best'.1 := Nat.le_antisymm
    (second.le first.mem first.choose_spec.choose_spec.2.1)
    (first.le second.mem second.choose_spec.choose_spec.2.1)
  obtain ⟨before, after, rfl, below, earlier, -⟩ := first
  obtain ⟨before', after', split, below', earlier', -⟩ := second
  rcases List.append_eq_append_iff.mp split with ⟨rest, front, back⟩ | ⟨rest, front, back⟩
  · cases rest with
    | nil => exact (List.cons.inj back).1
    | cons a rest =>
      obtain ⟨rfl, -⟩ := List.cons.inj back
      have := earlier' best (by simp [front]) below
      omega
  · cases rest with
    | nil => exact (List.cons.inj back).1.symm
    | cons a rest =>
      obtain ⟨rfl, -⟩ := List.cons.inj back
      have := earlier best' (by simp [front]) below'
      omega

end FirstGreatest

/-! ### The table -/

/-- A line of the table. -/
structure SymbolLine where
  digits : Str
  name : Str

namespace SymbolLine

def text (line : SymbolLine) : Str := line.digits ++ tab :: line.name

def entry (line : SymbolLine) : Nat × Str := (hexNumeral line.digits, line.name)

/-- The digits of an address, a tab and a name, which fit in the buffer. -/
structure Valid (line : SymbolLine) : Prop where
  digits : ∀ c ∈ line.digits, isxdigit c = true
  some_digit : line.digits ≠ []
  address : hexNumeral line.digits < 2 ^ 32
  no_lf : lf ∉ line.name
  no_nul : 0 ∉ line.name
  no_tab : line.name.head? ≠ some tab
  short : line.text.length ≤ 254

end SymbolLine

/-- A file of such lines; blank ones, such as the one behind the last line feed, do not
count. -/
structure SymbolTable (content : Str) (lines : List SymbolLine) : Prop where
  texts : (fileLines content).filter (· ≠ []) = lines.map SymbolLine.text
  valid : ∀ line ∈ lines, line.Valid

/-- The name for an address. -/
def IsSymbol (lines : List SymbolLine) (addr : Nat) (name : Str) : Prop :=
  (∃ address, FirstGreatest addr (lines.map SymbolLine.entry) (address, name)) ∨
    (∀ line ∈ lines, addr < line.entry.1) ∧ name = unknownSym

/-- There is one name for an address, whatever was looked up before. -/
theorem IsSymbol.unique {lines : List SymbolLine} {addr : Nat} {name name' : Str}
    (right : IsSymbol lines addr name) (right' : IsSymbol lines addr name') : name = name' := by
  have below {best : Nat × Str} (first : FirstGreatest addr (lines.map SymbolLine.entry) best) :
      ∃ line ∈ lines, line.entry.1 ≤ addr := by
    obtain ⟨line, member, entry⟩ := List.mem_map.mp first.mem
    obtain ⟨-, -, -, below, -⟩ := first
    exact ⟨line, member, by rwa [entry]⟩
  obtain ⟨address, first⟩ | ⟨above, rfl⟩ := right
  · obtain ⟨address', first'⟩ | ⟨above, -⟩ := right'
    · exact (Prod.mk.inj (first.unique first')).2
    · obtain ⟨line, member, inside⟩ := below first
      exact absurd (above line member) (Nat.not_lt.mpr inside)
  · obtain ⟨address', first'⟩ | ⟨-, rfl⟩ := right'
    · obtain ⟨line, member, inside⟩ := below first'
      exact absurd (above line member) (Nat.not_lt.mpr inside)
    · rfl

/-- Some line is not above the address, and not at the null pointer. -/
def Covered (lines : List SymbolLine) (addr : Nat) : Prop :=
  ∃ line ∈ lines, 0 < line.entry.1 ∧ line.entry.1 ≤ addr

/-! ### One line -/

theorem isxdigit_iff (c : UInt8) : isxdigit c = true ↔ c ∈ symbolDigits := by
  have all : ∀ n < 256, isxdigit (UInt8.ofNat n) = decide (UInt8.ofNat n ∈ symbolDigits) := by
    decide +kernel
  have here := all c.toNat c.toNat_lt
  rw [UInt8.ofNat_toNat] at here
  rw [here, decide_eq_true_eq]

theorem symbolDigits_plain : ∀ c ∈ symbolDigits,
    isspace c = false ∧ c ≠ 45 ∧ c ≠ 43 ∧ c ≠ 120 ∧ c ≠ 88 := by
  decide

/-- Digits with a tab behind them have no mark in front. -/
theorem skipHexMark_digits {digits : Str} (digit : ∀ c ∈ digits, isxdigit c = true) (rest : Str) :
    skipHexMark (digits ++ tab :: rest) = digits ++ tab :: rest := by
  have other (x : UInt8) (member : x = tab ∨ x ∈ digits) : x ≠ 120 ∧ x ≠ 88 := by
    rcases member with rfl | member
    · decide
    · have plain := symbolDigits_plain x ((isxdigit_iff x).mp (digit x member))
      exact ⟨plain.2.2.2.1, plain.2.2.2.2⟩
  unfold skipHexMark
  split
  next x d rest' split =>
    have second : x = tab ∨ x ∈ digits := by
      rcases digits with _ | ⟨a, _ | ⟨b, digits⟩⟩
      · exact absurd (List.cons.inj split).1 (by decide)
      · exact .inl (List.cons.inj (List.cons.inj split).2).1.symm
      · exact .inr (by simp [(List.cons.inj (List.cons.inj split).2).1])
    rw [if_neg (fun mark => mark.1.elim (other x second).1 (other x second).2), split]
  next => rfl

namespace SymbolLine.Valid

variable {line : SymbolLine} (valid : line.Valid)
include valid

/-- An address has no white space and no sign in front. -/
theorem strtoulHex (ending : Str) : strtoulHex (line.text ++ ending) = hexNumeral line.digits := by
  obtain ⟨c, digits, cons⟩ := List.exists_cons_of_ne_nil valid.some_digit
  have plain := symbolDigits_plain c ((isxdigit_iff c).mp (valid.digits c (by simp [cons])))
  have whole : line.text ++ ending = line.digits ++ tab :: (line.name ++ ending) := by
    rw [text, List.append_assoc, List.cons_append]
  have sign : readSign (line.text ++ ending) = (false, line.text ++ ending) := by
    rw [whole, cons]
    exact readSign_stop _ plain.1 plain.2.1 plain.2.2.1
  have taken : (line.digits ++ tab :: (line.name ++ ending)).takeWhile isxdigit = line.digits :=
    takeWhile_append_stop valid.digits (by simp [isxdigit, isdigit, tab])
  rw [KexecLoader.strtoulHex, sign]
  dsimp only
  rw [whole, skipHexMark_digits valid.digits, taken, if_neg (Nat.not_le.mpr valid.address)]
  rfl

/-- What is left behind the digits and the tab. -/
theorem behind (ending : Str) (no_tab : ending.head? ≠ some tab) :
    ((line.text ++ ending).drop (strspn (line.text ++ ending) symbolDigits)).drop
      (strspn ((line.text ++ ending).drop (strspn (line.text ++ ending) symbolDigits)) [tab]) =
      line.name ++ ending := by
  have whole : line.text ++ ending = line.digits ++ ([tab] ++ (line.name ++ ending)) := by
    rw [text, List.append_assoc]
    rfl
  have digits : strspn (line.digits ++ ([tab] ++ (line.name ++ ending))) symbolDigits =
      line.digits.length := by
    refine strspn_stop (fun c member => (isxdigit_iff c).mp (valid.digits c member)) fun c head => ?_
    obtain rfl : tab = c := Option.some.inj head
    decide
  have one_tab : strspn ([tab] ++ (line.name ++ ending)) [tab] = 1 := by
    refine strspn_stop (by simp) fun c head member => ?_
    rw [List.mem_singleton.mp member] at head
    cases name : line.name with
    | nil =>
      rw [name] at head
      exact no_tab head
    | cons d rest =>
      rw [name] at head
      exact valid.no_tab (name ▸ head)
  rw [whole, digits, List.drop_left, one_tab]
  rfl

/-- A line is taken if its address is not above the one looked up and above the best so
far. -/
theorem lookupLine (addr : Nat) (s : Nat × Str) {ending : Str} (ended : ending = [] ∨ ending = [lf]) :
    lookupLine addr s (line.text ++ ending) =
      if line.entry.1 ≤ addr ∧ s.1 < line.entry.1 then line.entry else s := by
  have no_tab : ending.head? ≠ some tab := by
    rcases ended with rfl | rfl <;> decide
  have stop : strcspn (line.name ++ ending) [lf] = line.name.length := by
    refine strcspn_stop (fun c member => ?_) ?_
    · simpa using fun same : c = lf => valid.no_lf (same ▸ member)
    · rcases ended with rfl | rfl <;> simp
  simp only [KexecLoader.lookupLine, valid.strtoulHex, valid.behind ending no_tab, stop, List.take_left]
  rfl

end SymbolLine.Valid

/-! ### The whole table -/

/-- What the loop leaves: the first of the greatest addresses, or what was there before
when no line is taken. -/
theorem foldl_lookupLine (addr : Nat) (retSym : Str) (lines : List SymbolLine)
    (valid : ∀ line ∈ lines, line.Valid) :
    let found := (lines.map SymbolLine.text).foldl (lookupLine addr) (0, retSym)
    (¬ Covered lines addr ∧ found = (0, retSym)) ∨
      0 < found.1 ∧ FirstGreatest addr (lines.map SymbolLine.entry) found := by
  induction lines using List.reverseRecOn with
  | nil => exact .inl ⟨by simp [Covered], rfl⟩
  | append_singleton lines line ih =>
    have earlier := ih fun other member => valid other (by simp [member])
    have last := fun s => (valid line (by simp)).lookupLine addr s (.inl rfl)
    simp only [List.append_nil] at last
    simp only [List.map_append, List.map_cons, List.map_nil, List.foldl_append, List.foldl_cons,
      List.foldl_nil, last] at earlier ⊢
    generalize (lines.map SymbolLine.text).foldl (lookupLine addr) (0, retSym) = found at earlier ⊢
    by_cases taken : line.entry.1 ≤ addr ∧ found.1 < line.entry.1
    · rw [if_pos taken]
      refine .inr ⟨by omega, FirstGreatest.concat_new taken.1 fun other member below => ?_⟩
      obtain ⟨uncovered, rfl⟩ | ⟨pos, first⟩ := earlier
      · -- so far no line was above the null pointer
        obtain ⟨line', there, rfl⟩ := List.mem_map.mp member
        have zero : line'.entry.1 = 0 := by
          by_contra pos
          exact uncovered ⟨line', there, Nat.pos_of_ne_zero pos, below⟩
        rw [zero]
        exact taken.2
      · exact Nat.lt_of_le_of_lt (first.le member below) taken.2
    · -- a line with the same address does not replace the first
      rw [if_neg taken]
      obtain ⟨uncovered, rfl⟩ | ⟨pos, first⟩ := earlier
      · refine .inl ⟨?_, rfl⟩
        rintro ⟨line', member, pos, below⟩
        obtain old | new := List.mem_append.mp member
        · exact uncovered ⟨line', old, pos, below⟩
        · rw [List.mem_singleton.mp new] at pos below
          exact taken ⟨below, pos⟩
      · exact .inr ⟨pos, first.concat_other fun below => by
          by_contra more
          exact taken ⟨below, Nat.not_le.mp more⟩⟩

section
variable {content : Str} {lines : List SymbolLine} (table : SymbolTable content lines)
include table

theorem lookupSym_lines (error : Str) (addr : Nat) (retSym : Str) :
    lookupSym (some content) error addr retSym =
      (((lines.map SymbolLine.text).foldl (lookupLine addr) (0, retSym)).2,
        ((lines.map SymbolLine.text).foldl (lookupLine addr) (0, retSym)).2) := by
  -- a line of the file is blank, or one of the table
  have each (line : Str) (member : line ∈ fileLines content) :
      line = [] ∨ ∃ entry ∈ lines, line = entry.text := by
    by_cases blank : line = []
    · exact .inl blank
    · have kept : line ∈ lines.map SymbolLine.text := by
        rw [← table.texts]
        exact List.mem_filter.mpr ⟨member, by simpa using blank⟩
      obtain ⟨entry, there, rfl⟩ := List.mem_map.mp kept
      exact .inr ⟨entry, there, rfl⟩
  have no_nul (line : Str) (member : line ∈ fileLines content) : 0 ∉ line := by
    obtain rfl | ⟨entry, there, rfl⟩ := each line member
    · simp
    · have valid := table.valid entry there
      have digits : 0 ∉ entry.digits := fun zero => absurd (valid.digits 0 zero) (by decide)
      simpa [SymbolLine.text, tab] using And.intro digits valid.no_nul
  have read := foldl_fileLines 254 (lookupLine addr) (0, retSym) content
    (fun s line member => by
      rw [cstr_of_no_nul (no_nul line member), cstr_of_no_nul (by simpa [lf] using no_nul line member)]
      obtain rfl | ⟨entry, there, rfl⟩ := each line member
      · rfl
      · have valid := table.valid entry there
        have whole := valid.lookupLine addr s (.inl rfl)
        rw [List.append_nil] at whole
        rw [whole, valid.lookupLine addr s (.inr rfl)])
    (fun s => rfl)
    (fun line member => by
      obtain rfl | ⟨entry, there, rfl⟩ := each line member
      · exact Nat.zero_le _
      · exact (table.valid entry there).short)
  have whole : (fileLines content).map cstr = fileLines content :=
    (List.map_congr_left fun line member => cstr_of_no_nul (no_nul line member)).trans (List.map_id _)
  -- blank lines are at the null pointer
  have filtered (s : Nat × Str) (list : List Str) :
      list.foldl (lookupLine addr) s = (list.filter (· ≠ [])).foldl (lookupLine addr) s := by
    induction list generalizing s with
    | nil => rfl
    | cons line list ih =>
      by_cases blank : line = []
      · subst blank
        exact ih s
      · rw [List.filter_cons_of_pos (by simpa using blank), List.foldl_cons, List.foldl_cons]
        exact ih _
  rw [whole, filtered _ (fileLines content), table.texts] at read
  rw [lookupSym, read]

/-- A lookup is right exactly if a line is taken or the buffer holds the name already. -/
theorem lookupSym_iff (error : Str) (addr : Nat) (retSym : Str) :
    IsSymbol lines addr (lookupSym (some content) error addr retSym).1 ↔
      Covered lines addr ∨ IsSymbol lines addr retSym := by
  rw [lookupSym_lines table]
  obtain ⟨uncovered, found⟩ | ⟨pos, first⟩ := foldl_lookupLine addr retSym lines table.valid
  · rw [found]
    exact ⟨.inr, fun right => right.resolve_left uncovered⟩
  · refine iff_of_true (.inl ⟨_, first⟩) (.inl ?_)
    obtain ⟨line, member, entry⟩ := List.mem_map.mp first.mem
    obtain ⟨before, after, -, below, -⟩ := first
    exact ⟨line, member, by rw [entry]; exact pos, by rw [entry]; exact below⟩

/-- All names of a trace are right exactly if each lookup finds a line above the null
pointer, or the right name in the buffer. -/
theorem traceLookups_iff (error : Str) (addrs : List Nat) (retSym : Str) :
    (∀ lookup ∈ traceLookups (some content) error addrs retSym,
        IsSymbol lines lookup.addr lookup.result) ↔
      ∀ lookup ∈ traceLookups (some content) error addrs retSym,
        Covered lines lookup.addr ∨ IsSymbol lines lookup.addr lookup.retSym := by
  induction addrs generalizing retSym with
  | nil => simp [traceLookups]
  | cons addr addrs ih =>
    rw [traceLookups, List.forall_mem_cons, List.forall_mem_cons, ih]
    exact and_congr_left' (lookupSym_iff table error addr retSym)

end

def sampleTable : Str := bytes "8\tmain\n10\tloop\n8\tagain\n"

def sampleSymbols : List SymbolLine :=
  [⟨bytes "8", bytes "main"⟩, ⟨bytes "10", bytes "loop"⟩, ⟨bytes "8", bytes "again"⟩]

theorem sampleTable_symbols : SymbolTable sampleTable sampleSymbols := by
  refine ⟨by decide, fun line member => ?_⟩
  simp only [sampleSymbols, List.mem_cons, List.not_mem_nil, or_false] at member
  rcases member with rfl | rfl | rfl <;>
    exact ⟨by decide, by decide, by decide, by decide, by decide, by decide, by decide⟩

theorem traceLookups_covered :
    IsSymbol sampleSymbols 18 (bytes "loop") ∧ IsSymbol sampleSymbols 9 (bytes "main") := by
  have looked_up : traceLookups (some sampleTable) [] [18, 9] unknownSym =
      [⟨18, unknownSym, bytes "loop"⟩, ⟨9, bytes "loop", bytes "main"⟩] := by decide +kernel
  have named := (traceLookups_iff sampleTable_symbols [] [18, 9] unknownSym).mpr fun lookup member => by
    rw [looked_up] at member
    simp only [List.mem_cons, List.not_mem_nil, or_false] at member
    left
    rcases member with rfl | rfl <;>
      exact ⟨⟨bytes "8", bytes "main"⟩, by simp [sampleSymbols], by decide, by decide⟩
  rw [looked_up] at named
  exact ⟨named ⟨18, unknownSym, bytes "loop"⟩ (by simp), named ⟨9, bytes "loop", bytes "main"⟩ (by simp)⟩

/-- An address below the table is called by the name of the frame before it. -/
theorem traceLookups_stale :
    traceLookups (some sampleTable) [] [18, 4] unknownSym =
      [⟨18, unknownSym, bytes "loop"⟩, ⟨4, bytes "loop", bytes "loop"⟩] ∧
    ¬ IsSymbol sampleSymbols 4 (bytes "loop") := by
  refine ⟨by decide +kernel, ?_⟩
  rintro (⟨address, first⟩ | ⟨-, same⟩)
  · obtain ⟨line, member, entry⟩ := List.mem_map.mp first.mem
    obtain ⟨-, -, -, below, -⟩ := first
    rw [← entry] at below
    have above : ∀ line ∈ sampleSymbols.map SymbolLine.entry, 4 < line.1 := by decide
    exact absurd below (Nat.not_le.mpr (above _ (List.mem_map_of_mem member)))
  · exact absurd same (by decide)

end KexecLoader
