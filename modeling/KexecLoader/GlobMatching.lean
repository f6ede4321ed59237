import KexecLoader.Globcmp
import KexecLoader.Library.Glob

/-!
# What globcmp accepts

The string and the pattern are seen from their pointers on. The matcher never reads
behind a terminator, and it accepts what the pattern matches and what ends at a star.
-/
namespace KexecLoader

open Glob

/-- A string as it lies in memory before its terminator. -/
structure CString where
  str : Str
  no_nul : 0 ∉ str

/-- The characters `mycmp` lets stand for one of the pattern. -/
def codeClass (flags : Nat) (e s : UInt8) : Prop :=
  rcase flags s = rcase flags e ∨ hasFlag flags GLOB_SINGLE = true ∧ e = 63 ∨
    hasFlag flags GLOB_HASH = true ∧ e = 35 ∧ isdigit s = true

def codeItem (flags : Nat) (e : UInt8) : Item UInt8 :=
  if hasFlag flags GLOB_STAR = true ∧ e = star then .star else .one (codeClass flags e)

/-- The characters one of the pattern stands for. -/
def globClass (flags : Nat) (e s : UInt8) : Prop :=
  if hasFlag flags GLOB_SINGLE = true ∧ e = 63 then True
  else if hasFlag flags GLOB_HASH = true ∧ e = 35 then isdigit s = true
  else rcase flags s = rcase flags e

def globItem (flags : Nat) (e : UInt8) : Item UInt8 :=
  if hasFlag flags GLOB_STAR = true ∧ e = star then .star else .one (globClass flags e)

/-! ### Reading from a pointer on -/

/-- The pointer leads to this part of the string. -/
structure Points (s : Str) (i : Nat) (rest : Str) : Prop where
  inside : i ≤ s.length
  rest : s.drop i = rest

theorem Points.start (s : Str) : Points s 0 s := ⟨Nat.zero_le _, rfl⟩

theorem Points.charAt_cons {s : Str} {i : Nat} {c : UInt8} {rest : Str} (p : Points s i (c :: rest)) :
    charAt s i = some c := by
  have inside : i < s.length := by
    by_contra beyond
    have nothing := p.rest
    rw [List.drop_eq_nil_of_le (by omega)] at nothing
    cases nothing
  have first := congrArg List.head? p.rest
  rw [List.head?_drop, List.head?_cons] at first
  rw [charAt, List.getElem?_append_left inside, first]

theorem Points.length {s : Str} {i : Nat} {rest : Str} (p : Points s i rest) :
    i + rest.length = s.length := by
  have inside := p.inside
  rw [← p.rest, List.length_drop]
  omega

theorem Points.charAt_nil {s : Str} {i : Nat} (p : Points s i []) : charAt s i = some 0 := by
  have ends : i = s.length := p.length
  rw [charAt, ends, List.getElem?_append_right (Nat.le_refl _), Nat.sub_self]
  rfl

theorem Points.stringAt {s : Str} {i : Nat} {rest : Str} (p : Points s i rest) :
    stringAt s i = some rest := by
  rw [KexecLoader.stringAt, if_pos p.inside, p.rest]

theorem Points.move {s : Str} {i : Nat} (front : Str) {rest : Str} (p : Points s i (front ++ rest)) :
    Points s (i + front.length) rest := by
  have total := p.length
  rw [List.length_append] at total
  refine ⟨by omega, ?_⟩
  rw [← List.drop_drop, p.rest, List.drop_left]

theorem Points.next {s : Str} {i : Nat} {c : UInt8} {rest : Str} (p : Points s i (c :: rest)) :
    Points s (i + 1) rest :=
  Points.move [c] p

section
variable {flags : Nat} {str expr : Str}

theorem tolower_zero (c : UInt8) : tolower c = 0 ↔ c = 0 := by
  unfold tolower
  split
  next upper =>
    -- a capital letter is far from the end of the byte
    simp only [Bool.and_eq_true, decide_eq_true_eq, UInt8.le_iff_toNat_le, UInt8.reduceToNat] at upper
    constructor
    · intro zero
      have value := congrArg UInt8.toNat zero
      simp only [UInt8.toNat_add, UInt8.reduceToNat] at value
      omega
    · rintro rfl
      simp at upper
  next => exact Iff.rfl

theorem rcase_zero (c : UInt8) : rcase flags c = rcase flags 0 ↔ c = 0 := by
  unfold rcase
  split
  · exact tolower_zero c
  · exact Iff.rfl

variable (flags) in
/-- `mycmp` sees whether the items fit, also when the string is shorter than they
are. -/
theorem mycmp_spec (q : Str) (no_nul : 0 ∉ q) {i j : Nat} {s e : Str} (at_str : Points str i s)
    (at_expr : Points expr j (q ++ e)) (text : 0 ∉ s) :
    ∃ found, mycmp flags str expr i j q.length = some found ∧
      (found = true ↔ FitsAt (q.map (codeClass flags)) s) := by
  induction q generalizing i j s with
  | nil => exact ⟨true, rfl, by simpa using ⟨[], s, rfl, .nil⟩⟩
  | cons c q ih =>
    have pattern := at_expr.charAt_cons
    have char : c ≠ 0 := fun zero => no_nul (by simp [zero])
    cases s with
    | nil =>
      -- the terminator is not the character, nor does a wildcard stand for it
      have last := at_str.charAt_nil
      have differs : ¬ rcase flags 0 = rcase flags c := fun same => char ((rcase_zero c).mp same.symm)
      have no_digit : isdigit 0 = false := rfl
      refine ⟨false, ?_, ?_⟩
      · simp [mycmp, last, pattern, differs, no_digit]
      · simp [not_fitsAt_nil]
    | cons b s =>
      have here := at_str.charAt_cons
      have byte : b ≠ 0 := fun zero => text (by simp [zero])
      obtain ⟨found, run, fits⟩ := ih (fun member => no_nul (by simp [member])) at_str.next at_expr.next
        (fun member => text (by simp [member]))
      rw [List.map_cons, fitsAt_cons]
      by_cases allowed : codeClass flags c b
      · refine ⟨found, ?_, by simp [allowed, fits]⟩
        rcases allowed with same | ⟨single, rfl⟩ | ⟨hash, rfl, digit⟩
        · simp [mycmp, here, pattern, same, byte, run]
        · by_cases same : rcase flags b = rcase flags 63
          · simp [mycmp, here, pattern, same, byte, run]
          · simp [mycmp, here, pattern, same, single, byte, run]
        · by_cases same : rcase flags b = rcase flags 35
          · simp [mycmp, here, pattern, same, byte, run]
          · simp [mycmp, here, pattern, same, hash, digit, run]
      · refine ⟨false, ?_, by simp [allowed]⟩
        simp only [codeClass, not_or, not_and] at allowed
        obtain ⟨differs, no_single, no_digit⟩ := allowed
        by_cases single : hasFlag flags GLOB_SINGLE = true
        · have other := no_single single
          by_cases hash : hasFlag flags GLOB_HASH = true
          · by_cases sign : c = 35
            · simp [mycmp, here, pattern, differs, single, hash, other, no_digit hash sign]
            · simp [mycmp, here, pattern, differs, single, hash, other, sign]
          · simp [mycmp, here, pattern, differs, single, hash, other]
        · by_cases hash : hasFlag flags GLOB_HASH = true
          · by_cases sign : c = 35
            · simp [mycmp, here, pattern, differs, single, hash, no_digit hash sign]
            · simp [mycmp, here, pattern, differs, single, hash, sign]
          · simp [mycmp, here, pattern, differs, single, hash]

variable (flags) in
/-- The search finds the leftmost place where the items fit. -/
theorem globSeek_spec (q : Str) (no_nul : 0 ∉ q) (nonempty : q ≠ []) (fuel : Nat) {i j : Nat} {s e : Str}
    (at_str : Points str i s) (at_expr : Points expr j (q ++ e)) (text : 0 ∉ s) (some_text : s ≠ [])
    (enough : s.length ≤ fuel) :
    (∃ before place after, globSeek flags str expr j q.length fuel i = some (some (i + before.length)) ∧
        Leftmost (q.map (codeClass flags)) s before place after) ∨
      globSeek flags str expr j q.length fuel i = some none ∧
        ∀ k ≤ s.length, ¬ FitsAt (q.map (codeClass flags)) (s.drop k) := by
  induction fuel generalizing i s with
  | zero => exact absurd (List.eq_nil_of_length_eq_zero (Nat.le_zero.mp enough)) some_text
  | succ fuel ih =>
    obtain ⟨c, s, rfl⟩ := List.exists_cons_of_ne_nil some_text
    obtain ⟨found, run, fits⟩ := mycmp_spec flags q no_nul at_str at_expr text
    cases found with
    | true =>
      obtain ⟨place, after, split, fitted⟩ := fits.mp rfl
      refine .inl ⟨[], place, after, ?_, split, fitted, by simp⟩
      simp [globSeek, run]
    | false =>
      have not_here : ¬ FitsAt (q.map (codeClass flags)) (c :: s) := fun here => by simpa using fits.mpr here
      have at_next := at_str.next
      have text_next : 0 ∉ s := fun member => text (by simp [member])
      cases s with
      | nil =>
        -- the string is over, and so is the search
        have last := at_next.charAt_nil
        refine .inr ⟨by simp [globSeek, run, last], fun k bound => ?_⟩
        have two : k = 0 ∨ k = 1 := by
          simp only [List.length_singleton] at bound
          omega
        rcases two with rfl | rfl
        · exact not_here
        · -- the items are some, and no string is left for them
          obtain ⟨c, q, rfl⟩ := List.exists_cons_of_ne_nil nonempty
          exact not_fitsAt_nil _ _
      | cons b s =>
        -- what is found further on is leftmost, as nothing fits here
        have next := at_next.charAt_cons
        have byte : b ≠ 0 := fun zero => text_next (by simp [zero])
        have step : globSeek flags str expr j q.length (fuel + 1) i =
            globSeek flags str expr j q.length fuel (i + 1) := by
          simp [globSeek, run, next, byte]
        rw [step]
        simp only [List.length_cons] at enough
        rcases ih at_next text_next (by simp) (by simp only [List.length_cons]; omega) with
          ⟨before, place, after, run, left⟩ | ⟨run, nowhere⟩
        · refine .inl ⟨c :: before, place, after, ?_, by rw [left.split]; rfl, left.fits,
            fun k bound => ?_⟩
          · rw [run, List.length_cons]
            congr 2
            omega
          · cases k with
            | zero => exact not_here
            | succ k => exact left.first k (by simpa using bound)
        · refine .inr ⟨run, fun k bound => ?_⟩
          cases k with
          | zero => exact not_here
          | succ k => exact nowhere k (by simpa using bound)

/-! ### The outer loop -/

def codeItems (flags : Nat) (expr : Str) : List (Item UInt8) := expr.map (codeItem flags)

theorem codeItems_star (starred : hasFlag flags GLOB_STAR = true) (e : Str) :
    codeItems flags (star :: e) = .star :: codeItems flags e := by
  rw [codeItems, List.map_cons, codeItem, if_pos ⟨starred, rfl⟩]
  rfl

theorem codeItems_one {c : UInt8} (plain : ¬ (hasFlag flags GLOB_STAR = true ∧ c = star)) (e : Str) :
    codeItems flags (c :: e) = .one (codeClass flags c) :: codeItems flags e := by
  rw [codeItems, List.map_cons, codeItem, if_neg plain]
  rfl

variable (flags) in
theorem codeItems_plain (q tail : Str) (plain : star ∉ q) :
    codeItems flags (q ++ tail) = ones (q.map (codeClass flags)) ++ codeItems flags tail := by
  induction q with
  | nil => rfl
  | cons c q ih =>
    have here : ¬ (hasFlag flags GLOB_STAR = true ∧ c = star) := fun starred => plain (by simp [starred.2])
    rw [List.cons_append, codeItems_one here, ih fun member => plain (List.mem_cons_of_mem _ member)]
    rfl

theorem accepts_stars (starred : hasFlag flags GLOB_STAR = true) (e s : Str) :
    Accepts (.star :: codeItems flags e) s ↔
      Accepts (.star :: codeItems flags (e.dropWhile (· ∈ [star]))) s := by
  induction e with
  | nil => exact Iff.rfl
  | cons c e ih =>
    by_cases again : c = star
    · subst again
      rw [List.dropWhile_cons_of_pos (by simp), codeItems_star starred]
      exact (accepts_star_star _ s).trans ih
    · rw [List.dropWhile_cons_of_neg (by simpa using again)]

/-- What stands before the next star of a pattern, and the pattern from there on. -/
theorem split_at_star (e : Str) : ∃ q tail, e = q ++ tail ∧ strcspn e [star] = q.length ∧ star ∉ q ∧
    (tail = [] ∨ ∃ later, tail = star :: later) := by
  refine ⟨e.takeWhile (· ∉ [star]), e.dropWhile (· ∉ [star]), List.takeWhile_append_dropWhile.symm, rfl,
    ?_, ?_⟩
  · intro member
    simpa using List.mem_takeWhile_imp member
  · cases tail : e.dropWhile (· ∉ [star]) with
    | nil => exact .inl rfl
    | cons c later =>
      have stop := dropWhile_head_fails c (by rw [tail]; rfl)
      exact .inr ⟨later, by simpa using stop⟩

variable (flags str) in
theorem globLoop_char (fuel : Nat) {i j : Nat} {c : UInt8} (char : charAt expr j = some c)
    (plain : ¬ (hasFlag flags GLOB_STAR = true ∧ c = star)) :
    globLoop flags str expr (fuel + 1) i j = (mycmp flags str expr i j 1).bind fun same =>
      if same = false then some false
      else if c = 0 then some true else globLoop flags str expr fuel (i + 1) (j + 1) := by
  have branch : (hasFlag flags GLOB_STAR && c == star) = false := by simpa using plain
  simp only [globLoop, char, Option.bind_eq_bind, Option.bind_some, branch, Bool.false_eq_true,
    if_false, Bool.not_eq_true']

variable (flags) in
/-- At a star both strings go on behind. -/
theorem globLoop_star (starred : hasFlag flags GLOB_STAR = true) (fuel : Nat) {i j : Nat} {e : Str}
    (at_expr : Points expr j (star :: e)) {b : UInt8} (here : charAt str i = some b) (more : b ≠ 0)
    {c : UInt8} {behind : Str} (rest : Points expr (j + strspn (star :: e) [star]) (c :: behind))
    (plain : c ≠ 0) :
    globLoop flags str expr (fuel + 1) i j =
      let j := j + strspn (star :: e) [star]
      let n := strcspn (c :: behind) [star]
      (charAt expr (j + n)).bind fun next =>
        if next = star then
          (globSeek flags str expr j n (str.length + 1) i).bind fun found =>
            found.elim (some false) fun i => globLoop flags str expr fuel (i + n) (j + n)
        else
          (stringAt str i).bind fun s =>
            if s.length < n then some false else mycmp flags str expr (i + s.length - n) j n := by
  have branch : (hasFlag flags GLOB_STAR && star == star) = true := by simp [starred]
  simp only [globLoop, at_expr.charAt_cons, at_expr.stringAt, rest.charAt_cons, rest.stringAt, here,
    branch, more, plain, Option.bind_eq_bind, Option.bind_some, if_true, if_false]
  -- `Option.elim` is the match of the loop
  congr 1
  funext next
  congr 2
  funext found
  cases found <;> rfl

/-- The loop reads nothing behind a terminator, and it accepts what ends at a star
beside what is matched. -/
def Answers (flags : Nat) (str expr : Str) (fuel i j : Nat) (s e : Str) : Prop :=
  ∃ found, globLoop flags str expr fuel i j = some found ∧ (found = true ↔ Accepts (codeItems flags e) s)

/-- With its fuel it does so from everywhere. -/
def Decides (flags : Nat) (str expr : Str) (fuel : Nat) : Prop :=
  ∀ ⦃i j : Nat⦄ ⦃s e : Str⦄, Points str i s → Points expr j e →
    0 ∉ s → 0 ∉ e → e.length < fuel →
    Answers flags str expr fuel i j s e

theorem globLoop_at_end (fuel : Nat) {i j : Nat} {s : Str} (at_str : Points str i s)
    (at_expr : Points expr j []) (text : 0 ∉ s) : Answers flags str expr (fuel + 1) i j s [] := by
  have last := at_expr.charAt_nil
  have step := globLoop_char flags str fuel (i := i) last (by simp [star])
  rw [Answers, codeItems, List.map_nil, accepts_nil, step]
  cases s with
  | nil =>
    have ends := at_str.charAt_nil
    exact ⟨true, by simp [mycmp, last, ends], by simp⟩
  | cons b s =>
    have here := at_str.charAt_cons
    have differs : ¬ rcase flags b = rcase flags 0 := fun same =>
      text (by simp [(rcase_zero b).mp same])
    exact ⟨false, by simp [mycmp, last, here, differs], by simp⟩

theorem globLoop_at_char {fuel : Nat} (ih : Decides flags str expr fuel) {i j : Nat} {c : UInt8}
    {s e : Str} (at_str : Points str i s) (at_expr : Points expr j (c :: e)) (text : 0 ∉ s)
    (pattern : 0 ∉ c :: e) (plain : ¬ (hasFlag flags GLOB_STAR = true ∧ c = star))
    (enough : e.length < fuel) :
    Answers flags str expr (fuel + 1) i j s (c :: e) := by
  have no_nul : c ≠ 0 := fun zero => pattern (by simp [zero])
  have step := globLoop_char flags str fuel (i := i) at_expr.charAt_cons plain
  obtain ⟨found, run, fits⟩ := mycmp_spec flags [c] (by simpa using Ne.symm no_nul) at_str
    at_expr text
  change mycmp flags str expr i j 1 = some found at run
  rw [Answers, codeItems_one plain]
  cases s with
  | nil =>
    have not_found : found = false := by
      rw [← Bool.not_eq_true, fits]
      exact not_fitsAt_nil _ _
    exact ⟨false, by simp [step, run, not_found], by simp [not_accepts_one_nil]⟩
  | cons b s =>
    have allowed : found = true ↔ codeClass flags c b := by
      rw [fits, List.map_singleton, fitsAt_cons]
      exact and_iff_left ⟨[], s, rfl, .nil⟩
    rw [accepts_one_cons, ← allowed]
    cases found with
    | false => exact ⟨false, by simp [step, run], by simp⟩
    | true =>
      obtain ⟨found, later, accepts⟩ := ih at_str.next at_expr.next
        (fun member => text (by simp [member])) (fun member => pattern (by simp [member])) enough
      exact ⟨found, by simp [step, run, no_nul, later], by simp [accepts]⟩

/-- Behind the last star the end of the string is compared. -/
theorem globLast_spec (q : Str) (q_no_nul : 0 ∉ q) (no_star : star ∉ q) {i j : Nat} {s : Str}
    (at_str : Points str i s) (at_expr : Points expr j q) (text : 0 ∉ s) (some_text : s ≠ []) :
    ∃ found, (if s.length < q.length then some false
        else mycmp flags str expr (i + s.length - q.length) j q.length) = some found ∧
      (found = true ↔ Accepts (.star :: codeItems flags q) s) := by
  have items := codeItems_plain flags q [] no_star
  rw [List.append_nil, codeItems, codeItems, List.map_nil, List.append_nil] at items
  rw [codeItems, items, accepts_last some_text, List.length_map]
  by_cases short : s.length < q.length
  · exact ⟨false, if_pos short, by simp [Nat.not_le.mpr short]⟩
  · have total := at_str.length
    have at_end : Points str (i + s.length - q.length) (s.drop (s.length - q.length)) := by
      rw [Nat.add_sub_assoc (Nat.le_of_not_lt short)]
      refine ⟨by omega, ?_⟩
      rw [← List.drop_drop, at_str.rest]
    obtain ⟨found, run, fits⟩ := mycmp_spec flags (e := []) q q_no_nul at_end
      (by rwa [List.append_nil]) fun member => text (List.mem_of_mem_drop member)
    refine ⟨found, by rw [if_neg short]; exact run, ?_⟩
    rw [fits, fitsAt_whole (by rw [List.length_map, List.length_drop]; omega)]
    exact (and_iff_right (Nat.le_of_not_lt short)).symm

theorem globLoop_at_star {fuel : Nat} (ih : Decides flags str expr fuel)
    (starred : hasFlag flags GLOB_STAR = true) {i j : Nat} {s e : Str} (at_str : Points str i s)
    (at_expr : Points expr j (star :: e)) (text : 0 ∉ s) (pattern : 0 ∉ e) (enough : e.length ≤ fuel) :
    Answers flags str expr (fuel + 1) i j s (star :: e) := by
  rw [Answers, codeItems_star starred, accepts_stars starred]
  obtain ⟨rest, behind⟩ : ∃ rest, rest = e.dropWhile (· ∈ [star]) := ⟨_, rfl⟩
  have dropped : (star :: e).dropWhile (· ∈ [star]) = rest := by
    rw [behind, List.dropWhile_cons_of_pos (by simp)]
  have at_rest : Points expr (j + strspn (star :: e) [star]) rest := by
    refine Points.move ((star :: e).takeWhile (· ∈ [star])) ?_
    rwa [← dropped, List.takeWhile_append_dropWhile]
  have part : rest <:+ e := behind ▸ List.dropWhile_suffix _
  have no_nul : 0 ∉ rest := fun member => pattern (part.subset member)
  rw [← behind]
  rcases s with _ | ⟨b, s⟩
  · -- at the end of the string a star is taken for a match, whatever stands behind it
    have last := at_str.charAt_nil
    exact ⟨true, by simp [globLoop, at_expr.charAt_cons, starred, at_expr.stringAt, last],
      by simp [accepts_star_nil]⟩
  have here := at_str.charAt_cons
  have more : b ≠ 0 := fun zero => text (by simp [zero])
  rcases rest with _ | ⟨c, rest⟩
  · -- stars only: the rest of the string is theirs
    have ended := at_rest.charAt_nil
    exact ⟨true,
      by simp [globLoop, at_expr.charAt_cons, starred, at_expr.stringAt, here, more, ended],
      by simp [codeItems, accepts_star_end]⟩
  have first : c ≠ star := by
    have stop := dropWhile_head_fails c (by rw [← behind]; rfl)
    simpa using stop
  have step := globLoop_star flags starred fuel at_expr here more at_rest
    fun zero => no_nul (by simp [zero])
  obtain ⟨q, tail, split, size, no_star, floats⟩ := split_at_star (c :: rest)
  rw [size] at step
  have shorter := part.length_le
  rw [split] at at_rest no_nul shorter ⊢
  have q_no_nul : 0 ∉ q := fun member => no_nul (List.mem_append_left _ member)
  rw [step]
  rcases floats with rfl | ⟨later, rfl⟩
  · -- no star behind these items: they have to end with the string
    rw [List.append_nil] at at_rest ⊢
    have behind_q : Points expr (j + strspn (star :: e) [star]) (q ++ []) := by rwa [List.append_nil]
    have last := (behind_q.move q).charAt_nil
    simp only [last, at_str.stringAt, Option.bind_some, show ¬ (0 : UInt8) = star by simp [star], if_false]
    exact globLast_spec q q_no_nul no_star at_str at_rest text (List.cons_ne_nil b s)
  · have total := at_str.length
    have nonempty : q ≠ [] := by
      rintro rfl
      exact first (List.cons.inj split).1
    rw [codeItems_plain flags q _ no_star, codeItems_star starred]
    simp only [(at_rest.move q).charAt_cons, Option.bind_some, if_true]
    rcases globSeek_spec flags q q_no_nul nonempty (str.length + 1) at_str at_rest text
      (by simp) (by omega) with ⟨before, place, after, run, left⟩ | ⟨run, nowhere⟩
    · -- the string goes on behind the leftmost place, the pattern at the star
      have size_place : place.length = q.length := by rw [← left.fits.length, List.length_map]
      have at_after : Points str (i + before.length + q.length) after := by
        have moved := Points.move before (left.split ▸ at_str)
        exact size_place ▸ moved.move place
      have text_after : 0 ∉ after := fun member => text (by rw [left.split]; simp [member])
      have size_q := List.length_pos_of_ne_nil nonempty
      rw [List.length_append] at shorter
      obtain ⟨found, later_run, accepts⟩ := ih at_after (at_rest.move q) text_after
        (fun member => no_nul (List.mem_append_right _ member)) (by omega)
      refine ⟨found, by rw [run]; exact later_run, ?_⟩
      rw [accepts, codeItems_star starred]
      exact (left.accepts_iff (List.cons_ne_nil b s) _).symm
    · exact ⟨false, by rw [run]; rfl, by simp [not_accepts_nowhere (List.cons_ne_nil b s) nowhere]⟩

theorem globLoop_spec (fuel : Nat) : Decides flags str expr fuel := by
  induction fuel with
  | zero =>
    intro i j s e _ _ _ _ enough
    omega
  | succ fuel ih =>
    intro i j s e at_str at_expr text pattern enough
    rcases e with _ | ⟨c, e⟩
    · exact globLoop_at_end fuel at_str at_expr text
    rw [List.length_cons] at enough
    by_cases starred : hasFlag flags GLOB_STAR = true ∧ c = star
    · obtain ⟨starred, rfl⟩ := starred
      exact globLoop_at_star ih starred at_str at_expr text (fun member => pattern (by simp [member]))
        (by omega)
    · exact globLoop_at_char ih at_str at_expr text pattern starred (by omega)

end

/-! ### The whole string -/

theorem globcmp_spec (flags : Nat) (str expr : CString) :
    ∃ found, globcmp flags str.str expr.str = some found ∧
      (found = true ↔ Accepts (codeItems flags expr.str) str.str) :=
  globLoop_spec (expr.str.length + 1) (.start _) (.start _) str.no_nul expr.no_nul (Nat.lt_succ_self _)

/-- No byte is read behind a terminator, and the loops end. -/
theorem globcmp_inside (flags : Nat) (str expr : CString) :
    ∃ found, globcmp flags str.str expr.str = some found := by
  obtain ⟨found, run, -⟩ := globcmp_spec flags str expr
  exact ⟨found, run⟩

theorem globcmp_iff (flags : Nat) (str expr : CString) :
    globcmp flags str.str expr.str = some true ↔ Accepts (codeItems flags expr.str) str.str := by
  obtain ⟨found, run, accepts⟩ := globcmp_spec flags str expr
  rw [run, ← accepts, Option.some.injEq]

def globItems (flags : Nat) (expr : Str) : List (Item UInt8) := expr.map (globItem flags)

/-- The matcher takes what the pattern means, and a sign for digits also for itself. -/
theorem globItems_matches {flags : Nat} {expr s : Str} (found : Matches (globItems flags expr) s) :
    Matches (codeItems flags expr) s := by
  refine Matches.mono (fun e => ?_) expr s found
  by_cases starred : hasFlag flags GLOB_STAR = true ∧ e = star
  · left
    rw [globItem, codeItem, if_pos starred, if_pos starred]
  · right
    refine ⟨globClass flags e, codeClass flags e, if_neg starred, if_neg starred, fun c allowed => ?_⟩
    unfold globClass at allowed
    split at allowed
    next single => exact .inr (.inl single)
    next =>
      split at allowed
      next hash => exact .inr (.inr ⟨hash.1, hash.2, allowed⟩)
      next => exact .inl allowed

/-- The answer is that of the pattern, unless the string ends at a star with more
behind it or has a number sign where the pattern has it for a digit. -/
theorem globcmp_matches (flags : Nat) (str expr : CString) :
    (globcmp flags str.str expr.str = some true ↔ Matches (globItems flags expr.str) str.str) ↔
      ¬ Exhausted (codeItems flags expr.str) str.str ∧
        (Matches (codeItems flags expr.str) str.str → Matches (globItems flags expr.str) str.str) := by
  rw [globcmp_iff]
  constructor
  · intro same
    refine ⟨fun ended => ?_, fun found => same.mp (.inl found)⟩
    exact ended.not_matches (globItems_matches (same.mp (.inr ended)))
  · rintro ⟨goes_on, digits⟩
    refine ⟨?_, fun found => .inl (globItems_matches found)⟩
    rintro (found | ended)
    · exact digits found
    · exact absurd ended goes_on

/-- The string ends where the pattern goes on with a star and a letter. -/
theorem globcmp_ends_at_star :
    ¬ (globcmp GLOB_STAR [97] [97, star, 98] = some true ↔
      Matches (globItems GLOB_STAR [97, star, 98]) [97]) := by
  have accepted : globcmp GLOB_STAR [97] [97, star, 98] = some true := by decide
  intro same
  have found := same.mp accepted
  have letters : globItems GLOB_STAR [97, star, 98] =
      [.one (globClass GLOB_STAR 97), .star, .one (globClass GLOB_STAR 98)] := by
    have starred : hasFlag GLOB_STAR GLOB_STAR = true := by decide
    simp [globItems, globItem, star, starred]
  rw [letters, matches_one_cons, matches_star] at found
  obtain ⟨-, front, back, split, last⟩ := found
  obtain ⟨-, rfl⟩ := List.append_eq_nil_iff.mp split.symm
  exact not_matches_one_nil _ _ last

end KexecLoader
