import Mathlib.Data.List.Forall2

/-!
# Patterns with stars

A star stands for any string, every other item of a pattern for one symbol of a
class. What stands between two stars may be taken at the leftmost place where it
fits, and what stands behind the last one fits at the end or not at all.
-/
namespace KexecLoader.Glob

inductive Item (α : Type*) where
  | star
  | one (allowed : α → Prop)

variable {α : Type*}

inductive Matches : List (Item α) → List α → Prop where
  | nil : Matches [] []
  | star {ps : List (Item α)} {s : List α} (front : List α) :
      Matches ps s → Matches (.star :: ps) (front ++ s)
  | one {p : α → Prop} {ps : List (Item α)} {c : α} {s : List α} :
      p c → Matches ps s → Matches (.one p :: ps) (c :: s)

theorem matches_nil (s : List α) : Matches [] s ↔ s = [] := by
  constructor
  · rintro ⟨⟩
    rfl
  · rintro rfl
    exact .nil

theorem matches_star (ps : List (Item α)) (s : List α) :
    Matches (.star :: ps) s ↔ ∃ front back, s = front ++ back ∧ Matches ps back := by
  constructor
  · rintro ⟨⟩
    next back front rest => exact ⟨front, back, rfl, rest⟩
  · rintro ⟨front, back, rfl, rest⟩
    exact .star front rest

theorem matches_one_cons (p : α → Prop) (ps : List (Item α)) (c : α) (s : List α) :
    Matches (.one p :: ps) (c :: s) ↔ p c ∧ Matches ps s := by
  constructor
  · rintro ⟨⟩
    next here rest => exact ⟨here, rest⟩
  · rintro ⟨here, rest⟩
    exact .one here rest

theorem not_matches_one_nil (p : α → Prop) (ps : List (Item α)) : ¬ Matches (.one p :: ps) [] := by
  rintro ⟨⟩

/-- More symbols allowed, more strings matched. -/
theorem Matches.mono {κ : Type*} {weak strong : κ → Item α}
    (le : ∀ k, strong k = weak k ∨
      ∃ p q : α → Prop, strong k = .one p ∧ weak k = .one q ∧ ∀ c, p c → q c)
    (ks : List κ) (s : List α) (found : Matches (ks.map strong) s) : Matches (ks.map weak) s := by
  induction ks generalizing s with
  | nil => exact found
  | cons k ks ih =>
    rw [List.map_cons] at found ⊢
    rcases le k with same | ⟨p, q, strict, loose, grows⟩
    · rw [← same]
      cases item : strong k with
      | star =>
        rw [item, matches_star] at found
        obtain ⟨front, back, rfl, rest⟩ := found
        exact .star front (ih back rest)
      | one p =>
        rw [item] at found
        cases found with
        | one here rest => exact .one here (ih _ rest)
    · rw [strict] at found
      rw [loose]
      cases found with
      | one here rest => exact .one (grows _ here) (ih _ rest)

/-- A star may take more. -/
theorem Matches.prepend {ps : List (Item α)} {s : List α} (found : Matches (.star :: ps) s)
    (front : List α) : Matches (.star :: ps) (front ++ s) := by
  obtain ⟨skipped, back, rfl, rest⟩ := (matches_star ps s).mp found
  rw [← List.append_assoc]
  exact .star _ rest

/-- Stars in a row are one star. -/
theorem matches_star_star (ps : List (Item α)) (s : List α) :
    Matches (.star :: .star :: ps) s ↔ Matches (.star :: ps) s := by
  constructor
  · intro found
    obtain ⟨front, back, rfl, rest⟩ := (matches_star _ s).mp found
    exact rest.prepend front
  · exact fun found => .star [] found

/-! ### Items without a star -/

def ones (q : List (α → Prop)) : List (Item α) := q.map .one

def Fits (q : List (α → Prop)) (s : List α) : Prop := List.Forall₂ (fun p c => p c) q s

theorem Fits.length {q : List (α → Prop)} {s : List α} (fits : Fits q s) : q.length = s.length :=
  List.Forall₂.length_eq fits

theorem star_not_mem_ones (q : List (α → Prop)) : Item.star ∉ ones q := by
  simp [ones]

/-- A star in a pattern that begins with items comes behind them. -/
theorem star_behind_ones (q : List (α → Prop)) {ps front back : List (Item α)}
    (split : ones q ++ ps = front ++ .star :: back) :
    ∃ rest, front = ones q ++ rest ∧ ps = rest ++ .star :: back := by
  obtain ⟨rest, rfl, tail⟩ | ⟨rest, items, tail⟩ := List.append_eq_append_iff.mp split
  · exact ⟨rest, rfl, tail⟩
  · cases rest with
    | nil => exact ⟨[], by simpa using items.symm, by simpa using tail.symm⟩
    | cons item rest =>
      obtain ⟨rfl, -⟩ := List.cons.inj tail
      have member : Item.star ∈ ones q := by
        rw [items]
        simp
      exact absurd member (star_not_mem_ones q)

theorem matches_ones_append (q : List (α → Prop)) (ps : List (Item α)) (s : List α) :
    Matches (ones q ++ ps) s ↔ ∃ front back, s = front ++ back ∧ Fits q front ∧ Matches ps back := by
  induction q generalizing s with
  | nil =>
    constructor
    · exact fun found => ⟨[], s, rfl, .nil, found⟩
    · rintro ⟨front, back, rfl, fits, found⟩
      cases fits
      exact found
  | cons p q ih =>
    constructor
    · intro found
      cases found with
      | one here rest =>
        obtain ⟨front, back, rfl, fits, found⟩ := (ih _).mp rest
        exact ⟨_ :: front, back, rfl, .cons here fits, found⟩
    · rintro ⟨front, back, rfl, fits, found⟩
      cases fits with
      | cons here fits => exact .one here ((ih _).mpr ⟨_, back, rfl, fits, found⟩)

theorem matches_ones (q : List (α → Prop)) (s : List α) : Matches (ones q) s ↔ Fits q s := by
  have split := matches_ones_append q [] s
  rw [List.append_nil] at split
  rw [split]
  constructor
  · rintro ⟨front, back, rfl, fits, found⟩
    rw [(matches_nil back).mp found, List.append_nil]
    exact fits
  · exact fun fits => ⟨s, [], (List.append_nil s).symm, fits, .nil⟩

/-- The items fit at the start of a string. -/
def FitsAt (q : List (α → Prop)) (s : List α) : Prop := ∃ front back, s = front ++ back ∧ Fits q front

theorem fitsAt_cons (p : α → Prop) (q : List (α → Prop)) (c : α) (s : List α) :
    FitsAt (p :: q) (c :: s) ↔ p c ∧ FitsAt q s := by
  constructor
  · rintro ⟨front, back, split, fits⟩
    cases fits with
    | cons here others =>
      obtain ⟨rfl, rfl⟩ := List.cons.inj split
      exact ⟨here, _, back, rfl, others⟩
  · rintro ⟨here, front, back, rfl, others⟩
    exact ⟨c :: front, back, rfl, .cons here others⟩

theorem not_fitsAt_nil (p : α → Prop) (q : List (α → Prop)) : ¬ FitsAt (p :: q) [] := by
  rintro ⟨front, back, split, fits⟩
  obtain ⟨rfl, -⟩ := List.append_eq_nil_iff.mp split.symm
  cases fits

theorem fitsAt_whole {q : List (α → Prop)} {s : List α} (same : q.length = s.length) :
    FitsAt q s ↔ Fits q s := by
  constructor
  · rintro ⟨front, back, rfl, fits⟩
    have lengths := fits.length
    rw [List.length_append] at same
    obtain rfl : back = [] := List.eq_nil_of_length_eq_zero (by omega)
    rwa [List.append_nil]
  · exact fun fits => ⟨s, [], (List.append_nil s).symm, fits⟩

/-- The first place in a string where the items fit, with what is before and
after it. -/
structure Leftmost (q : List (α → Prop)) (s before place after : List α) : Prop where
  split : s = before ++ (place ++ after)
  fits : Fits q place
  first : ∀ k < before.length, ¬ FitsAt q (s.drop k)

/-- What is matched with items behind a star reaches at least to the end of the
leftmost place. -/
theorem Leftmost.reaches {q : List (α → Prop)} {s before place after : List α}
    (left : Leftmost q s before place after) {t front fitted back : List α} (start : t <+: s)
    (split : t = front ++ (fitted ++ back)) (fits : Fits q fitted) :
    ∃ skipped, t = before ++ (place ++ (skipped ++ back)) ∧ skipped ++ back <+: after := by
  obtain ⟨behind, whole⟩ := start
  have here : FitsAt q (s.drop front.length) := by
    refine ⟨fitted, back ++ behind, ?_, fits⟩
    rw [← whole, split, List.append_assoc, List.drop_left, List.append_assoc]
  have order : before.length ≤ front.length := by
    by_contra early
    exact left.first _ (by omega) here
  have same := left.fits.length.symm.trans fits.length
  -- both are the start of the same string, and the place ends first
  have both : front ++ fitted ++ (back ++ behind) = before ++ place ++ after := by
    rw [List.append_assoc before, ← left.split, ← whole, split]
    simp only [List.append_assoc]
  obtain ⟨skipped, earlier, later⟩ | ⟨skipped, later, earlier⟩ :=
    List.append_eq_append_iff.mp both
  · have none : skipped = [] := by
      have lengths := congrArg List.length earlier
      simp only [List.length_append] at lengths
      exact List.eq_nil_of_length_eq_zero (by omega)
    subst none
    simp only [List.append_nil, List.nil_append] at earlier later
    refine ⟨[], ?_, behind, by rw [← later, List.nil_append]⟩
    rw [split, ← List.append_assoc, ← earlier]
    simp
  · refine ⟨skipped, ?_, behind, by rw [List.append_assoc, earlier]⟩
    rw [split, ← List.append_assoc, later]
    simp only [List.append_assoc]

/-- Taking the leftmost place loses nothing. -/
theorem Leftmost.matches_iff {q : List (α → Prop)} {s before place after : List α}
    (left : Leftmost q s before place after) (ps : List (Item α)) :
    Matches (.star :: (ones q ++ .star :: ps)) s ↔ Matches (.star :: ps) after := by
  constructor
  · intro found
    obtain ⟨front, rest, split, found⟩ := (matches_star _ s).mp found
    obtain ⟨fitted, back, rfl, fits, found⟩ := (matches_ones_append q _ rest).mp found
    obtain ⟨skipped, reached, -⟩ := left.reaches List.prefix_rfl split fits
    have same : after = skipped ++ back := by
      have both := left.split.symm.trans reached
      exact List.append_cancel_left (List.append_cancel_left both)
    rw [same]
    exact found.prepend skipped
  · intro found
    rw [left.split]
    exact .star before ((matches_ones_append q _ _).mpr ⟨place, after, rfl, left.fits, found⟩)

theorem matches_last (q : List (α → Prop)) (s : List α) :
    Matches (.star :: ones q) s ↔ q.length ≤ s.length ∧ Fits q (s.drop (s.length - q.length)) := by
  rw [matches_star]
  constructor
  · rintro ⟨front, back, rfl, found⟩
    have fits := (matches_ones q back).mp found
    rw [List.length_append, ← fits.length, Nat.add_sub_cancel, List.drop_left]
    exact ⟨Nat.le_add_left _ _, fits⟩
  · rintro ⟨-, fits⟩
    exact ⟨_, _, (List.take_append_drop (s.length - q.length) s).symm, (matches_ones q _).mpr fits⟩

/-! ### Strings that end at a star -/

/-- The pattern matches the string and no shorter start of it. -/
structure Shortest (ps : List (Item α)) (s : List α) : Prop where
  found : Matches ps s
  shortest : ∀ t, t <+: s → Matches ps t → t = s

/-- The string ends where the pattern goes on with a star, and there is more in
the pattern than stars. -/
def Exhausted (ps : List (Item α)) (s : List α) : Prop :=
  ∃ front back, ps = front ++ .star :: back ∧ (∃ p, Item.one p ∈ back) ∧ Shortest front s

theorem matches_nil_stars {ps : List (Item α)} (found : Matches ps []) (p : α → Prop) :
    Item.one p ∉ ps := by
  induction ps with
  | nil => simp
  | cons item ps ih =>
    cases item with
    | star =>
      obtain ⟨front, back, split, rest⟩ := (matches_star ps []).mp found
      obtain ⟨-, rfl⟩ := List.append_eq_nil_iff.mp split.symm
      simpa using ih rest
    | one q => exact absurd found (not_matches_one_nil q ps)

/-- Such a string is not matched. -/
theorem Exhausted.not_matches {ps : List (Item α)} {s : List α} (ended : Exhausted ps s) :
    ¬ Matches ps s := by
  obtain ⟨front, back, rfl, ⟨p, more⟩, short⟩ := ended
  intro found
  have split : ∀ (front : List (Item α)) (s : List α), Matches (front ++ .star :: back) s →
      ∃ t u, s = t ++ u ∧ Matches front t ∧ Matches (.star :: back) u := by
    intro front
    induction front with
    | nil => exact fun s found => ⟨[], s, rfl, .nil, found⟩
    | cons item front ih =>
      intro s found
      cases found with
      | star skipped rest =>
        obtain ⟨t, u, rfl, first, last⟩ := ih _ rest
        exact ⟨skipped ++ t, u, by simp, .star skipped first, last⟩
      | one here rest =>
        obtain ⟨t, u, rfl, first, last⟩ := ih _ rest
        exact ⟨_ :: t, u, rfl, .one here first, last⟩
  obtain ⟨t, u, rfl, first, last⟩ := split front s found
  have whole := short.shortest t (List.prefix_append t u) first
  obtain rfl : u = [] := by simpa using whole
  exact matches_nil_stars last p (List.mem_cons_of_mem _ more)

theorem shortest_nil (s : List α) : Shortest [] s ↔ s = [] := by
  constructor
  · exact fun short => (matches_nil s).mp short.found
  · rintro rfl
    exact ⟨.nil, fun t start _ => List.prefix_nil.mp start⟩

theorem shortest_one_cons (p : α → Prop) (ps : List (Item α)) (c : α) (s : List α) :
    Shortest (.one p :: ps) (c :: s) ↔ p c ∧ Shortest ps s := by
  constructor
  · rintro ⟨found, shortest⟩
    obtain ⟨here, rest⟩ := (matches_one_cons p ps c s).mp found
    refine ⟨here, rest, fun t start matched => ?_⟩
    exact List.tail_eq_of_cons_eq
      (shortest (c :: t) ((List.prefix_cons_inj c).mpr start) (.one here matched))
  · rintro ⟨here, found, shortest⟩
    refine ⟨.one here found, fun t start matched => ?_⟩
    cases matched with
    | one _ rest =>
      obtain ⟨rfl, inside⟩ := List.cons_prefix_cons.mp start
      rw [shortest _ inside rest]

theorem shortest_star_star (ps : List (Item α)) (s : List α) :
    Shortest (.star :: .star :: ps) s ↔ Shortest (.star :: ps) s := by
  constructor
  · rintro ⟨found, shortest⟩
    exact ⟨(matches_star_star ps s).mp found,
      fun t start matched => shortest t start ((matches_star_star ps t).mpr matched)⟩
  · rintro ⟨found, shortest⟩
    exact ⟨(matches_star_star ps s).mpr found,
      fun t start matched => shortest t start ((matches_star_star ps t).mp matched)⟩

/-- Also the shortest match takes the leftmost place, whether the pattern ends
behind it or goes on with a star. -/
theorem Leftmost.shortest_iff {q : List (α → Prop)} {s before place after : List α}
    (left : Leftmost q s before place after) {ps : List (Item α)}
    (floats : ps = [] ∨ ∃ more, ps = .star :: more) :
    Shortest (.star :: (ones q ++ ps)) s ↔ Shortest ps after := by
  have extend : ∀ t, Matches ps t → Matches (.star :: (ones q ++ ps)) (before ++ (place ++ t)) :=
    fun t found => .star before ((matches_ones_append q ps _).mpr ⟨place, t, rfl, left.fits, found⟩)
  have start : ∀ t, t <+: after → before ++ (place ++ t) <+: s := by
    rintro t ⟨more, rfl⟩
    exact ⟨more, by rw [left.split]; simp only [List.append_assoc]⟩
  constructor
  · rintro ⟨found, shortest⟩
    have least : ∀ t, t <+: after → Matches ps t → t = after := by
      intro t inside matched
      have whole := (shortest _ (start t inside) (extend t matched)).trans left.split
      exact List.append_cancel_left (List.append_cancel_left whole)
    refine ⟨?_, least⟩
    rcases floats with rfl | ⟨more, rfl⟩
    · rw [← least [] (List.nil_prefix) .nil]
      exact .nil
    · exact (left.matches_iff more).mp found
  · rintro ⟨found, shortest⟩
    refine ⟨left.split ▸ extend after found, fun t inside matched => ?_⟩
    obtain ⟨front, rest, split, matched⟩ := (matches_star _ t).mp matched
    obtain ⟨fitted, back, rfl, fits, matched⟩ := (matches_ones_append q ps rest).mp matched
    obtain ⟨skipped, reached, within⟩ := left.reaches inside split fits
    have later : Matches ps (skipped ++ back) := by
      rcases floats with rfl | ⟨more, rfl⟩
      · -- the string would go on behind the pattern
        have ends := shortest [] List.nil_prefix .nil
        rw [← ends, List.prefix_nil] at within
        rw [within]
        exact .nil
      · exact matched.prepend skipped
    rw [reached, shortest _ within later, ← left.split]

/-! ### A matcher that stops at a star -/

/-- What is accepted by a matcher that takes the leftmost places, and accepts at a
star when the string has ended. -/
def Accepts (ps : List (Item α)) (s : List α) : Prop := Matches ps s ∨ Exhausted ps s

theorem accepts_nil (s : List α) : Accepts [] s ↔ s = [] := by
  constructor
  · rintro (found | ⟨front, back, split, -⟩)
    · exact (matches_nil s).mp found
    · simp at split
  · rintro rfl
    exact .inl .nil

theorem not_accepts_one_nil (p : α → Prop) (ps : List (Item α)) : ¬ Accepts (.one p :: ps) [] := by
  rintro (found | ⟨front, back, split, -, short⟩)
  · exact not_matches_one_nil p ps found
  · cases front with
    | nil => simp at split
    | cons item front =>
      obtain ⟨rfl, -⟩ := List.cons.inj split
      exact not_matches_one_nil p front short.found

theorem accepts_one_cons (p : α → Prop) (ps : List (Item α)) (c : α) (s : List α) :
    Accepts (.one p :: ps) (c :: s) ↔ p c ∧ Accepts ps s := by
  have ended : Exhausted (.one p :: ps) (c :: s) ↔ p c ∧ Exhausted ps s := by
    constructor
    · rintro ⟨front, back, split, more, short⟩
      cases front with
      | nil => simp at split
      | cons item front =>
        obtain ⟨rfl, rfl⟩ := List.cons.inj split
        obtain ⟨here, short⟩ := (shortest_one_cons p front c s).mp short
        exact ⟨here, front, back, rfl, more, short⟩
    · rintro ⟨here, front, back, rfl, more, short⟩
      exact ⟨.one p :: front, back, rfl, more, (shortest_one_cons p front c s).mpr ⟨here, short⟩⟩
  rw [Accepts, Accepts, matches_one_cons, ended, ← and_or_left]

theorem accepts_star_nil (ps : List (Item α)) : Accepts (.star :: ps) [] := by
  by_cases more : ∃ p, Item.one p ∈ ps
  · exact .inr ⟨[], ps, rfl, more, (shortest_nil []).mpr rfl⟩
  · have stars : ∀ ps : List (Item α), (¬ ∃ p, Item.one p ∈ ps) → Matches ps [] := by
      intro ps
      induction ps with
      | nil => exact fun _ => .nil
      | cons item ps ih =>
        intro only
        cases item with
        | star => exact .star [] (ih fun ⟨p, member⟩ => only ⟨p, List.mem_cons_of_mem _ member⟩)
        | one p => exact absurd ⟨p, List.mem_cons_self⟩ only
    exact .inl (.star [] (stars ps more))

theorem accepts_star_end (s : List α) : Accepts [.star] s := by
  have found : Matches [.star] (s ++ []) := .star s .nil
  rw [List.append_nil] at found
  exact .inl found

theorem accepts_star_star (ps : List (Item α)) (s : List α) :
    Accepts (.star :: .star :: ps) s ↔ Accepts (.star :: ps) s := by
  have ended : Exhausted (.star :: .star :: ps) s ↔ Exhausted (.star :: ps) s := by
    constructor
    · rintro ⟨front, back, split, more, short⟩
      rcases front with _ | ⟨item, _ | ⟨item', front⟩⟩
      · obtain rfl : back = .star :: ps := (List.cons.inj split).2.symm
        obtain ⟨p, member⟩ := more
        exact ⟨[], ps, rfl, ⟨p, by simpa using member⟩, short⟩
      · -- a star alone has the empty string for its shortest match
        simp only [List.cons_append, List.nil_append, List.cons.injEq] at split
        obtain ⟨rfl, -, rfl⟩ := split
        obtain rfl := short.shortest [] List.nil_prefix (.star [] .nil)
        exact ⟨[], ps, rfl, more, (shortest_nil []).mpr rfl⟩
      · simp only [List.cons_append, List.cons.injEq] at split
        obtain ⟨rfl, rfl, rfl⟩ := split
        exact ⟨.star :: front, back, rfl, more, (shortest_star_star front s).mp short⟩
    · rintro ⟨front, back, split, more, short⟩
      cases front with
      | nil =>
        obtain rfl : back = ps := (List.cons.inj split).2.symm
        obtain ⟨p, member⟩ := more
        exact ⟨[], .star :: back, rfl, ⟨p, List.mem_cons_of_mem _ member⟩, short⟩
      | cons item front =>
        obtain ⟨rfl, rfl⟩ := List.cons.inj split
        exact ⟨.star :: .star :: front, back, rfl, more, (shortest_star_star front s).mpr short⟩
  rw [Accepts, Accepts, matches_star_star, ended]

/-- Behind a star: the leftmost place is taken. -/
theorem Leftmost.accepts_iff {q : List (α → Prop)} {s before place after : List α}
    (left : Leftmost q s before place after) (nonempty : s ≠ []) (ps : List (Item α)) :
    Accepts (.star :: (ones q ++ .star :: ps)) s ↔ Accepts (.star :: ps) after := by
  have floats : ∀ {front back : List (Item α)}, .star :: ps = front ++ .star :: back →
      front = [] ∨ ∃ more, front = .star :: more := by
    intro front back split
    cases front with
    | nil => exact .inl rfl
    | cons item front => exact .inr ⟨front, by rw [(List.cons.inj split).1]⟩
  have ended : Exhausted (.star :: (ones q ++ .star :: ps)) s ↔ Exhausted (.star :: ps) after := by
    constructor
    · rintro ⟨front, back, split, more, short⟩
      cases front with
      | nil => exact absurd ((shortest_nil s).mp short) nonempty
      | cons item front =>
        obtain ⟨rfl, behind⟩ := List.cons.inj split
        obtain ⟨rest, rfl, tail⟩ := star_behind_ones q behind
        exact ⟨rest, back, tail, more, (left.shortest_iff (floats tail)).mp short⟩
    · rintro ⟨front, back, split, more, short⟩
      exact ⟨.star :: (ones q ++ front), back, by simp [split], more,
        (left.shortest_iff (floats split)).mpr short⟩
  rw [Accepts, Accepts, left.matches_iff, ended]

/-- Behind a star: the items fit nowhere. -/
theorem not_accepts_nowhere {q : List (α → Prop)} {s : List α} (nonempty : s ≠ [])
    (nowhere : ∀ k ≤ s.length, ¬ FitsAt q (s.drop k)) (ps : List (Item α)) :
    ¬ Accepts (.star :: (ones q ++ .star :: ps)) s := by
  have never : ∀ ps, ¬ Matches (.star :: (ones q ++ ps)) s := by
    intro ps found
    obtain ⟨front, rest, rfl, inner⟩ := (matches_star _ s).mp found
    obtain ⟨fitted, back, rfl, fits, -⟩ := (matches_ones_append q ps rest).mp inner
    refine nowhere front.length (by simp) ⟨fitted, back, ?_, fits⟩
    rw [List.drop_left]
  rintro (found | ⟨front, back, split, more, short⟩)
  · exact never _ found
  · cases front with
    | nil => exact nonempty ((shortest_nil s).mp short)
    | cons item front =>
      obtain ⟨rfl, behind⟩ := List.cons.inj split
      obtain ⟨rest, rfl, -⟩ := star_behind_ones q behind
      exact never rest short.found

/-- Behind the last star: the end of the string is looked at. -/
theorem accepts_last {q : List (α → Prop)} {s : List α} (nonempty : s ≠ []) :
    Accepts (.star :: ones q) s ↔ q.length ≤ s.length ∧ Fits q (s.drop (s.length - q.length)) := by
  rw [← matches_last]
  constructor
  · rintro (found | ⟨front, back, split, -, short⟩)
    · exact found
    · cases front with
      | nil => exact absurd ((shortest_nil s).mp short) nonempty
      | cons item front =>
        have member : Item.star ∈ ones q := by
          rw [(List.cons.inj split).2]
          simp
        exact absurd member (star_not_mem_ones q)
  · exact .inl

end KexecLoader.Glob
