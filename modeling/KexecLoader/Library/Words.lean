import Mathlib.Data.List.DropRight

/-!
# Words of a text

What stands between the separators. Separators at either end make no difference, and the
last word of a text is found from behind.
-/
namespace KexecLoader

variable {α : Type*} (sep : α → Bool)

/-- The words of a text, in order. -/
def words (text : List α) : List (List α) := (text.splitOnP sep).filter (· ≠ [])

variable {sep}

theorem words_sep {c : α} (front back : List α) (parts : sep c = true) :
    words sep (front ++ c :: back) = words sep front ++ words sep back := by
  rw [words, List.splitOnP_append_cons front back parts, List.filter_append]
  rfl

theorem words_plain {word : List α} (plain : ∀ c ∈ word, sep c = false) (nonempty : word ≠ []) :
    words sep word = [word] := by
  rw [words, List.splitOnP_eq_singleton plain]
  simp [nonempty]

/-- A run of separators parts two texts. -/
theorem words_gap (front back : List α) {gap : List α} (parts : ∀ c ∈ gap, sep c = true)
    (nonempty : gap ≠ []) : words sep (front ++ gap ++ back) = words sep front ++ words sep back := by
  induction gap generalizing front with
  | nil => exact absurd rfl nonempty
  | cons c gap ih =>
    obtain ⟨first, parts⟩ := List.forall_mem_cons.mp parts
    rw [List.append_assoc, List.cons_append, words_sep front (gap ++ back) first]
    rcases gap with _ | ⟨d, gap⟩
    · rfl
    · exact congrArg (words sep front ++ ·) (ih [] parts (List.cons_ne_nil d gap))

theorem words_gap_left {gap : List α} (back : List α) (parts : ∀ c ∈ gap, sep c = true) :
    words sep (gap ++ back) = words sep back := by
  rcases gap with _ | ⟨c, gap⟩
  · rfl
  · exact words_gap [] back parts (List.cons_ne_nil c gap)

theorem words_gap_right (front : List α) {gap : List α} (parts : ∀ c ∈ gap, sep c = true) :
    words sep (front ++ gap) = words sep front := by
  rcases gap with _ | ⟨c, gap⟩
  · rw [List.append_nil]
  · have apart := words_gap front [] parts (List.cons_ne_nil c gap)
    rw [List.append_nil] at apart
    exact apart.trans (List.append_nil _)

theorem words_dropWhile (text : List α) : words sep (text.dropWhile sep) = words sep text := by
  conv_rhs => rw [← List.takeWhile_append_dropWhile (p := sep) (l := text)]
  exact (words_gap_left _ fun c member => List.mem_takeWhile_imp member).symm

theorem words_rdropWhile (text : List α) : words sep (text.rdropWhile sep) = words sep text := by
  conv_rhs => rw [← List.rdropWhile_append_rtakeWhile (p := sep) (l := text)]
  exact (words_gap_right _ fun c member => List.mem_rtakeWhile_imp member).symm

/-- A word at the end, behind a separator or alone. -/
theorem words_concat {front word : List α} (ends : ∀ c ∈ front.getLast?, sep c = true)
    (plain : ∀ c ∈ word, sep c = false) (nonempty : word ≠ []) :
    words sep (front ++ word) = words sep front ++ [word] := by
  rcases List.eq_nil_or_concat front with rfl | ⟨front, c, rfl⟩
  · exact words_plain plain nonempty
  · have parts : sep c = true := ends c (by simp)
    rw [List.concat_eq_append, List.append_assoc, List.singleton_append, words_sep front word parts,
      words_plain plain nonempty, words_sep front [] parts]
    exact congrArg (· ++ [word]) (List.append_nil _).symm

/-- What stands before and behind the last word. -/
theorem words_last {text word : List α} {front : List (List α)} (split : words sep text = front ++ [word]) :
    ∃ before gap, text = before ++ word ++ gap ∧ words sep before = front ∧
      (∀ c ∈ gap, sep c = true) ∧ (∀ c ∈ before.getLast?, sep c = true) ∧ word ≠ [] ∧
      ∀ c ∈ word, sep c = false := by
  -- the separators at the end, then the bytes up to the one before
  let rest := text.rdropWhile sep
  have whole : text = rest ++ text.rtakeWhile sep := List.rdropWhile_append_rtakeWhile.symm
  have parted : rest = rest.rdropWhile (! sep ·) ++ rest.rtakeWhile (! sep ·) :=
    List.rdropWhile_append_rtakeWhile.symm
  have plain : ∀ c ∈ rest.rtakeWhile (! sep ·), sep c = false := fun c member => by
    simpa using List.mem_rtakeWhile_imp member
  have ends : ∀ c ∈ (rest.rdropWhile (! sep ·)).getLast?, sep c = true := fun c last => by
    have some_byte : rest.rdropWhile (! sep ·) ≠ [] := by
      intro empty
      simp [empty] at last
    rw [List.getLast?_eq_getLast_of_ne_nil some_byte] at last
    have stop := List.rdropWhile_last_not (! sep ·) rest some_byte
    obtain rfl := Option.some.inj last
    simpa using stop
  have nonempty : rest.rtakeWhile (! sep ·) ≠ [] := by
    intro empty
    have all : rest = rest.rdropWhile (! sep ·) := by
      rw [empty, List.append_nil] at parted
      exact parted
    rcases List.eq_nil_or_concat rest with none | ⟨init, c, split'⟩
    · have no_words : words sep text = [] := by
        rw [← words_rdropWhile]
        exact congrArg (words sep) none
      rw [no_words] at split
      exact absurd split.symm (List.append_ne_nil_of_right_ne_nil _ (List.cons_ne_nil _ _))
    · rw [← all, split', List.concat_eq_append] at ends
      have inside : rest ≠ [] := by simp [split']
      have stop := List.rdropWhile_last_not sep text inside
      have last : rest.getLast inside = c := by simp [split']
      exact stop (last ▸ ends c (by simp))
  have found := words_concat ends plain nonempty
  rw [← parted, words_rdropWhile, split] at found
  obtain ⟨front_eq, word_eq⟩ := List.append_inj' found rfl
  obtain rfl := List.singleton_inj.mp word_eq
  refine ⟨rest.rdropWhile (! sep ·), text.rtakeWhile sep, ?_, front_eq.symm,
    fun c member => List.mem_rtakeWhile_imp member, ends, nonempty, plain⟩
  rw [← parted]
  exact whole

end KexecLoader
