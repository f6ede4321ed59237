import KexecLoader.LineEditing

/-!
# The bounds of the command buffer

The buffer of `read_cmd` stays sound as long as no NUL is typed and no byte is
deleted from a text that fills the buffer.
-/
namespace KexecLoader

/-- The offset is in the text, the text is what the buffer holds, and only bytes
of the buffer were touched. -/
structure Editor.Sound (e : Editor) : Prop where
  offset : e.offset ≤ e.cmdlen
  cmdlen : e.cmdlen = (e.cmdbuf.strFrom 0).length
  short : e.cmdlen ≤ CMDBUF_SIZE - 1
  within : e.cmdbuf.Within CMDBUF_SIZE

/-- The key types no NUL that goes into the buffer, and deletes nothing from a
text of 1023 bytes. -/
structure Editor.Safe (e : Editor) (key : KeyPress) : Prop where
  no_nul : key.edit = .insert 0 → CMDBUF_SIZE ≤ e.cmdlen + 2
  not_full : key.edit = .delete → e.offset < e.cmdlen → e.cmdlen < CMDBUF_SIZE - 1

section
variable {history : List Str} {e : Editor} {l : TextLine} (rep : Represents history e l)
  (within : e.cmdbuf.Within CMDBUF_SIZE)
include rep within

theorem Represents.sound : e.Sound := by
  have offset := rep.offset
  have cmdlen := rep.cmdlen
  have cursor := rep.cursor
  have short := rep.short
  exact ⟨by omega, by rw [rep.text, cmdlen], by omega, within⟩

omit rep in
theorem editRecall_within (n : Int) (text : Str) :
    (editRecall { e with hnum := n } text).cmdbuf.Within CMDBUF_SIZE := by
  refine Memory.within_write.mpr ⟨within, .inr ?_⟩
  simp only [CMDBUF_SIZE, List.length_append, List.length_take, List.length_singleton]
  omega

theorem klStrins_within (s : Str) :
    (klStrins e.cmdbuf s e.offset CMDBUF_SIZE).Within CMDBUF_SIZE := by
  obtain ⟨before, after, text, len⟩ := rep.split
  have holds := rep.holds
  have short := rep.short
  rw [text] at holds short
  rw [rep.offset, ← len]
  exact klStrins_touches holds within short s

/-- What a key touches is inside the buffer, unless it is a deletion from a text
that fills it. -/
theorem editKey_within (slots : List (Option Str)) (key : KeyPress) :
    (editKey slots e key).cmdbuf.Within CMDBUF_SIZE ↔
      (key.edit = .delete → e.offset < e.cmdlen → e.cmdlen < CMDBUF_SIZE - 1) := by
  have offset := rep.offset
  have cmdlen := rep.cmdlen
  have cursor := rep.cursor
  have short := rep.short
  rw [editKey_edit]
  cases edit : key.edit with
  | delete =>
    simp only [editAs, editDel, CMDBUF_SIZE] at within short ⊢
    split
    next inside =>
      -- the bytes behind the text are moved along, one too many in a full buffer
      simp only [Memory.within_memmove, within, true_and, forall_const, inside]
      omega
    next outside => simp [within, outside]
  | insert c =>
    simp only [reduceCtorEq, false_imp_iff, iff_true, editAs, editInsert]
    split
    next fits =>
      simp only [CMDBUF_SIZE] at fits within ⊢
      simp only [Memory.within_write, Memory.within_memmove, within, true_and,
        List.length_singleton]
      omega
    next => exact within
  | backspace =>
    simp only [reduceCtorEq, false_imp_iff, iff_true, editAs, editBackspace, CMDBUF_SIZE]
      at within short ⊢
    split
    next inside =>
      simp only [Memory.within_memmove, within, true_and]
      omega
    next => exact within
  | older =>
    simp only [reduceCtorEq, false_imp_iff, iff_true, editAs, editUp]
    split
    · split
      · exact editRecall_within within _ _
      · exact within
    · exact within
  | newer =>
    simp only [reduceCtorEq, false_imp_iff, iff_true, editAs, editDown]
    split
    · split
      · exact Memory.within_write.mpr ⟨within, .inr (by simp [CMDBUF_SIZE])⟩
      · exact editRecall_within within _ _
    · exact within
  | complete text =>
    simp only [reduceCtorEq, false_imp_iff, iff_true, editAs, editTab]
    split
    · exact within
    · exact klStrins_within rep within _
  | left =>
    simp only [reduceCtorEq, false_imp_iff, iff_true, editAs]
    split <;> exact within
  | right =>
    simp only [reduceCtorEq, false_imp_iff, iff_true, editAs]
    split <;> exact within
  | home => simpa [editAs] using within
  | stop => simpa [editAs] using within
  | ignored => simpa [editAs] using within

omit within in
/-- A typed NUL ends the string in the buffer, whatever `cmdlen` says. -/
theorem editInsert_nul (fits : e.cmdlen + 2 < CMDBUF_SIZE) :
    (editInsert e 0).cmdlen ≠ ((editInsert e 0).cmdbuf.strFrom 0).length := by
  obtain ⟨before, after, text, len⟩ := rep.split
  have holds := rep.holds
  have cmdlen := rep.cmdlen
  have room := rep.room
  rw [text] at holds cmdlen
  rw [List.length_append] at cmdlen
  -- the string ends at the NUL, in front of which no byte has moved
  have kept : 0 ∉ before := fun member => holds.no_nul (by simp [member])
  simp only [CMDBUF_SIZE] at fits room
  obtain ⟨rest, bytes⟩ := holds.fill_gap_bytes [0] (Nat.le_refl after.length) (by simp; omega)
  have count : e.cmdlen - before.length = after.length := by omega
  have last : e.cmdlen + 1 = before.length + [0].length + after.length := by simp; omega
  have start : e.offset = before.length := by rw [rep.offset, len]
  simp only [editInsert, CMDBUF_SIZE, if_pos fits, Memory.strFrom, List.drop_zero, start, count, last]
  simp only [List.length_singleton] at bytes ⊢
  rw [bytes, cstr_append _ kept]
  simp [cstr]
  omega

/-- One key keeps the buffer sound exactly if it is safe. -/
theorem editKey_sound_iff (valid : ValidHistory history) (key : KeyPress)
    (completed : ∀ text ∈ key.completions, 0 ∉ text) :
    (editKey (historySlots history) e key).Sound ↔ e.Safe key := by
  have bounds := editKey_within rep within (historySlots history) key
  constructor
  · intro sound
    refine ⟨fun typed => ?_, bounds.mp sound.within⟩
    by_contra fits
    have cmdlen := sound.cmdlen
    rw [editKey_edit, typed] at cmdlen
    exact editInsert_nul rep (by omega) cmdlen
  · intro safe
    by_cases nul : key.edit = .insert 0
    · -- the buffer is full, so that the NUL is not taken
      have full := safe.no_nul nul
      have same : editKey (historySlots history) e key = e := by
        rw [editKey_edit, nul]
        simp only [editAs, editInsert]
        rw [if_neg (by omega)]
      rw [same]
      exact rep.sound within
    · exact (editKey_represents rep valid key ⟨nul, completed⟩).sound (bounds.mpr safe.not_full)

omit within in
/-- A safe key also leaves a line represented. -/
theorem editKey_safe (valid : ValidHistory history) (key : KeyPress)
    (completed : ∀ text ∈ key.completions, 0 ∉ text) (safe : e.Safe key) :
    ∃ l', Represents history (editKey (historySlots history) e key) l' := by
  by_cases nul : key.edit = .insert 0
  · have full := safe.no_nul nul
    refine ⟨l, ?_⟩
    rw [editKey_edit, nul]
    simp only [editAs, editInsert]
    rw [if_neg (by omega)]
    exact rep
  · exact ⟨_, editKey_represents rep valid key ⟨nul, completed⟩⟩

/-- In every run the buffer is sound all the time exactly if every key is safe. -/
theorem editKeys_sound_iff (valid : ValidHistory history) (keys : List KeyPress)
    (completed : ∀ key ∈ keys, ∀ text ∈ key.completions, 0 ∉ text) :
    (∀ before after, before ++ after = keys →
        (before.foldl (editKey (historySlots history)) e).Sound) ↔
      ∀ before key after, before ++ key :: after = keys →
        (before.foldl (editKey (historySlots history)) e).Safe key := by
  induction keys generalizing e l with
  | nil =>
    constructor
    · intro _ before key after split
      simp at split
    · intro _ before after split
      obtain ⟨rfl, rfl⟩ := List.append_eq_nil_iff.mp split
      exact rep.sound within
  | cons first keys ih =>
    have one := editKey_sound_iff rep within valid first (completed first (by simp))
    have later : ∀ key ∈ keys, ∀ text ∈ key.completions, 0 ∉ text :=
      fun key member => completed key (by simp [member])
    constructor
    · intro sound before key after split
      have next := sound [first] keys rfl
      -- a sound buffer comes from a safe key, which leaves a line for the rest of the keys
      obtain ⟨l', rep'⟩ := editKey_safe rep valid first (completed first (by simp)) (one.mp next)
      cases before with
      | nil =>
        obtain ⟨rfl, rfl⟩ := List.cons.inj split
        exact one.mp next
      | cons b before =>
        obtain ⟨rfl, rest⟩ := List.cons.inj split
        exact (ih rep' next.within later).mp
          (fun before after split => sound (b :: before) after (by simp [split])) before key after rest
    · intro safe before after split
      have safe_first := safe [] first keys rfl
      obtain ⟨l', rep'⟩ := editKey_safe rep valid first (completed first (by simp)) safe_first
      cases before with
      | nil => exact rep.sound within
      | cons b before =>
        obtain ⟨rfl, rest⟩ := List.cons.inj split
        exact (ih rep' (one.mpr safe_first).within later).mpr
          (fun before key after split => safe (b :: before) key after (by simp [split]))
          before after rest

end

/-- The buffer is sound after every key of a call exactly if no key types a NUL
into it or deletes from a text of 1023 bytes. -/
theorem editor_sound_iff (stack : Str) (history : List Str) (valid : ValidHistory history)
    (keys : List KeyPress) (completed : ∀ key ∈ keys, ∀ text ∈ key.completions, 0 ∉ text) :
    (∀ before after, before ++ after = keys →
        (before.foldl (editKey (historySlots history)) (editorInit stack)).Sound) ↔
      ∀ before key after, before ++ key :: after = keys →
        (before.foldl (editKey (historySlots history)) (editorInit stack)).Safe key :=
  editKeys_sound_iff (editorInit_represents stack history) (by simp [editorInit, Memory.Within])
    valid keys completed

theorem editor_sound_iff_delete :
    (∀ before after, before ++ after = [⟨97, []⟩, ⟨KEY_DEL, []⟩] →
        (before.foldl (editKey (historySlots [])) (editorInit [])).Sound) ↔
      ∀ before key after, before ++ key :: after = [⟨97, []⟩, ⟨KEY_DEL, []⟩] →
        (before.foldl (editKey (historySlots [])) (editorInit [])).Safe key :=
  editor_sound_iff [] [] ⟨by decide, by simp⟩ _ (by simp)

/-- The first key typed is a NUL. -/
theorem editor_unsound_nul :
    ¬ (editKey (historySlots []) (editorInit []) ⟨0, []⟩).Sound := by
  intro sound
  have cmdlen := sound.cmdlen
  rw [editKey_edit] at cmdlen
  exact editInsert_nul (editorInit_represents [] []) (by decide) cmdlen

end KexecLoader
