import KexecLoader.LineEditing

/-!
# read_cmd refines the plain model

As long as no text gets longer than 1022 bytes, what fits into the buffer is
everything, and the buffer represents the line of the plain model after any keys.
-/
namespace KexecLoader

/-- The key leaves a text of at most 1022 bytes. -/
def TextLine.Takes (l : TextLine) : EditKey → Prop
  | .complete text => l.text.length + text.length ≤ 1022
  | _ => True

/-- All keys, one after the other. -/
def TextLine.TakesAll (history : List Str) : TextLine → List KeyPress → Prop
  | _, [] => True
  | l, key :: keys => l.Takes key.edit ∧ TakesAll history (l.step id history key.edit) keys

/-- A line of the plain model as it occurs in such a run. -/
structure TextLine.Short (l : TextLine) : Prop where
  cursor : l.cursor ≤ l.text.length
  short : l.text.length ≤ 1022

theorem fitBuffer_short {text : Str} (short : text.length ≤ 1022) : fitBuffer text = text :=
  List.take_of_length_le (by simp only [CMDBUF_SIZE]; omega)

section
variable {history : List Str} (short_lines : ∀ line ∈ history, line.length ≤ 1022)
  {l : TextLine} (short : l.Short)
include short_lines short

/-- Nothing is cut off. -/
theorem step_fit (edit : EditKey) (takes : l.Takes edit) :
    l.step fitBuffer history edit = l.step id history edit := by
  cases edit with
  | older =>
    simp only [TextLine.step]
    cases line : history[l.recalled]? with
    | none => rfl
    | some text => simp only [fitBuffer_short (short_lines text (List.mem_of_getElem? line)), id]
  | newer =>
    have fits : fitBuffer ((history[l.recalled - 2]?).getD []) =
        (history[l.recalled - 2]?).getD [] := by
      cases line : history[l.recalled - 2]? with
      | none => rfl
      | some text => exact fitBuffer_short (short_lines text (List.mem_of_getElem? line))
    simp only [TextLine.step, fits, id]
  | complete text =>
    simp only [TextLine.Takes] at takes
    -- both places where a completion could be cut
    have front : fitBuffer (l.text.take l.cursor ++ text) = l.text.take l.cursor ++ text :=
      fitBuffer_short (by rw [List.length_append, List.length_take]; omega)
    have whole : fitBuffer (l.text.take l.cursor ++ text ++ l.text.drop l.cursor) =
        l.text.take l.cursor ++ text ++ l.text.drop l.cursor :=
      fitBuffer_short (by
        have cursor := short.cursor
        simp only [List.length_append, List.length_take, List.length_drop]
        omega)
    simp only [TextLine.step, front, whole, id]
  | _ => rfl

theorem step_short (edit : EditKey) (takes : l.Takes edit) : (l.step id history edit).Short := by
  have cursor := short.cursor
  have length := short.short
  -- a recalled line stands in the buffer with the cursor at its end
  have recalled : ∀ n : Nat, ∀ text, text.length ≤ 1022 →
      (TextLine.put { l with recalled := n } text).Short :=
    fun _ _ bounded => ⟨Nat.le_refl _, bounded⟩
  cases edit with
  | insert c =>
    simp only [TextLine.step]
    split
    · constructor <;> simp only [List.length_append, List.length_cons, List.length_take,
        List.length_drop] <;> omega
    · exact short
  | backspace =>
    simp only [TextLine.step]
    split
    · have erased := List.length_eraseIdx_of_lt (l := l.text) (i := l.cursor - 1) (by omega)
      constructor <;> simp only [erased] <;> omega
    · exact short
  | delete =>
    simp only [TextLine.step]
    by_cases inside : l.cursor < l.text.length
    · have erased := List.length_eraseIdx_of_lt inside
      constructor <;> simp only [erased] <;> omega
    · rw [List.eraseIdx_of_length_le (by omega)]
      exact short
  | left => exact ⟨(Nat.sub_le _ _).trans cursor, length⟩
  | right => exact ⟨Nat.min_le_right _ _, length⟩
  | home => exact ⟨Nat.zero_le _, length⟩
  | stop => exact ⟨Nat.le_refl _, length⟩
  | older =>
    simp only [TextLine.step]
    cases line : history[l.recalled]? with
    | none => exact short
    | some text => exact recalled _ _ (short_lines text (List.mem_of_getElem? line))
  | newer =>
    simp only [TextLine.step]
    split
    · exact short
    · apply recalled
      split
      · exact Nat.zero_le _
      · cases line : history[l.recalled - 2]? with
        | none => exact Nat.zero_le _
        | some text => exact short_lines text (List.mem_of_getElem? line)
  | complete text =>
    simp only [TextLine.Takes] at takes
    constructor <;> simp only [TextLine.step, id, List.length_append, List.length_take,
      List.length_drop] <;> omega
  | ignored => exact short

end

/-! ### Runs -/

/-- The buffer after any keys, from any line on. -/
theorem editKeys_represents {history : List Str} (valid : ValidHistory history)
    (short_lines : ∀ line ∈ history, line.length ≤ 1022) (keys : List KeyPress)
    (no_nul : ∀ key ∈ keys, key.NoNul) {e : Editor} {l : TextLine} (rep : Represents history e l)
    (short : l.Short) (takes : l.TakesAll history keys) :
    Represents history (keys.foldl (editKey (historySlots history)) e)
      (keys.foldl (fun l key => l.step id history key.edit) l) := by
  induction keys generalizing e l with
  | nil => exact rep
  | cons key keys ih =>
    -- the buffer follows the model that cuts, which is the plain one as long as nothing is cut
    have next := editKey_represents rep valid key (no_nul key (by simp))
    rw [step_fit short_lines short key.edit takes.1] at next
    exact ih (fun k member => no_nul k (by simp [member])) next
      (step_short short_lines short key.edit takes.1) takes.2

theorem takesAll_front {history : List Str} {l : TextLine} (before after : List KeyPress)
    (takes : l.TakesAll history (before ++ after)) : l.TakesAll history before := by
  induction before generalizing l with
  | nil => trivial
  | cons key before ih => exact ⟨takes.1, ih takes.2⟩

theorem editLoop_enter (history : List (Option Str)) (keys rest : List KeyPress) (enter : KeyPress)
    (typed : ∀ key ∈ keys, key.c ≠ 10) (ends : enter.c = 10) (e : Editor) :
    editLoop history e (keys ++ enter :: rest) = some (keys.foldl (editKey history) e) := by
  induction keys generalizing e with
  | nil => simp [editLoop, ends]
  | cons key keys ih =>
    simp only [List.cons_append, editLoop, if_neg (typed key (by simp)), List.foldl_cons]
    exact ih (fun k member => typed k (by simp [member])) _

/-- The shift drops the oldest of 32 lines. -/
theorem rotateHistory_slots (history : List Str) (bounded : history.length ≤ HISTORY_SIZE)
    (line : Str) : rotateHistory (historySlots history) line =
      historySlots ((line :: history).take HISTORY_SIZE) := by
  simp only [HISTORY_SIZE] at bounded
  by_cases full : history.length = 32
  -- the last of the slots is dropped
  · have all_used : historySlots history = history.map some := by
      simp [historySlots, HISTORY_SIZE, full]
    have length : (line :: history.take 31).length = 32 := by simp [full]
    have used : historySlots (line :: history.take 31) = (line :: history.take 31).map some := by
      simp only [historySlots, HISTORY_SIZE, length, Nat.sub_self, List.replicate_zero,
        List.append_nil]
    rw [all_used, HISTORY_SIZE, List.take_succ_cons, used, List.map_cons, List.map_take]
    rfl
  -- only an empty slot is dropped
  · have rest : 31 - history.length + 1 = 32 - history.length := by omega
    have kept : (line :: history).take 32 = line :: history :=
      List.take_of_length_le (by rw [List.length_cons]; omega)
    have slots : (history.map some ++ List.replicate (32 - history.length) none).take 31 =
        history.map some ++ List.replicate (31 - history.length) none := by
      rw [List.take_append, List.take_of_length_le (by rw [List.length_map]; omega),
        List.length_map, List.take_replicate]
      congr 2
      omega
    simp only [rotateHistory, historySlots, HISTORY_SIZE, kept, slots, List.map_cons,
      List.length_cons, List.cons_append]
    congr 3
    omega

theorem drop_strspn_space (text : Str) :
    text.drop (strspn text [space]) = text.dropWhile (· = space) := by
  rw [drop_strspn]
  congr 1
  funext c
  simp

theorem dropWhile_space_nil (text : Str) :
    text.dropWhile (· = space) = [] ↔ text.any (· != space) = false := by
  rw [List.dropWhile_eq_nil_iff]
  simp

section
variable (stack : Str) (history : List Str) (valid : ValidHistory history)
  (short_lines : ∀ line ∈ history, line.length ≤ 1022) (keys : List KeyPress)
  (typed : ∀ key ∈ keys, key.c ≠ 10 ∧ key.NoNul) (takes : TextLine.init.TakesAll history keys)
include valid short_lines typed takes

theorem readKeys_represents :
    Represents history (keys.foldl (editKey (historySlots history)) (editorInit stack))
      (TextLine.run id history keys) :=
  editKeys_represents valid short_lines keys (fun key member => (typed key member).2)
    (editorInit_represents stack history) ⟨Nat.le_refl _, Nat.zero_le _⟩ takes

/-- The command and the history come from the text of the plain model. -/
theorem readCmd_run (rest : List KeyPress) (enter : KeyPress) (ends : enter.c = 10) :
    readCmd stack (historySlots history) (keys ++ enter :: rest) =
      some ((TextLine.run id history keys).text.dropWhile (· = space),
        historySlots (enterLine history (TextLine.run id history keys).text)) := by
  have rep := readKeys_represents stack history valid short_lines keys typed takes
  have loop := editLoop_enter (historySlots history) keys rest enter
    (fun key member => (typed key member).1) ends (editorInit stack)
  simp only [readCmd, loop, Option.map_some, rep.text, drop_strspn_space]
  generalize (TextLine.run id history keys).text = text
  -- a line of spaces is not kept in the history
  have only_spaces := dropWhile_space_nil text
  unfold enterLine
  cases more : text.any (· != space) with
  | false => simp [only_spaces.mpr more]
  | true =>
    have kept : text.dropWhile (· = space) ≠ [] := by
      rw [ne_eq, only_spaces, more]
      decide
    simp [kept, rotateHistory_slots history valid.bounded]

end

/-- Whatever is typed up to Enter, the buffer is the text of the plain model with
its cursor, and the command and the history come from that text. -/
theorem read_cmd_plain (stack : Str) (history : List Str) (valid : ValidHistory history)
    (short_lines : ∀ line ∈ history, line.length ≤ 1022) (keys rest : List KeyPress)
    (enter : KeyPress) (typed : ∀ key ∈ keys, key.c ≠ 10 ∧ key.NoNul)
    (takes : TextLine.init.TakesAll history keys) (ends : enter.c = 10) :
    (∀ before after, before ++ after = keys →
      let e := before.foldl (editKey (historySlots history)) (editorInit stack)
      let l := TextLine.run id history before
      e.cmdbuf.strFrom 0 = l.text ∧ e.cmdlen = l.text.length ∧ e.offset = l.cursor) ∧
    let text := (TextLine.run id history keys).text
    readCmd stack (historySlots history) (keys ++ enter :: rest) =
      some (text.dropWhile (· = space), historySlots (enterLine history text)) := by
  constructor
  · rintro before after rfl
    have rep := readKeys_represents stack history valid short_lines before
      (fun key member => typed key (by simp [member])) (takesAll_front before after takes)
    exact ⟨rep.text, rep.cmdlen, rep.offset⟩
  · exact readCmd_run stack history valid short_lines keys typed takes rest enter ends

/-- Recalling `ls`, completing it to `ls /a` and taking the last byte back. -/
theorem read_cmd_plain_recalled :
    readCmd [] (historySlots [bytes "ls"])
        [⟨KEY_UP, []⟩, ⟨9, [bytes " /a"]⟩, ⟨KEY_BACKSPACE, []⟩, ⟨10, []⟩] =
      some (bytes "ls /", historySlots [bytes "ls /", bytes "ls"]) := by
  have typed : ∀ key ∈ ([⟨KEY_UP, []⟩, ⟨9, [bytes " /a"]⟩, ⟨KEY_BACKSPACE, []⟩] : List KeyPress),
      key.c ≠ 10 ∧ key.NoNul := by
    intro key member
    simp only [List.mem_cons, List.not_mem_nil, or_false] at member
    obtain rfl | rfl | rfl := member
    · exact ⟨by decide, by decide, by simp⟩
    · exact ⟨by decide, by decide, by decide⟩
    · exact ⟨by decide, by decide, by simp⟩
  exact (read_cmd_plain [] [bytes "ls"] ⟨by decide, by decide⟩ (by decide) _ [] ⟨10, []⟩ typed
    ⟨trivial, Nat.le_of_ble_eq_true rfl, trivial, trivial⟩ rfl).2

end KexecLoader
