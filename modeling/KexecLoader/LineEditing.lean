import KexecLoader.TextLine

/-!
# read_cmd is a text with a cursor

The buffer, its length, the offset and the number in the history represent a line
of the plain model. Every key that types no NUL keeps this; the buffer then holds
what fits of the line.
-/
namespace KexecLoader

/-- What fits into the buffer. -/
def fitBuffer (text : Str) : Str := text.take (CMDBUF_SIZE - 1)

structure Represents (history : List Str) (e : Editor) (l : TextLine) : Prop where
  holds : e.cmdbuf.Holds l.text
  cmdlen : e.cmdlen = l.text.length
  offset : e.offset = l.cursor
  cursor : l.cursor ≤ l.text.length
  hnum : e.hnum = (l.recalled : Int) - 1
  recalled : l.recalled ≤ history.length
  short : l.text.length < CMDBUF_SIZE
  room : CMDBUF_SIZE ≤ e.cmdbuf.bytes.length

/-- A history as `read_cmd` keeps it. -/
structure ValidHistory (history : List Str) : Prop where
  bounded : history.length ≤ HISTORY_SIZE
  no_nul : ∀ line ∈ history, 0 ∉ line

/-- The key types no NUL, by itself or with a completion. -/
structure KeyPress.NoNul (key : KeyPress) : Prop where
  typed : key.edit ≠ .insert 0
  completed : ∀ text ∈ key.completions, 0 ∉ text

/-! ### Completions -/

theorem klStrMatchLen_le (a b : Str) : klStrMatchLen a b ≤ a.length := by
  induction a generalizing b with
  | nil => cases b <;> simp [klStrMatchLen]
  | cons x a ih =>
    cases b with
    | nil => simp [klStrMatchLen]
    | cons y b =>
      simp only [klStrMatchLen, List.length_cons]
      split
      · have := ih b
        omega
      · omega

theorem sharedLen_le (n : Nat) (list : List Str) : sharedLen n list ≤ n := by
  induction list generalizing n with
  | nil => exact Nat.le_refl _
  | cons a rest ih =>
    cases rest with
    | nil => exact Nat.le_refl _
    | cons b rest => exact (ih _).trans (Nat.min_le_right _ _)

theorem completionText_length (list : List Str) :
    (completionText list).length = appChars list := by
  have fits : appChars list ≤ (list.head?.getD []).length := by
    match list with
    | [] => exact Nat.le_refl _
    | [a] => exact Nat.le_refl _
    | a :: b :: rest =>
      have shared := sharedLen_le (min (klStrMatchLen a b) (2 ^ 31 - 1)) (b :: rest)
      exact shared.trans ((Nat.min_le_left _ _).trans (klStrMatchLen_le a b))
  rw [completionText, List.length_take, Nat.min_eq_left fits]

theorem completionText_no_nul {list : List Str} (no_nul : ∀ text ∈ list, 0 ∉ text) :
    0 ∉ completionText list := by
  intro member
  have whole := List.mem_of_mem_take member
  cases list with
  | nil => simp at whole
  | cons a list => exact no_nul a (by simp) whole

/-- `kl_strins` leaves as much of the text with the insertion as there is room for. -/
theorem klStrins_holds {mem : Memory} {before after : Str} {size : Nat}
    (holds : mem.Holds (before ++ after)) (s : Str) (no_nul : 0 ∉ s)
    (short : (before ++ after).length < size) (room : size ≤ mem.bytes.length) :
    (klStrins mem s before.length size).Holds ((before ++ s ++ after).take (size - 1)) := by
  have dlen := holds.strFrom_append
  rw [List.length_append] at short
  simp only [klStrins, dlen]
  split
  next long =>
    -- not even the insertion fits
    have cut : (before ++ s ++ after).take (size - 1) =
        before ++ s.take (size - before.length - 1) := by
      rw [List.append_assoc, List.take_append, List.take_of_length_le (by omega),
        List.take_append_of_le_length (by omega)]
      congr 2
      omega
    rw [cut]
    exact holds.write_tail _ fun member => no_nul (List.mem_of_mem_take member)
  next fits =>
    split
    next long =>
      have cut : (before ++ s ++ after).take (size - 1) =
          before ++ (s ++ after.take (size - before.length - s.length - 1)) := by
        rw [List.append_assoc, List.take_append, List.take_of_length_le (by omega),
          List.take_append, List.take_of_length_le (by omega)]
        congr 3
        omega
      -- what does not fit behind the insertion is overwritten by the NUL
      have last : before.length + (size - before.length) - 1 =
          before.length + s.length + (size - before.length - s.length - 1) := by omega
      rw [cut, last]
      exact holds.fill_gap s no_nul (by omega) (by omega)
    next all =>
      have whole : (before ++ s ++ after).take (size - 1) =
          before ++ (s ++ after.take after.length) := by
        rw [List.take_length, List.take_of_length_le (by simp only [List.length_append]; omega),
          List.append_assoc]
      have last : before.length + after.length + s.length =
          before.length + s.length + after.length := by omega
      rw [whole, last]
      exact holds.fill_gap s no_nul (Nat.le_refl _) (by omega)

/-- `kl_strins` touches nothing outside of the buffer. -/
theorem klStrins_touches {mem : Memory} {before after : Str} {size : Nat}
    (holds : mem.Holds (before ++ after)) (within : mem.Within size)
    (short : (before ++ after).length < size) (s : Str) :
    (klStrins mem s before.length size).Within size := by
  have dlen := holds.strFrom_append
  rw [List.length_append] at short
  simp only [klStrins, dlen]
  split
  next long =>
    refine Memory.within_write.mpr ⟨within, .inr ?_⟩
    simp only [List.length_append, List.length_take, List.length_singleton]
    omega
  next fits =>
    split
    next => simp only [Memory.within_write, Memory.within_memmove, within, true_and,
      List.length_singleton]; omega
    next => simp only [Memory.within_write, Memory.within_memmove, within, true_and,
      List.length_singleton]; omega

theorem klStrins_room {mem : Memory} {offset size : Nat} (s : Str) (inside : offset < size)
    (room : size ≤ mem.bytes.length) :
    size ≤ (klStrins mem s offset size).bytes.length := by
  simp only [klStrins]
  split
  next => exact room.trans (Memory.length_le_write (by omega) _)
  next fits =>
    split
    next long =>
      have moved := Memory.length_le_memmove
        (show offset + s.length ≤ mem.bytes.length by omega)
        offset (size - offset - s.length - 1)
      have filled := Memory.length_le_write
        (show offset ≤ _ from (room.trans moved).trans' (by omega)) s
      exact (room.trans (moved.trans filled)).trans
        (Memory.length_le_write (by omega) _)
    next all =>
      have moved := Memory.length_le_memmove
        (show offset + s.length ≤ mem.bytes.length by omega)
        offset (mem.strFrom offset).length
      have filled := Memory.length_le_write
        (show offset ≤ _ from (room.trans moved).trans' (by omega)) s
      exact (room.trans (moved.trans filled)).trans
        (Memory.length_le_write (by omega) _)

/-! ### One key -/

/-- The branch of the loop a key leads to. -/
def editAs (history : List (Option Str)) (e : Editor) (completions : List Str) : EditKey → Editor
  | .insert c => editInsert e c
  | .backspace => editBackspace e
  | .delete => editDel e
  | .left => if 0 < e.offset then { e with offset := e.offset - 1 } else e
  | .right => if e.offset < e.cmdlen then { e with offset := e.offset + 1 } else e
  | .home => { e with offset := 0 }
  | .stop => { e with offset := e.cmdlen }
  | .older => editUp history e
  | .newer => editDown history e
  | .complete _ => editTab e completions
  | .ignored => e

/-- A completion is that of the key. -/
theorem KeyPress.edit_complete (key : KeyPress) {text : Str} (edit : key.edit = .complete text) :
    text = completionText key.completions := by
  have skip {p : Prop} [Decidable p] {a b : EditKey} (h : (if p then a else b) = .complete text)
      (other : a ≠ .complete text) : b = .complete text := by
    split at h
    · exact absurd h other
    · exact h
  -- the eight keys that are tried before TAB
  have tab := skip (skip (skip (skip (skip (skip (skip (skip edit nofun) nofun) nofun) nofun) nofun)
    nofun) nofun) nofun
  split at tab
  · exact (EditKey.complete.inj tab).symm
  · cases skip tab nofun

/-- The branches exclude each other, although the source goes through all of them. -/
theorem editKey_edit (history : List (Option Str)) (e : Editor) (key : KeyPress) :
    editKey history e key = editAs history e key.completions key.edit := by
  obtain ⟨c, completions⟩ := key
  unfold editKey KeyPress.edit
  by_cases h₁ : c = KEY_BACKSPACE
  · subst h₁
    rfl
  by_cases h₂ : c = KEY_LEFT
  · subst h₂
    simp [KEY_LEFT, KEY_BACKSPACE, KEY_RIGHT, KEY_HOME, KEY_END, KEY_DEL, KEY_UP, KEY_DOWN, editAs]
  by_cases h₃ : c = KEY_RIGHT
  · subst h₃
    simp [KEY_LEFT, KEY_BACKSPACE, KEY_RIGHT, KEY_HOME, KEY_END, KEY_DEL, KEY_UP, KEY_DOWN, editAs]
  by_cases h₄ : c = KEY_HOME
  · subst h₄
    rfl
  by_cases h₅ : c = KEY_END
  · subst h₅
    rfl
  by_cases h₆ : c = KEY_DEL
  · subst h₆
    rfl
  by_cases h₇ : c = KEY_UP
  · subst h₇
    rfl
  by_cases h₈ : c = KEY_DOWN
  · subst h₈
    rfl
  simp only [h₁, h₂, h₃, h₄, h₅, h₆, h₇, h₈, false_and, if_false]
  split_ifs <;> rfl

section
variable {history : List Str} {e : Editor} {l : TextLine} (rep : Represents history e l)
include rep

/-- The text before and behind the cursor. -/
theorem Represents.split : ∃ before after, l.text = before ++ after ∧ before.length = l.cursor :=
  ⟨l.text.take l.cursor, l.text.drop l.cursor, (List.take_append_drop _ _).symm, by
    rw [List.length_take, Nat.min_eq_left rep.cursor]⟩

/-- The string in the buffer. -/
theorem Represents.text : e.cmdbuf.strFrom 0 = l.text :=
  rep.holds.strFrom_zero

/-- Moving the cursor inside the text. -/
theorem Represents.move {cursor : Nat} (inside : cursor ≤ l.text.length) :
    Represents history { e with offset := cursor } { l with cursor := cursor } :=
  ⟨rep.holds, rep.cmdlen, rfl, inside, rep.hnum, rep.recalled, rep.short, rep.room⟩

theorem editInsert_represents {c : UInt8} (typed : c ≠ 0) :
    Represents history (editInsert e c) (l.step fitBuffer history (.insert c)) := by
  obtain ⟨before, after, text, len⟩ := rep.split
  have holds := rep.holds
  have cmdlen := rep.cmdlen
  have room := rep.room
  rw [text] at holds cmdlen
  rw [List.length_append] at cmdlen
  simp only [editInsert, TextLine.step, text, List.length_append, ← len, List.take_left,
    List.drop_left, rep.offset, cmdlen, CMDBUF_SIZE] at room ⊢
  by_cases fits : before.length + after.length < 1022
  · rw [if_pos (by omega), if_pos fits]
    -- the bytes behind the cursor make room, and a new NUL is written behind them
    have gap := holds.fill_gap [c] (by simp [Ne.symm typed]) (Nat.le_refl after.length)
      (by simp; omega)
    have count : before.length + after.length - before.length = after.length := by omega
    have last : before.length + [c].length + after.length =
        before.length + after.length + 1 := by simp; omega
    rw [last, List.take_length] at gap
    rw [count]
    have moved := Memory.length_le_memmove
      (show before.length + 1 ≤ e.cmdbuf.bytes.length by omega)
      before.length after.length
    have filled := Memory.length_le_write (show before.length ≤ _ from moved.trans' (by omega)) [c]
    refine ⟨gap, by simp; omega, rfl, by simp, rep.hnum, rep.recalled, ?_, ?_⟩
    · simp only [CMDBUF_SIZE, List.length_append, List.length_cons]
      omega
    · exact (room.trans (moved.trans filled)).trans
        (Memory.length_le_write ((moved.trans filled).trans' (by omega)) _)
  · rw [if_neg (by omega), if_neg fits]
    exact rep

theorem editBackspace_represents :
    Represents history (editBackspace e) (l.step fitBuffer history .backspace) := by
  simp only [editBackspace, TextLine.step, rep.offset]
  split
  next inside =>
    obtain ⟨before, after, text, len⟩ := rep.split
    obtain ⟨x, before, rfl⟩ : ∃ x front, before = front ++ [x] :=
      ⟨before.getLast (by intro none; simp [none] at len; omega), before.dropLast,
        (List.dropLast_concat_getLast _).symm⟩
    rw [List.append_assoc, List.singleton_append] at text
    rw [List.length_append, List.length_singleton] at len
    have holds := rep.holds
    have cmdlen := rep.cmdlen
    have short := rep.short
    have room := rep.room
    rw [text] at holds cmdlen short
    simp only [List.length_append, List.length_cons] at cmdlen short
    have erased : l.text.eraseIdx (l.cursor - 1) = before ++ after := by
      rw [text, ← len, Nat.add_sub_cancel, List.eraseIdx_append_of_length_le (Nat.le_refl _),
        Nat.sub_self, List.eraseIdx_cons_zero]
    -- the NUL is moved along with the bytes behind the cursor
    have count : e.cmdlen - l.cursor + 1 = after.length + 1 := by omega
    have source : l.cursor = before.length + 1 := len.symm
    rw [erased, count, source, Nat.add_sub_cancel]
    refine ⟨holds.memmove_erase (Nat.le_refl _), ?_, rfl, ?_, rep.hnum, rep.recalled, ?_, ?_⟩
    · simp only [cmdlen, List.length_append]
      omega
    · simp
    · rw [List.length_append]
      omega
    · exact room.trans (Memory.length_le_memmove (by simp only [CMDBUF_SIZE] at *; omega) _ _)
  next => exact rep

theorem editDel_represents :
    Represents history (editDel e) (l.step fitBuffer history .delete) := by
  simp only [editDel, TextLine.step, rep.offset, rep.cmdlen]
  split
  next inside =>
    obtain ⟨before, after, text, len⟩ := rep.split
    obtain ⟨x, after, rfl⟩ := List.exists_cons_of_ne_nil
      (show after ≠ [] by intro none; simp [text, none] at inside; omega)
    have holds := rep.holds
    have short := rep.short
    have room := rep.room
    rw [text] at holds short
    simp only [List.length_append, List.length_cons] at short
    -- the NUL and one byte more are moved
    have erased : l.text.eraseIdx l.cursor = before ++ after := by
      rw [text, ← len, List.eraseIdx_append_of_length_le (Nat.le_refl _), Nat.sub_self,
        List.eraseIdx_cons_zero]
    rw [erased, text, ← len]
    refine ⟨holds.memmove_erase (by simp), ?_, rfl, ?_, rep.hnum, rep.recalled, ?_, ?_⟩
    · simp
    · simp
    · rw [List.length_append]
      omega
    · exact room.trans (Memory.length_le_memmove (by simp only [CMDBUF_SIZE] at *; omega) _ _)
  next outside =>
    have at_end : l.cursor = l.text.length := by
      have := rep.cursor
      omega
    rw [List.eraseIdx_of_length_le (by omega)]
    exact rep

theorem editRecall_represents (text : Str) (no_nul : 0 ∉ text) {n : Int} {recalled : Nat}
    (hnum : n = (recalled : Int) - 1) (bounded : recalled ≤ history.length) :
    Represents history (editRecall { e with hnum := n } text)
      (TextLine.put { l with recalled := recalled } (fitBuffer text)) := by
  -- `strlcpy` ends the text at the size of the buffer
  have kept : 0 ∉ fitBuffer text := fun member => no_nul (List.mem_of_mem_take member)
  have holds := rep.holds.write_start (fitBuffer text) kept
  have read : ((e.cmdbuf.strlcpy 0 text CMDBUF_SIZE).strFrom 0) = fitBuffer text :=
    holds.strFrom_zero
  have short : (fitBuffer text).length ≤ CMDBUF_SIZE - 1 := List.length_take_le _ _
  simp only [editRecall, TextLine.put, read]
  refine ⟨holds, rfl, rfl, Nat.le_refl _, hnum, bounded, ?_, ?_⟩
  · simp only [CMDBUF_SIZE] at *
    omega
  · exact rep.room.trans (Memory.length_le_write (Nat.zero_le _) _)

theorem editUp_represents (valid : ValidHistory history) :
    Represents history (editUp (historySlots history) e) (l.step fitBuffer history .older) := by
  have hnum : e.hnum + 1 = l.recalled := by rw [rep.hnum]; omega
  have bounded := valid.bounded
  have recalled := rep.recalled
  simp only [editUp, TextLine.step, hnum]
  cases line : history[l.recalled]? with
  | none =>
    -- the slot behind the oldest line is empty, or there is none
    have beyond := List.getElem?_eq_none_iff.mp line
    have empty : historyLine (historySlots history) l.recalled = none := by
      simp only [historyLine, historySlots, Int.toNat_natCast]
      rw [if_neg (by omega), List.getElem?_append_right (by simpa using beyond)]
      simp only [List.getElem?_replicate]
      split <;> rfl
    simp only [empty, ite_self]
    exact rep
  | some text =>
    obtain ⟨inside, rfl⟩ := List.getElem?_eq_some_iff.mp line
    have found : historyLine (historySlots history) l.recalled = some history[l.recalled] := by
      simp only [historyLine, historySlots, Int.toNat_natCast]
      rw [if_neg (by omega), List.getElem?_append_left (by simpa using inside)]
      simp [inside]
    rw [if_pos (by omega)]
    simp only [found]
    exact editRecall_represents rep _ (valid.no_nul _ (List.getElem_mem inside)) (by omega)
      (by omega)

theorem editDown_represents (valid : ValidHistory history) :
    Represents history (editDown (historySlots history) e) (l.step fitBuffer history .newer) := by
  have hnum := rep.hnum
  have recalled := rep.recalled
  simp only [editDown, TextLine.step]
  by_cases newest : l.recalled = 0
  · rw [if_neg (by omega), if_pos newest]
    exact rep
  · rw [if_pos (by omega), if_neg newest]
    by_cases last : l.recalled = 1
    · have holds := rep.holds.write_start [] (by simp)
      rw [if_pos (by omega), if_pos last, last]
      refine ⟨holds, rfl, rfl, Nat.zero_le _, rfl, Nat.zero_le _, by simp [TextLine.put,
        CMDBUF_SIZE], ?_⟩
      exact rep.room.trans (Memory.length_le_write (Nat.zero_le _) _)
    · rw [if_neg (by omega), if_neg last]
      -- the line after the recalled one has the number before
      obtain ⟨older, eq⟩ : ∃ n, l.recalled = n + 2 := ⟨l.recalled - 2, by omega⟩
      have inside : older < history.length := by omega
      have slot : historyLine (historySlots history) (e.hnum - 1) = some history[older] := by
        have index : e.hnum - 1 = (older : Int) := by omega
        simp only [index, historyLine, historySlots, Int.toNat_natCast]
        rw [if_neg (by omega), List.getElem?_append_left (by simpa using inside)]
        simp [inside]
      rw [slot, eq]
      simp only [Option.getD_some, Nat.add_sub_cancel, List.getElem?_eq_getElem inside]
      exact editRecall_represents rep _ (valid.no_nul _ (List.getElem_mem inside)) (by omega)
        (by omega)

theorem editTab_represents (completions : List Str) (no_nul : ∀ text ∈ completions, 0 ∉ text) :
    Represents history (editTab e completions)
      (l.step fitBuffer history (.complete (completionText completions))) := by
  obtain ⟨before, after, text, len⟩ := rep.split
  have holds := rep.holds
  have short := rep.short
  have room := rep.room
  have count := completionText_length completions
  rw [text] at holds short
  have nul := completionText_no_nul no_nul
  unfold editTab
  split
  next nothing =>
    -- nothing is inserted, and nothing changes
    have empty : completionText completions = [] :=
      List.eq_nil_of_length_eq_zero (count.trans nothing)
    have whole : fitBuffer l.text = l.text :=
      List.take_of_length_le (by have := rep.short; omega)
    have front : fitBuffer (l.text.take l.cursor) = l.text.take l.cursor :=
      List.take_of_length_le (by have := rep.short; rw [List.length_take]; omega)
    have same : l.step fitBuffer history (.complete (completionText completions)) = l := by
      simp only [TextLine.step, empty, List.append_nil, List.take_append_drop, whole, front,
        List.length_take, Nat.min_eq_left rep.cursor]
    rw [same]
    exact rep
  next =>
    have inserted := klStrins_holds holds (completionText completions) nul short room
    -- the length is read back from the buffer, since the text may have been cut
    have read := inserted.strFrom_zero
    have inside : before.length < CMDBUF_SIZE := by
      rw [List.length_append] at short
      omega
    have grown := klStrins_room (completionText completions) inside room
    rw [List.length_append] at short
    simp only [TextLine.step, fitBuffer, text, ← len, List.take_left, List.drop_left, rep.offset]
    rw [show (klStrins e.cmdbuf (completionText completions) before.length CMDBUF_SIZE).strFrom 0
      = _ from read]
    refine ⟨inserted, rfl, ?_, ?_, rep.hnum, rep.recalled, ?_, grown⟩ <;>
      simp only [List.length_take, List.length_append, count, CMDBUF_SIZE] at short ⊢ <;> omega

/-- Every key that types no NUL does to the buffer what it does to the line. -/
theorem editKey_represents (valid : ValidHistory history) (key : KeyPress) (no_nul : key.NoNul) :
    Represents history (editKey (historySlots history) e key) (l.step fitBuffer history key.edit) := by
  rw [editKey_edit]
  cases edit : key.edit with
  | insert c => exact editInsert_represents rep fun nul => no_nul.typed (nul ▸ edit)
  | backspace => exact editBackspace_represents rep
  | delete => exact editDel_represents rep
  | left =>
    have inside := rep.cursor
    simp only [editAs, TextLine.step, rep.offset]
    split
    · exact rep.move (by omega)
    · have start : l.cursor - 1 = l.cursor := by omega
      rw [start]
      exact rep
  | right =>
    have inside := rep.cursor
    have cmdlen := rep.cmdlen
    simp only [editAs, TextLine.step, rep.offset]
    split
    · rw [Nat.min_eq_left (by omega)]
      exact rep.move (by omega)
    · have stop : min (l.cursor + 1) l.text.length = l.cursor := by omega
      rw [stop]
      exact rep
  | home => exact rep.move (Nat.zero_le _)
  | stop =>
    exact ⟨rep.holds, rep.cmdlen, rep.cmdlen, Nat.le_refl _, rep.hnum, rep.recalled, rep.short,
      rep.room⟩
  | older => exact editUp_represents rep valid
  | newer => exact editDown_represents rep valid
  | complete text =>
    rw [key.edit_complete edit]
    exact editTab_represents rep key.completions no_nul.completed
  | ignored => exact rep

end

theorem editorInit_represents (stack : Str) (history : List Str) :
    Represents history (editorInit stack) TextLine.init := by
  have zeros : List.replicate CMDBUF_SIZE (0 : UInt8) ++ stack =
      0 :: (List.replicate (CMDBUF_SIZE - 1) 0 ++ stack) := rfl
  exact ⟨⟨by simp [TextLine.init], _, zeros⟩, rfl, rfl, Nat.zero_le _, rfl, Nat.zero_le _,
    by decide, by simp [editorInit]⟩

end KexecLoader
