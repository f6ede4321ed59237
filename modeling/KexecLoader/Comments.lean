import KexecLoader.GrubCfgView
import KexecLoader.MenuView

/-!
# Comments

A comment is a line of the file, but the readers know pieces of at most 1023 bytes:
what a comment has beyond these is read as a line of its own. The theorem at the
end says for each file how long a comment may be.
-/
namespace KexecLoader

inductive ConfigFile where
  | conf
  | menu
  | deviceMap
  | grubCfg

def ConfigFile.load (fname : Str) (tskip : Bool) (file : ConfigFile) (s : Settings)
    (content : Str) : Settings :=
  match file with
  | conf => loadConf fname s (.ok content)
  | menu => loadMenu tskip s (.ok content)
  | deviceMap => loadDevmap s (.ok content)
  | grubCfg => loadGrub2Cfg s (.ok content)

/-- A line whose first byte that is not blank is `#`. -/
def CommentLine (line : Str) : Prop := lf ∉ line ∧ (line.dropWhile (· ∈ blanks)).head? = some 35

/-- Comments of this length can stand between any two lines: with and without one
the settings are the same, up to the messages. -/
def CommentInert (file : ConfigFile) (length : Nat) : Prop :=
  ∀ (fname : Str) (tskip : Bool) (s : Settings) (front comment back : Str),
    comment.length = length → CommentLine comment → (∀ c ∈ front.getLast?, c = lf) →
      (file.load fname tskip s (front ++ comment ++ lf :: back)).silent =
        (file.load fname tskip s (front ++ back)).silent

/-- The bytes of a piece, and as many as leave no room for the shortest line that
does anything: `root x`, `root`, `(fd0) x`, and a closing bracket. -/
def ConfigFile.commentLimit : ConfigFile → Nat
  | conf => 1023 + 5
  | menu => 1023 + 3
  | deviceMap => 1023 + 6
  | grubCfg => 1023

/-! ### Pieces of comments -/

/-- A piece that says nothing. -/
def CommentPiece (piece : Str) : Prop :=
  ∃ indent rest, piece = indent ++ rest ∧ (∀ c ∈ indent, c ∈ newlines ++ blanks) ∧
    (rest = [] ∨ rest.head? = some 35)

/-- A piece that is too short to do anything. -/
def ShortPiece (room : Nat) (piece : Str) : Prop := ∃ t, t.length ≤ room ∧ piece = t ++ [lf]

theorem commentPiece_of_blank {piece : Str} (blank : ∀ c ∈ piece, c ∈ newlines ++ blanks) :
    CommentPiece piece := ⟨piece, [], (List.append_nil piece).symm, blank, .inl rfl⟩

theorem commentLine_split {comment : Str} (line : CommentLine comment) :
    ∃ indent tail, comment = indent ++ 35 :: tail ∧ Blank indent := by
  obtain ⟨-, first⟩ := line
  obtain ⟨tail, rest⟩ := List.head?_eq_some_iff.mp first
  refine ⟨comment.takeWhile (· ∈ blanks), tail, ?_, fun c member => ?_⟩
  · rw [← rest, List.takeWhile_append_dropWhile]
  · simpa using List.mem_takeWhile_imp member

theorem comment_pieces (comment : Str) (line : CommentLine comment) (room : Nat)
    (short : comment.length ≤ 1023 + room) (small : room ≤ 1022) :
    ∀ p ∈ pieces 1024 (comment ++ lf :: []), CommentPiece p ∨ ShortPiece room p := by
  obtain ⟨indent, tail, split, blank⟩ := commentLine_split line
  have spaces : ∀ c ∈ indent, c ∈ newlines ++ blanks :=
    fun c member => List.mem_append_right _ (blank c member)
  by_cases fits : comment.length ≤ 1022
  · rw [pieces_line 1022 comment [] line.1 fits, pieces_nil]
    intro p member
    obtain rfl := List.mem_singleton.mp member
    exact .inl ⟨indent, 35 :: (tail ++ [lf]), by simp [split], spaces, .inr rfl⟩
  -- a long comment is read in two pieces, of which the second one is short
  · have rest_lf : lf ∉ comment.drop 1023 := fun member => line.1 (List.mem_of_mem_drop member)
    rw [pieces_long 1022 comment [] line.1 (by omega), pieces_line 1022 _ [] rest_lf
      (by rw [List.length_drop]; omega), pieces_nil]
    intro p member
    obtain rfl | rfl : p = comment.take 1023 ∨ p = comment.drop 1023 ++ [lf] := by simpa using member
    · refine .inl ⟨indent.take 1023, (35 :: tail).take (1023 - indent.length), ?_,
        fun c member => spaces c (List.mem_of_mem_take member), ?_⟩
      · rw [split, List.take_append]
      · cases 1023 - indent.length <;> simp
    · exact .inr ⟨comment.drop 1023, by rw [List.length_drop]; omega, rfl⟩

/-- A comment that is short enough can be left out of what a reader is given. -/
theorem foldl_comment {σ : Type*} {valid : σ → Prop} {step : σ → Str → σ}
    (keeps : ∀ s p, valid s → valid (step s p)) (room : Nat) (small : room ≤ 1022)
    (skip : ∀ s, valid s → ∀ p, CommentPiece p ∨ ShortPiece room p → step s (cstr p) = s)
    (s : σ) (start : valid s) (front comment back : Str) (line : CommentLine comment)
    (short : comment.length ≤ 1023 + room) (whole : ∀ c ∈ front.getLast?, c = lf) :
    ((pieces 1024 (front ++ comment ++ lf :: back)).map cstr).foldl step s =
      ((pieces 1024 (front ++ back)).map cstr).foldl step s := by
  -- the file is cut into pieces before, in and behind the comment, as each part ends a line
  have one_line : ∀ c ∈ (comment ++ lf :: []).getLast?, c = lf := by simp
  rw [show front ++ comment ++ lf :: back = front ++ ((comment ++ lf :: []) ++ back) by simp,
    pieces_append 1022 front _ whole, pieces_append 1022 _ back one_line,
    pieces_append 1022 front _ whole]
  simp only [List.map_append, ← List.append_assoc]
  refine foldl_insert keeps _ (fun s ok p member => ?_) _ _ s start
  obtain ⟨piece, delivered, rfl⟩ := List.mem_map.mp member
  exact skip s ok piece (comment_pieces comment line room short small piece delivered)

/-! ### What the readers skip -/

/-- What is left of such a piece behind its indentation. -/
def Ignored (text : Str) : Prop := text = [] ∨ text.head? = some 35

theorem commentPiece_rest {piece : Str} (comment : CommentPiece piece) :
    Ignored ((cstr piece).dropWhile (· ∈ newlines ++ blanks)) := by
  obtain ⟨indent, rest, rfl, blank, starts⟩ := comment
  have no_nul : 0 ∉ indent := fun member => absurd (blank 0 member) (by decide)
  have text : (cstr (indent ++ rest)).dropWhile (· ∈ newlines ++ blanks) =
      (cstr rest).dropWhile (· ∈ newlines ++ blanks) := by
    rw [cstr_append rest no_nul]
    exact List.dropWhile_append_of_pos (by simpa using blank)
  rw [text]
  obtain rfl | first := starts
  · exact .inl rfl
  · obtain ⟨tail, rfl⟩ := List.head?_eq_some_iff.mp first
    have kept : cstr (35 :: tail) = 35 :: cstr tail := cstr_append (s := [35]) tail (by decide)
    have sign : decide ((35 : UInt8) ∈ newlines ++ blanks) = false := by decide
    refine .inr ?_
    rw [kept, List.dropWhile_cons, sign]
    rfl

theorem commentPiece_text {piece : Str} (comment : CommentPiece piece) :
    Ignored (lineText (cstr piece)) := by
  have rest := commentPiece_rest comment
  have cut := dropWhile_head_append (· ∈ newlines ++ blanks)
    ((cstr piece).takeWhile (· ∉ newlines)) ((cstr piece).dropWhile (· ∉ newlines))
  rw [List.takeWhile_append_dropWhile] at cut
  obtain empty | same := cut
  · exact .inl empty
  · obtain nothing | first := rest
    · rw [nothing] at same
      exact .inl (List.head?_eq_none_iff.mp same)
    · exact .inr (same.trans first)

/-- The word of such a line is empty or starts with `#`. -/
theorem ignored_word {text : Str} (ignored : Ignored text) : Ignored (nextValue text).1 := by
  rw [nextValue_token]
  obtain rfl | first := ignored
  · exact .inl rfl
  · obtain ⟨tail, rfl⟩ := List.head?_eq_some_iff.mp first
    have sign : decide ((35 : UInt8) ∉ blanks) = true := by decide
    rw [List.takeWhile_cons, sign]
    exact .inr rfl

theorem shortPiece_text {room : Nat} {piece : Str} (short : ShortPiece room piece) :
    (lineText (cstr piece)).length ≤ room := by
  obtain ⟨t, fits, rfl⟩ := short
  rw [lineText_lf]
  exact ((lineText_length _).trans (length_cstr_le _)).trans fits

/-- The lengths of a word and a value that is not empty, with a blank between. -/
theorem lineWords_length (piece : Str) :
    (lineWords piece).1.length ≤ (lineText piece).length ∧
      ((lineWords piece).2 ≠ [] → (lineWords piece).1.length + 2 ≤ (lineText piece).length) := by
  have total := nextValue_length (lineText piece)
  refine ⟨by unfold lineWords; omega, fun given => ?_⟩
  have apart := nextValue_apart (lineText piece) given
  have value := List.length_pos_iff.mpr given
  unfold lineWords at value ⊢
  omega

/-! ### kexec-loader.conf -/

theorem ConfWord.command_length {val : Str} {w : ConfWord} {command : ConfCommand}
    (asks : w.command val = some command) : 6 ≤ w.text.length ∨ 4 ≤ w.text.length ∧ val ≠ [] := by
  cases w with
  | title => exact .inr ⟨by decide, (valued_eq_some.mp asks).1⟩
  | root => exact .inr ⟨by decide, (valued_eq_some.mp asks).1⟩
  | kmod => exact .inr ⟨by decide, (valued_eq_some.mp asks).1⟩
  | _ => exact .inl (by decide)

theorem confLine_skips (v : ConfView) (p : Str) (skipped : CommentPiece p ∨ ShortPiece 5 p) :
    v.line (cstr p) = v := by
  have silent : lineCommand (cstr p) = none := by
    rw [Option.eq_none_iff_forall_ne_some]
    intro command found
    obtain ⟨no_comment, asked⟩ := lineCommand_some found
    obtain ⟨w, text, asks⟩ := confCommand_word asked
    have long := w.command_length asks
    rw [text] at long
    obtain comment | short := skipped
    · obtain empty | sign := ignored_word (commentPiece_text comment)
      · rw [lineWords, empty] at long
        simp at long
      · exact no_comment sign
    · have fits := shortPiece_text short
      obtain ⟨word, both⟩ := lineWords_length (cstr p)
      -- the shortest directives are `root` with a value of one byte and longer words
      obtain long | ⟨long, given⟩ := long
      · omega
      · have := both given
        omega
  simp [ConfView.line, silent]

/-! ### menu.lst -/

theorem menuLine_skips (v : MenuView) (p : Str) (skipped : CommentPiece p ∨ ShortPiece 3 p) :
    v.line (cstr p) = v := by
  have silent : menuLineCommand (cstr p) = none := by
    obtain ⟨w, word, -⟩ | ⟨-, nothing⟩ := menuLine_cases (cstr p)
    · have long : 4 ≤ w.text.length := by cases w <;> decide
      have sign : ¬ Ignored w.text := by cases w <;> unfold Ignored <;> decide
      obtain comment | short := skipped
      · have ignored := ignored_word (commentPiece_text comment)
        rw [← lineWords, word] at ignored
        exact absurd ignored sign
      · have fits := shortPiece_text short
        have lengths := (lineWords_length (cstr p)).1
        rw [word] at lengths
        omega
    · exact nothing
  simp [MenuView.line, silent]

/-! ### device.map -/

/-- A line of device.map without its number and messages. -/
def devmapView (s : Settings) (piece : Str) : Settings := (devmapLine s 0 piece).silent

theorem devmapLine_silent (s : Settings) (line : Nat) (piece : Str) :
    (devmapLine s line piece).silent = devmapView s.silent piece := by
  simp only [devmapView, devmapLine]
  split_ifs
  · rfl
  · rfl
  · split <;> rfl

theorem devmapLoop_silent (s : Settings) (line : Nat) (rest : List Str) :
    (devmapLoop s line rest).silent = rest.foldl devmapView s.silent := by
  induction rest generalizing s line with
  | nil => rfl
  | cons piece rest ih =>
    have again : devmapView s.silent piece = (devmapLine s (line + 1) piece).silent :=
      (devmapLine_silent s (line + 1) piece).symm
    rw [devmapLoop, ih, List.foldl_cons, again]

/-- The shortest name is a kind and a digit. -/
theorem parseGdev_length {name : Str} {gdev : KlGdev} (accepted : parseGdev name = some gdev) :
    3 ≤ name.length := by
  have parts (dest : KlGdev) (brackets : Bool) : parseParts brackets dest [] = none := by
    cases brackets <;> rfl
  have kind (src : Str) (brackets : Bool) (dest : KlGdev)
      (starts : bytes "fd" <+: src ∨ bytes "hd" <+: src)
      (found : parseParts brackets dest (src.drop 2) = some gdev) : 3 ≤ src.length := by
    have two : 2 ≤ src.length := by
      obtain ⟨tail, rfl⟩ | ⟨tail, rfl⟩ := starts <;> simp [bytes]
    by_contra short
    have nothing : src.drop 2 = [] := List.drop_eq_nil_of_le (by omega)
    rw [nothing, parts] at found
    cases found
  unfold parseGdev at accepted
  extract_lets brackets src at accepted
  -- a bracket may be in front of the kind
  have shorter : src.length ≤ name.length := by
    simp only [src]
    split
    · exact (List.length_drop ▸ Nat.sub_le _ _)
    · exact Nat.le_refl _
  split at accepted
  next starts => exact (kind src _ _ starts accepted).trans shorter
  next => cases accepted

theorem devmapView_skips (s : Settings) (silent : s.silent = s) (p : Str)
    (skipped : CommentPiece p ∨ ShortPiece 6 p) : devmapView s (cstr p) = s := by
  have words : nextValue (lineText (cstr p)) = lineWords (cstr p) := rfl
  simp only [devmapView, devmapLine, take_strcspn, drop_strspn]
  rw [← lineText, words]
  split_ifs with ignored malformed
  · exact silent
  · exact silent
  · simp only [Bool.or_eq_true, List.isEmpty_iff, beq_iff_eq, not_or, bne_iff_ne, ne_eq, not_not]
      at ignored malformed
    obtain comment | short := skipped
    · exact absurd (ignored_word (commentPiece_text comment)) (not_or.mpr ignored)
    · -- the brackets, a name of three bytes, a blank and a value do not fit
      have fits := shortPiece_text short
      have lengths := (lineWords_length (cstr p)).2 malformed.2
      split
      next => exact silent
      next gdev accepted =>
        have long := parseGdev_length accepted
        simp only [List.length_drop, List.length_dropLast] at long
        omega

/-! ### grub.cfg -/

theorem coreLine_skips (r : GrubCfgEnd) (plain : coreEnd r = r) (p : Str)
    (skipped : CommentPiece p ∨ ShortPiece 0 p) : coreLine r (cstr p) = r := by
  -- no byte is left for a piece behind the newline, which is blank
  have comment : CommentPiece p := by
    obtain comment | ⟨t, empty, rfl⟩ := skipped
    · exact comment
    · rw [List.eq_nil_of_length_eq_zero (Nat.le_zero.mp empty)]
      exact commentPiece_of_blank (by decide)
  cases r with
  | error s => exact plain
  | ok st =>
    have ignored : Ignored (((cstr p).dropWhile (· ∈ newlines ++ blanks)).takeWhile
        (· ∉ newlines)) := by
      obtain nothing | first := commentPiece_rest comment
      · rw [nothing]
        exact .inl rfl
      · obtain ⟨tail, rest⟩ := List.head?_eq_some_iff.mp first
        have sign : decide ((35 : UInt8) ∉ newlines) = true := by decide
        rw [rest, List.takeWhile_cons, sign]
        exact .inr rfl
    have next : grubCfgLine st (cstr p) = .ok { st with lnum := st.lnum + 1 } := by
      simp only [grubCfgLine, take_strcspn, drop_strspn]
      refine if_pos ?_
      rw [Bool.or_eq_true, beq_iff_eq, List.isEmpty_iff]
      exact ignored.symm
    simp only [coreLine, next]
    exact plain

/-! ### The theorem -/

/-- A comment that is short enough changes nothing. -/
theorem commentInert_short (file : ConfigFile) (length : Nat) (short : length ≤ file.commentLimit) :
    CommentInert file length := by
  rintro fname tskip s front comment back rfl line whole
  have plain (s : Settings) : s.silent.silent = s.silent := rfl
  cases file with
  | conf =>
    have same := @foldl_comment _ (fun _ => True) ConfView.line (fun _ _ _ => trivial) 5 (by omega)
      (fun v _ => confLine_skips v) ⟨s.silent, none⟩ trivial front comment back line short whole
    exact (loadConf_silent fname s _).trans
      ((congrArg ConfView.close same).trans (loadConf_silent fname s _).symm)
  | menu =>
    have same := @foldl_comment _ (fun _ => True) MenuView.line (fun _ _ _ => trivial) 3 (by omega)
      (fun v _ => menuLine_skips v) ⟨s.silent, -1, 0, none⟩ trivial front comment back line short
      whole
    exact (loadMenu_silent tskip s _).trans
      ((congrArg MenuView.close same).trans (loadMenu_silent tskip s _).symm)
  | deviceMap =>
    have same := @foldl_comment _ (fun s => s.silent = s) devmapView
      (fun s p _ => plain (devmapLine s 0 p)) 6 (by omega) devmapView_skips s.silent (plain s)
      front comment back line short whole
    exact (devmapLoop_silent s 0 _).trans (same.trans (devmapLoop_silent s 0 _).symm)
  | grubCfg =>
    have same := @foldl_comment _ (fun r => coreEnd r = r) coreLine coreLine_plain 0 (by omega)
      coreLine_skips (.ok ⟨s.silent, 0, 0, false, none, -1, 0, initTarget⟩) rfl front comment back
      line short whole
    exact (loadGrub2Cfg_silent s _).trans
      ((congrArg endSettings same).trans (loadGrub2Cfg_silent s _).symm)

/-! ### Comments that are too long -/

/-- A comment whose tail is a directive, filled up with spaces. -/
def longComment (directive : Str) (fill : Nat) : Str :=
  List.replicate 1023 35 ++ (directive ++ List.replicate fill space)

theorem longComment_line (directive : Str) (fill : Nat) (one_line : ∀ c ∈ directive, c ∉ newlines) :
    CommentLine (longComment directive fill) := by
  refine ⟨fun member => ?_, rfl⟩
  obtain sign | text := List.mem_append.mp member
  · exact absurd (List.eq_of_mem_replicate sign) (by decide)
  · obtain text | fill := List.mem_append.mp text
    · exact one_line lf text (by decide)
    · exact absurd (List.eq_of_mem_replicate fill) (by decide)

section
variable {σ : Type*} {valid : σ → Prop} {step : σ → Str → σ}
  (keeps : ∀ s p, valid s → valid (step s p))
  (skip : ∀ s, valid s → ∀ p, CommentPiece p → step s (cstr p) = s)
include keeps skip

theorem foldl_blank (s : σ) (ok : valid s) (ps : List Str)
    (blank : ∀ p ∈ ps, ∀ c ∈ p, c ∈ newlines ++ blanks) : (ps.map cstr).foldl step s = s := by
  have none_left := foldl_insert keeps (ps.map cstr) (fun s ok p member => by
    obtain ⟨piece, inside, rfl⟩ := List.mem_map.mp member
    exact skip s ok piece (commentPiece_of_blank (blank piece inside))) [] [] s ok
  simpa using none_left

/-- What follows the first 1023 bytes is read as a line. -/
theorem foldl_longComment (directive : Str) (fill : Nat) (short : directive.length ≤ 1022)
    (bare : ∀ c ∈ directive, c ∉ newlines ∧ c ≠ 0) (front back : Str)
    (whole : ∀ c ∈ front.getLast?, c = lf) (s : σ) (start : valid s) :
    ∃ pad ends, (∀ c ∈ ends, c ∈ newlines) ∧
      ((pieces 1024 (front ++ longComment directive fill ++ lf :: back)).map cstr).foldl step s =
        ((pieces 1024 back).map cstr).foldl step
          (step (((pieces 1024 front).map cstr).foldl step s)
            (directive ++ List.replicate pad space ++ ends)) := by
  have no_lf := (longComment_line directive fill fun c member => (bare c member).1).1
  have one_line : ∀ c ∈ (longComment directive fill ++ lf :: []).getLast?, c = lf := by simp
  have cut : pieces 1024 (longComment directive fill ++ lf :: []) =
      List.replicate 1023 35 :: pieces 1024 ((directive ++ List.replicate fill space) ++ lf :: []) := by
    have length : (List.replicate 1023 (35 : UInt8)).length = 1022 + 1 := List.length_replicate ..
    rw [pieces_long 1022 _ [] no_lf (by rw [longComment, List.length_append, length]; omega),
      longComment, List.take_left' length, List.drop_left' length]
  have sign : CommentPiece (List.replicate 1023 35) :=
    ⟨[], List.replicate 1023 35, rfl, by simp, .inr rfl⟩
  -- the state before the comment is one that comments are skipped in
  have valid_front : valid (((pieces 1024 front).map cstr).foldl step s) := by
    generalize (pieces 1024 front).map cstr = ps
    induction ps generalizing s with
    | nil => exact start
    | cons p ps ih => exact ih (step s p) (keeps s p start)
  rw [show front ++ longComment directive fill ++ lf :: back =
      front ++ ((longComment directive fill ++ lf :: []) ++ back) by simp,
    pieces_append 1022 front _ whole, pieces_append 1022 _ back one_line, cut]
  simp only [List.map_append, List.foldl_append, List.map_cons, List.foldl_cons]
  -- the first 1023 bytes are a comment, the directive starts the next piece
  rw [skip _ valid_front _ sign]
  -- the rest is one line and no NUL ends its string early
  have text_lf : lf ∉ directive ++ List.replicate fill space := by
    intro member
    obtain text | fill := List.mem_append.mp member
    · exact (bare lf text).1 (by decide)
    · exact absurd (List.eq_of_mem_replicate fill) (by decide)
  have string (pad : Nat) (ends : Str) (ended : ∀ c ∈ ends, c = lf) :
      cstr (directive ++ List.replicate pad space ++ ends) =
        directive ++ List.replicate pad space ++ ends := by
    refine cstr_of_no_nul fun member => ?_
    obtain member | last := List.mem_append.mp member
    · obtain text | fill := List.mem_append.mp member
      · exact (bare 0 text).2 rfl
      · exact absurd (List.eq_of_mem_replicate fill) (by decide)
    · exact absurd (ended 0 last) (by decide)
  by_cases fits : (directive ++ List.replicate fill space).length ≤ 1022
  · refine ⟨fill, [lf], by decide, ?_⟩
    rw [pieces_line 1022 _ [] text_lf fits, pieces_nil, List.map_singleton, List.foldl_cons,
      List.foldl_nil, string fill [lf] (by simp)]
  · -- the directive comes first, and the pieces behind it are blank
    refine ⟨1023 - directive.length, [], by simp, ?_⟩
    rw [List.length_append, List.length_replicate] at fits
    rw [pieces_long 1022 _ [] text_lf (by rw [List.length_append, List.length_replicate]; omega),
      List.map_cons, List.foldl_cons]
    have first : (directive ++ List.replicate fill space).take (1022 + 1) =
        directive ++ List.replicate (1023 - directive.length) space ++ [] := by
      rw [List.take_append, List.take_of_length_le (by omega), List.take_replicate,
        Nat.min_eq_left (by omega), List.append_nil]
    have rest : (directive ++ List.replicate fill space).drop (1022 + 1) =
        List.replicate (fill - (1023 - directive.length)) space := by
      rw [List.drop_append, List.drop_eq_nil_of_le (by omega), List.drop_replicate, List.nil_append]
    rw [first, rest, string _ [] (by simp)]
    congr 1
    refine foldl_blank keeps skip _ (keeps _ _ valid_front) _ fun p delivered c inside => ?_
    have member := mem_of_mem_pieces 1022 _ p delivered c inside
    obtain fill | last := List.mem_append.mp member
    · rw [List.eq_of_mem_replicate fill]
      decide
    · rw [List.mem_singleton.mp last]
      decide

end

theorem longComment_length (directive : Str) (fill : Nat) :
    (longComment directive fill).length = 1023 + (directive.length + fill) := by
  rw [longComment, List.length_append, List.length_replicate, List.length_append,
    List.length_replicate]

/-- A word, blanks and a value at the start of a line. -/
theorem lineWords_directive (word sep value ends : Str) (named : word ≠ [])
    (whole : ∀ c ∈ word, c ∉ newlines ++ blanks) (blank : Blank sep) (apart : sep = [] → value = [])
    (starts : ∀ c ∈ value.head?, c ∉ blanks) (one_line : ∀ c ∈ value, c ∉ newlines)
    (ended : ∀ c ∈ ends, c ∈ newlines) :
    lineWords (word ++ (sep ++ value) ++ ends) = (word, value) := by
  have bare : ∀ c ∈ word ++ (sep ++ value), c ∉ newlines := by
    intro c member newline
    obtain inside | member := List.mem_append.mp member
    · exact whole c inside (List.mem_append_left _ newline)
    · obtain inside | inside := List.mem_append.mp member
      · exact blank_not_newline (blank c inside) newline
      · exact one_line c inside newline
  obtain ⟨c, word, rfl⟩ := List.exists_cons_of_ne_nil named
  have first : ¬ c ∈ newlines ++ blanks := whole c (by simp)
  -- neither blanks in front nor the newline belong to the text
  have text : lineText ((c :: word) ++ (sep ++ value) ++ ends) = (c :: word) ++ (sep ++ value) := by
    rw [lineText_append bare ended]
    exact List.dropWhile_cons_of_neg (by simpa using first)
  rw [lineWords, text]
  exact nextValue_split _ sep value
    (fun b member blank => whole b member (List.mem_append_right _ blank)) apart blank starts

theorem filled_value (value : Str) (pad : Nat) (one_line : ∀ c ∈ value, c ∉ newlines) :
    ∀ c ∈ value ++ List.replicate pad space, c ∉ newlines := by
  intro c member
  obtain text | fill := List.mem_append.mp member
  · exact one_line c text
  · rw [List.eq_of_mem_replicate fill]
    decide

theorem spaces_blank (pad : Nat) : Blank (List.replicate pad space) := by
  intro c member
  rw [List.eq_of_mem_replicate member]
  decide

theorem filled_starts (c : UInt8) (value : Str) (pad : Nat) (text : c ∉ blanks) :
    ∀ b ∈ (c :: value ++ List.replicate pad space).head?, b ∉ blanks := by
  intro b head
  obtain rfl : c = b := Option.some.inj head
  exact text

/-- `root x` sets the root of the open target. -/
theorem conf_acts (fill : Nat) : ¬ CommentInert .conf (1023 + (6 + fill)) := by
  intro inert
  let front := bytes "title t\nkernel k\n"
  let opened : KlTarget :=
    { initTarget with title := strlcpy (bytes "t"), kernel := strlcpy (bytes "k") }
  obtain ⟨pad, ends, ended, read⟩ := @foldl_longComment _ (fun _ => True) ConfView.line
    (fun _ _ _ => trivial) (fun v _ p comment => confLine_skips v p (.inl comment))
    (bytes "root x") fill (by decide) (by decide) front [] (by decide) ⟨initSettings, none⟩ trivial
  have same := inert [] false initSettings front (longComment (bytes "root x") fill) []
    (longComment_length _ _) (longComment_line _ _ (by decide)) (by decide)
  have view : ((pieces 1024 front).map cstr).foldl ConfView.line ⟨initSettings, none⟩ =
      ⟨initSettings, some opened⟩ := rfl
  have words : lineWords (bytes "root x" ++ List.replicate pad space ++ ends) =
      (bytes "root", bytes "x" ++ List.replicate pad space) :=
    lineWords_directive (bytes "root") [space] (bytes "x" ++ List.replicate pad space) ends
      (by decide) (by decide) (by decide) (by simp) (filled_starts 120 [] pad (by decide))
      (filled_value _ pad (by decide)) ended
  have command : lineCommand (bytes "root x" ++ List.replicate pad space ++ ends) =
      some (.edit (.root (bytes "x" ++ List.replicate pad space))) := by
    unfold lineCommand
    rw [words]
    rfl
  have silent : initSettings.silent = initSettings := rfl
  rw [ConfigFile.load, ConfigFile.load, loadConf_silent, loadConf_silent, silent, read,
    List.append_nil, view, ConfView.line, command] at same
  -- the target is complete with the comment only
  have counts : 1 = 0 := congrArg (fun s : Settings => s.targets.length) same
  cases counts

/-- `root` without an argument skips the open entry. -/
theorem menu_acts (fill : Nat) : ¬ CommentInert .menu (1023 + (4 + fill)) := by
  intro inert
  let front := bytes "title t\nroot (fd0)\nkernel k\n"
  let opened : KlTarget := { initTarget with
    title := strlcpy (bytes "t"), flags := TARGET_RESET, root := strlcpy (bytes "fd0"),
    kernel := strlcpy (bytes "k") }
  obtain ⟨pad, ends, ended, read⟩ := @foldl_longComment _ (fun _ => True) MenuView.line
    (fun _ _ _ => trivial) (fun v _ p comment => menuLine_skips v p (.inl comment))
    (bytes "root") fill (by decide) (by decide) front [] (by decide) ⟨initSettings, -1, 0, none⟩
    trivial
  have same := inert [] false initSettings front (longComment (bytes "root") fill) []
    (longComment_length _ _) (longComment_line _ _ (by decide)) (by decide)
  have view : ((pieces 1024 front).map cstr).foldl MenuView.line ⟨initSettings, -1, 0, none⟩ =
      ⟨initSettings, -1, 1, some ⟨opened, false⟩⟩ := rfl
  have words : lineWords (bytes "root" ++ List.replicate pad space ++ ends) = (bytes "root", []) := by
    have split := lineWords_directive (bytes "root") (List.replicate pad space) [] ends (by decide)
      (by decide) (spaces_blank pad) (fun _ => rfl) (by simp) (by simp) ended
    rwa [List.append_nil] at split
  have command : menuLineCommand (bytes "root" ++ List.replicate pad space ++ ends) = some .skip := by
    unfold menuLineCommand
    rw [words]
    rfl
  have silent : initSettings.silent = initSettings := rfl
  rw [ConfigFile.load, ConfigFile.load, loadMenu_silent, loadMenu_silent, silent, read,
    List.append_nil, view, MenuView.line, command] at same
  -- without the comment the entry is complete, with it it is skipped
  have counts : 0 = 1 := congrArg (fun s : Settings => s.targets.length) same
  cases counts

/-- `(fd0) x` maps the floppy. -/
theorem deviceMap_acts (fill : Nat) : ¬ CommentInert .deviceMap (1023 + (7 + fill)) := by
  intro inert
  obtain ⟨pad, ends, ended, read⟩ := @foldl_longComment _ (fun s => s.silent = s) devmapView
    (fun _ _ _ => rfl) (fun s silent p comment => devmapView_skips s silent p (.inl comment))
    (bytes "(fd0) x") fill (by decide) (by decide) [] [] (by decide) initSettings rfl
  have same := inert [] false initSettings [] (longComment (bytes "(fd0) x") fill) []
    (longComment_length _ _) (longComment_line _ _ (by decide)) (by decide)
  have words : lineWords (bytes "(fd0) x" ++ List.replicate pad space ++ ends) =
      (bytes "(fd0)", bytes "x" ++ List.replicate pad space) :=
    lineWords_directive (bytes "(fd0)") [space] (bytes "x" ++ List.replicate pad space) ends
      (by decide) (by decide) (by decide) (by simp) (filled_starts 120 [] pad (by decide))
      (filled_value _ pad (by decide)) ended
  have line : (devmapView initSettings (bytes "(fd0) x" ++ List.replicate pad space ++ ends)).grubDevmap.length
      = 1 := by
    have text : nextValue (lineText (bytes "(fd0) x" ++ List.replicate pad space ++ ends)) = _ := words
    simp only [devmapView, devmapLine, take_strcspn, drop_strspn]
    rw [← lineText, text]
    rfl
  have silent : initSettings.silent = initSettings := rfl
  have loaded (content : Str) : (ConfigFile.deviceMap.load [] false initSettings content).silent =
      ((pieces 1024 content).map cstr).foldl devmapView initSettings := devmapLoop_silent _ 0 _
  rw [loaded, loaded, read] at same
  -- the map has one entry with the comment and none without
  have counts := line.symm.trans (congrArg (fun s : Settings => s.grubDevmap.length) same)
  cases counts

/-- An entry that has no root yet, and the lines that complete it. -/
def cfgFront : Str := bytes "menuentry a\nlinux k\n"

def cfgBack : Str := bytes "set root=r\n\x7d\n"

def cfgTarget : KlTarget :=
  { initTarget with title := strlcpy (bytes "a"), kernel := strlcpy (bytes "k") }

/-- A bracket closes the open entry, so that nothing is left to complete. -/
theorem grubCfg_longComment (fill : Nat) :
    (loadGrub2Cfg initSettings
        (.ok (cfgFront ++ longComment (bytes "\x7d") fill ++ lf :: cfgBack))).silent =
      initSettings := by
  obtain ⟨pad, ends, ended, read⟩ := @foldl_longComment _ (fun r => coreEnd r = r) coreLine
    coreLine_plain (fun r plain p comment => coreLine_skips r plain p (.inl comment))
    (bytes "\x7d") fill (by decide) (by decide) cfgFront cfgBack (by decide)
    (.ok ⟨initSettings, 0, 0, false, none, -1, 0, initTarget⟩) rfl
  have view : ((pieces 1024 cfgFront).map cstr).foldl coreLine
      (.ok ⟨initSettings, 0, 0, false, none, -1, 0, initTarget⟩) =
        .ok ⟨initSettings, 0, 1, false, none, -1, 1, cfgTarget⟩ := rfl
  have words : nextValue ((((bytes "\x7d" ++ List.replicate pad space ++ ends).dropWhile
      (· ∈ newlines ++ blanks))).takeWhile (· ∉ newlines)) = (bytes "\x7d", []) := by
    have kept : (bytes "\x7d" ++ List.replicate pad space ++ ends).dropWhile
        (· ∈ newlines ++ blanks) = bytes "\x7d" ++ List.replicate pad space ++ ends := rfl
    have text : (bytes "\x7d" ++ List.replicate pad space ++ ends).takeWhile (· ∉ newlines) =
        bytes "\x7d" ++ List.replicate pad space :=
      takeWhile_append_stop (by simpa using filled_value (bytes "\x7d") pad (by decide))
        fun c head => by simpa using ended c (List.mem_of_mem_head? head)
    have split := nextValue_split (bytes "\x7d") (List.replicate pad space) [] (by decide)
      (fun _ => rfl) (spaces_blank pad) (by simp)
    rw [kept, text]
    rwa [List.append_nil] at split
  have line : coreLine (.ok ⟨initSettings, 0, 1, false, none, -1, 1, cfgTarget⟩)
      (bytes "\x7d" ++ List.replicate pad space ++ ends) =
        .ok ⟨initSettings, 0, 0, false, none, -1, 1, initTarget⟩ := by
    simp only [coreLine, grubCfgLine, take_strcspn, drop_strspn]
    rw [words]
    rfl
  have silent : initSettings.silent = initSettings := rfl
  have closed : endSettings (((pieces 1024 cfgBack).map cstr).foldl coreLine
      (.ok ⟨initSettings, 0, 0, false, none, -1, 1, initTarget⟩)) = initSettings := by decide
  rw [loadGrub2Cfg_silent, silent, read, view, line, closed]

theorem grubCfg_noComment : (loadGrub2Cfg initSettings (.ok (cfgFront ++ cfgBack))).silent =
    { initSettings with targets := [{ cfgTarget with root := strlcpy (bytes "r") }] } := by
  decide

theorem grubCfg_acts (fill : Nat) : ¬ CommentInert .grubCfg (1023 + (1 + fill)) := by
  intro inert
  have same := inert [] false initSettings cfgFront (longComment (bytes "\x7d") fill) cfgBack
    (longComment_length _ _) (longComment_line _ _ (by decide)) (by decide)
  rw [ConfigFile.load, ConfigFile.load, grubCfg_longComment, grubCfg_noComment] at same
  cases congrArg Settings.targets same

/-- How long a comment can be, in each of the files. -/
theorem commentInert_iff (file : ConfigFile) (length : Nat) :
    CommentInert file length ↔ length ≤ file.commentLimit := by
  constructor
  · intro inert
    by_contra long
    -- over the limit there is room for the shortest line that acts, filled up with spaces
    have exact_length {least : Nat} (more : 1023 + least ≤ length) :
        length = 1023 + (least + (length - 1023 - least)) := by omega
    cases file with
    | conf =>
      have more : 1023 + 6 ≤ length := Nat.not_le.mp long
      exact conf_acts _ (exact_length more ▸ inert)
    | menu =>
      have more : 1023 + 4 ≤ length := Nat.not_le.mp long
      exact menu_acts _ (exact_length more ▸ inert)
    | deviceMap =>
      have more : 1023 + 7 ≤ length := Nat.not_le.mp long
      exact deviceMap_acts _ (exact_length more ▸ inert)
    | grubCfg =>
      have more : 1023 + 1 ≤ length := Nat.not_le.mp long
      exact grubCfg_acts _ (exact_length more ▸ inert)
  · exact commentInert_short file length

/-- A comment of 1024 bytes with a bracket at its end: the entry of the file is
lost. -/
theorem comment_closes_entry :
    CommentLine (List.replicate 1023 35 ++ bytes "\x7d") ∧
      (loadGrub2Cfg initSettings (.ok (cfgFront ++ (List.replicate 1023 35 ++ bytes "\x7d") ++
        lf :: cfgBack))).silent = initSettings ∧
      (loadGrub2Cfg initSettings (.ok (cfgFront ++ cfgBack))).silent =
        { initSettings with targets := [{ cfgTarget with root := strlcpy (bytes "r") }] } :=
  ⟨longComment_line (bytes "\x7d") 0 (by decide), grubCfg_longComment 0, grubCfg_noComment⟩

end KexecLoader
