import KexecLoader.Conf
import KexecLoader.GrubNames

/-!
# Mapping a GRUB device to a disk

A mapping can stand in kexec-loader.conf (`grub-map hd0 sda`) or in GRUB's own
device.map (`(hd0) sda`). The theorem at the end says when it takes effect.
-/
namespace KexecLoader

/-! ### Reading device.map -/

/-- `"(G) D"`. -/
def deviceLine (name disk : Str) : Str := 40 :: (name ++ [41, space]) ++ disk

/-- A line adds nothing, or an entry with its value; then it starts with a bracket
and has a value. -/
theorem devmapLine_cases (s : Settings) (line : Nat) (piece : Str) :
    (devmapLine s line piece).grubDevmap = s.grubDevmap ∨
      ∃ gdev : KlGdev, (devmapLine s line piece).grubDevmap = s.grubDevmap ++
          [{ gdev with device := strlcpy (nextValue (lineText piece)).2 }] ∧
        (nextValue (lineText piece)).1.head? = some 40 ∧ (nextValue (lineText piece)).2 ≠ [] := by
  simp only [devmapLine, take_strcspn, drop_strspn]
  rw [← lineText]
  split
  next => exact .inl rfl
  next =>
    split
    next => exact .inl rfl
    next given =>
      split
      next => exact .inl rfl
      next gdev _ =>
        simp only [Bool.or_eq_true, not_or, bne_iff_ne, ne_eq, not_not, List.isEmpty_iff] at given
        exact .inr ⟨gdev, rfl, given.1.1, given.2⟩

theorem devmapLine_grows (s : Settings) (line : Nat) (piece : Str) :
    ∃ added, (devmapLine s line piece).grubDevmap = s.grubDevmap ++ added := by
  obtain same | ⟨gdev, grown, -⟩ := devmapLine_cases s line piece
  · exact ⟨[], by rw [same, List.append_nil]⟩
  · exact ⟨_, grown⟩

theorem devmapLoop_grows (s : Settings) (line : Nat) (rest : List Str) :
    ∃ added, (devmapLoop s line rest).grubDevmap = s.grubDevmap ++ added := by
  induction rest generalizing s line with
  | nil => exact ⟨[], by simp [devmapLoop]⟩
  | cons piece rest ih =>
    obtain ⟨first, one⟩ := devmapLine_grows s (line + 1) piece
    obtain ⟨later, more⟩ := ih (devmapLine s (line + 1) piece) (line + 1)
    exact ⟨first ++ later, by rw [devmapLoop, more, one, List.append_assoc]⟩

theorem deviceLine_bytes {name disk : Str} {gdev : KlGdev} (bare : name.head? ≠ some 40)
    (accepted : parseGdev name = some gdev) (ok : LineValue disk) :
    ∀ c ∈ deviceLine name disk, c ∉ newlines ∧ c ≠ 0 := by
  obtain ⟨device, -⟩ := parseGdev_bare name gdev bare accepted
  intro c member
  obtain rfl | member | rfl | rfl | member :
      c = 40 ∨ c ∈ name ∨ c = 41 ∨ c = space ∨ c ∈ disk := by simpa [deviceLine] using member
  · decide
  · have := deviceByte_not_separator (device c member)
    exact ⟨fun newline => this.1 (by simp [newline]), this.2.1⟩
  · decide
  · decide
  · exact ⟨ok.one_line c member, fun zero => ok.no_nul (zero ▸ member)⟩

/-- The line as it lies in the buffer adds an entry with the first 15 bytes of
the disk. -/
theorem devmapLine_device (s : Settings) (line : Nat) (name disk tail : Str) (gdev : KlGdev)
    (bare : name.head? ≠ some 40) (accepted : parseGdev name = some gdev) (ok : LineValue disk)
    (ends : ∀ c ∈ tail, c ∈ newlines) :
    devmapLine s line (deviceLine name disk ++ tail) =
      { s with grubDevmap := s.grubDevmap ++ [{ gdev with device := strlcpy disk }] } := by
  obtain ⟨device, -⟩ := parseGdev_bare name gdev bare accepted
  have one_line : ∀ c ∈ deviceLine name disk, c ∉ newlines :=
    fun c member => (deviceLine_bytes bare accepted ok c member).1
  have cut : (deviceLine name disk ++ tail).take (strcspn (deviceLine name disk ++ tail) newlines) =
      deviceLine name disk :=
    take_strcspn_stop one_line fun c head => ends c (List.mem_of_mem_head? head)
  have unindented : (deviceLine name disk).drop
      (strspn (deviceLine name disk) (newlines ++ blanks)) = deviceLine name disk := by
    rw [drop_strspn, deviceLine, List.cons_append]
    exact List.dropWhile_cons_of_neg (by decide)
  have tokens : nextValue (deviceLine name disk) = (40 :: (name ++ [41]), disk) := by
    have whole : ∀ c ∈ 40 :: (name ++ [41]), c ∉ blanks := by
      intro c member
      obtain rfl | member | rfl : c = 40 ∨ c ∈ name ∨ c = 41 := by simpa using member
      · decide
      · exact fun blank => (deviceByte_not_separator (device c member)).1 (by simp [blank])
      · decide
    rw [show deviceLine name disk = (40 :: (name ++ [41])) ++ ([space] ++ disk) by simp [deviceLine]]
    exact nextValue_split _ _ _ whole (by simp) (by simp [Blank, blanks]) ok.starts
  have closed : (40 :: (name ++ [41])).getLast? = some 41 := by
    rw [← List.cons_append, List.getLast?_concat]
  have inner : (40 :: (name ++ [41])).dropLast.drop 1 = name := by
    rw [← List.cons_append, List.dropLast_concat]
    rfl
  have disk_given : disk.isEmpty = false := by simpa using ok.nonempty
  simp only [devmapLine, cut, unindented, tokens, closed, inner, disk_given, accepted]
  rfl

/-- The loop of `load_devmap` on what is left of the stream. -/
def readDevmap (s : Settings) (line : Nat) (stream : Str) : Settings :=
  devmapLoop s line ((pieces 1024 stream).map cstr)

theorem readDevmap_piece (s : Settings) (line : Nat) (stream : Str) (nonempty : stream ≠ []) :
    readDevmap s line stream =
      readDevmap (devmapLine s (line + 1) (cstr (fgetsPiece 1023 stream).1)) (line + 1)
        (fgetsPiece 1023 stream).2 := by
  rw [readDevmap, pieces_cons 1022 _ nonempty]
  rfl

/-- Reading the line from the file: as much of it as the buffer holds counts. -/
theorem readDevmap_device (s : Settings) (line : Nat) (name disk rest : Str) (gdev : KlGdev)
    (bare : name.head? ≠ some 40) (accepted : parseGdev name = some gdev) (ok : LineValue disk)
    (room : name.length < 1020) :
    ∃ added, (readDevmap s line (deviceLine name disk ++ lf :: rest)).grubDevmap =
      s.grubDevmap ++
        { gdev with device := strlcpy (disk.take (1020 - name.length)) } :: added := by
  have ok' : LineValue (disk.take (1020 - name.length)) := ok.take _ (by omega)
  -- the brackets and the space take three of the 1023 bytes
  have read : (deviceLine name disk).take 1023 =
      deviceLine name (disk.take (1020 - name.length)) := by
    rw [deviceLine, List.take_append, List.take_of_length_le (by simp; omega)]
    simp [deviceLine]
  -- the newline is in the buffer only if the line was not cut
  obtain ⟨tail, piece, ends⟩ : ∃ tail, (fgetsPiece 1023 (deviceLine name disk ++ lf :: rest)).1 =
      deviceLine name (disk.take (1020 - name.length)) ++ tail ∧ ∀ c ∈ tail, c = lf := by
    rw [← read]
    have no_lf : lf ∉ deviceLine name disk := fun member =>
      (deviceLine_bytes bare accepted ok lf member).1 (by decide)
    obtain whole | cut := fgetsPiece_text 1023 (deviceLine name disk) rest no_lf
    · exact ⟨[lf], whole, by simp⟩
    · exact ⟨[], by simpa using cut, by simp⟩
  have no_nul : 0 ∉ deviceLine name (disk.take (1020 - name.length)) ++ tail := by
    intro member
    obtain member | member := List.mem_append.mp member
    · exact (deviceLine_bytes bare accepted ok' 0 member).2 rfl
    · exact absurd (ends 0 member) (by decide)
  -- what the rest of the file adds comes after the entry
  obtain ⟨added, later⟩ := devmapLoop_grows
    { s with grubDevmap := s.grubDevmap ++
      [{ gdev with device := strlcpy (disk.take (1020 - name.length)) }] } (line + 1)
    ((pieces 1024 (fgetsPiece 1023 (deviceLine name disk ++ lf :: rest)).2).map cstr)
  refine ⟨added, ?_⟩
  rw [readDevmap_piece s line _ (by simp [deviceLine]), piece, cstr_of_no_nul no_nul,
    devmapLine_device s (line + 1) name _ tail gdev bare accepted ok'
      (fun c member => by simp [ends c member, newlines]), readDevmap, later]
  simp

theorem loadDevmap_device (s : Settings) (name disk rest : Str) (gdev : KlGdev)
    (bare : name.head? ≠ some 40) (accepted : parseGdev name = some gdev) (ok : LineValue disk)
    (room : name.length < 1020) :
    ∃ added, (loadDevmap s (.ok (deviceLine name disk ++ lf :: rest))).grubDevmap =
      s.grubDevmap ++
        { gdev with device := strlcpy (disk.take (1020 - name.length)) } :: added :=
  readDevmap_device s 0 name disk rest gdev bare accepted ok room

/-! ### Lines that leave no room for the disk -/

/-- A piece of the line adds entries shorter than its part behind the name, since
an entry needs a bracket there and a value behind it. -/
theorem devmapLine_inside (s : Settings) (line : Nat) (front tail ends : Str)
    (one_line : ∀ c ∈ front ++ tail, c ∉ newlines) (ended : ∀ c ∈ ends, c ∈ newlines)
    (apart : 40 ∉ front) :
    ∃ added, (devmapLine s line (front ++ tail ++ ends)).grubDevmap = s.grubDevmap ++ added ∧
      ∀ e ∈ added, e.device.str.length < tail.length := by
  obtain same | ⟨gdev, grown, bracket, -⟩ := devmapLine_cases s line (front ++ tail ++ ends)
  · exact ⟨[], by rw [same, List.append_nil], by simp⟩
  · refine ⟨_, grown, ?_⟩
    rw [lineText_append one_line ended] at bracket ⊢
    generalize start : (front ++ tail).dropWhile (· ∈ newlines ++ blanks) = inner at bracket ⊢
    have split := nextValue_length inner
    obtain ⟨name, word⟩ := List.head?_eq_some_iff.mp bracket
    rw [word, List.length_cons] at split
    have first : inner.head? = some 40 := by
      rw [nextValue_token] at word
      rw [← List.takeWhile_append_dropWhile (p := (· ∉ blanks)) (l := inner), word]
      rfl
    -- the bracket is not in the front part, so that all of that was skipped
    have inside : inner.length ≤ tail.length := by
      rw [← start] at first ⊢
      exact length_dropWhile_append_le first apart
    intro e member
    obtain rfl := List.mem_singleton.mp member
    rw [strlcpy_str, List.length_take]
    omega

/-- The same for all pieces of the line together. -/
theorem readDevmap_inside (s : Settings) (line : Nat) (front tail rest : Str)
    (clean : ∀ c ∈ front ++ tail, c ∉ newlines ∧ c ≠ 0) (apart : 40 ∉ front) :
    ∃ s' line' added,
      readDevmap s line (front ++ tail ++ lf :: rest) = readDevmap s' line' rest ∧
      s'.grubDevmap = s.grubDevmap ++ added ∧ ∀ e ∈ added, e.device.str.length < tail.length := by
  -- on what is left of the line: a full buffer takes 1023 bytes of it, first of `front`
  induction length : (front ++ tail).length using Nat.strongRecOn generalizing front tail s line with
  | _ n ih =>
    subst length
    have no_lf : lf ∉ front ++ tail := fun member => (clean lf member).1 (by decide)
    have no_nul : 0 ∉ front ++ tail := fun member => (clean 0 member).2 rfl
    rw [readDevmap_piece s line _ (by simp)]
    by_cases fits : (front ++ tail).length < 1023
    · -- the rest of the line is read with its newline
      have no_nul : 0 ∉ front ++ tail ++ [lf] := by
        rw [List.mem_append, not_or]
        exact ⟨no_nul, by decide⟩
      rw [fgetsPiece_line 1023 _ rest no_lf fits, cstr_of_no_nul no_nul]
      obtain ⟨added, grown, short⟩ := devmapLine_inside s (line + 1) front tail [lf]
        (fun c member => (clean c member).1) (by simp [newlines]) apart
      exact ⟨_, _, added, rfl, grown, short⟩
    · -- the buffer is full, and the line goes on
      rw [fgetsPiece_cut 1023 _ rest no_lf (by omega),
        cstr_of_no_nul fun member => no_nul (List.mem_of_mem_take member), List.take_append,
        List.drop_append]
      obtain ⟨added, grown, short⟩ := devmapLine_inside s (line + 1) (front.take 1023)
        (tail.take (1023 - front.length)) []
        (fun c member => (clean c (List.mem_of_mem_take (by rwa [List.take_append]))).1) (by simp)
        fun member => apart (List.mem_of_mem_take member)
      rw [List.append_nil] at grown
      have shorter : (front.drop 1023 ++ tail.drop (1023 - front.length)).length <
          (front ++ tail).length := by
        rw [← List.drop_append, List.length_drop]
        omega
      obtain ⟨s', line', added', run, grown', short'⟩ := ih _ shorter _ (line + 1)
        (front.drop 1023) (tail.drop (1023 - front.length))
        (fun c member => clean c (List.mem_of_mem_drop (by rwa [List.drop_append])))
        (fun member => apart (List.mem_of_mem_drop member)) rfl
      refine ⟨s', line', added ++ added', run, ?_, fun e member => ?_⟩
      · rw [grown', grown, List.append_assoc]
      · obtain early | late := List.mem_append.mp member
        · exact Nat.lt_of_lt_of_le (short e early) (List.length_take_le' _ _)
        · exact Nat.lt_of_lt_of_le (short' e late) (by rw [List.length_drop]; exact Nat.sub_le _ _)

/-- A name of 1020 bytes or more leaves none for the disk: the first piece of the
line has no value, and the others are inside of it. -/
theorem readDevmap_overlong (s : Settings) (line : Nat) (name disk rest : Str) (gdev : KlGdev)
    (bare : name.head? ≠ some 40) (accepted : parseGdev name = some gdev) (ok : LineValue disk)
    (long : 1020 ≤ name.length) :
    ∃ s' line' added,
      readDevmap s line (deviceLine name disk ++ lf :: rest) = readDevmap s' line' rest ∧
      s'.grubDevmap = s.grubDevmap ++ added ∧ ∀ e ∈ added, e.device.str.length < disk.length := by
  have clean := deviceLine_bytes bare accepted ok
  obtain ⟨device, -⟩ := parseGdev_bare name gdev bare accepted
  have size : (deviceLine name disk).length = name.length + 3 + disk.length := by
    simp [deviceLine]
    omega
  have no_lf : lf ∉ deviceLine name disk := fun member => (clean lf member).1 (by decide)
  -- of what follows the name, the first piece holds at most the blank
  have first : (deviceLine name disk).take 1023 = 40 :: (name ++ [41]).take 1022 ++
      ([space].take (1021 - name.length) ++ []) := by
    have split : deviceLine name disk = 40 :: (name ++ [41]) ++ ([space] ++ disk) := by
      simp [deviceLine]
    rw [split, List.take_append, List.take_append_of_le_length (by simp; omega), List.append_nil]
    simp
  have left : (deviceLine name disk).drop 1023 = (name ++ [41, space]).drop 1022 ++ disk := by
    rw [deviceLine, List.drop_append_of_le_length (by simp; omega)]
    rfl
  have same : (devmapLine s (line + 1) ((deviceLine name disk).take 1023)).grubDevmap =
      s.grubDevmap := by
    obtain same | ⟨_, _, -, value⟩ :=
      devmapLine_cases s (line + 1) ((deviceLine name disk).take 1023)
    · exact same
    · have text : lineText ((deviceLine name disk).take 1023) = (deviceLine name disk).take 1023 := by
        have cut := @lineText_append ((deviceLine name disk).take 1023) []
          (fun c member => (clean c (List.mem_of_mem_take member)).1) (by simp)
        rw [List.append_nil] at cut
        rw [cut, first]
        exact List.dropWhile_cons_of_neg (by decide)
      have whole : ∀ c ∈ 40 :: (name ++ [41]).take 1022, c ∉ blanks := by
        intro c member
        obtain rfl | member := List.mem_cons.mp member
        · decide
        · obtain member | rfl : c ∈ name ∨ c = 41 := by
            simpa using List.mem_of_mem_take member
          · exact fun blank => (deviceByte_not_separator (device c member)).1 (by simp [blank])
          · decide
      have blank : Blank ([space].take (1021 - name.length)) := fun c member => by
        obtain rfl := List.mem_singleton.mp (List.mem_of_mem_take member)
        decide
      rw [text, first, nextValue_split _ _ [] whole (fun _ => rfl) blank (by simp)] at value
      exact absurd rfl value
  have no_nul : 0 ∉ (deviceLine name disk).take 1023 := fun member =>
    (clean 0 (List.mem_of_mem_take member)).2 rfl
  rw [readDevmap_piece s line _ (by simp), fgetsPiece_cut 1023 _ rest no_lf (by omega),
    cstr_of_no_nul no_nul, left, ← same]
  apply readDevmap_inside
  · intro c member
    rw [← left] at member
    exact clean c (List.mem_of_mem_drop member)
  · intro member
    obtain member | member : 40 ∈ name ∨ (40 : UInt8) ∈ [41, space] :=
      List.mem_append.mp (List.mem_of_mem_drop member)
    · exact (deviceByte_not_separator (device 40 member)).2.2.1 rfl
    · exact absurd member (by decide)

/-! ### Reading kexec-loader.conf -/

section
variable (fname : Str) (st : ConfState) (name val : Str)

/-- The first value of a line, once it is cut off, is one argument at most. -/
theorem countArgs_token : countArgs 2 (nextValue val).1 < 2 := by
  have whole : ∀ c ∈ (nextValue val).1, c ∉ blanks := by
    intro c member
    rw [nextValue_token] at member
    simpa using List.mem_takeWhile_imp member
  have ends : (nextValue val).1.drop (strcspn (nextValue val).1 blanks) = [] := by
    simpa using drop_strcspn_stop (t := []) whole (by simp)
  unfold countArgs
  split
  next => omega
  next => simp [ends, countArgs, strspn]

/-- The arguments are counted after the tokenizer has cut the line, so the
directive fails whatever its arguments are. -/
theorem confGrubMap_rejected :
    confGrubMap fname st name val = st.printD fname st.lnum
      (quoted name ++ (bytes " requires " ++ decimal 2 ++ bytes " arguments")) := by
  simp only [confGrubMap, cfgCheckArgs, countArgs_token val, if_true]
  rfl

theorem cfgCheckArgs_grubDevmap (n : Nat) (body : ConfState)
    (same : body.settings.grubDevmap = st.settings.grubDevmap) :
    (cfgCheckArgs fname n st name val body).settings.grubDevmap = st.settings.grubDevmap := by
  unfold cfgCheckArgs
  split
  · rfl
  · exact same

theorem cfgCheckTopen_grubDevmap (body : ConfState)
    (same : body.settings.grubDevmap = st.settings.grubDevmap) :
    (cfgCheckTopen fname st name body).settings.grubDevmap = st.settings.grubDevmap := by
  unfold cfgCheckTopen
  split
  · rfl
  · exact same

theorem ite_grubDevmap {condition : Prop} [Decidable condition] {a b : ConfState}
    {devmap : List KlGdev} (left : a.settings.grubDevmap = devmap)
    (right : b.settings.grubDevmap = devmap) :
    (if condition then a else b).settings.grubDevmap = devmap := by
  split
  · exact left
  · exact right

theorem cfgAddTarget_grubDevmap :
    (cfgAddTarget fname st).settings.grubDevmap = st.settings.grubDevmap := by
  unfold cfgAddTarget
  split_ifs <;> rfl

theorem confField_grubDevmap (set : KlTarget → Str → KlTarget) :
    (confField fname set st name val).settings.grubDevmap = st.settings.grubDevmap :=
  cfgCheckTopen_grubDevmap _ _ _ _ (cfgCheckArgs_grubDevmap _ _ _ _ _ _ rfl)

theorem confFlag_grubDevmap (flag : Nat) :
    (confFlag fname flag st name val).settings.grubDevmap = st.settings.grubDevmap :=
  cfgCheckTopen_grubDevmap _ _ _ _ rfl

theorem confTitle_grubDevmap :
    (confTitle fname st name val).settings.grubDevmap = st.settings.grubDevmap := by
  apply cfgCheckArgs_grubDevmap
  exact ite_grubDevmap (cfgAddTarget_grubDevmap fname st) rfl

/-- No directive adds to the device map, `grub-map` included. -/
theorem confDirective_grubDevmap :
    (confDirective fname st name val).settings.grubDevmap = st.settings.grubDevmap := by
  have field := confField_grubDevmap fname st name val
  have flag := confFlag_grubDevmap fname st name val
  have kmod : (confKmod fname st name val).settings.grubDevmap = st.settings.grubDevmap :=
    cfgCheckTopen_grubDevmap _ _ _ _ (cfgCheckArgs_grubDevmap _ _ _ _ _ _ rfl)
  refine ite_grubDevmap ?timeout <| ite_grubDevmap ?path <| ite_grubDevmap ?map <|
    ite_grubDevmap ?autodetect <| ite_grubDevmap (confTitle_grubDevmap fname st name val) <|
    ite_grubDevmap (field _) <| ite_grubDevmap (field _) <| ite_grubDevmap (field _) <|
    ite_grubDevmap (field _) <| ite_grubDevmap (field _) <| ite_grubDevmap (flag _) <|
    ite_grubDevmap (flag _) <| ite_grubDevmap (field _) <| ite_grubDevmap kmod rfl
  case timeout => exact cfgCheckArgs_grubDevmap _ _ _ _ _ _ rfl
  case path => exact cfgCheckArgs_grubDevmap _ _ _ _ _ _ (ite_grubDevmap rfl rfl)
  case map =>
    -- the one directive that would add an entry never gets to it
    rw [confGrubMap_rejected]
    rfl
  case autodetect =>
    exact cfgCheckArgs_grubDevmap _ _ _ _ _ _ (ite_grubDevmap rfl (ite_grubDevmap rfl rfl))

theorem confLine_grubDevmap (piece : Str) :
    (confLine fname st piece).settings.grubDevmap = st.settings.grubDevmap := by
  simp only [confLine]
  split
  next => rfl
  next => rw [confDirective_grubDevmap]

/-- No configuration file adds to the device map. -/
theorem loadConf_grubDevmap (s : Settings) (file : Except Str Str) :
    (loadConf fname s file).grubDevmap = s.grubDevmap := by
  -- on the lines that are left, from any state the file has reached
  have lines : ∀ (rest : List Str) (st : ConfState),
      (rest.foldl (confLine fname) st).settings.grubDevmap = st.settings.grubDevmap := by
    intro rest
    induction rest with
    | nil => exact fun _ => rfl
    | cons piece rest ih => exact fun st => (ih _).trans (confLine_grubDevmap fname st piece)
  unfold loadConf
  cases file with
  | error reason => rfl
  | ok content =>
    simp only
    split
    next => rw [cfgAddTarget_grubDevmap, lines]
    next => rw [lines]

end

/-! ### When a mapping takes effect -/

/-- The file a mapping stands in. -/
inductive MapSource where
  | grubMap
  | deviceMap
deriving DecidableEq

/-- The settings after reading a file whose first line maps the device. -/
def readMapping (fname : Str) (source : MapSource) (s : Settings) (name disk rest : Str) :
    Settings :=
  match source with
  | .grubMap =>
    loadConf fname s (.ok (bytes "grub-map " ++ name ++ [space] ++ disk ++ lf :: rest))
  | .deviceMap => loadDevmap s (.ok (deviceLine name disk ++ lf :: rest))

/-- The device resolves to the disk under both spellings, and a grub-map line
overrides what device.map says about it. -/
structure TakesEffect (fname : Str) (source : MapSource) (s : Settings) (name disk rest : Str) :
    Prop where
  plain : lookupGdev (readMapping fname source s name disk rest).grubDevmap name = some disk
  bracketed : lookupGdev (readMapping fname source s name disk rest).grubDevmap
    (40 :: (name ++ [41])) = some disk
  overrides : source = .grubMap → ∀ other rest', LineValue other →
    lookupGdev (loadDevmap (readMapping fname source s name disk rest)
      (.ok (deviceLine name other ++ lf :: rest'))).grubDevmap name = some disk

/-- The line is in device.map and fits its buffer, the disk fits the field of
an entry, and no earlier entry matches the device; an earlier match already
gives that disk otherwise. -/
def Effective (source : MapSource) (devmap : List KlGdev) (gdev : KlGdev) (name disk : Str) :
    Prop :=
  match devmap.find? (absoluteMatch gdev) with
  | some entry => entry.device.str = disk
  | none => source = .deviceMap ∧ disk.length ≤ 15 ∧ name.length + disk.length ≤ 1020

/-- An earlier entry that matches decides for both files. -/
theorem readMapping_first (fname : Str) (source : MapSource) (s : Settings)
    (name disk rest : Str) :
    ∃ added, (readMapping fname source s name disk rest).grubDevmap = s.grubDevmap ++ added := by
  cases source with
  | grubMap => exact ⟨[], by rw [readMapping, loadConf_grubDevmap, List.append_nil]⟩
  | deviceMap => exact devmapLoop_grows _ _ _

/-- The condition is enough for every line of either file. -/
theorem takesEffect_of_effective (fname : Str) (source : MapSource) (s : Settings)
    (name disk rest : Str) (gdev : KlGdev) (bare : name.head? ≠ some 40)
    (accepted : parseGdev name = some gdev) (ok : LineValue disk)
    (effective : Effective source s.grubDevmap gdev name disk) :
    TakesEffect fname source s name disk rest := by
  have bracketed := (parseGdev_bare name gdev bare accepted).2
  unfold Effective at effective
  split at effective
  next entry first =>
    -- the entry was there before the file and answers for every spelling
    obtain ⟨added, grown⟩ := readMapping_first fname source s name disk rest
    constructor
    · rw [grown, lookupGdev_first added accepted first, effective]
    · rw [grown, lookupGdev_first added bracketed first, effective]
    · intro _ other rest' _
      obtain ⟨more, later⟩ := devmapLoop_grows (readMapping fname source s name disk rest) 0
        ((pieces 1024 (deviceLine name other ++ lf :: rest')).map cstr)
      rw [loadDevmap, later, grown, List.append_assoc,
        lookupGdev_first (added ++ more) accepted first, effective]
  next unmapped =>
    obtain ⟨rfl, short, fits⟩ := effective
    -- neither the line buffer nor the field of the entry cuts the disk
    have some_disk := List.length_pos_iff.mpr ok.nonempty
    obtain ⟨added, grown⟩ := loadDevmap_device s name disk rest gdev bare accepted ok (by omega)
    have recorded : (strlcpy (disk.take (1020 - name.length)) : Buf 16).str = disk := by
      rw [List.take_of_length_le (by omega), strlcpy_str, List.take_of_length_le (by omega)]
    refine ⟨?_, ?_, by simp⟩
    · rw [readMapping, grown, lookupGdev_new _ added accepted unmapped, recorded]
    · rw [readMapping, grown, lookupGdev_new _ added bracketed unmapped, recorded]

theorem exists_other_value (disk : Str) : ∃ c : UInt8, LineValue [c] ∧ [c] ≠ disk := by
  have a : LineValue [97] := ⟨by simp, by decide, by decide, by decide⟩
  have b : LineValue [98] := ⟨by simp, by decide, by decide, by decide⟩
  by_cases same : [97] = disk
  · exact ⟨98, b, by rw [← same]; decide⟩
  · exact ⟨97, a, same⟩

/-- A line that leaves no room for the disk loses it: a later line for the same
device, spelled short, decides. -/
theorem overlong_line_lost (s : Settings) (name disk : Str) (gdev : KlGdev)
    (bare : name.head? ≠ some 40) (accepted : parseGdev name = some gdev) (ok : LineValue disk)
    (long : 1020 ≤ name.length) (unmapped : s.grubDevmap.find? (absoluteMatch gdev) = none) :
    ∃ rest, lookupGdev (loadDevmap s (.ok (deviceLine name disk ++ lf :: rest))).grubDevmap name ≠
      some disk := by
  obtain ⟨short, fits, short_bare, short_accepted⟩ := parseGdev_short name gdev bare accepted
  obtain ⟨c, other, differs⟩ := exists_other_value disk
  obtain ⟨s', line, added, run, grown, shorter⟩ := readDevmap_overlong s 0 name disk
    (deviceLine short [c] ++ lf :: []) gdev bare accepted ok long
  obtain ⟨more, found⟩ := readDevmap_device s' line short [c] [] gdev short_bare short_accepted
    other (by omega)
  have room_c : [c].take (1020 - short.length) = [c] :=
    List.take_of_length_le (by rw [List.length_singleton]; omega)
  have whole : (loadDevmap s (.ok (deviceLine name disk ++
      lf :: (deviceLine short [c] ++ lf :: [])))).grubDevmap =
        s.grubDevmap ++ added ++ { gdev with device := strlcpy [c] } :: more := by
    rw [room_c, ← run, grown] at found
    exact found
  refine ⟨deviceLine short [c] ++ lf :: [], ?_⟩
  rw [whole]
  cases matched : (s.grubDevmap ++ added).find? (absoluteMatch gdev) with
  | some entry =>
    -- an entry from inside the line has a shorter disk
    rw [lookupGdev_first _ accepted matched]
    rw [List.find?_append, unmapped, Option.none_or] at matched
    intro same
    have less := shorter entry (List.mem_of_find?_eq_some matched)
    rw [Option.some.inj same] at less
    exact Nat.lt_irrefl _ less
  | none =>
    rw [lookupGdev_new _ more accepted matched]
    exact fun same => differs (Option.some.inj same)

/-- For every name that leaves room for a byte of the disk in the line buffer,
the condition is also necessary. -/
theorem effective_of_takesEffect (fname : Str) (source : MapSource) (s : Settings)
    (name disk rest : Str) (gdev : KlGdev) (bare : name.head? ≠ some 40)
    (accepted : parseGdev name = some gdev) (ok : LineValue disk) (room : name.length < 1020)
    (effect : TakesEffect fname source s name disk rest) :
    Effective source s.grubDevmap gdev name disk := by
  unfold Effective
  split
  next entry first =>
    -- the entry answers, so it must hold the disk
    obtain ⟨added, grown⟩ := readMapping_first fname source s name disk rest
    have found := effect.plain
    rw [grown, lookupGdev_first added accepted first] at found
    exact Option.some.inj found
  next unmapped =>
    cases source with
    | grubMap =>
      -- a device.map line with another disk is not overridden
      obtain ⟨c, other, differs⟩ := exists_other_value disk
      have kept : (readMapping fname .grubMap s name disk rest).grubDevmap = s.grubDevmap :=
        loadConf_grubDevmap fname s _
      obtain ⟨added, grown⟩ := loadDevmap_device (readMapping fname .grubMap s name disk rest)
        name [c] [] gdev bare accepted other room
      have overridden := effect.overrides rfl [c] [] other
      rw [grown, kept, lookupGdev_new _ added accepted unmapped] at overridden
      have room_c : [c].take (1020 - name.length) = [c] := List.take_of_length_le (by simp; omega)
      rw [room_c] at overridden
      exact absurd (Option.some.inj overridden) differs
    | deviceMap =>
      -- the disk that is found was cut twice, and is as long as the whole of it
      obtain ⟨added, grown⟩ := loadDevmap_device s name disk rest gdev bare accepted ok room
      have found := effect.plain
      rw [readMapping, grown, lookupGdev_new _ added accepted unmapped, strlcpy_str,
        List.take_take] at found
      have whole := congrArg List.length (Option.some.inj found)
      rw [List.length_take] at whole
      exact ⟨rfl, by omega, by omega⟩

/-- For longer names it is necessary if the mapping is to take effect whatever
comes after the line. -/
theorem effective_of_overlong (fname : Str) (source : MapSource) (s : Settings)
    (name disk : Str) (gdev : KlGdev) (bare : name.head? ≠ some 40)
    (accepted : parseGdev name = some gdev) (ok : LineValue disk) (long : 1020 ≤ name.length)
    (effect : ∀ rest, TakesEffect fname source s name disk rest) :
    Effective source s.grubDevmap gdev name disk := by
  unfold Effective
  split
  next entry first =>
    obtain ⟨added, grown⟩ := readMapping_first fname source s name disk []
    have found := (effect []).plain
    rw [grown, lookupGdev_first added accepted first] at found
    exact Option.some.inj found
  next unmapped =>
    cases source with
    | grubMap =>
      -- the same line in device.map would have to agree with the one before it
      have kept : (readMapping fname .grubMap s name disk []).grubDevmap = s.grubDevmap :=
        loadConf_grubDevmap fname s _
      obtain ⟨rest, lost⟩ := overlong_line_lost (readMapping fname .grubMap s name disk []) name
        disk gdev bare accepted ok long (by rw [kept, unmapped])
      exact absurd ((effect []).overrides rfl disk rest ok) lost
    | deviceMap =>
      obtain ⟨rest, lost⟩ := overlong_line_lost s name disk gdev bare accepted ok long unmapped
      exact absurd (effect rest).plain lost

/-- Whatever follows its line, a mapping takes effect exactly if it stands in
device.map, its disk has at most 15 bytes, its line at most 1023, and no earlier
entry matches the device (or the first that does has the same disk). -/
theorem takesEffect_iff (fname : Str) (source : MapSource) (s : Settings) (name disk : Str)
    (gdev : KlGdev) (bare : name.head? ≠ some 40) (accepted : parseGdev name = some gdev)
    (ok : LineValue disk) :
    (∀ rest, TakesEffect fname source s name disk rest) ↔
      Effective source s.grubDevmap gdev name disk := by
  constructor
  · intro effect
    by_cases room : name.length < 1020
    · exact effective_of_takesEffect fname source s name disk [] gdev bare accepted ok room
        (effect [])
    · exact effective_of_overlong fname source s name disk gdev bare accepted ok (by omega) effect
  · intro effective rest
    exact takesEffect_of_effective fname source s name disk rest gdev bare accepted ok effective

/-- `(hd0,1) sda2` in a device.map. -/
theorem takesEffect_partition :
    TakesEffect [] .deviceMap initSettings (bytes "hd0,1") (bytes "sda2") [] :=
  (takesEffect_iff [] .deviceMap initSettings (bytes "hd0,1") (bytes "sda2")
    ⟨strlcpy (bytes "hd"), strlcpy (bytes "0"), strlcpy (bytes "1"), default, default⟩
    (by decide) (by decide) ⟨by decide, by decide, by decide, by decide⟩).mpr
    (by
      show _ = _ ∧ _
      decide) []

/-- `grub-map hd0 sda` leaves the device unknown. -/
theorem grubMap_ineffective :
    ¬ ∀ (fname : Str) (source : MapSource) (s : Settings) (name disk rest : Str) (gdev : KlGdev),
      name.head? ≠ some 40 → parseGdev name = some gdev → LineValue disk →
      (∀ entry ∈ s.grubDevmap, (entry.type, entry.p1, entry.p2, entry.p3) ≠
        (gdev.type, gdev.p1, gdev.p2, gdev.p3)) →
      TakesEffect fname source s name disk rest := by
  intro claim
  have effect := claim [] .grubMap initSettings (bytes "hd0") (bytes "sda") []
    ⟨strlcpy (bytes "hd"), strlcpy (bytes "0"), default, default, default⟩
    (by decide) (by decide) ⟨by decide, by decide, by decide, by decide⟩ (by simp [initSettings])
  exact absurd effect.plain (by decide)

end KexecLoader
