import KexecLoader.TarFidelity

/-!
# Which bytes are the name of an entry

The name field of a header is as wide as the longest name, so that the writer of
an archive need not terminate it, but the extractor takes it for a string. The
name it uses is the one of the field exactly if the field or the byte behind it
holds a NUL; an empty name has no last byte, and the byte in front of the header
is read in its place.
-/
namespace KexecLoader

/-- The name in a header: its field up to the first NUL, or all of it. -/
def fieldName (header : Str) : Str := cstr (header.take nameSize)

/-- `sizeof(path)`. -/
def pathSize : Nat := 256

/-- `strlen(header.name) - 1`, where the byte lies that may be a slash. -/
def lastIndex (stack : Stack) (header : Str) : Int := (headerStr stack header 0).length - 1

/-- What a header brings about under a given name. -/
def namedMember (tarName entry : Str) (stack : Stack) (header : Str) (handle : Handle) (os : Os) :
    Except Ended (Handle × Os) :=
  if entry.getLast? = some slash ∨ header[linkflagOffset]? = some 49 then .ok (handle, os)
  else
    let path := modulesDir ++ slash :: entry
    match if slash ∈ entry then tarMkdirs path os else (true, os) with
    | (false, os) => .error ⟨0, some handle, false, os⟩
    | (true, os) =>
      extractFile tarName path (strtoul 8 (headerStr stack header sizeOffset)) handle os

/-- The name of the field is the one that is used, and nothing else is read for it. -/
structure NameExact (stack : Stack) (header : Str) : Prop where
  name : headerStr stack header 0 = fieldName header
  inside : 0 ≤ lastIndex stack header ∧ lastIndex stack header < nameSize
  path : entryPath modulesDir (headerStr stack header 0) = modulesDir ++ slash :: fieldName header
  fits : (entryPath modulesDir (headerStr stack header 0)).length < pathSize
  used : ∀ tarName handle os, extractMember tarName modulesDir stack header handle os =
    namedMember tarName (fieldName header) stack header handle os

theorem fieldName_le (header : Str) : (fieldName header).length ≤ nameSize :=
  (length_cstr_le _).trans (List.length_take_le _ _)

theorem fieldName_eq_nil {header : Str} (nonempty : header ≠ []) :
    fieldName header = [] ↔ header.head? = some 0 := by
  obtain ⟨c, rest, rfl⟩ := List.exists_cons_of_ne_nil nonempty
  by_cases zero : c = 0 <;> simp [fieldName, cstr, nameSize, zero]

/-- The string of a header is its name exactly if it is over by the byte behind
the field. -/
theorem headerStr_eq_fieldName (stack : Stack) {header : Str}
    (length : header.length = headerSize) :
    headerStr stack header 0 = fieldName header ↔ 0 ∈ header.take (nameSize + 1) := by
  have split : header.drop 0 ++ stack.behind =
      header.take nameSize ++ (header.drop nameSize ++ stack.behind) := by
    rw [← List.append_assoc, List.take_append_drop, List.drop_zero]
  obtain ⟨c, after, next, one_more⟩ : ∃ c after, header.drop nameSize = c :: after ∧
      header.take (nameSize + 1) = header.take nameSize ++ [c] := by
    have long : nameSize < header.length := by rw [length]; decide
    exact ⟨_, _, List.drop_eq_getElem_cons long, List.take_succ_eq_append_getElem long⟩
  rw [headerStr, fieldName, split, one_more, List.mem_append, List.mem_singleton]
  by_cases terminated : 0 ∈ header.take nameSize
  · simp [cstr_terminated _ terminated, terminated]
  · -- the string is longer than the field by what stands in front of the next NUL
    rw [cstr_append _ terminated, cstr_of_no_nul terminated, List.append_right_eq_self, next,
      or_iff_right terminated]
    by_cases zero : c = 0
    · simp [zero]
    · simp [cstr, zero, Ne.symm zero]

/-- The name of an entry is read correctly exactly if it is not empty and ends in
its field, or at a NUL right behind it. -/
theorem nameExact_iff (stack : Stack) {header : Str} (length : header.length = headerSize) :
    NameExact stack header ↔ header.head? ≠ some 0 ∧ 0 ∈ header.take (nameSize + 1) := by
  have nonempty : header ≠ [] := List.ne_nil_of_length_pos (by rw [length]; decide)
  constructor
  · -- an empty name has no last byte to look at
    intro exact
    refine ⟨fun empty => ?_, (headerStr_eq_fieldName stack length).mp exact.name⟩
    have first := exact.inside.1
    rw [lastIndex, exact.name, (fieldName_eq_nil nonempty).mpr empty] at first
    simp at first
  · intro ⟨some_name, ends⟩
    have name := (headerStr_eq_fieldName stack length).mpr ends
    have short := fieldName_le header
    have named : fieldName header ≠ [] := fun empty =>
      some_name ((fieldName_eq_nil nonempty).mp empty)
    have pos := List.length_pos_iff.mpr named
    have path : entryPath modulesDir (fieldName header) =
        modulesDir ++ slash :: fieldName header := by
      have whole : (fieldName header).take 256 = fieldName header :=
        List.take_of_length_le (short.trans (by decide))
      rw [entryPath, whole]
      rfl
    constructor
    · exact name
    · rw [lastIndex, name]
      omega
    · rw [name, path]
    · rw [name, path]
      simp only [List.length_append, List.length_cons, pathSize, nameSize] at short ⊢
      have : modulesDir.length = 9 := by decide
      omega
    · intro tarName handle os
      have last : lastOfName stack (fieldName header) = slash ↔
          (fieldName header).getLast? = some slash := by
        rw [lastOfName, List.getLast?_eq_some_getLast named, Option.getD_some, Option.some_inj]
      simp only [extractMember, namedMember, name, path, last]
      generalize (if slash ∈ fieldName header then
        tarMkdirs (modulesDir ++ slash :: fieldName header) os else (true, os)) = made
      obtain ⟨_ | _, os'⟩ := made <;> simp only [ite_or]

/-- A name field that is used as it stands. -/
theorem nameExact_written :
    NameExact ⟨slash, bytes "behind"⟩ (writeHeader (bytes "d/x") 48 3) :=
  (nameExact_iff _ (by decide +kernel)).mpr (by decide +kernel)

/-- A header without a NUL. -/
def unterminated : Str := List.replicate 148 100 ++ (bytes "142740  " ++ List.replicate 356 100)

/-- The mode of a file is taken for the end of its name, a header without a NUL
overruns the path, and for an empty name the byte in front of the header decides
whether its file is extracted. -/
theorem names_misread :
    let stack : Stack := ⟨slash, []⟩
    let unnamed := writeHeader [] 48 0
    (wideDirectory.length = headerSize ∧ testChecksum stack wideDirectory = true ∧
      headerStr stack wideDirectory 0 = fieldName wideDirectory ++ bytes "0000755" ∧
      ¬ NameExact stack wideDirectory) ∧
    (unterminated.length = headerSize ∧ testChecksum stack unterminated = true ∧
      pathSize < (entryPath modulesDir (headerStr stack unterminated 0)).length) ∧
    unnamed.length = headerSize ∧ testChecksum stack unnamed = true ∧
      lastIndex stack unnamed = -1 ∧
      lastOfName stack (headerStr stack unnamed 0) = slash := by
  have runs_on : headerStr ⟨slash, []⟩ wideDirectory 0 = fieldName wideDirectory ++ bytes "0000755" := by
    decide +kernel
  refine ⟨⟨by decide +kernel, by decide +kernel, runs_on, fun exact => ?_⟩, ?_⟩
  · have name := exact.name
    rw [runs_on] at name
    simp [bytes] at name
  · decide +kernel

end KexecLoader
