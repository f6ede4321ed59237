import KexecLoader.VfsContainment

/-!
# What file a translated path names

A path is resolved by its text: an empty component and `.` stay where they are, `..`
goes up and not beyond the start, any other name goes to a child. `append_path` counts
a `.` as a child that a later `..` takes back.
-/
namespace KexecLoader

/-- The children a path leads through from its starting directory. -/
def lexical (path : Str) : List Str := PathStack.resolve dotdot ((pathComponents path).filter (· ≠ dot))

/-- No `..` is used up by a `.` while a name in front waits to be taken back. -/
def DotsApart (path : Str) : Prop := PathStack.Steady dotdot dot (pathComponents path)

theorem dot_ne_dotdot : dot ≠ dotdot := by decide

theorem remaining_names_iff (path : Str) :
    (remaining path).filter (· ≠ dot) = lexical path ↔ DotsApart path := by
  rw [remaining, lexical, PathStack.resolve_kept, PathStack.resolve_kept]
  exact PathStack.kept_filter_iff dotdot dot_ne_dotdot _

/-- At worst too many names stay. -/
theorem lexical_sublist (path : Str) : (lexical path).Sublist ((remaining path).filter (· ≠ dot)) := by
  rw [remaining, lexical, PathStack.resolve_kept, PathStack.resolve_kept]
  exact PathStack.kept_filter_sublist dotdot dot_ne_dotdot _

/-- Two parts of a path are both right when the whole is. -/
theorem remaining_names_append (jail path : Str) :
    (remaining jail ++ remaining path).filter (· ≠ dot) = lexical jail ++ lexical path ↔
      DotsApart jail ∧ DotsApart path := by
  rw [List.filter_append, ← remaining_names_iff, ← remaining_names_iff]
  constructor
  · intro same
    have lengths := congrArg List.length same
    rw [List.length_append, List.length_append] at lengths
    have first := (lexical_sublist jail).length_le
    have second := (lexical_sublist path).length_le
    exact List.append_inj same (by omega)
  · rintro ⟨first, second⟩
    rw [first, second]

/-! ### Reading the translated path -/

theorem pathComponents_render (front : Str) (components : List Str)
    (good : ∀ c ∈ components, c ≠ [] ∧ slash ∉ c) :
    pathComponents (front ++ render components) = pathComponents front ++ components := by
  induction components generalizing front with
  | nil => rw [render_nil, List.append_nil, List.append_nil]
  | cons c components ih =>
    obtain ⟨nonempty, plain⟩ := good c List.mem_cons_self
    have text : front ++ render (c :: components) = (front ++ slash :: c) ++ render components := by
      simp [render]
    rw [text, ih _ fun d member => good d (List.mem_cons_of_mem _ member), pathComponents_slash,
      pathComponents_plain c plain, if_neg nonempty, List.append_assoc]
    rfl

theorem lexical_render (front : Str) (components : List Str)
    (good : ∀ c ∈ components, c ≠ [] ∧ slash ∉ c ∧ c ≠ dotdot) :
    lexical (front ++ render components) = lexical front ++ components.filter (· ≠ dot) := by
  have no_up : dotdot ∉ components.filter (· ≠ dot) := fun member =>
    (good dotdot (List.mem_of_mem_filter member)).2.2 rfl
  rw [lexical, pathComponents_render front components fun c member => ⟨(good c member).1, (good c member).2.1⟩,
    List.filter_append, PathStack.resolve, PathStack.resolveFrom, List.foldl_append]
  exact PathStack.resolveFrom_of_not_mem dotdot no_up

/-- What `append_path` appends names the right children exactly when no `.` gets in
the way of a `..`. -/
theorem appendPath_names (path : HeapStr) (pathIn : Str) :
    ∃ out components, appendPath path pathIn = some out ∧ out.str = path.str ++ render components ∧
      (∀ c ∈ components, c ≠ [] ∧ slash ∉ c ∧ c ≠ dotdot) ∧
        (components.filter (· ≠ dot) = lexical pathIn ↔ DotsApart pathIn) := by
  obtain ⟨out, run, appended⟩ := appendPath_spec path pathIn
  exact ⟨out, remaining pathIn, run, appended.str, fun c => remaining_good, remaining_names_iff pathIn⟩

/-- A translated path names the file below the root of the device that the jail and
the path name there. -/
theorem buildPath_names (diskR jail pathIn : Str) :
    ∃ real, buildPath diskR jail pathIn = some real ∧
      (lexical real.str = lexical diskR ++ lexical jail ++ lexical pathIn ↔
        DotsApart jail ∧ DotsApart pathIn) := by
  obtain ⟨real, run, -, str, -⟩ := buildPath_spec diskR jail pathIn
  refine ⟨real, run, ?_⟩
  have good : ∀ c ∈ remaining jail ++ remaining pathIn, c ≠ [] ∧ slash ∉ c ∧ c ≠ dotdot := by
    intro c member
    rcases List.mem_append.mp member with in_jail | in_path
    · exact remaining_good in_jail
    · exact remaining_good in_path
  rw [str, List.append_assoc, ← render_append, lexical_render diskR _ good, List.append_assoc,
    List.append_cancel_left_eq]
  exact remaining_names_append jail pathIn

/-- Path resolution: what is appended, and the file a translated path names. -/
theorem resolution_lexical (os : DiskOs) (mount : MountCall) (vfs : Vfs) (stack pathIn device rest : Str)
    (real : HeapStr) (chosen : splitDevice vfs stack pathIn = .ok (some device, rest))
    (not_debug : deviceName device ≠ bytes "debug")
    (succeeds : (vfsTranslatePath os mount vfs stack pathIn).1 = .ok real) :
    (∀ path pathIn, ∃ out components, appendPath path pathIn = some out ∧
      out.str = path.str ++ render components ∧ (∀ c ∈ components, c ≠ [] ∧ slash ∉ c ∧ c ≠ dotdot) ∧
        (components.filter (· ≠ dot) = lexical pathIn ↔ DotsApart pathIn)) ∧
    ∃ root, (diskRoot os mount vfs.mounts (deviceName device)).1 = .ok root ∧
      (lexical real.str = lexical root ++ lexical (jailFor vfs device) ++ lexical rest ↔
        DotsApart (jailFor vfs device) ∧ DotsApart rest) := by
  refine ⟨appendPath_names, ?_⟩
  obtain ⟨root, mounted, built⟩ := vfsTranslatePath_built chosen not_debug succeeds
  obtain ⟨out, run, names⟩ := buildPath_names root (jailFor vfs device) rest
  obtain rfl : out = real := Option.some.inj (run.symm.trans built)
  exact ⟨root, mounted, names⟩

theorem resolution_lexical_up :
    (∀ path pathIn, ∃ out components, appendPath path pathIn = some out ∧
      out.str = path.str ++ render components ∧ (∀ c ∈ components, c ≠ [] ∧ slash ∉ c ∧ c ≠ dotdot) ∧
        (components.filter (· ≠ dot) = lexical pathIn ↔ DotsApart pathIn)) ∧
    ∃ root, (diskRoot ⟨none, fun _ => false, fun _ _ => none, fun _ => []⟩ (fun _ _ _ => none) []
        (deviceName (bytes "rootfs"))).1 = .ok root ∧
      (lexical (bytes "//b") =
          lexical root ++ lexical (jailFor ⟨none, none, []⟩ (bytes "rootfs")) ++ lexical (bytes "a/../b") ↔
        DotsApart (jailFor ⟨none, none, []⟩ (bytes "rootfs")) ∧ DotsApart (bytes "a/../b")) :=
  resolution_lexical _ _ ⟨none, none, []⟩ [] (bytes "(rootfs)a/../b") _ _
    ⟨10, bytes "//b", [bytes "//b", bytes "//", bytes "/", bytes "//a", bytes "//", bytes "/"]⟩
    (by decide) (by decide) (by decide)

/-- A `..` behind a `.` takes the `.` back, and the directory stays. -/
theorem appendPath_dot_up : appendPath ⟨9, [], []⟩ (bytes "a/./..") =
      some ⟨9, bytes "/a", [bytes "/a", bytes "/a/.", bytes "/a/", bytes "/a", bytes "/"]⟩ ∧
    lexical (bytes "a/./..") = [] := by decide

end KexecLoader
