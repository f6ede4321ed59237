import KexecLoader.BracketDevice

/-!
# File calls on translated paths

Every call of vfs.c translates its path and then asks the system for the real one. A path
below one that was translated names the file below the real path, and nothing is mounted
for it any more.
-/
namespace KexecLoader

/-- What the system answers while one path is translated. -/
structure VfsAccess where
  os : DiskOs
  mount : MountCall
  /-- What lies behind `disk_buf`. -/
  stack : Str

/-- The system under vfs.c. -/
structure VfsHost where
  /-- At the n-th translation of a path. -/
  access : Nat → VfsAccess
  /-- The names `readdir` returns of a real path, one after the other. -/
  opendir : Str → Except Nat (List Str)
  /-- The `st_mode` of a real path. -/
  stat : Str → Except Nat Nat
  lstat : Str → Except Nat Nat
  /-- What can be read of a real path. -/
  fopen : Str → Except Nat Str
  /-- The error that reading it ends with, if it does. -/
  ferror : Str → Option Nat
  strerror : Nat → Str

structure VfsState where
  vfs : Vfs
  translations : Nat
  /-- The real paths the system was asked for. -/
  asked : List Str
  printed : Str

def VfsState.print (st : VfsState) (text : Str) : VfsState := { st with printed := st.printed ++ text }

section
variable (host : VfsHost)

/-- `vfs_translate_path`, with what the system answers by now. -/
def VfsHost.translate (st : VfsState) (path : Str) : Outcome HeapStr × Vfs :=
  let now := host.access st.translations
  vfsTranslatePath now.os now.mount st.vfs now.stack path

/-- What all calls of vfs.c do. -/
def vfsCall {α : Type} (call : Str → Except Nat α) (st : VfsState) (path : Str) :
    Except Stuck (Except Nat α × VfsState) :=
  match host.translate st path with
  | (.crash, _) => .error .crash
  | (.fail errno, vfs) => .ok (.error errno, { st with vfs := vfs, translations := st.translations + 1 })
  | (.ok real, vfs) =>
    .ok (call real.str, { st with
      vfs := vfs, translations := st.translations + 1, asked := st.asked ++ [real.str] })

def vfsOpendir := vfsCall host host.opendir

def vfsStat := vfsCall host host.stat

def vfsLstat := vfsCall host host.lstat

def vfsFopen := vfsCall host host.fopen

end

/-! ### A path below a translated one -/

theorem takeWhile_stops {p : UInt8 → Bool} {s : Str} (t : Str) {c : UInt8} (member : c ∈ s)
    (stop : p c = false) : (s ++ t).takeWhile p = s.takeWhile p := by
  rw [List.takeWhile_append, if_neg]
  intro whole
  have all := List.mem_takeWhile_imp ((List.takeWhile_prefix p).eq_of_length whole ▸ member)
  rw [stop] at all
  cases all

theorem strchr_longer {s : Str} {c : UInt8} {rest : Str} (found : strchr s c = some rest) (more : Str) :
    strchr (s ++ more) c = some (rest ++ more) := by
  unfold strchr at found ⊢
  rw [List.dropWhile_append]
  generalize s.dropWhile (fun d => decide (d ≠ c)) = left at found ⊢
  cases left with
  | nil => cases found
  | cons a tail =>
    obtain rfl := Option.some.inj found
    rfl

/-- A path with a device between brackets has the closing one where `disk_buf` ends. -/
def DeviceFits (path : Str) : Prop := path.head? = some 40 → 41 ∈ path.take 33

theorem DeviceFits.longer {path : Str} (fits : DeviceFits path) (name : Str) :
    DeviceFits (path ++ slash :: name) := by
  intro opens
  cases path with
  | nil => simp [slash] at opens
  | cons c path =>
    have inside := fits (by simpa using opens)
    rw [List.take_append]
    exact List.mem_append_left _ inside

theorem bracketDevice_longer {path : Str} (inside : 41 ∈ (path.drop 1).take 32)
    (stack stack' more : Str) : bracketDevice stack' (path ++ more) = bracketDevice stack path := by
  have size : 1 ≤ path.length := by
    by_contra short
    have empty : path = [] := List.eq_nil_of_length_eq_zero (by omega)
    simp [empty] at inside
  have stop : decide ((41 : UInt8) ≠ 41 ∧ (41 : UInt8) ≠ 0) = false := by decide
  simp only [bracketDevice]
  rw [List.drop_append_of_le_length size, List.take_append, List.append_assoc, List.append_assoc,
    List.append_assoc, takeWhile_stops _ inside stop, takeWhile_stops _ inside stop]

theorem splitDevice_longer {vfs : Vfs} {stack path : Str} {device : Option Str} {rest : Str}
    (fits : DeviceFits path) (split : splitDevice vfs stack path = .ok (device, rest)) (stack' : Str)
    {more : Str} (no_bracket : more.head? ≠ some 40) :
    splitDevice vfs stack' (path ++ more) = .ok (device, rest ++ more) := by
  rcases path with _ | ⟨c, path⟩
  · have plain : splitDevice vfs stack' more = .ok (vfs.root, more) := by
      unfold splitDevice
      split
      · simp at no_bracket
      · rfl
    simp only [splitDevice, Outcome.ok.injEq, Prod.mk.injEq] at split
    obtain ⟨rfl, rfl⟩ := split
    exact plain
  · by_cases opens : c = 40
    · subst opens
      -- the bracket closes in what strncpy copies, so that the stack does not matter
      have inside : 41 ∈ ((40 :: path).drop 1).take 32 := by
        simpa using fits rfl
      simp only [splitDevice] at split
      cases found : strchr (40 :: path) 41 with
      | none => simp [found] at split
      | some tail =>
        simp only [found, Outcome.ok.injEq, Prod.mk.injEq] at split
        obtain ⟨rfl, rfl⟩ := split
        have longer := strchr_longer found more
        have same := bracketDevice_longer inside stack stack' more
        rw [List.cons_append] at longer same ⊢
        have size : 1 ≤ tail.length := by
          unfold strchr at found
          generalize (40 :: path).dropWhile (fun d => decide (d ≠ 41)) = left at found
          cases left with
          | nil => cases found
          | cons a left =>
            obtain rfl := Option.some.inj found
            exact Nat.succ_pos _
        simp only [splitDevice, longer, same, List.drop_append_of_le_length size]
    · have plain : ∀ tail stack, splitDevice vfs stack (c :: tail) = .ok (vfs.root, c :: tail) := by
        intro tail stack
        unfold splitDevice
        split
        next same =>
          obtain ⟨rfl, -⟩ := List.cons.inj same
          exact absurd rfl opens
        · rfl
      rw [plain, Outcome.ok.injEq, Prod.mk.injEq] at split
      obtain ⟨rfl, rfl⟩ := split
      exact plain _ _

/-- What `readdir` can return beside `.` and `..`. -/
structure FileName (name : Str) : Prop where
  nonempty : name ≠ []
  plain : slash ∉ name
  no_nul : 0 ∉ name
  not_up : name ≠ dotdot
  not_here : name ≠ dot

instance (name : Str) : Decidable (FileName name) :=
  decidable_of_iff (name ≠ [] ∧ slash ∉ name ∧ 0 ∉ name ∧ name ≠ dotdot ∧ name ≠ dot)
    ⟨fun ⟨a, b, c, d, e⟩ => ⟨a, b, c, d, e⟩, fun ⟨a, b, c, d, e⟩ => ⟨a, b, c, d, e⟩⟩

theorem remaining_longer (path : Str) {name : Str} (file : FileName name) :
    remaining (path ++ slash :: name) = remaining path ++ [name] := by
  rw [remaining, pathComponents_slash, pathComponents_plain name file.plain, if_neg file.nonempty,
    PathStack.resolve, PathStack.resolveFrom, List.foldl_append]
  exact PathStack.resolveFrom_of_not_mem dotdot (by simpa using Ne.symm file.not_up)

theorem buildPath_longer {diskR jail path : Str} {real : HeapStr}
    (built : buildPath diskR jail path = some real) {name : Str} (file : FileName name) :
    ∃ real', buildPath diskR jail (path ++ slash :: name) = some real' ∧
      real'.str = real.str ++ slash :: name := by
  obtain ⟨first, run, -, str, -⟩ := buildPath_spec diskR jail path
  obtain rfl : first = real := Option.some.inj (run.symm.trans built)
  obtain ⟨real', run', -, str', -⟩ := buildPath_spec diskR jail (path ++ slash :: name)
  refine ⟨real', run', ?_⟩
  rw [str', str, remaining_longer path file, render_append, render_singleton]
  simp only [List.append_assoc]

/-- The directory of a device stays the one it was mounted at. -/
theorem diskRoot_again {os : DiskOs} {mount : MountCall} {mounts after : List KlDisk} {name root : Str}
    (ran : diskRoot os mount mounts name = (.ok root, after)) (os' : DiskOs) (mount' : MountCall) :
    diskRoot os' mount' after name = (.ok root, after) := by
  unfold diskRoot at ran ⊢
  split
  next rootfs =>
    rw [if_pos rootfs, Prod.mk.injEq, Outcome.ok.injEq] at ran
    rw [ran.1]
  next other =>
    rw [if_neg other] at ran
    cases call : mountById os [] mount mounts name 0 with
    | mk result list =>
      cases result with
      | fail errno => simp [call] at ran
      | crash => simp [call] at ran
      | ok disk =>
        simp only [call, Prod.mk.injEq] at ran
        obtain ⟨root, rfl⟩ := ran
        -- the first loop of `mount_by_id` finds the entry of the first call
        simp only [mountById, mountById_finds call, root]

/-- Once a path is translated, a name below it is found below the real path, and nothing
is mounted for it. -/
theorem vfsTranslatePath_longer {os : DiskOs} {mount : MountCall} {vfs after : Vfs} {stack path : Str}
    {real : HeapStr} (fits : DeviceFits path)
    (ran : vfsTranslatePath os mount vfs stack path = (.ok real, after)) (now : VfsAccess) {name : Str}
    (file : FileName name) :
    ∃ real', vfsTranslatePath now.os now.mount after now.stack (path ++ slash :: name) = (.ok real', after) ∧
      real'.str = real.str ++ slash :: name := by
  have no_bracket : (slash :: name).head? ≠ some 40 := by simp [slash]
  unfold vfsTranslatePath at ran
  rcases split : splitDevice vfs stack path with ⟨device, rest⟩ | errno | _
  · rcases device with _ | _ | ⟨c, more⟩
    · simp [split] at ran
    · simp [split] at ran
    simp only [split] at ran
    split at ran
    next debug =>
      obtain ⟨same, rfl⟩ := Prod.mk.inj ran
      obtain rfl := Outcome.ok.inj same
      have chosen := splitDevice_longer fits split now.stack no_bracket
      exact ⟨HeapStr.create ((rest ++ slash :: name).length + 1) (rest ++ slash :: name),
        by simp only [vfsTranslatePath, chosen, debug, if_true], rfl⟩
    next other =>
      rcases root : diskRoot os mount vfs.mounts (deviceName (c :: more)) with ⟨diskR | errno | _, mounts⟩
      · cases built : buildPath diskR (jailFor vfs (c :: more)) rest with
        | none => simp [root, built] at ran
        | some path' =>
          simp only [root, built, Prod.mk.injEq, Outcome.ok.injEq] at ran
          obtain ⟨rfl, rfl⟩ := ran
          -- neither the device nor the jail hang on what is mounted
          have chosen : splitDevice { vfs with mounts := mounts } now.stack (path ++ slash :: name) =
              .ok (some (c :: more), rest ++ slash :: name) :=
            splitDevice_longer fits split now.stack no_bracket
          have again := diskRoot_again root now.os now.mount
          obtain ⟨real', longer, str⟩ := buildPath_longer built file
          have jail : jailFor { vfs with mounts := mounts } (c :: more) = jailFor vfs (c :: more) := rfl
          refine ⟨real', ?_, str⟩
          simp only [vfsTranslatePath, chosen, other, again, jail, longer, if_false, Bool.false_eq_true]
      · simp [root] at ran
      · simp [root] at ran
  · simp [split] at ran
  · simp [split] at ran

/-- The path stands for the real one from now on, whatever the system answers. -/
def Leads (vfs : Vfs) (path real : Str) : Prop :=
  DeviceFits path ∧ ∀ now : VfsAccess, ∃ str,
    vfsTranslatePath now.os now.mount vfs now.stack path = (.ok str, vfs) ∧ str.str = real

theorem leads_longer {os : DiskOs} {mount : MountCall} {vfs after : Vfs} {stack path : Str} {real : HeapStr}
    (fits : DeviceFits path) (ran : vfsTranslatePath os mount vfs stack path = (.ok real, after)) {name : Str}
    (file : FileName name) : Leads after (path ++ slash :: name) (real.str ++ slash :: name) :=
  ⟨fits.longer name, fun now => vfsTranslatePath_longer fits ran now file⟩

theorem Leads.longer {vfs : Vfs} {path real : Str} (leads : Leads vfs path real) {name : Str}
    (file : FileName name) : Leads vfs (path ++ slash :: name) (real ++ slash :: name) := by
  refine ⟨leads.1.longer name, fun now => ?_⟩
  obtain ⟨str, ran, rfl⟩ := leads.2 now
  exact vfsTranslatePath_longer leads.1 ran now file

/-- The system was asked for a real path. -/
def VfsState.ask (st : VfsState) (real : Str) : VfsState :=
  { st with translations := st.translations + 1, asked := st.asked ++ [real] }

section
variable {host : VfsHost} {st : VfsState} {path : Str} {α : Type} (call : Str → Except Nat α)

/-- The first call on a path, which mounts its device where it has to. -/
theorem vfsCall_ok {real : HeapStr} {after : Vfs} (ran : host.translate st path = (.ok real, after)) :
    vfsCall host call st path = .ok (call real.str, { st with vfs := after }.ask real.str) := by
  simp only [vfsCall, ran]
  rfl

theorem vfsCall_leads {real : Str} (leads : Leads st.vfs path real) :
    vfsCall host call st path = .ok (call real, st.ask real) := by
  obtain ⟨str, ran, rfl⟩ := leads.2 (host.access st.translations)
  exact vfsCall_ok call ran

end

end KexecLoader
