import KexecLoader.MountById
import Mathlib.Data.List.Induction

/-!
# The table of mounted disks over a whole session

Beside the list the state keeps every call of `mount(2)` with what it answered. No
device stands twice in the list, and every entry has a call that went well.
-/
namespace KexecLoader

/-- A call of `mount(2)` and its answer. -/
structure MountAttempt where
  dev : Str
  point : Str
  fstype : Str
  answer : Option Nat
deriving DecidableEq

/-- The call put the device at its place, or found it in use. -/
structure MountAttempt.Serves (attempt : MountAttempt) (disk : KlDisk) : Prop where
  dev : attempt.dev = devPath disk.name.str
  point : attempt.point = mountPoint disk.name.str
  fstype : attempt.fstype = disk.fstype.str
  answer : attempt.answer = none ∨ attempt.answer = some EBUSY

/-- The call `mount_disk` makes. -/
def mountDiskAttempts (mount : MountCall) (mounts : List KlDisk) (disk : KlDisk) : List MountAttempt :=
  if mounts.any fun m => klStreq disk.name.str m.name.str then []
  else
    let dev := devPath disk.name.str
    let point := mountPoint disk.name.str
    [⟨dev, point, disk.fstype.str, mount dev point disk.fstype.str⟩]

/-- The call `mount_by_id` makes. -/
def mountByIdAttempts (os : DiskOs) (later : List DiskOs) (mount : MountCall) (mounts : List KlDisk)
    (id : Str) (timeout : Int) : List MountAttempt :=
  match mounts.find? fun disk => compareDiskId disk id with
  | some _ => []
  | none =>
    match seekDisk os later id timeout with
    | none => []
    | some disk => mountDiskAttempts mount mounts disk

inductive MountRequest where
  | byId (os : DiskOs) (later : List DiskOs) (mount : MountCall) (id : Str) (timeout : Int)
  | disk (mount : MountCall) (disk : KlDisk)

structure MountSession where
  mounts : List KlDisk
  attempts : List MountAttempt

def MountSession.perform (s : MountSession) : MountRequest → MountSession
  | .byId os later mount id timeout =>
    ⟨(mountById os later mount s.mounts id timeout).2,
      s.attempts ++ mountByIdAttempts os later mount s.mounts id timeout⟩
  | .disk mount disk =>
    ⟨(mountDisk mount s.mounts disk).2, s.attempts ++ mountDiskAttempts mount s.mounts disk⟩

/-- The table starts empty. -/
def mountSession (requests : List MountRequest) : MountSession :=
  requests.foldl MountSession.perform ⟨[], []⟩

/-- One entry a device, and a call behind every entry. -/
structure MountTable (s : MountSession) : Prop where
  names : s.mounts.Pairwise fun a b => a.name.str ≠ b.name.str
  mounted : ∀ disk ∈ s.mounts, ∃ attempt ∈ s.attempts, attempt.Serves disk

/-! ### The calls recorded are the calls made -/

/-- Only the answers to the calls recorded decide what `mount_disk` does. -/
theorem mountDisk_agree {mount mount' : MountCall} {mounts : List KlDisk} {disk : KlDisk}
    (agree : ∀ a ∈ mountDiskAttempts mount mounts disk, mount' a.dev a.point a.fstype = a.answer) :
    mountDisk mount' mounts disk = mountDisk mount mounts disk := by
  unfold mountDisk mountDiskAttempts at *
  split
  · rfl
  next fresh =>
    rw [if_neg fresh] at agree
    have same := agree _ (List.mem_singleton.mpr rfl)
    simp only at same
    rw [same]

theorem mountById_agree {os : DiskOs} {later : List DiskOs} {mount mount' : MountCall}
    {mounts : List KlDisk} {id : Str} {timeout : Int}
    (agree : ∀ a ∈ mountByIdAttempts os later mount mounts id timeout,
      mount' a.dev a.point a.fstype = a.answer) :
    mountById os later mount' mounts id timeout = mountById os later mount mounts id timeout := by
  unfold mountById mountByIdAttempts at *
  cases entry : mounts.find? (fun disk => compareDiskId disk id) with
  | some disk => rfl
  | none =>
    cases found : seekDisk os later id timeout with
    | none => rfl
    | some disk =>
      simp only [entry, found] at agree ⊢
      rw [mountDisk_agree agree]

/-! ### One call -/

/-- The list is left alone, or the disk is new to it and mounted. -/
theorem mountDisk_cases (mount : MountCall) (mounts : List KlDisk) (disk : KlDisk) :
    (mountDisk mount mounts disk).2 = mounts ∨
      (mountDisk mount mounts disk).2 = mounts ++ [disk] ∧ (∀ m ∈ mounts, m.name.str ≠ disk.name.str) ∧
        ∃ attempt ∈ mountDiskAttempts mount mounts disk, attempt.Serves disk := by
  unfold mountDisk mountDiskAttempts
  by_cases mounted : (mounts.any fun m => klStreq disk.name.str m.name.str) = true
  · left
    rw [if_pos mounted]
  · rw [if_neg mounted, if_neg mounted]
    have fresh : ∀ m ∈ mounts, m.name.str ≠ disk.name.str := by
      intro m member same
      refine mounted (List.any_eq_true.mpr ⟨m, member, ?_⟩)
      rw [klStreq_iff, same]
    cases answer : mount (devPath disk.name.str) (mountPoint disk.name.str) disk.fstype.str with
    | none => exact .inr ⟨rfl, fresh, _, List.mem_singleton.mpr rfl, rfl, rfl, rfl, .inl answer⟩
    | some errno =>
      by_cases busy : errno = EBUSY
      · refine .inr ⟨by simp [busy], fresh, _, List.mem_singleton.mpr rfl, rfl, rfl, rfl, .inr ?_⟩
        rw [← busy]
        exact answer
      · left
        simp [busy]

/-- What `mount_by_id` does to the list `mount_disk` did. -/
theorem mountById_cases (os : DiskOs) (later : List DiskOs) (mount : MountCall) (mounts : List KlDisk)
    (id : Str) (timeout : Int) :
    (mountById os later mount mounts id timeout).2 = mounts ∨
      ∃ disk, (mountById os later mount mounts id timeout).2 = (mountDisk mount mounts disk).2 ∧
        mountByIdAttempts os later mount mounts id timeout = mountDiskAttempts mount mounts disk := by
  unfold mountById mountByIdAttempts
  cases mounts.find? (fun disk => compareDiskId disk id) with
  | some disk => exact .inl rfl
  | none =>
    cases seekDisk os later id timeout with
    | none => exact .inl rfl
    | some disk =>
      refine .inr ⟨disk, ?_, rfl⟩
      cases call : mountDisk mount mounts disk with
      | mk result after => cases result <;> simp only [call]

/-- A refused disk changes nothing. -/
theorem mountDisk_refused {mount : MountCall} {mounts : List KlDisk} {disk : KlDisk} {errno : Nat}
    (refused : (mountDisk mount mounts disk).1 = .fail errno) : (mountDisk mount mounts disk).2 = mounts := by
  unfold mountDisk at refused ⊢
  split
  · rfl
  next fresh =>
    rw [if_neg fresh] at refused
    cases answer : mount (devPath disk.name.str) (mountPoint disk.name.str) disk.fstype.str with
    | none => simp [answer] at refused
    | some code =>
      by_cases busy : code = EBUSY
      · simp [answer, busy] at refused
      · simp [busy]

/-! ### Any number of calls -/

/-- A request leaves the table as it is or adds one disk to it. -/
theorem perform_cases (s : MountSession) (request : MountRequest) :
    (s.perform request).mounts = s.mounts ∨
      ∃ disk, (s.perform request).mounts = s.mounts ++ [disk] ∧
        (∀ m ∈ s.mounts, m.name.str ≠ disk.name.str) ∧
          ∃ attempt ∈ (s.perform request).attempts, attempt.Serves disk := by
  have added : ∀ mount disk attempts, attempts = mountDiskAttempts mount s.mounts disk →
      (mountDisk mount s.mounts disk).2 = s.mounts ∨
        (mountDisk mount s.mounts disk).2 = s.mounts ++ [disk] ∧
          (∀ m ∈ s.mounts, m.name.str ≠ disk.name.str) ∧
            ∃ attempt ∈ s.attempts ++ attempts, attempt.Serves disk := by
    rintro mount disk attempts rfl
    rcases mountDisk_cases mount s.mounts disk with same | ⟨longer, fresh, attempt, member, serves⟩
    · exact .inl same
    · exact .inr ⟨longer, fresh, attempt, List.mem_append_right _ member, serves⟩
  cases request with
  | byId os later mount id timeout =>
    rcases mountById_cases os later mount s.mounts id timeout with same | ⟨disk, same, calls⟩
    · exact .inl same
    · rcases added mount disk _ calls with kept | grown
      · exact .inl (same.trans kept)
      · exact .inr ⟨disk, same.trans grown.1, grown.2⟩
  | disk mount disk =>
    rcases added mount disk _ rfl with kept | grown
    · exact .inl kept
    · exact .inr ⟨disk, grown⟩

theorem perform_attempts (s : MountSession) (request : MountRequest) :
    s.attempts <+: (s.perform request).attempts := by
  cases request <;> exact List.prefix_append _ _

theorem perform_grows (s : MountSession) (request : MountRequest) :
    s.mounts <+: (s.perform request).mounts := by
  rcases perform_cases s request with same | ⟨disk, longer, -⟩
  · exact same ▸ List.prefix_rfl
  · rw [longer]
    exact List.prefix_append _ _

theorem MountTable.perform {s : MountSession} (table : MountTable s) (request : MountRequest) :
    MountTable (s.perform request) := by
  have older : ∀ disk ∈ s.mounts, ∃ attempt ∈ (s.perform request).attempts, attempt.Serves disk := by
    intro disk member
    obtain ⟨attempt, made, serves⟩ := table.mounted disk member
    exact ⟨attempt, (perform_attempts s request).subset made, serves⟩
  rcases perform_cases s request with same | ⟨disk, longer, fresh, served⟩
  · exact ⟨by rw [same]; exact table.names, by rw [same]; exact older⟩
  · refine ⟨?_, ?_⟩
    · rw [longer, List.pairwise_append]
      refine ⟨table.names, List.pairwise_singleton _ _, fun m member other last => ?_⟩
      obtain rfl := List.mem_singleton.mp last
      exact fresh m member
    · intro other member
      rw [longer, List.mem_append, List.mem_singleton] at member
      rcases member with old | rfl
      · exact older other old
      · exact served

theorem mountSession_concat (requests : List MountRequest) (request : MountRequest) :
    mountSession (requests ++ [request]) = (mountSession requests).perform request := by
  rw [mountSession, List.foldl_append]
  rfl

theorem mountTable_session (requests : List MountRequest) : MountTable (mountSession requests) := by
  induction requests using List.reverseRecOn with
  | nil => exact ⟨List.Pairwise.nil, fun disk member => absurd member List.not_mem_nil⟩
  | append_singleton requests request ih =>
    rw [mountSession_concat]
    exact ih.perform request

theorem session_grows (requests later : List MountRequest) :
    (mountSession requests).mounts <+: (mountSession (requests ++ later)).mounts := by
  induction later using List.reverseRecOn with
  | nil => simp
  | append_singleton later request ih =>
    rw [← List.append_assoc, mountSession_concat]
    exact ih.trans (perform_grows _ request)

/-- In every session the table is sound, it only grows at its end, and a refused
disk leaves it as it was. -/
theorem mounts_invariant (requests : List MountRequest) :
    MountTable (mountSession requests) ∧
      (∀ later, (mountSession requests).mounts <+: (mountSession (requests ++ later)).mounts) ∧
      ∀ mount disk errno, (mountDisk mount (mountSession requests).mounts disk).1 = .fail errno →
        (mountDisk mount (mountSession requests).mounts disk).2 = (mountSession requests).mounts :=
  ⟨mountTable_session requests, session_grows requests, fun _ _ _ => mountDisk_refused⟩

end KexecLoader
