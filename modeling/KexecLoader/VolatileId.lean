import KexecLoader.Disk

/-!
# Mounting a disk whose id can change

`mount_by_id` reads the id it was given again for every disk, and calls `debug` in
between, which may change it. `id n k` is the string that stands `k` bytes behind
the pointer after `n` calls. The functions follow those for an id that stays, and
count the calls.
-/
namespace KexecLoader

/-- What one call of `get_disks` meets: the calls of `debug` in `mdadm`, which a
build may leave out, and a read error at the end of /proc/diskstats. -/
structure Scan where
  mdadm : Nat
  os : DiskOs
  readError : Bool

/-- The calls of `debug` in one round of the loop of `get_disks`; the size is three
question marks if the device could not be asked for it. -/
def roundDebugs (os : DiskOs) (line : Str) (accepted : Bool) : Nat :=
  let name := (diskstatsFields line).2.2
  if klStrneq name (bytes "ram") 3 || klStrneq name (bytes "loop") 4 then 0
  else if !os.node (devPath name) then 1
  else if accepted && os.devSize (devPath name) = bytes "???" then 1
  else 0

section
variable (id : Nat → Nat → Str)

/-- The loop of `get_disks`, for the filter that starts `k` bytes behind the id. -/
def scanLoop (os : DiskOs) (fstype : Option Str) (k : Nat) : List Str → Nat → Option KlDisk × Nat
  | [], n => (none, n)
  | line :: rest, n =>
    match diskOfLine os (some (id n k)) fstype line with
    | none => scanLoop os fstype k rest (n + roundDebugs os line false)
    | some disk => (some disk, n + roundDebugs os line true)

/-- The file system type in front of a colon, and where the filter starts. -/
def filterParts (id : Str) : Option Str × Nat :=
  match strchr id 58 with
  | none => (none, 0)
  | some _ => (some (id.take (strcspn id (bytes ":"))), strcspn id (bytes ":") + 1)

/-- `get_disks(disk_id)`: the file system type is copied, the filter left in place. -/
def scanDisks (scan : Scan) (n : Nat) : Option KlDisk × Nat :=
  let n := n + scan.mdadm
  match scan.os.diskstats with
  -- the file cannot be opened
  | none => (none, n + 1)
  | some content =>
    -- the file system type is kept, the rest of the id is read again for every disk
    let parts := filterParts (id n 0)
    match scanLoop id scan.os parts.1 parts.2 ((pieces 256 content).map cstr) n with
    | (found, n) => (found, if scan.readError then n + 1 else n)

def awaitScan : Int → List Scan → Nat → Option KlDisk × Nat
  | _, [], n => (none, n)
  | timeout, scan :: later, n =>
    if timeout = 0 then (none, n)
    else
      match scanDisks id scan n with
      | (some disk, n) => (some disk, n)
      | (none, n) => awaitScan (timeout - 1) later n

def seekScan (scan : Scan) (later : List Scan) (timeout : Int) (n : Nat) : Option KlDisk × Nat :=
  match scanDisks id scan n with
  | (some disk, n) => (some disk, n)
  | (none, n) => awaitScan id timeout later n

/-- `mount_by_id`; a disk that is mounted, or was before, is a message. -/
def mountScanned (scan : Scan) (later : List Scan) (mount : MountCall) (mounts : List KlDisk)
    (timeout : Int) (n : Nat) : (Outcome KlDisk × List KlDisk) × Nat :=
  match mounts.find? fun disk => compareDiskId disk (id n 0) with
  | some disk => ((.ok disk, mounts), n)
  | none =>
    match seekScan id scan later timeout n with
    | (none, n) => ((.fail ENODEV, mounts), n)
    | (some disk, n) =>
      match mountDisk mount mounts disk with
      -- the message comes before the id is looked for in the list
      | (.ok _, mounts) => ((seekMounted (id (n + 1) 0) mounts, mounts), n + 1)
      | (.fail errno, mounts) => ((.fail errno, mounts), n)
      | (.crash, mounts) => ((.crash, mounts), n)

end

/-! ### An id that stays -/

theorem scanLoop_constant (id : Str) (os : DiskOs) (fstype : Option Str) (k : Nat)
    (lines : List Str) (n : Nat) :
    (scanLoop (fun _ k => id.drop k) os fstype k lines n).1 =
      (getDisksLoop os (some (id.drop k)) fstype lines []).head? := by
  induction lines generalizing n with
  | nil => rfl
  | cons line rest ih =>
    unfold scanLoop getDisksLoop
    cases diskOfLine os (some (id.drop k)) fstype line with
    | none => exact ih _
    | some disk => rfl

theorem strchr_some {s rest : Str} {c : UInt8} (found : strchr s c = some rest) :
    rest = s.drop (strcspn s [c]) ∧ strcspn s [c] < s.length := by
  have same : s.dropWhile (· ≠ c) = s.dropWhile (· ∉ [c]) :=
    dropWhile_agree fun b _ => by simp
  have suffix : rest = s.drop (strcspn s [c]) ∧ rest ≠ [] := by
    rw [drop_strcspn, ← same]
    unfold strchr at found
    split at found
    · cases found
    next none_left =>
      cases found
      exact ⟨rfl, none_left⟩
  refine ⟨suffix.1, ?_⟩
  have nonempty := suffix.2
  rwa [suffix.1, ne_eq, List.drop_eq_nil_iff, Nat.not_le] at nonempty

theorem filterParts_split (id : Str) :
    splitFilter (some id) = ((filterParts id).1, some (id.drop (filterParts id).2)) ∧
      (filterParts id).2 ≤ id.length := by
  unfold splitFilter filterParts
  dsimp only
  cases split : strchr id 58 with
  | none => exact ⟨rfl, Nat.zero_le _⟩
  | some rest =>
    have colon : bytes ":" = [58] := by decide
    obtain ⟨behind, inside⟩ := strchr_some split
    dsimp only
    rw [colon, behind, List.drop_drop]
    exact ⟨rfl, inside⟩

theorem scanDisks_constant (id : Str) (scan : Scan) (n : Nat) :
    (scanDisks (fun _ k => id.drop k) scan n).1 = (getDisks scan.os (some id)).head? := by
  unfold scanDisks getDisks
  cases scan.os.diskstats with
  | none => rfl
  | some content =>
    rw [(filterParts_split id).1]
    exact scanLoop_constant id _ _ _ _ _

theorem awaitScan_constant (id : Str) (timeout : Int) (later : List Scan) (n : Nat) :
    (awaitScan (fun _ k => id.drop k) timeout later n).1 =
      awaitDisk id timeout (later.map Scan.os) := by
  induction later generalizing timeout n with
  | nil => rfl
  | cons scan later ih =>
    have here := scanDisks_constant id scan n
    unfold awaitScan
    rw [List.map_cons, awaitDisk]
    split
    · rfl
    · cases scanned : scanDisks (fun _ k => id.drop k) scan n with
      | mk found m =>
        rw [scanned] at here
        cases disks : getDisks scan.os (some id) with
        | nil =>
          rw [disks] at here
          cases here
          exact ih _ _
        | cons disk rest =>
          rw [disks] at here
          cases here
          rfl

theorem seekScan_constant (id : Str) (scan : Scan) (later : List Scan) (timeout : Int) (n : Nat) :
    (seekScan (fun _ k => id.drop k) scan later timeout n).1 =
      seekDisk scan.os (later.map Scan.os) id timeout := by
  have here := scanDisks_constant id scan n
  unfold seekScan seekDisk
  cases scanned : scanDisks (fun _ k => id.drop k) scan n with
  | mk found m =>
    rw [scanned] at here
    cases disks : getDisks scan.os (some id) with
    | nil =>
      rw [disks] at here
      cases here
      exact awaitScan_constant id timeout later m
    | cons disk rest =>
      rw [disks] at here
      cases here
      rfl

theorem mountScanned_constant (id : Str) (scan : Scan) (later : List Scan) (mount : MountCall)
    (mounts : List KlDisk) (timeout : Int) (n : Nat) :
    (mountScanned (fun _ k => id.drop k) scan later mount mounts timeout n).1 =
      mountById scan.os (later.map Scan.os) mount mounts id timeout := by
  have sought := seekScan_constant id scan later timeout n
  unfold mountScanned mountById
  simp only [List.drop_zero]
  cases mounts.find? fun disk => compareDiskId disk id with
  | some disk => rfl
  | none =>
    cases found : seekScan (fun _ k => id.drop k) scan later timeout n with
    | mk disk m =>
      rw [found] at sought
      rw [← sought]
      cases disk with
      | none => rfl
      | some disk =>
        dsimp only
        obtain ⟨answer, after⟩ := mountDisk mount mounts disk
        cases answer <;> rfl

/-! ### An id that is the same whenever it is read -/

/-- Two pointers that lead to the same string, up to `size` bytes on. -/
def SameAt (id id' : Nat → Nat → Str) (size n : Nat) : Prop :=
  (id n 0).length ≤ size ∧ ∀ k ≤ size, id n k = id' n k

theorem SameAt.symm {id id' : Nat → Nat → Str} {size n : Nat} (same : SameAt id id' size n) :
    SameAt id' id size n := by
  obtain ⟨short, equal⟩ := same
  exact ⟨by rwa [← equal 0 (Nat.zero_le _)], fun k inside => (equal k inside).symm⟩

/-- Two pointers that lead to the same string from call to call. -/
def SameFor (id id' : Nat → Nat → Str) (size n n' : Nat) : Prop :=
  ∀ m, n ≤ m → m ≤ n' → SameAt id id' size m

section
variable {id id' : Nat → Nat → Str} {size : Nat}

theorem SameFor.from {n m n' : Nat} (same : SameFor id id' size n n') (later : n ≤ m) :
    SameFor id id' size m n' :=
  fun i from_m upto => same i (later.trans from_m) upto

theorem SameFor.upto {n m n' : Nat} (same : SameFor id id' size n n') (earlier : m ≤ n') :
    SameFor id id' size n m :=
  fun i from_n upto => same i from_n (upto.trans earlier)

variable (id id' size)

theorem scanLoop_le (os : DiskOs) (fstype : Option Str) (k : Nat) (lines : List Str) (n : Nat) :
    n ≤ (scanLoop id os fstype k lines n).2 := by
  induction lines generalizing n with
  | nil => exact Nat.le_refl n
  | cons line rest ih =>
    unfold scanLoop
    split
    · exact (Nat.le_add_right _ _).trans (ih _)
    · exact Nat.le_add_right _ _

theorem scanLoop_same (os : DiskOs) (fstype : Option Str) (k : Nat) (inside : k ≤ size)
    (lines : List Str) (n : Nat)
    (same : SameFor id id' size n (scanLoop id os fstype k lines n).2) :
    scanLoop id os fstype k lines n = scanLoop id' os fstype k lines n := by
  induction lines generalizing n with
  | nil => rfl
  | cons line rest ih =>
    -- the filter is read once in each round, before the messages of the round
    have here := (same n (Nat.le_refl _) (scanLoop_le id os fstype k _ n)).2 k inside
    unfold scanLoop at same ⊢
    rw [← here]
    split
    next missed =>
      rw [missed] at same
      exact ih _ (same.from (Nat.le_add_right _ _))
    next => rfl

theorem scanDisks_le (scan : Scan) (n : Nat) : n ≤ (scanDisks id scan n).2 := by
  unfold scanDisks
  dsimp only
  split
  · exact (Nat.le_add_right _ _).trans (Nat.le_add_right _ _)
  next content _ =>
    have loop := scanLoop_le id scan.os (filterParts (id (n + scan.mdadm) 0)).1
      (filterParts (id (n + scan.mdadm) 0)).2 ((pieces 256 content).map cstr) (n + scan.mdadm)
    split_ifs <;> omega

theorem scanDisks_same (scan : Scan) (n : Nat)
    (same : SameFor id id' size n (scanDisks id scan n).2) :
    scanDisks id scan n = scanDisks id' scan n := by
  unfold scanDisks at same ⊢
  dsimp only at same ⊢
  split
  · rfl
  next content listed =>
    rw [listed] at same
    dsimp only at same
    have loop := scanLoop_le id scan.os (filterParts (id (n + scan.mdadm) 0)).1
      (filterParts (id (n + scan.mdadm) 0)).2 ((pieces 256 content).map cstr) (n + scan.mdadm)
    -- the loop starts behind the messages of mdadm and ends before that of a read error
    replace same := (same.from (Nat.le_add_right n scan.mdadm)).upto
      (m := (scanLoop id scan.os (filterParts (id (n + scan.mdadm) 0)).1
        (filterParts (id (n + scan.mdadm) 0)).2 ((pieces 256 content).map cstr)
          (n + scan.mdadm)).2) (by split_ifs <;> omega)
    obtain ⟨short, here⟩ := same _ (Nat.le_refl _) loop
    rw [← here 0 (Nat.zero_le _), scanLoop_same id id' size scan.os _ _
      ((filterParts_split _).2.trans short) _ _ same]

theorem awaitScan_le (timeout : Int) (later : List Scan) (n : Nat) :
    n ≤ (awaitScan id timeout later n).2 := by
  induction later generalizing timeout n with
  | nil => exact Nat.le_refl n
  | cons scan later ih =>
    have here := scanDisks_le id scan n
    unfold awaitScan
    split
    · exact Nat.le_refl n
    · split
      next disk m scanned =>
        rw [scanned] at here
        exact here
      next m scanned =>
        rw [scanned] at here
        exact here.trans (ih _ m)

theorem awaitScan_same (timeout : Int) (later : List Scan) (n : Nat)
    (same : SameFor id id' size n (awaitScan id timeout later n).2) :
    awaitScan id timeout later n = awaitScan id' timeout later n := by
  induction later generalizing timeout n with
  | nil => rfl
  | cons scan later ih =>
    have before := scanDisks_le id scan n
    have here := scanDisks_same id id' size scan n
    unfold awaitScan at same ⊢
    split
    · rfl
    next more =>
      rw [if_neg more] at same
      cases scanned : scanDisks id scan n with
      | mk found m =>
        rw [scanned] at same here before
        cases found with
        | some disk => rw [← here same]
        | none =>
          have after := awaitScan_le id (timeout - 1) later m
          rw [← here (same.upto after)]
          exact ih _ m (same.from before)

theorem seekScan_le (scan : Scan) (later : List Scan) (timeout : Int) (n : Nat) :
    n ≤ (seekScan id scan later timeout n).2 := by
  have here := scanDisks_le id scan n
  unfold seekScan
  split
  next disk m scanned =>
    rw [scanned] at here
    exact here
  next m scanned =>
    rw [scanned] at here
    exact here.trans (awaitScan_le id _ _ m)

theorem seekScan_same (scan : Scan) (later : List Scan) (timeout : Int) (n : Nat)
    (same : SameFor id id' size n (seekScan id scan later timeout n).2) :
    seekScan id scan later timeout n = seekScan id' scan later timeout n := by
  have before := scanDisks_le id scan n
  have here := scanDisks_same id id' size scan n
  unfold seekScan at same ⊢
  cases scanned : scanDisks id scan n with
  | mk found m =>
    rw [scanned] at same here before
    cases found with
    | some disk => rw [← here same]
    | none =>
      have after := awaitScan_le id timeout later m
      rw [← here (same.upto after)]
      exact awaitScan_same id id' size timeout later m (same.from before)

variable (scan : Scan) (later : List Scan) (mount : MountCall) (mounts : List KlDisk)
  (timeout : Int) (n : Nat)

theorem mountScanned_le : n ≤ (mountScanned id scan later mount mounts timeout n).2 := by
  have here := seekScan_le id scan later timeout n
  unfold mountScanned
  split
  · exact Nat.le_refl n
  · split
    next m sought =>
      rw [sought] at here
      exact here
    next disk m sought =>
      rw [sought] at here
      split
      · exact here.trans (Nat.le_add_right _ _)
      · exact here
      · exact here

/-- Two ids that lead to the same string as long as `mount_by_id` runs make no
difference to it. -/
theorem mountScanned_same
    (same : SameFor id id' size n (mountScanned id scan later mount mounts timeout n).2) :
    mountScanned id scan later mount mounts timeout n =
      mountScanned id' scan later mount mounts timeout n := by
  -- the id is read for the list of mounted disks, in the scans, and for the list again
  have first := (same n (Nat.le_refl _) (mountScanned_le id scan later mount mounts timeout n)).2 0
    (Nat.zero_le _)
  have before := seekScan_le id scan later timeout n
  have here := seekScan_same id id' size scan later timeout n
  unfold mountScanned at same ⊢
  rw [← first]
  split
  · rfl
  next absent =>
    rw [absent] at same
    dsimp only at same
    cases sought : seekScan id scan later timeout n with
    | mk found m =>
      rw [sought] at same here before
      cases found with
      | none => rw [← here same]
      | some disk =>
        dsimp only at same before
        cases mounted : mountDisk mount mounts disk with
        | mk answer after =>
          rw [mounted] at same
          cases answer with
          | ok value =>
            dsimp only at same
            have last := (same (m + 1) (by omega) (Nat.le_refl _)).2 0 (Nat.zero_le _)
            rw [← here (same.upto (Nat.le_add_right _ _))]
            simp only [mounted, last]
          | fail errno => rw [← here same]; simp only [mounted]
          | crash => rw [← here same]; simp only [mounted]

end

end KexecLoader
