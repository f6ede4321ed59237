import KexecLoader.Library.Stream
import KexecLoader.Library.Numeral
import KexecLoader.Misc

/-!
# Disks: scanning, comparing and mounting

What libblkid, device nodes and the size ioctl answer is the parameter `DiskOs`;
what `mount(2)` answers is a function of its arguments. The list `mounts` is
passed and returned.
-/
namespace KexecLoader

structure KlDisk where
  name : Buf 32
  major : Int
  minor : Int
  label : Buf 256
  uuid : Buf 256
  fstype : Buf 32
  size : Buf 32
deriving DecidableEq

/-- `INIT_DISK`. -/
def initDisk : KlDisk := ⟨default, -1, -1, default, default, default, default⟩

/-- What the system answers while disks are scanned. -/
structure DiskOs where
  /-- The content of /proc/diskstats, none when it cannot be opened. -/
  diskstats : Option Str
  /-- The device node exists or `mknod` creates it. -/
  node : Str → Bool
  /-- `blkid_get_tag_value(NULL, tag, path)`. -/
  tag : Str → Str → Option Str
  /-- The text `get_dev_size` leaves for a device. -/
  devSize : Str → Str

def compareDiskId (disk : KlDisk) (id : Str) : Bool :=
  if klStrnceq id (bytes "LABEL=") 6 && disk.label.str ≠ [] &&
      klStrceq disk.label.str (id.drop 6) then true
  else if klStrnceq id (bytes "UUID=") 5 && disk.uuid.str ≠ [] &&
      klStrceq disk.uuid.str (id.drop 5) then true
  else klStreq disk.name.str (if klStrneq id (bytes "/dev/") 5 then id.drop 5 else id)

/-- `BLKID_TAG`: a field that is already set is left alone. -/
def blkidTag {n : Nat} [NeZero n] (os : DiskOs) (dest : Buf n) (tag path : Str) : Buf n :=
  if dest.str = [] then
    match os.tag tag path with
    | some s => strlcpy s
    | none => dest
  else dest

def digits : Str := bytes "1234567890"

/-- Major number, minor number and name in a line of /proc/diskstats. -/
def diskstatsFields (line : Str) : Int × Int × Str :=
  let major := line.drop (strspn line blanks)
  let minor := major.drop (strspn major digits)
  let minor := minor.drop (strspn minor blanks)
  let name := minor.drop (strspn minor digits)
  let name := name.drop (strspn name blanks)
  (atoi major, atoi minor, name.take (strcspn name blanks))

def devPath (name : Str) : Str := bytes "/dev/" ++ name

/-- The record of a line of /proc/diskstats, before any tag is fetched. -/
def lineDisk (line : Str) : KlDisk :=
  let (major, minor, name) := diskstatsFields line
  { initDisk with major := major, minor := minor, name := strlcpy name }

/-- The tag the comparison with a filter needs. -/
def filterTags (os : DiskOs) (filter path : Str) (disk : KlDisk) : KlDisk :=
  let disk := if klStrnceq filter (bytes "LABEL=") 6 then
    { disk with label := blkidTag os disk.label (bytes "LABEL") path } else disk
  if klStrnceq filter (bytes "UUID=") 5 then
    { disk with uuid := blkidTag os disk.uuid (bytes "UUID") path } else disk

/-- The fields filled in once a disk is accepted. -/
def fillTags (os : DiskOs) (fstype : Option Str) (path : Str) (disk : KlDisk) : KlDisk :=
  let given := match fstype with
    | none => disk.fstype
    | some t => strlcpy t
  { disk with
    label := blkidTag os disk.label (bytes "LABEL") path
    uuid := blkidTag os disk.uuid (bytes "UUID") path
    fstype := blkidTag os given (bytes "TYPE") path
    size := strlcpy (os.devSize path) }

/-- One round of the loop of `get_disks`: none is `continue`. -/
def diskOfLine (os : DiskOs) (filter fstype : Option Str) (line : Str) : Option KlDisk :=
  let name := (diskstatsFields line).2.2
  let path := devPath name
  if klStrneq name (bytes "ram") 3 || klStrneq name (bytes "loop") 4 then none
  else if !os.node path then none
  else
    match filter with
    | none => some (fillTags os fstype path (lineDisk line))
    | some f =>
      -- the comparison comes before the other tags are fetched
      let disk := filterTags os f path (lineDisk line)
      if compareDiskId disk f then some (fillTags os fstype path disk) else none

/-- The loop of `get_disks` over the lines read: a filter stops it at the first
disk it adds. -/
def getDisksLoop (os : DiskOs) (filter fstype : Option Str) : List Str → List KlDisk → List KlDisk
  | [], list => list
  | line :: rest, list =>
    match diskOfLine os filter fstype line with
    | none => getDisksLoop os filter fstype rest list
    | some disk =>
      if filter.isSome then list ++ [disk] else getDisksLoop os filter fstype rest (list ++ [disk])

/-- `(fstype, filter)`: the filter is split at its first colon. -/
def splitFilter (filter : Option Str) : Option Str × Option Str :=
  match filter with
  | none => (none, none)
  | some f =>
    match strchr f 58 with
    | none => (none, some f)
    | some rest => (some (f.take (strcspn f (bytes ":"))), some (rest.drop 1))

def getDisks (os : DiskOs) (filter : Option Str) : List KlDisk :=
  match os.diskstats with
  | none => []
  | some content =>
    getDisksLoop os (splitFilter filter).2 (splitFilter filter).1
      ((pieces 256 content).map cstr) []

/-- `mount(dev, mpoint, fstype, MS_RDONLY, NULL)`: none on success, else `errno`. -/
abbrev MountCall := Str → Str → Str → Option Nat

def mountPoint (name : Str) : Str := bytes "/mnt/" ++ name

/-- The guard `!disk->fstype` compares the address of an array with NULL, so it
never fires and the model has no branch for it. -/
def mountDisk (mount : MountCall) (mounts : List KlDisk) (disk : KlDisk) :
    Outcome Unit × List KlDisk :=
  if mounts.any fun m => klStreq disk.name.str m.name.str then (.ok (), mounts)
  else
    match mount (devPath disk.name.str) (mountPoint disk.name.str) disk.fstype.str with
    | none => (.ok (), mounts ++ [disk])
    | some errno => if errno ≠ EBUSY then (.fail errno, mounts) else (.ok (), mounts ++ [disk])

/-- The waiting loop of `mount_by_id`. Each entry of `later` is what the system
answers when one more second passed without a key; the list ends with the key
press. A negative timeout never reaches zero. -/
def awaitDisk (id : Str) : Int → List DiskOs → Option KlDisk
  | _, [] => none
  | timeout, os :: later =>
    if timeout = 0 then none
    else
      match getDisks os (some id) with
      | disk :: _ => some disk
      | [] => awaitDisk id (timeout - 1) later

/-- The disk the two scanning stages of `mount_by_id` settle on. -/
def seekDisk (os : DiskOs) (later : List DiskOs) (id : Str) (timeout : Int) : Option KlDisk :=
  match getDisks os (some id) with
  | disk :: _ => some disk
  | [] => awaitDisk id timeout later

/-- The last loop has no end check: past the last entry it reads through NULL. -/
def seekMounted (id : Str) : List KlDisk → Outcome KlDisk
  | [] => .crash
  | disk :: rest => if compareDiskId disk id then .ok disk else seekMounted id rest

def mountById (os : DiskOs) (later : List DiskOs) (mount : MountCall) (mounts : List KlDisk)
    (id : Str) (timeout : Int) : Outcome KlDisk × List KlDisk :=
  match mounts.find? fun disk => compareDiskId disk id with
  | some disk => (.ok disk, mounts)
  | none =>
    match seekDisk os later id timeout with
    | none => (.fail ENODEV, mounts)
    | some disk =>
      match mountDisk mount mounts disk with
      | (.ok _, mounts) => (seekMounted id mounts, mounts)
      | (.fail errno, mounts) => (.fail errno, mounts)
      | (.crash, mounts) => (.crash, mounts)

/-- `get_diskid`: the device in front of a path, else the root. -/
def getDiskid (root vpath : Str) : Str :=
  match vpath with
  | 40 :: disk => disk.take (strcspn disk [41])
  | _ => root

end KexecLoader
