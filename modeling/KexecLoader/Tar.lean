import KexecLoader.FileCalls
import KexecLoader.Library.Numeral

/-!
# The TAR archive extractor

`extract_tar` reads 512-byte records: a header, then the blocks of its file,
which are written to a temporary file that takes the place of the path at last.
Names are C strings in a fixed field of the header, so that a name can run on
past its field and an empty one makes the loop read the byte in front of the
header; both are part of the stack.
-/
namespace KexecLoader

open FileTree

/-- An open archive: the bytes still to come, and the error that follows them,
if it is not the end of the file. -/
structure Handle where
  rest : Str
  ending : Option Str
deriving DecidableEq

/-- `SET_ERROR` into `errbuf[64]`. -/
def setError (s : Str) : Str := s.take 64

/-- The loop of `raw_file_read`, with the bytes it has counted; what `fread` gives
of the last bytes of the file is not counted. The other two readers are the same
loop around the read function of their library. -/
def rawFileReadLoop : Nat → Nat → Str → Handle → Str × Option Str × Handle
  | 0, _, got, handle => (got, none, handle)
  | fuel + 1, size, got, handle =>
    if size ≤ got.length then (got, none, handle)
    else
      let ret := handle.rest.take (size - got.length)
      let after := { handle with rest := handle.rest.drop (size - got.length) }
      if ret.length < size - got.length ∧ handle.ending = none then (got, none, after)
      else if ret = [] then (got, handle.ending.map setError, after)
      else rawFileReadLoop fuel size (got ++ ret) after

def rawFileRead (size : Nat) (handle : Handle) : Str × Option Str × Handle :=
  rawFileReadLoop (size + 1) size [] handle

inductive CompType where
  | raw
  | lzma
  | gzip
deriving DecidableEq

/-- The format a name stands for; lzma only when it is built in. -/
def compType (haveLzma : Bool) (name : Str) : Option CompType :=
  if klStreqEnd name (bytes ".tar") then some .raw
  else if haveLzma && (klStreqEnd name (bytes ".tlz") || klStreqEnd name (bytes ".tar.lzma")) then
    some .lzma
  else if klStreqEnd name (bytes ".tgz") || klStreqEnd name (bytes ".tar.gz") then some .gzip
  else none

def isTarExtension (name : Str) : Bool :=
  [bytes ".tar", bytes ".tlz", bytes ".tar.lzma", bytes ".tgz", bytes ".tar.gz"].any
    fun ext => klStreqEnd name ext

/-- A name counts as an archive exactly if a build with lzma has a format for it. -/
theorem isTarExtension_eq (name : Str) : isTarExtension name = (compType true name).isSome := by
  simp only [isTarExtension, compType, List.any_cons, List.any_nil, Bool.or_false, Bool.true_and]
  -- the formats are tried in the order in which the names are listed
  split_ifs with raw lzma gzip
  · simp [raw]
  · rw [← Bool.or_assoc (klStreqEnd name (bytes ".tlz")), lzma]
    simp
  · simp only [gzip, Bool.or_true, Option.isSome_some]
  · simp_all

def rawFileOpen (path : Str) (os : Os) : Except Str Handle :=
  match namei os.tree path with
  | .error obstacle => .error (setError (os.strerror (obstacleErrno obstacle)))
  | .ok loc =>
    match os.tree loc with
    | none => .error (setError (os.strerror ENOENT))
    | some .dir => .ok ⟨[], some (os.strerror EISDIR)⟩
    | some (.file content) => .ok ⟨content, none⟩

/-! ### The header -/

def nameSize : Nat := 100

def sizeOffset : Nat := 124

def checksumOffset : Nat := 148

def checksumSize : Nat := 8

def linkflagOffset : Nat := 156

def headerSize : Nat := 512

/-- The memory around the header while a number of bytes of the archive is still
to come: the byte in front of it and the bytes behind it. -/
structure Stack where
  before : UInt8
  behind : Str

/-- The string that starts at an offset of the header. -/
def headerStr (stack : Stack) (header : Str) (offset : Nat) : Str :=
  cstr (header.drop offset ++ stack.behind)

/-- `b` of `test_checksum`. -/
def checksum (header : Str) : Nat :=
  ((header.take checksumOffset ++ List.replicate checksumSize space ++
    header.drop (checksumOffset + checksumSize)).map UInt8.toNat).sum

def testChecksum (stack : Stack) (header : Str) : Bool :=
  strtoul 8 (headerStr stack header checksumOffset) = checksum header

/-- `header.name[strlen(header.name) - 1]`. -/
def lastOfName (stack : Stack) (entry : Str) : UInt8 := entry.getLast?.getD stack.before

/-! ### Parent directories -/

/-- `tar_mkdirs` with at most `fuel` calls of itself, for a path that fits in
128 bytes. -/
def tarMkdirsRec : Nat → Str → Os → Bool × Os
  | 0, _, os => (true, os)
  | fuel + 1, rpath, os =>
    let path := rpath.take 128
    match strrchr path slash with
    | none => (true, os)
    | some last =>
      -- the slash of the root
      if last = 0 then (true, os)
      else
        let path := path.take last
        match if slash ∈ path then tarMkdirsRec fuel path os else (true, os) with
        | (false, os) => (false, os)
        | (true, os) =>
          match mkdir path os with
          | (none, os) => (true, os)
          | (some errno, os) =>
            -- a directory that exists will do, and so will anything else of that name
            if errno = EEXIST then (true, os)
            else (false, os.printD (bytes "Error creating " ++ path ++ bytes ": " ++
              os.strerror errno))

def tarMkdirs (rpath : Str) (os : Os) : Bool × Os := tarMkdirsRec (rpath.length + 1) rpath os

/-! ### extract_tar -/

/-- How `extract_tar` ends: its result, what it has left of the archive, and
whether it has closed it. -/
structure Ended where
  ret : Nat
  handle : Option Handle
  closed : Bool
  os : Os

/-- `FAIL(...)`. -/
def tarFail (text : Str) (handle : Handle) (os : Os) : Ended :=
  ⟨1, some handle, true, os.printD text⟩

def tarfileTmp : Str := bytes "/tarfile.tmp"

section
variable (name dest : Str)

/-- The loop over the blocks of a file, `left` bytes of which are still to come;
nothing is written without an output file. -/
def extractBlocks (outfh : Option (List Str)) : Nat → Nat → Handle → Os →
    Except Ended (Handle × Os)
  | 0, _, handle, os => .ok (handle, os)
  | fuel + 1, left, handle, os =>
    if left = 0 then .ok (handle, os)
    else
      match rawFileRead 512 handle with
      | (_, some error, handle) =>
        .error (tarFail (bytes "Error reading " ++ name ++ bytes ": " ++ error) handle os)
      | (buf, none, handle) =>
        if buf.length < 512 then
          .error (tarFail (bytes "Error extracting " ++ name ++ bytes ": incomplete file") handle os)
        else
          -- the last block is padded
          let wsize := min left 512
          match outfh with
          | none => extractBlocks outfh fuel (left - wsize) handle os
          | some out =>
            match fwrite out (buf.take wsize) os with
            | (some errno, os) =>
              .error (tarFail (bytes "Error writing tarfile.tmp: " ++ os.strerror errno) handle os)
            | (none, os) => extractBlocks outfh fuel (left - wsize) handle os

/-- One file: its blocks, and unless the path exists already the file itself. -/
def extractFile (path : Str) (fileSize : Nat) (handle : Handle) (os : Os) :
    Except Ended (Handle × Os) :=
  match checkFile path os with
  | (true, os) => extractBlocks name none fileSize fileSize handle os
  | (false, os) =>
    match fopenWb tarfileTmp os with
    | (.error errno, os) =>
      .error (tarFail (bytes "Error opening tarfile.tmp: " ++ os.strerror errno) handle os)
    | (.ok out, os) =>
      match extractBlocks name (some out) fileSize fileSize handle os with
      | .error ended => .error ended
      | .ok (handle, os) =>
        match rename tarfileTmp path (fclose out os) with
        | (some errno, os) => .error (tarFail (bytes "Error moving file to " ++ path ++ bytes ": " ++
            os.strerror errno) handle os)
        | (none, os) => .ok (handle, os)

/-- `strncpy`, `strncat` and `strncat` into `path`. -/
def entryPath (entry : Str) : Str := dest.take 256 ++ bytes "/" ++ entry.take 256

/-- What a header that has passed its checks brings about. -/
def extractMember (stack : Stack) (header : Str) (handle : Handle) (os : Os) :
    Except Ended (Handle × Os) :=
  let entry := headerStr stack header 0
  -- directories are made with the files in them, hard links not at all
  if lastOfName stack entry = slash then .ok (handle, os)
  else if header[linkflagOffset]? = some 49 then .ok (handle, os)
  else
    let path := entryPath dest entry
    match if slash ∈ entry then tarMkdirs path os else (true, os) with
    -- this return does not close the archive
    | (false, os) => .error ⟨0, some handle, false, os⟩
    | (true, os) => extractFile name path (strtoul 8 (headerStr stack header sizeOffset)) handle os

/-- One round of the loop of `extract_tar`; an error is the end of the loop. -/
def extractEntry (stack : Nat → Stack) (handle : Handle) (os : Os) : Except Ended (Handle × Os) :=
  match rawFileRead headerSize handle with
  | (_, some error, handle) =>
    .error (tarFail (bytes "Error reading " ++ name ++ bytes ": " ++ error) handle os)
  | (header, none, handle) =>
    if header.length < headerSize then
      .error (tarFail (bytes "Error extracting " ++ name ++ bytes ": incomplete file") handle os)
    else if header = List.replicate headerSize 0 then .error ⟨1, some handle, true, os⟩
    else if !testChecksum (stack handle.rest.length) header then
      .error (tarFail (bytes "Error extracting " ++ name ++ bytes ": corrupt header") handle os)
    else extractMember name dest (stack handle.rest.length) header handle os

/-- The loop of `extract_tar`; none when the rounds do not suffice. -/
def extractEntries (stack : Nat → Stack) : Nat → Handle → Os → Option Ended
  | 0, _, _ => none
  | fuel + 1, handle, os =>
    match extractEntry name dest stack handle os with
    | .error ended => some ended
    | .ok (handle, os) => extractEntries stack fuel handle os

/-- `extract_tar`. What the libraries make of a compressed archive is given by
`openLib`; a round takes at least one record, which bounds the rounds. -/
def extractTar (haveLzma : Bool) (openLib : CompType → Str → Os → Except Str Handle)
    (stack : Nat → Stack) (os : Os) : Option Ended :=
  match compType haveLzma name with
  | none => some ⟨0, none, false, os.printD (bytes "Unknown TAR extension: " ++ name)⟩
  | some format =>
    match if format = .raw then rawFileOpen name os else openLib format name os with
    | .error error =>
      some ⟨0, none, false, os.printD (bytes "Error opening " ++ name ++ bytes ": " ++ error)⟩
    | .ok handle => extractEntries name dest stack (handle.rest.length + 1) handle os

end

end KexecLoader
