import IpReputation.Database
import IpReputation.Ipset

/-! `builder.rs`: the MMDB file is built from parsed list files and replaced atomically. -/
namespace IpReputation

open FileStore (IoError)

variable {β : Type}

/-- `database_type` recognised by the patched `geoip2` reader. -/
def DATABASE_TYPE : String := "Firehol-DB"

inductive BuildError
  | insert (network : Ipv4Net) (fileName : String)
  | serialise
  | create (p : Path)
  | write (p : Path)
  | sync (p : Path)
  | rename (p target : Path)
  | persisted
  deriving DecidableEq

/-- Record stored for every network of a section: six single-element arrays. -/
def record (M : MmdbWriter β) (fileName : String) (metadata : Metadata) : M.Value :=
  let one := fun value => M.array [M.string value]
  M.map [
    (FILE_NAME, one fileName),
    (SOURCE_FILE_DATE, one metadata.sourceFileDateRfc3339),
    (LIST_SOURCE_URL, one metadata.listSourceUrl),
    (MAINTAINER_URL, one metadata.maintainerUrl),
    (MAINTAINER, one metadata.maintainer),
    (CATEGORY, one metadata.category)]

def insertNetwork (M : MmdbWriter β) (value : M.Value) (fileName : String) (writer : M.Writer)
    (network : Ipv4Net) : Except BuildError M.Writer :=
  let inserted := M.insertWith writer network fun existing =>
    some (match existing with
      | some old => M.mergeDeep old value
      | none => value)
  match inserted with
  | some writer => .ok writer
  | none => .error (.insert network fileName)

def insertSection (M : MmdbWriter β) (fileName : String) (writer : M.Writer) (s : Section) :
    Except BuildError M.Writer :=
  s.networks.foldlM (insertNetwork M (record M fileName s.metadata) fileName) writer

def insertIpset (M : MmdbWriter β) (writer : M.Writer) (ipset : Ipset) :
    Except BuildError M.Writer :=
  ipset.sections.foldlM (insertSection M ipset.fileName) writer

def newWriter (M : MmdbWriter β) (buildEpoch : SystemTime) : M.Writer :=
  M.build DATABASE_TYPE .v4 .bits28 buildEpoch

/-- The part of `write_mmdb` before any file is touched. -/
def serialise (M : MmdbWriter β) (ipsets : List Ipset) (buildEpoch : SystemTime) :
    Except BuildError β :=
  match ipsets.foldlM (insertIpset M) (newWriter M buildEpoch) with
  | .error e => .error e
  | .ok writer =>
    match M.toBytes writer with
    | none => .error .serialise
    | some bytes => .ok bytes

/-- Which file operations the operating system makes fail. -/
structure WriteFaults (β : Type) where
  create : Bool := false
  /-- `write_all` fails and leaves these bytes in the file. -/
  write : Option β := none
  sync : Bool := false
  rename : Bool := false

inductive FileOp
  | create
  | write
  | sync
  | rename
  | remove
  deriving DecidableEq

/-- The files, and every state they went through with the operation that led to it. -/
structure Disk (β : Type) where
  fs : FileSystem β
  trail : List (FileOp × FileSystem β) := []

def Disk.did (op : FileOp) (fs : FileSystem β) (d : Disk β) : Disk β :=
  ⟨fs, d.trail ++ [(op, fs)]⟩

/-- Failures are only logged. -/
def removeQuietly (p : Path) (d : Disk β) : Disk β :=
  match FileStore.remove p d.fs with
  | .ok fs => d.did .remove fs
  | .error _ => d

/-- A file written in place of the final one; `path` is empty once the file is given away. -/
structure TempFile where
  path : Option Path

namespace TempFile

/-- `Drop`. -/
def drop (temp : TempFile) (d : Disk β) : Disk β :=
  match temp.path with
  | some path => removeQuietly path d
  | none => d

variable [ByteString β]

/-- Creates `path`, writes `bytes` and flushes them to disk. -/
def write (faults : WriteFaults β) (now : SystemTime) (path : Path) (bytes : β) (d : Disk β) :
    Except BuildError TempFile × Disk β :=
  if faults.create then (.error (.create path), d)
  else
    match createFile now path d.fs with
    | .error _ => (.error (.create path), d)
    | .ok fs =>
      let d := d.did .create fs
      let temp : TempFile := ⟨some path⟩
      match faults.write with
      | some left =>
        (.error (.write path), temp.drop (d.did .write (FileStore.write left now path d.fs)))
      | none =>
        let d := d.did .write (FileStore.write bytes now path d.fs)
        if faults.sync then (.error (.sync path), temp.drop d)
        else (.ok temp, d.did .sync d.fs)

omit [ByteString β] in
/-- Atomically renames the file to `target`. -/
def persist (faults : WriteFaults β) (temp : TempFile) (target : Path) (d : Disk β) :
    Except BuildError Unit × Disk β :=
  match temp.path with
  | none => (.error .persisted, d)
  | some path =>
    if faults.rename then (.error (.rename path target), removeQuietly path d)
    else
      match FileStore.rename path target d.fs with
      | .error _ => (.error (.rename path target), removeQuietly path d)
      | .ok fs => (.ok (), d.did .rename fs)

end TempFile

def tempPath (output : Path) : Path := output.withExtension TMP

/-- Serialises `ipsets` into an IPv4 MMDB and replaces `output` with it; returns the size. -/
def writeMmdb [ByteString β] (M : MmdbWriter β) (faults : WriteFaults β) (now : SystemTime)
    (ipsets : List Ipset) (buildEpoch : SystemTime) (output : Path) (d : Disk β) :
    Except BuildError Nat × Disk β :=
  match serialise M ipsets buildEpoch with
  | .error e => (.error e, d)
  | .ok bytes =>
    match TempFile.write faults now (tempPath output) bytes d with
    | (.error e, d) => (.error e, d)
    | (.ok temp, d) =>
      match temp.persist faults output d with
      | (.error e, d) => (.error e, d)
      | (.ok (), d) => (.ok (ByteString.len bytes), d)

end IpReputation
