import IpReputation.Library.FileStore
import IpReputation.Path

/-! Clock readings and the files the program reads and writes. -/
namespace IpReputation

open FileStore (IoError Node)

/-- `SystemTime`: nanoseconds since the Unix epoch, negative before it. -/
abbrev SystemTime := Int

/-- Nanoseconds in a second. -/
def nanos : Int := 1000000000

def i64Max : Int := 9223372036854775807

/-- Byte strings the program moves around without looking inside. -/
class ByteString (β : Type) where
  empty : β
  len : β → Nat

instance : ByteString (List UInt8) := ⟨[], List.length⟩

abbrev FileSystem (β : Type) := FileStore.Store Path β SystemTime

variable {β : Type}

/-- `File::create`. A path that ends in no name, as `/` or `..`, can only be a directory. -/
def createFile [ByteString β] (now : SystemTime) (p : Path) (fs : FileSystem β) :
    Except IoError (FileSystem β) :=
  if p.fileName = none then .error .isDirectory
  else FileStore.create ByteString.empty now p fs

/-- `fs::metadata`. -/
def metadata (p : Path) (fs : FileSystem β) : Except IoError (Node β SystemTime) :=
  match fs p with
  | none => .error .notFound
  | some node => .ok node

/-- `fs::read`. -/
def readFile (p : Path) (fs : FileSystem β) : Except IoError β :=
  match fs p with
  | none => .error .notFound
  | some (.directory _) => .error .isDirectory
  | some (.file bytes _) => .ok bytes

/-- `Path::is_file`. -/
def isFile (p : Path) (fs : FileSystem β) : Bool :=
  match metadata p fs with
  | .ok node => node.isFile
  | .error _ => false

theorem createFile_eq [ByteString β] {now : SystemTime} {p : Path} {fs fs' : FileSystem β}
    (h : createFile now p fs = .ok fs') :
    p.fileName ≠ none ∧ fs' = Function.update fs p (some (.file ByteString.empty now)) := by
  unfold createFile at h
  split at h
  · cases h
  · exact ⟨‹_›, FileStore.create_eq h⟩

end IpReputation
