import IpReputation.Database
import IpReputation.Library.CounterVec

/-! `mmdb.rs` and `metrics.rs`: the served database snapshot and the exported counters. -/
namespace IpReputation

open FileStore (IoError)

variable {β : Type}

/-- Database bytes together with the reader built from them. -/
structure OwnedReader (G : Geoip2 β) where
  owner : β
  dependent : G.Reader
  built : G.fromBytes owner = some dependent

/-- `OwnedReader::try_new`. -/
def OwnedReader.tryNew (G : Geoip2 β) (bytes : β) : Option (OwnedReader G) :=
  match h : G.fromBytes bytes with
  | none => none
  | some reader => some ⟨bytes, reader, h⟩

structure Snapshot (G : Geoip2 β) where
  reader : OwnedReader G
  /-- Modification time of the file this snapshot was loaded from. -/
  modified : Option SystemTime

/-- The counters and the gauge of `metrics.rs`. -/
structure Metrics where
  /-- By list file, maintainer and category. -/
  ipBlockedRequests : CounterVec (String × String × String) := .empty
  ipAllowedRequests : Nat := 0
  mmdbNodeCount : Int := 0
  /-- By file path. -/
  mmdbFileLoaded : CounterVec String := .empty

/-- `Mmdb`'s snapshot and the metrics, as one thread at a time sees them. -/
structure Served (G : Geoip2 β) where
  snapshot : Option (Snapshot G) := none
  metrics : Metrics := {}

inductive LoadError
  | metadata (p : Path)
  | read (p : Path)
  | parse (p : Path)
  deriving DecidableEq

/-- Which file operations fail although the file is there. -/
structure LoadFaults where
  stat : Bool := false
  read : Bool := false

def modifiedTime (faults : LoadFaults) (p : Path) (fs : FileSystem β) : Except IoError SystemTime :=
  if faults.stat then .error .other
  else
    match metadata p fs with
    | .error e => .error e
    | .ok node => .ok node.modified

/-- `fs::read`, when the operating system lets it. -/
def tryRead (faults : LoadFaults) (p : Path) (fs : FileSystem β) : Except IoError β :=
  if faults.read then .error .other else readFile p fs

/-- `MMDB_NODE_COUNT.set`. -/
def Metrics.setNodeCount (n : UInt32) (m : Metrics) : Metrics :=
  { m with mmdbNodeCount := n.toNat }

/-- `MMDB_FILE_LOADED.with_label_values(..).inc()`. -/
def Metrics.countLoad (label : String) (m : Metrics) : Metrics :=
  { m with mmdbFileLoaded := m.mmdbFileLoaded.inc label }

namespace Mmdb

variable {G : Geoip2 β} (lossy : Path → String) (faults : LoadFaults) (path : Path)
  (fs : FileSystem β) (s : Served G)

/-- Gauge, then snapshot, then counter; `lossy` is `Path::to_string_lossy`. -/
def publish (reader : OwnedReader G) (modified : Option SystemTime) : Served G :=
  let metrics := s.metrics.setNodeCount (G.nodeCount reader.dependent)
  ⟨some ⟨reader, modified⟩, metrics.countLoad (lossy path)⟩

def loadLocked (modified : Option SystemTime) : Except LoadError Unit × Served G :=
  match tryRead faults path fs with
  | .error _ => (.error (.read path), s)
  | .ok bytes =>
    match OwnedReader.tryNew G bytes with
    | none => (.error (.parse path), s)
    | some reader => (.ok (), publish lossy path s reader modified)

/-- Loads (or reloads) the database from `path`; a failing `stat` is no error here. -/
def load : Except LoadError Unit × Served G :=
  loadLocked lossy faults path fs s (modifiedTime faults path fs).toOption

/-- `snapshot.modified == Some(modified)`. -/
def unchanged (snapshot : Option (Snapshot G)) (modified : SystemTime) : Bool :=
  match snapshot with
  | some snapshot => snapshot.modified == some modified
  | none => false

/-- Reloads the database only when the file modification time differs from the loaded
snapshot's. Returns `Ok(true)` when a reload happened. -/
def reloadIfChanged : Except LoadError Bool × Served G :=
  match modifiedTime faults path fs with
  | .error _ => (.error (.metadata path), s)
  | .ok modified =>
    if unchanged s.snapshot modified then (.ok false, s)
    else
      match loadLocked lossy faults path fs s (some modified) with
      | (.error e, s) => (.error e, s)
      | (.ok (), s) => (.ok true, s)

/-- Hands the record of `addr` to `f`; nothing when no database or no record is there. -/
def lookup {R : Type} (snapshot : Option (Snapshot G)) (addr : IpAddr) (f : FireholEntry → R) :
    Option R :=
  match snapshot with
  | none => none
  | some snapshot =>
    match G.lookup snapshot.reader.dependent addr with
    | .ok entry => some (f entry)
    | .error .notFound | .error .ipv4Only => none
    | .error .other => none

variable {lossy faults path fs s} {s' : Served G} {modified : Option SystemTime}

theorem tryNew_owner {bytes : β} {reader : OwnedReader G}
    (h : OwnedReader.tryNew G bytes = some reader) : reader.owner = bytes := by
  simp only [OwnedReader.tryNew] at h
  split at h <;> cases h
  rfl

/-- The ways `load_locked` ends. -/
theorem loadLocked_cases (h : loadLocked lossy faults path fs s modified = r) :
    (∃ e, r = (.error e, s)) ∨
    ∃ bytes reader, tryRead faults path fs = .ok bytes ∧ reader.owner = bytes ∧
      r = (.ok (), publish lossy path s reader modified) := by
  subst h
  simp only [loadLocked]
  split
  · exact .inl ⟨_, rfl⟩
  · rename_i bytes hb
    split
    · exact .inl ⟨_, rfl⟩
    · rename_i reader hr
      exact .inr ⟨bytes, reader, hb, tryNew_owner hr, rfl⟩

theorem readFile_of_tryRead {bytes : β} (h : tryRead faults path fs = .ok bytes) :
    readFile path fs = .ok bytes := by
  simp only [tryRead] at h
  split at h
  · cases h
  · exact h

/-- A successful load serves the file's bytes. -/
theorem load_ok (h : load lossy faults path fs s = (.ok (), s')) :
    ∃ snapshot, s'.snapshot = some snapshot ∧ readFile path fs = .ok snapshot.reader.owner := by
  rcases loadLocked_cases h with ⟨e, he⟩ | ⟨bytes, reader, hb, rfl, hr⟩
  · simp at he
  · obtain ⟨-, rfl⟩ := Prod.mk.inj hr
    exact ⟨_, rfl, readFile_of_tryRead hb⟩

/-- After an `Ok`, reloaded or not, there is a database. -/
theorem reloadIfChanged_ok {b : Bool}
    (h : reloadIfChanged lossy faults path fs s = (.ok b, s')) : s'.snapshot.isSome := by
  simp only [reloadIfChanged] at h
  split at h
  · simp at h
  · rename_i modified _
    split at h
    · rename_i hsame
      obtain ⟨-, rfl⟩ := Prod.mk.inj h
      cases hsnap : s.snapshot with
      | none => simp [unchanged, hsnap] at hsame
      | some snapshot => rfl
    · split at h
      · simp at h
      · rename_i s₁ hload
        obtain ⟨-, rfl⟩ := Prod.mk.inj h
        rcases loadLocked_cases hload with ⟨e, he⟩ | ⟨bytes, reader, -, -, hr⟩
        · simp at he
        · rw [(Prod.mk.inj hr).2]
          rfl

end Mmdb

end IpReputation
