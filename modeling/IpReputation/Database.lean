import IpReputation.FileSystem
import IpReputation.Net

/-! The `mmdb_writer` and `geoip2` crates as the program sees them, and what it relies on. -/
namespace IpReputation

variable {β : Type}

inductive IpVersion
  | v4
  | v6

inductive RecordSize
  | bits24
  | bits28
  | bits32

/-- `mmdb_writer`: record values, the tree writer and its serialiser. -/
structure MmdbWriter (β : Type) where
  Value : Type
  string : String → Value
  array : List Value → Value
  map : List (String × Value) → Value
  /-- `Value::merge_deep(old, new)`. -/
  mergeDeep : Value → Value → Value
  Writer : Type
  /-- `Writer::builder(database_type)` with the options given, `.build()`. -/
  build : String → IpVersion → RecordSize → SystemTime → Writer
  insertWith : Writer → Ipv4Net → (Option Value → Option Value) → Option Writer
  toBytes : Writer → Option β
  /-- The value an address has in the tree. -/
  stored : Writer → Ipv4Addr → Option Value

/-- `geoip2::FireholEntry`, of `geoip2-rs.patch`. -/
structure FireholEntry where
  fileName : List String := []
  sourceFileDateRfc3339 : List String := []
  listSourceUrl : List String := []
  maintainerUrl : List String := []
  maintainer : List String := []
  category : List String := []
  deriving DecidableEq

inductive LookupError
  | notFound
  | ipv4Only
  | other
  deriving DecidableEq

/-- `geoip2`: the reader of a serialised database. -/
structure Geoip2 (β : Type) where
  Reader : Type
  fromBytes : β → Option Reader
  lookup : Reader → IpAddr → Except LookupError FireholEntry
  /-- `get_metadata().node_count`. -/
  nodeCount : Reader → UInt32

-- Record field names; they match the fields of `FireholEntry`.
def FILE_NAME : String := "file_name"

def SOURCE_FILE_DATE : String := "source_file_date_rfc3339"

def LIST_SOURCE_URL : String := "list_source_url"

def MAINTAINER_URL : String := "maintainer_url"

def MAINTAINER : String := "maintainer"

def CATEGORY : String := "category"

namespace MmdbWriter

/-- No key stands twice, as in the map type of the crate. -/
def DistinctKeys {V : Type} (fields : List (String × V)) : Prop := (fields.map (·.1)).Nodup

/-- The value is a map whose `name` is the array of these strings. -/
def Column (M : MmdbWriter β) (v : M.Value) (name : String) (strings : List String) : Prop :=
  ∃ fields, v = M.map fields ∧ DistinctKeys fields ∧
    fields.lookup name = some (M.array (strings.map M.string))

/-- The value spells out the six arrays of an entry. -/
structure Holds (M : MmdbWriter β) (v : M.Value) (e : FireholEntry) : Prop where
  fileName : M.Column v FILE_NAME e.fileName
  sourceFileDate : M.Column v SOURCE_FILE_DATE e.sourceFileDateRfc3339
  listSourceUrl : M.Column v LIST_SOURCE_URL e.listSourceUrl
  maintainerUrl : M.Column v MAINTAINER_URL e.maintainerUrl
  maintainer : M.Column v MAINTAINER e.maintainer
  category : M.Column v CATEGORY e.category

/-- What the program relies on in the writer: an insertion maps the value of exactly the
addresses of its network, and a deep merge unites maps and appends arrays, old first. -/
structure Lawful (M : MmdbWriter β) : Prop where
  stored_build : ∀ databaseType ipVersion recordSize epoch a,
    M.stored (M.build databaseType ipVersion recordSize epoch) a = none
  stored_insertWith : ∀ w network f w' a, M.insertWith w network f = some w' →
    M.stored w' a = if network.contains a then f (M.stored w a) else M.stored w a
  mergeDeep_array : ∀ xs ys, M.mergeDeep (M.array xs) (M.array ys) = M.array (xs ++ ys)
  mergeDeep_map : ∀ xs ys, DistinctKeys xs → DistinctKeys ys → ∃ fields,
    M.mergeDeep (M.map xs) (M.map ys) = M.map fields ∧ DistinctKeys fields ∧
      ∀ name, fields.lookup name = (xs.lookup name).merge M.mergeDeep (ys.lookup name)

end MmdbWriter

def FireholEntry.columns (e : FireholEntry) : List (List String) :=
  [e.fileName, e.sourceFileDateRfc3339, e.listSourceUrl, e.maintainerUrl, e.maintainer, e.category]

/-- What the program relies on in the reader of a serialised tree: a lookup returns the stored
value if no column of it is longer than `limit`, `NotFound` when there is none, and `IPv4Only` for
an IPv6 address. -/
structure Geoip2.ReadsUpTo (G : Geoip2 β) (M : MmdbWriter β) (limit : Nat) : Prop where
  lookup_absent : ∀ w bytes r a, M.toBytes w = some bytes → G.fromBytes bytes = some r →
    M.stored w a = none → G.lookup r (.v4 a) = .error .notFound
  lookup_stored : ∀ w bytes r a v e, M.toBytes w = some bytes → G.fromBytes bytes = some r →
    M.stored w a = some v → M.Holds v e → (∀ column ∈ e.columns, column.length ≤ limit) →
    G.lookup r (.v4 a) = .ok e
  lookup_v6 : ∀ w bytes r a, M.toBytes w = some bytes → G.fromBytes bytes = some r →
    G.lookup r (.v6 a) = .error .ipv4Only

/-- The same for records of every size; a reader that bounds what it decodes keeps it only up to
its bound. -/
def Geoip2.Reads (G : Geoip2 β) (M : MmdbWriter β) : Prop := ∀ limit, G.ReadsUpTo M limit

variable {M : MmdbWriter β} {v w : M.Value} {name : String} {xs ys : List String}

/-- Merging appends a column that both values have. -/
theorem MmdbWriter.Column.merge (hM : M.Lawful) (hv : M.Column v name xs)
    (hw : M.Column w name ys) : M.Column (M.mergeDeep v w) name (xs ++ ys) := by
  obtain ⟨vs, rfl, hvkeys, hvs⟩ := hv
  obtain ⟨ws, rfl, hwkeys, hws⟩ := hw
  obtain ⟨fields, hf, hkeys, hlookup⟩ := hM.mergeDeep_map vs ws hvkeys hwkeys
  refine ⟨fields, hf, hkeys, ?_⟩
  rw [hlookup, hvs, hws]
  simp [hM.mergeDeep_array]

end IpReputation
