import IpReputation.Mmdb
import Mathlib.Data.Finset.Basic

/-! `spoa.rs`: which list, if any, makes the agent drop an address. -/
namespace IpReputation

variable {β : Type} {G : Geoip2 β}

def UNKNOWN : String := "unknown"

/-- The operator's choice of lists. -/
structure IpFilter where
  dropCategories : Finset String
  dropFileNames : Finset String

inductive Reason
  | category
  | fileName
  deriving DecidableEq

/-- Position, in the record's parallel arrays, of the list that caused a block. -/
structure Match where
  index : Nat
  reason : Reason
  deriving DecidableEq

/-- A category match takes precedence over a file-name match; the first hit wins. -/
def IpFilter.findMatch (filter : IpFilter) (entry : FireholEntry) : Option Match :=
  let byCategory := (entry.category.findIdx? (· ∈ filter.dropCategories)).map fun index =>
    (⟨index, .category⟩ : Match)
  byCategory.or
    ((entry.fileName.findIdx? (· ∈ filter.dropFileNames)).map fun index => ⟨index, .fileName⟩)

/-- Element `index` of a record array, or `"unknown"` when the arrays are not aligned. -/
def field (values : List String) (index : Nat) : String := (values[index]?).getD UNKNOWN

/-- The counter half of `record_block`; the other half only logs. -/
def recordBlock (entry : FireholEntry) (hit : Match) (m : Metrics) : Metrics :=
  let fileName := field entry.fileName hit.index
  let maintainer := field entry.maintainer hit.index
  let category := field entry.category hit.index
  { m with ipBlockedRequests := m.ipBlockedRequests.inc (fileName, maintainer, category) }

/-- `IP_BLOCKED_REQUESTS.with_label_values(..).inc()`. -/
def Metrics.countBlocked (m : Metrics) (label : String × String × String) : Metrics :=
  { m with ipBlockedRequests := m.ipBlockedRequests.inc label }

/-- `true` when `ip` belongs to a dropped category or list file. -/
def IpFilter.shouldDrop (filter : IpFilter) (snapshot : Option (Snapshot G)) (ip : IpAddr)
    (m : Metrics) : Bool × Metrics :=
  let verdict := Mmdb.lookup snapshot ip fun entry =>
    match filter.findMatch entry with
    | some hit => (true, recordBlock entry hit m)
    | none => (false, m)
  verdict.getD (false, m)

variable {filter : IpFilter} {entry : FireholEntry}

/-- Something matches when a dropped category or a dropped file name occurs in the record. -/
theorem findMatch_isSome : (filter.findMatch entry).isSome = true ↔
    (∃ c ∈ entry.category, c ∈ filter.dropCategories) ∨
      ∃ f ∈ entry.fileName, f ∈ filter.dropFileNames := by
  simp [IpFilter.findMatch, Option.isSome_or]

/-- The verdict is whether the record, if there is one, has a match. -/
theorem shouldDrop_iff_findMatch {snapshot : Snapshot G} {ip : IpAddr} {m : Metrics} :
    (filter.shouldDrop (some snapshot) ip m).1 = true ↔
      ∃ entry, G.lookup snapshot.reader.dependent ip = .ok entry ∧
        (filter.findMatch entry).isSome = true := by
  simp only [IpFilter.shouldDrop, Mmdb.lookup]
  cases hl : G.lookup snapshot.reader.dependent ip with
  | error e => cases e <;> simp
  | ok entry => cases hf : filter.findMatch entry <;> simp [hf]

/-- A lookup counts at most one blocked request, and touches no other metric. -/
theorem shouldDrop_metrics (filter : IpFilter) (snapshot : Option (Snapshot G)) (ip : IpAddr)
    (m : Metrics) :
    (filter.shouldDrop snapshot ip m).2 = m ∨
      ∃ entry hit, (filter.shouldDrop snapshot ip m).2 = recordBlock entry hit m := by
  cases snapshot with
  | none => exact .inl rfl
  | some snapshot =>
    simp only [IpFilter.shouldDrop, Mmdb.lookup]
    cases hl : G.lookup snapshot.reader.dependent ip with
    | error e => cases e <;> exact .inl rfl
    | ok entry =>
      cases hf : filter.findMatch entry with
      | none => exact .inl (by simp [hf])
      | some hit => exact .inr ⟨entry, hit, by simp [hf]⟩

end IpReputation
