import IpReputation.Builder
import IpReputation.Mmdb

/-! Plain stand-ins for the external crates, enough to run the model on concrete inputs. -/
namespace IpReputation.Reference

inductive Value
  | string (s : String)
  | array (items : List Value)
  | map (fields : List (String × Value))

mutual

/-- Maps are united, arrays appended; anything else is replaced. -/
def mergeDeep : Value → Value → Value
  | .map xs, .map ys => .map (mergeFields xs ys ++ ys.filter fun y => (xs.lookup y.1).isNone)
  | .array xs, .array ys => .array (xs ++ ys)
  | _, y => y

def mergeFields : List (String × Value) → List (String × Value) → List (String × Value)
  | [], _ => []
  | (name, x) :: xs, ys =>
    (name, match ys.lookup name with
      | some y => mergeDeep x y
      | none => x) :: mergeFields xs ys

end

/-- A file is empty or a whole database; an empty file is no database. -/
inductive Bytes
  | empty
  | database (tree : Ipv4Addr → Option Value)

instance : ByteString Bytes where
  empty := .empty
  len := fun
    | .empty => 0
    | .database _ => 1

/-- The tree as the function from addresses to values. -/
def mmdbWriter : MmdbWriter Bytes where
  Value := Value
  string := .string
  array := .array
  map := .map
  mergeDeep := mergeDeep
  Writer := Ipv4Addr → Option Value
  build _ _ _ _ := fun _ => none
  insertWith tree network f := some fun a => if network.contains a then f (tree a) else tree a
  toBytes tree := some (.database tree)
  stored tree a := tree a

def Value.asString : Value → Option String
  | .string s => some s
  | _ => none

/-- The strings of the array field `name` of a map. -/
def Value.column (v : Value) (name : String) : Option (List String) :=
  match v with
  | .map fields =>
    match fields.lookup name with
    | some (.array items) => items.mapM Value.asString
    | _ => none
  | _ => none

def Value.entry (v : Value) : Option FireholEntry := do
  let fileName ← v.column FILE_NAME
  let sourceFileDateRfc3339 ← v.column SOURCE_FILE_DATE
  let listSourceUrl ← v.column LIST_SOURCE_URL
  let maintainerUrl ← v.column MAINTAINER_URL
  let maintainer ← v.column MAINTAINER
  let category ← v.column CATEGORY
  return { fileName, sourceFileDateRfc3339, listSourceUrl, maintainerUrl, maintainer, category }

def geoip2 : Geoip2 Bytes where
  Reader := Ipv4Addr → Option Value
  fromBytes bytes :=
    match bytes with
    | .empty => none
    | .database tree => some tree
  lookup tree ip :=
    match ip with
    | .v6 _ => .error .ipv4Only
    | .v4 a =>
      match tree a with
      | none => .error .notFound
      | some v =>
        match v.entry with
        | some e => .ok e
        | none => .error .other
  nodeCount _ := 1

/-- A database without any network. -/
def emptyReader : OwnedReader geoip2 := ⟨.database fun _ => none, fun _ => none, rfl⟩

/-- A decimal number below `bound` of at most `width` digits. -/
def number (width bound : Nat) (cs : List Char) : Option Nat :=
  let n := cs.foldl (fun n c => 10 * n + (c.toNat - '0'.toNat)) 0
  if cs ≠ [] ∧ cs.length ≤ width ∧ cs.all Char.isDigit ∧ n < bound then some n else none

/-- An octet has no leading zero. -/
def octet (cs : List Char) : Option Nat :=
  if cs.length > 1 ∧ cs.head? = some '0' then none else number 3 256 cs

/-- `a.b.c.d`. -/
def quad (octet : List Char → Option Nat) (s : String) : Option Ipv4Addr :=
  match (splitChars '.' s.toList).mapM octet with
  | some [a, b, c, d] => some (BitVec.ofNat 32 (((a * 256 + b) * 256 + c) * 256 + d))
  | _ => none

def addr (s : String) : Option Ipv4Addr := quad octet s

/-- `a.b.c.d/n`; unlike `std`, `ipnet` takes octets with leading zeros. -/
def cidr (s : String) : Option Ipv4Net := do
  let (host, bits) ← splitOnce '/' s
  let a ← quad (number 3 256) host
  let n ← number 2 33 bits.toList
  if h : n ≤ 32 then some ⟨a, n, h⟩ else none

/-- Dates are looked up among a few known ones. -/
def sourceFileDate (raw : String) : Option String :=
  [("Thu Sep 10 23:59:49 UTC 2026", "2026-09-10T23:59:49+00:00"),
    ("Fri Aug  7 10:10:14 UTC 2026", "2026-08-07T10:10:14+00:00")].lookup raw

def parsers : Parsers := ⟨addr, cidr, sourceFileDate⟩

/-- `10.0.0.0/8` and `192.0.2.1`, category `abuse`. -/
def abuseIpset : Ipset where
  fileName := "abuse.ipset"
  sections := [{
    metadata := {
      sourceFileDateRfc3339 := "2026-09-10T23:59:49+00:00"
      listSourceUrl := "https://a.example/list"
      maintainerUrl := "https://a.example"
      maintainer := "Team A"
      category := "abuse" }
    networks := [⟨0x0A000000#32, 8, by decide⟩, .ofAddr 0xC0000201#32] }]

/-- `10.1.0.0/16`, inside the range above, category `spam`. -/
def spamNetset : Ipset where
  fileName := "spam.netset"
  sections := [{
    metadata := {
      sourceFileDateRfc3339 := "2026-08-07T10:10:14+00:00"
      listSourceUrl := "https://b.example/list"
      maintainerUrl := "https://b.example"
      maintainer := "Team B"
      category := "spam" }
    networks := [⟨0x0A010000#32, 16, by decide⟩] }]

theorem lookup_mergeFields (xs ys : List (String × Value)) (name : String) :
    (mergeFields xs ys).lookup name = (xs.lookup name).map fun x =>
      match ys.lookup name with
      | some y => mergeDeep x y
      | none => x := by
  induction xs with
  | nil => rfl
  | cons x xs ih =>
    obtain ⟨key, v⟩ := x
    rw [mergeFields, List.lookup_cons, List.lookup_cons]
    by_cases hk : name = key
    · subst hk
      simp
    · simp [beq_false_of_ne hk, ih]

theorem lookup_filter_absent {xs ys : List (String × Value)} {name : String}
    (h : xs.lookup name = none) :
    (ys.filter fun y => (xs.lookup y.1).isNone).lookup name = ys.lookup name := by
  induction ys with
  | nil => rfl
  | cons y ys ih =>
    obtain ⟨key, v⟩ := y
    by_cases hk : name = key
    · subst hk
      simp [h]
    · by_cases hx : (xs.lookup key).isNone = true <;>
        simp [hx, List.lookup_cons, beq_false_of_ne hk, ih]

/-- The fields of two merged maps, name by name. -/
theorem lookup_union (xs ys : List (String × Value)) (name : String) :
    (mergeFields xs ys ++ ys.filter fun y => (xs.lookup y.1).isNone).lookup name =
      (xs.lookup name).merge mergeDeep (ys.lookup name) := by
  rw [List.lookup_append, lookup_mergeFields]
  cases hx : xs.lookup name with
  | none => cases hy : ys.lookup name <;> simp [lookup_filter_absent hx, hy]
  | some x => cases hy : ys.lookup name <;> simp

theorem keys_mergeFields (xs ys : List (String × Value)) :
    (mergeFields xs ys).map (·.1) = xs.map (·.1) := by
  induction xs with
  | nil => rfl
  | cons x xs ih =>
    obtain ⟨key, v⟩ := x
    rw [mergeFields, List.map_cons, List.map_cons, ih]

theorem lookup_isSome {xs : List (String × Value)} {name : String} (h : name ∈ xs.map (·.1)) :
    (xs.lookup name).isNone = false := by
  induction xs with
  | nil => cases h
  | cons x xs ih =>
    obtain ⟨key, v⟩ := x
    by_cases hk : name = key
    · subst hk
      simp
    · simp only [List.lookup_cons, beq_false_of_ne hk]
      exact ih (by simpa [hk] using h)

/-- A merge adds only the keys that are new. -/
theorem distinctKeys_union {xs ys : List (String × Value)} (hx : MmdbWriter.DistinctKeys xs)
    (hy : MmdbWriter.DistinctKeys ys) : MmdbWriter.DistinctKeys
      (mergeFields xs ys ++ ys.filter fun y => (xs.lookup y.1).isNone) := by
  rw [MmdbWriter.DistinctKeys, List.map_append, keys_mergeFields]
  refine List.nodup_append.mpr ⟨hx, hy.sublist (List.filter_sublist.map _), ?_⟩
  rintro key hkey _ hnew rfl
  obtain ⟨y, hy, rfl⟩ := List.mem_map.mp hnew
  simpa [lookup_isSome hkey] using (List.mem_filter.mp hy).2

theorem mmdbWriter_lawful : mmdbWriter.Lawful where
  stored_build _ _ _ _ _ := rfl
  stored_insertWith := by
    intro w network f w' a h
    cases h
    rfl
  mergeDeep_array _ _ := rfl
  mergeDeep_map xs ys hx hy := ⟨_, rfl, distinctKeys_union hx hy, lookup_union xs ys⟩

theorem column_map {fields : List (String × Value)} {name : String} {items : List Value}
    (h : fields.lookup name = some (.array items)) :
    (Value.map fields).column name = items.mapM Value.asString := by
  simp only [Value.column, h]

theorem column_of_holds {v : Value} {name : String} {strings : List String}
    (h : mmdbWriter.Column v name strings) : v.column name = some strings := by
  obtain ⟨fields, rfl, -, hl⟩ := h
  have hmap : ∀ xs : List String, (xs.map Value.string).mapM Value.asString = some xs := by
    intro xs
    induction xs with
    | nil => rfl
    | cons x xs ih => simp [List.mapM_cons, Value.asString, ih]
  exact (column_map hl).trans (hmap strings)

theorem geoip2_readsUpTo (limit : Nat) : geoip2.ReadsUpTo mmdbWriter limit where
  lookup_absent := by
    intro w bytes r a hb hr hs
    cases hb
    cases hr
    show (match w a with | none => _ | some v => _) = _
    rw [show w a = none from hs]
  lookup_stored := by
    intro w bytes r a v e hb hr hs he _
    cases hb
    cases hr
    show (match w a with | none => _ | some v => _) = _
    rw [show w a = some v from hs]
    have hentry : Value.entry v = some e := by
      simp [Value.entry, column_of_holds he.fileName, column_of_holds he.sourceFileDate,
        column_of_holds he.listSourceUrl, column_of_holds he.maintainerUrl,
        column_of_holds he.maintainer, column_of_holds he.category]
    simp [hentry]
  lookup_v6 := by
    intro w bytes r a hb hr
    cases hb
    cases hr
    rfl

theorem geoip2_reads : geoip2.Reads mmdbWriter := geoip2_readsUpTo

end IpReputation.Reference
