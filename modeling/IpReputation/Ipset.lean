import IpReputation.Net
import IpReputation.Text
import Mathlib.Algebra.GroupWithZero.Nat

/-! `ipset.rs`: the parser for FireHOL `.ipset` and `.netset` files. -/
namespace IpReputation

/-- Header fields stored alongside every network of a file. Missing fields stay empty. -/
structure Metadata where
  sourceFileDateRfc3339 : String := ""
  listSourceUrl : String := ""
  maintainerUrl : String := ""
  maintainer : String := ""
  category : String := ""
  deriving DecidableEq

/-- Networks sharing the same header values. -/
structure Section where
  metadata : Metadata
  networks : List Ipv4Net
  deriving DecidableEq

structure Ipset where
  fileName : String
  sections : List Section
  deriving DecidableEq

def Ipset.networkCount (ipset : Ipset) : Nat :=
  (ipset.sections.map fun s => s.networks.length).sum

inductive HeaderKey
  | category
  | maintainerUrl
  | maintainer
  | listSourceUrl
  | sourceFileDate
  deriving DecidableEq

/-- The address, CIDR and date parsers of `std`, `ipnet` and `chrono`. -/
structure Parsers where
  addr : String → Option Ipv4Addr
  cidr : String → Option Ipv4Net
  /-- The RFC 3339 form of a `date -u` value. -/
  sourceFileDate : String → Option String

namespace HeaderKey

def parse (key : String) : Option HeaderKey :=
  match key with
  | "Category" => some category
  | "Maintainer URL" => some maintainerUrl
  | "Maintainer" => some maintainer
  | "List source URL" => some listSourceUrl
  | "Source File Date" => some sourceFileDate
  | _ => none

def value (P : Parsers) (key : HeaderKey) (raw : String) : Option String :=
  match key with
  | sourceFileDate => P.sourceFileDate raw
  | _ => some raw

/-- Reading through `HeaderKey::slot`. -/
def slot (key : HeaderKey) (m : Metadata) : String :=
  match key with
  | category => m.category
  | maintainerUrl => m.maintainerUrl
  | maintainer => m.maintainer
  | listSourceUrl => m.listSourceUrl
  | sourceFileDate => m.sourceFileDateRfc3339

/-- Writing through `HeaderKey::slot`. -/
def setSlot (key : HeaderKey) (v : String) (m : Metadata) : Metadata :=
  match key with
  | category => { m with category := v }
  | maintainerUrl => { m with maintainerUrl := v }
  | maintainer => { m with maintainer := v }
  | listSourceUrl => { m with listSourceUrl := v }
  | sourceFileDate => { m with sourceFileDateRfc3339 := v }

/-- `Display` of a key. -/
def display (key : HeaderKey) : String :=
  match key with
  | category => "Category"
  | maintainerUrl => "Maintainer URL"
  | maintainer => "Maintainer"
  | listSourceUrl => "List source URL"
  | sourceFileDate => "Source File Date"

@[simp] theorem parse_display (key : HeaderKey) : parse key.display = some key := by
  cases key <;> rfl

/-- The keys `parse` knows are exactly the displayed ones. -/
theorem parse_eq_some {s : String} {key : HeaderKey} : parse s = some key ↔ s = key.display := by
  constructor
  · intro h
    unfold parse at h
    split at h <;> cases h <;> rfl
  · rintro rfl
    exact parse_display key

@[simp] theorem slot_setSlot (key : HeaderKey) (v : String) (m : Metadata) :
    key.slot (key.setSlot v m) = v := by
  cases key <;> rfl

theorem slot_setSlot_ne {key other : HeaderKey} (h : other ≠ key) (v : String) (m : Metadata) :
    other.slot (key.setSlot v m) = other.slot m := by
  cases key <;> cases other <;> first | rfl | exact absurd rfl h

@[simp] theorem setSlot_slot (key : HeaderKey) (m : Metadata) : key.setSlot (key.slot m) m = m := by
  cases key <;> rfl

end HeaderKey

/-- What `parse` reports: the file, the 1-based line and the offending key or entry. -/
inductive ParseError
  | invalidHeader (fileName : String) (lineNumber : Nat) (key : HeaderKey)
  | invalidEntry (fileName : String) (lineNumber : Nat) (entry : String)
  deriving DecidableEq

def ParseError.lineNumber : ParseError → Nat
  | invalidHeader _ n _ | invalidEntry _ n _ => n

/-- Parses `a.b.c.d/n` or a bare `a.b.c.d` (treated as `/32`). -/
def parseNetwork (P : Parsers) (entry : String) : Option Ipv4Net :=
  if '/' ∈ entry.toList then P.cidr entry else (P.addr entry).map Ipv4Net.ofAddr

/-- The loop's accumulators. -/
structure ParseState where
  networks : List Ipv4Net := []
  sections : List Section := []
  metadata : Metadata := {}
  deriving DecidableEq

/-- `*slot != value`: networks already read keep the old header in a section of their own. -/
def updateHeader (key : HeaderKey) (value : String) (st : ParseState) : ParseState :=
  if key.slot st.metadata ≠ value then
    let frozen :=
      if st.networks ≠ [] then
        { st with sections := st.sections ++ [⟨st.metadata, st.networks⟩], networks := [] }
      else st
    { frozen with metadata := key.setSlot value frozen.metadata }
  else st

/-- One iteration of the loop of `parse`. -/
def parseLine (P : Parsers) (fileName : String) (lineNumber : Nat) (rawLine : String)
    (st : ParseState) : Except ParseError ParseState :=
  match stripPrefix '#' rawLine with
  | some comment =>
    match splitOnce ':' (trim comment) with
    | none => .ok st
    | some (key, value) =>
      match HeaderKey.parse (trimEnd key) with
      | none => .ok st
      | some key =>
        match key.value P (trim value) with
        | none => .error (.invalidHeader fileName lineNumber key)
        | some value => .ok (updateHeader key value st)
  | none =>
    let entry := trim rawLine
    if entry = "" then .ok st
    else
      match parseNetwork P entry with
      | none => .error (.invalidEntry fileName lineNumber entry)
      | some network => .ok { st with networks := st.networks ++ [network] }

/-- The loop of `parse`; `index` is that of the first line given. -/
def parseLines (P : Parsers) (fileName : String) :
    Nat → List String → ParseState → Except ParseError ParseState
  | _, [], st => .ok st
  | index, rawLine :: rest, st =>
    match parseLine P fileName (index + 1) rawLine st with
    | .error e => .error e
    | .ok st => parseLines P fileName (index + 1) rest st

/-- The flush after the loop. -/
def ParseState.finish (st : ParseState) : List Section :=
  if st.networks ≠ [] then st.sections ++ [⟨st.metadata, st.networks⟩] else st.sections

/-- Parses the content of the list file `fileName`. Fails on the first malformed line. -/
def parse (P : Parsers) (fileName content : String) : Except ParseError Ipset :=
  match parseLines P fileName 0 (lines content) {} with
  | .error e => .error e
  | .ok st => .ok ⟨fileName, st.finish⟩

end IpReputation
