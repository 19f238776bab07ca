import IpReputation.Ipset

/-! A line-by-line reading of a list file, and the parser's agreement with it. -/
namespace IpReputation

variable {P : Parsers} {fileName content text raw : String} {m : Metadata} {ls above : List String}
  {st st' : ParseState} {network : Ipv4Net} {key : HeaderKey} {n : Nat} {l : String}

/-- What a line says on its own. -/
inductive Line
  | header (key : HeaderKey) (raw : String)
  | ignored
  | entry (text : String)
  deriving DecidableEq

def classify (rawLine : String) : Line :=
  match stripPrefix '#' rawLine with
  | some comment =>
    match splitOnce ':' (trim comment) with
    | none => .ignored
    | some (key, value) =>
      match HeaderKey.parse (trimEnd key) with
      | none => .ignored
      | some key => .header key (trim value)
  | none => if trim rawLine = "" then .ignored else .entry (trim rawLine)

/-- The value a header line gives to `key`. -/
def headerValue (P : Parsers) (key : HeaderKey) (rawLine : String) : Option String :=
  match classify rawLine with
  | .header k raw => if k = key then k.value P raw else none
  | _ => none

/-- The network of an entry line. -/
def networkLine (P : Parsers) (rawLine : String) : Option Ipv4Net :=
  match classify rawLine with
  | .entry text => parseNetwork P text
  | _ => none

/-- The last value seen for `key`, or the empty string. -/
def lastValue (P : Parsers) (key : HeaderKey) (above : List String) : String :=
  ((above.filterMap (headerValue P key)).getLast?).getD ""

/-- The header in force after a line. -/
def headerAfter (P : Parsers) (m : Metadata) (rawLine : String) : Metadata :=
  match classify rawLine with
  | .header key raw =>
    match key.value P raw with
    | some value => key.setSlot value m
    | none => m
  | _ => m

/-- Every entry of the lines with the header in force at it, in file order. -/
def entriesOf (P : Parsers) (m : Metadata) : List String → List (Metadata × Ipv4Net)
  | [] => []
  | l :: ls =>
    ((networkLine P l).map (m, ·)).toList ++ entriesOf P (headerAfter P m l) ls

def sectionEntries (s : Section) : List (Metadata × Ipv4Net) := s.networks.map (s.metadata, ·)

/-- The sections' networks, each with its section's header. -/
def Ipset.entries (ipset : Ipset) : List (Metadata × Ipv4Net) :=
  ipset.sections.flatMap sectionEntries

/-- What the accumulators stand for before the final flush. -/
def ParseState.entries (st : ParseState) : List (Metadata × Ipv4Net) :=
  st.sections.flatMap sectionEntries ++ st.networks.map (st.metadata, ·)

theorem updateHeader_metadata (key : HeaderKey) (value : String) (st : ParseState) :
    (updateHeader key value st).metadata = key.setSlot value st.metadata := by
  by_cases h : key.slot st.metadata = value
  · subst h
    simp [updateHeader]
  · by_cases hn : st.networks = [] <;> simp [updateHeader, h, hn]

/-- Freezing a section moves networks, it neither adds nor relabels any. -/
theorem updateHeader_entries (key : HeaderKey) (value : String) (st : ParseState) :
    (updateHeader key value st).entries = st.entries := by
  by_cases h : key.slot st.metadata = value
  · simp [updateHeader, h]
  · by_cases hn : st.networks = []
    · simp [updateHeader, h, hn, ParseState.entries]
    · simp [updateHeader, h, hn, ParseState.entries, sectionEntries]

theorem parseLine_of_ignored (h : classify l = .ignored) :
    parseLine P fileName n l st = .ok st := by
  unfold classify at h
  unfold parseLine
  cases hc : stripPrefix '#' l with
  | none => simp_all
  | some comment =>
    cases hs : splitOnce ':' (trim comment) with
    | none => simp only [hs]
    | some kv => cases hk : HeaderKey.parse (trimEnd kv.1) <;> simp_all

theorem parseLine_of_header (h : classify l = .header key raw) :
    parseLine P fileName n l st = (key.value P raw).elim
      (.error (.invalidHeader fileName n key)) fun value => .ok (updateHeader key value st) := by
  unfold classify at h
  unfold parseLine
  cases hc : stripPrefix '#' l with
  | none =>
    simp only [hc] at h
    split at h <;> cases h
  | some comment =>
    cases hs : splitOnce ':' (trim comment) with
    | none => simp_all
    | some kv =>
      cases hk : HeaderKey.parse (trimEnd kv.1) with
      | none => simp_all
      | some k =>
        simp only [hc, hs, hk, Line.header.injEq] at h
        obtain ⟨rfl, rfl⟩ := h
        simp only [hs, hk]
        cases k.value P (trim kv.2) <;> rfl

theorem parseLine_of_entry (h : classify l = .entry text) :
    parseLine P fileName n l st = (parseNetwork P text).elim
      (.error (.invalidEntry fileName n text))
      fun network => .ok { st with networks := st.networks ++ [network] } := by
  unfold classify at h
  unfold parseLine
  cases hc : stripPrefix '#' l with
  | some comment =>
    simp only [hc] at h
    split at h
    · cases h
    · split at h <;> cases h
  | none =>
    by_cases he : trim l = ""
    · simp_all
    · simp only [hc, he, if_false, Line.entry.injEq] at h
      subst h
      simp only [he, if_false]
      cases parseNetwork P (trim l) <;> rfl

/-- Everything an accepted line can do to the accumulators. -/
theorem parseLine_cases (h : parseLine P fileName n l st = .ok st') :
    (classify l = .ignored ∧ st' = st) ∨
    (∃ key raw value, classify l = .header key raw ∧ key.value P raw = some value ∧
      st' = updateHeader key value st) ∨
    (∃ text network, classify l = .entry text ∧ parseNetwork P text = some network ∧
      st' = { st with networks := st.networks ++ [network] }) := by
  cases hc : classify l with
  | ignored =>
    rw [parseLine_of_ignored hc] at h
    exact .inl ⟨rfl, (Except.ok.inj h).symm⟩
  | header key raw =>
    rw [parseLine_of_header hc] at h
    cases hv : key.value P raw with
    | none => simp [hv] at h
    | some value =>
      simp only [hv, Option.elim_some, Except.ok.injEq] at h
      exact .inr (.inl ⟨key, raw, value, rfl, hv, h.symm⟩)
  | entry text =>
    rw [parseLine_of_entry hc] at h
    cases hp : parseNetwork P text with
    | none => simp [hp] at h
    | some network =>
      simp only [hp, Option.elim_some, Except.ok.injEq] at h
      exact .inr (.inr ⟨text, network, rfl, hp, h.symm⟩)

/-- A line's effect on the entries and on the headers in force. -/
theorem parseLine_ok (h : parseLine P fileName n l st = .ok st') :
    st'.entries = st.entries ++ ((networkLine P l).map (st.metadata, ·)).toList ∧
      st'.metadata = headerAfter P st.metadata l := by
  obtain ⟨hc, rfl⟩ | ⟨key, raw, value, hc, hv, rfl⟩ | ⟨text, network, hc, hp, rfl⟩ :=
    parseLine_cases h
  · simp [networkLine, headerAfter, hc]
  · simp [networkLine, headerAfter, hc, hv, updateHeader_entries, updateHeader_metadata]
  · simp [networkLine, headerAfter, hc, hp, ParseState.entries]

theorem parseLines_entries (h : parseLines P fileName n ls st = .ok st') :
    st'.entries = st.entries ++ entriesOf P st.metadata ls := by
  induction ls generalizing n st with
  | nil =>
    cases h
    simp [entriesOf]
  | cons l ls ih =>
    unfold parseLines at h
    cases hl : parseLine P fileName (n + 1) l st with
    | error e => simp [hl] at h
    | ok st₁ =>
      simp only [hl] at h
      obtain ⟨he, hm⟩ := parseLine_ok hl
      rw [ih h, he, hm, entriesOf, List.append_assoc]

theorem ParseState.finish_entries (st : ParseState) :
    st.finish.flatMap sectionEntries = st.entries := by
  by_cases hn : st.networks = [] <;> simp [finish, entries, hn, sectionEntries]

/-- A parsed file holds the entries of its lines, in order, under the headers in force. -/
theorem parse_entries {ipset : Ipset} (h : parse P fileName content = .ok ipset) :
    ipset.fileName = fileName ∧ ipset.entries = entriesOf P {} (lines content) := by
  unfold parse at h
  cases hl : parseLines P fileName 0 (lines content) {} with
  | error e => simp [hl] at h
  | ok st =>
    simp only [hl, Except.ok.injEq] at h
    subst h
    refine ⟨rfl, ?_⟩
    rw [Ipset.entries, ParseState.finish_entries, parseLines_entries hl]
    rfl

theorem headerAfter_slot (m : Metadata) (l : String) :
    key.slot (headerAfter P m l) = (headerValue P key l).getD (key.slot m) := by
  unfold headerAfter headerValue
  cases classify l with
  | ignored | entry => rfl
  | header k raw =>
    by_cases hk : k = key
    · subst hk
      cases hv : k.value P raw <;> simp [hv]
    · cases hv : k.value P raw with
      | none => simp [hk, hv]
      | some v => simp [hk, hv, HeaderKey.slot_setSlot_ne (Ne.symm hk)]

/-- Each slot of the header in force holds the last value given above. -/
theorem foldl_headerAfter_slot (m : Metadata) (above : List String) :
    key.slot (above.foldl (headerAfter P) m) =
      ((above.filterMap (headerValue P key)).getLast?).getD (key.slot m) := by
  induction above generalizing m with
  | nil => rfl
  | cons l above ih =>
    rw [List.foldl_cons, ih, headerAfter_slot]
    cases hv : headerValue P key l with
    | none => simp [hv]
    | some v =>
      cases ha : (above.filterMap (headerValue P key)).getLast? <;>
        simp [hv, List.getLast?_cons, ha]

/-- An entry of the lines sits on a line of its own, under the headers above that line. -/
theorem mem_entriesOf {x : Metadata × Ipv4Net} :
    x ∈ entriesOf P m ls ↔ ∃ above l below, ls = above ++ l :: below ∧
      networkLine P l = some x.2 ∧ x.1 = above.foldl (headerAfter P) m := by
  induction ls generalizing m with
  | nil => simp [entriesOf]
  | cons l ls ih =>
    rw [entriesOf, List.mem_append, ih]
    constructor
    · rintro (h | ⟨above, k, below, rfl, hn, hm⟩)
      · obtain ⟨n, hn, rfl⟩ : ∃ n, networkLine P l = some n ∧ (m, n) = x := by simpa using h
        exact ⟨[], l, ls, rfl, hn, rfl⟩
      · exact ⟨l :: above, k, below, rfl, hn, hm⟩
    · rintro ⟨above, k, below, heq, hn, hm⟩
      cases above with
      | nil =>
        obtain ⟨rfl, rfl⟩ : l = k ∧ ls = below := by simpa using heq
        left
        simp only [List.foldl_nil] at hm
        simp [hn, ← hm]
      | cons a above =>
        obtain ⟨rfl, rfl⟩ : l = a ∧ ls = above ++ k :: below := by simpa using heq
        exact .inr ⟨above, k, below, rfl, hn, hm⟩

end IpReputation
