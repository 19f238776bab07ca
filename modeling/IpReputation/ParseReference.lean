import IpReputation.IpsetLines

/-! A line-by-line reference for `parse`: which files are rejected and where, and what the others
hold. -/
namespace IpReputation

variable {P : Parsers} {fileName content text raw : String} {ls above : List String} {n : Nat}
  {l : String} {st st' : ParseState} {key : HeaderKey} {e : ParseError} {ipset : Ipset}

/-- A line `parse` must reject, read off the line alone. -/
def Malformed (P : Parsers) (l : String) : Prop :=
  match classify l with
  | .header key raw => key = .sourceFileDate ∧ P.sourceFileDate raw = none
  | .ignored => False
  | .entry text => if '/' ∈ text.toList then P.cidr text = none else P.addr text = none

/-- The headers as the last values seen for each key, empty when none. -/
def metadataAbove (P : Parsers) (above : List String) : Metadata where
  sourceFileDateRfc3339 := lastValue P .sourceFileDate above
  listSourceUrl := lastValue P .listSourceUrl above
  maintainerUrl := lastValue P .maintainerUrl above
  maintainer := lastValue P .maintainer above
  category := lastValue P .category above

/-- The entries of `ls`, in order, each with the headers of the lines strictly above it. -/
def referenceFrom (P : Parsers) (above : List String) : List String → List (Metadata × Ipv4Net)
  | [] => []
  | l :: ls =>
    ((networkLine P l).map (metadataAbove P above, ·)).toList ++ referenceFrom P (above ++ [l]) ls

def reference (P : Parsers) (ls : List String) : List (Metadata × Ipv4Net) :=
  referenceFrom P [] ls

def Line.isEntry : Line → Bool
  | entry _ => true
  | header _ _ | ignored => false

/-- What the error names at a malformed line: the key, or the trimmed entry. -/
def reportOf (fileName : String) (lineNumber : Nat) (l : String) : Option ParseError :=
  match classify l with
  | .header key _ => some (.invalidHeader fileName lineNumber key)
  | .ignored => none
  | .entry text => some (.invalidEntry fileName lineNumber text)

/-- `parse` on one file, compared with its lines. -/
structure AgreesWithLines (P : Parsers) (fileName content : String) : Prop where
  fails_iff : (∃ e, parse P fileName content = .error e) ↔ ∃ l ∈ lines content, Malformed P l
  reports_first : ∀ e, parse P fileName content = .error e →
    ∃ above l below, lines content = above ++ l :: below ∧ (∀ k ∈ above, ¬ Malformed P k) ∧
      Malformed P l ∧ reportOf fileName (above.length + 1) l = some e ∧
      e.lineNumber = above.length + 1
  entries_eq : ∀ ipset, parse P fileName content = .ok ipset → ipset.fileName = fileName ∧
    ipset.entries = reference P (lines content)
  sections_nonempty : ∀ ipset, parse P fileName content = .ok ipset →
    ∀ s ∈ ipset.sections, s.networks ≠ []
  networkCount_eq : ∀ ipset, parse P fileName content = .ok ipset →
    ipset.networkCount = (lines content).countP fun l => (classify l).isEntry

/-- A header line is a `#` and, after trimming, a known key before the first colon. -/
theorem classify_eq_header_iff : classify l = .header key raw ↔
    ∃ comment before after, l.toList = '#' :: comment.toList ∧
      (trim comment).toList = before.toList ++ ':' :: after.toList ∧ ':' ∉ before.toList ∧
      trimEnd before = key.display ∧ trim after = raw := by
  unfold classify
  constructor
  · intro h
    split at h
    · rename_i comment hc
      split at h
      · cases h
      · rename_i before after hs
        split at h
        · cases h
        · rename_i k hk
          obtain ⟨rfl, rfl⟩ : k = key ∧ trim after = raw := by simpa using h
          obtain ⟨hcut, hfirst⟩ := splitOnce_eq_some_iff.mp hs
          exact ⟨comment, before, after, stripPrefix_eq_some_iff.mp hc, hcut, hfirst,
            HeaderKey.parse_eq_some.mp hk, rfl⟩
    · split at h <;> cases h
  · rintro ⟨comment, before, after, hl, hcut, hfirst, hkey, rfl⟩
    simp only [stripPrefix_eq_some_iff.mpr hl, splitOnce_eq_some_iff.mpr ⟨hcut, hfirst⟩,
      HeaderKey.parse_eq_some.mpr hkey]

/-- A line without a leading `#` is an entry unless it is blank. -/
theorem classify_eq_entry_iff : classify l = .entry text ↔
    l.toList.head? ≠ some '#' ∧ trim l = text ∧ text ≠ "" := by
  unfold classify
  rw [← stripPrefix_eq_none_iff]
  constructor
  · intro h
    split at h
    · split at h
      · cases h
      · split at h <;> cases h
    · rename_i hc
      split at h
      · cases h
      · rename_i hne
        obtain rfl := Line.entry.inj h
        exact ⟨hc, rfl, hne⟩
  · rintro ⟨hc, rfl, hne⟩
    simp only [hc, hne, if_false]

theorem value_eq_none_iff : key.value P raw = none ↔
    key = .sourceFileDate ∧ P.sourceFileDate raw = none := by
  cases key <;> simp [HeaderKey.value]

theorem parseNetwork_eq_none_iff : parseNetwork P text = none ↔
    if '/' ∈ text.toList then P.cidr text = none else P.addr text = none := by
  by_cases h : '/' ∈ text.toList <;> simp [parseNetwork, h]

/-- A line is rejected exactly when it is malformed, and the error says what is wrong with it. -/
theorem parseLine_error_iff : parseLine P fileName n l st = .error e ↔
    Malformed P l ∧ reportOf fileName n l = some e := by
  unfold Malformed reportOf
  cases hc : classify l with
  | ignored => simp [parseLine_of_ignored hc]
  | header key raw =>
    rw [parseLine_of_header hc]
    have hnone : key.value P raw = none ↔ key = .sourceFileDate ∧ P.sourceFileDate raw = none :=
      value_eq_none_iff
    cases hv : key.value P raw with
    | none => simp [hnone.mp hv]
    | some value => simp [← hnone, hv]
  | entry text =>
    rw [parseLine_of_entry hc]
    simp only [← parseNetwork_eq_none_iff]
    cases hp : parseNetwork P text <;> simp

theorem reportOf_lineNumber (h : reportOf fileName n l = some e) : e.lineNumber = n := by
  unfold reportOf at h
  split at h <;> simp at h <;> subst h <;> rfl

theorem Malformed.reported (h : Malformed P l) : ∃ e, reportOf fileName n l = some e := by
  unfold Malformed at h
  unfold reportOf
  split at h
  · exact ⟨_, rfl⟩
  · exact h.elim
  · exact ⟨_, rfl⟩

/-- The loop stops at the first malformed line, and nowhere else. -/
theorem parseLines_error_iff : parseLines P fileName n ls st = .error e ↔
    ∃ above l below, ls = above ++ l :: below ∧ (∀ k ∈ above, ¬ Malformed P k) ∧
      Malformed P l ∧ reportOf fileName (n + above.length + 1) l = some e := by
  induction ls generalizing n st with
  | nil => simp [parseLines]
  | cons l ls ih =>
    unfold parseLines
    cases hl : parseLine P fileName (n + 1) l st with
    | error e' =>
      obtain ⟨hm, hr⟩ := parseLine_error_iff.mp hl
      constructor
      · intro h
        cases h
        exact ⟨[], l, ls, rfl, by simp, hm, hr⟩
      · rintro ⟨above, k, below, heq, hgood, hk, hrk⟩
        cases above with
        | nil =>
          obtain ⟨rfl, rfl⟩ : l = k ∧ ls = below := by simpa using heq
          have := hr.symm.trans hrk
          simpa using this
        | cons a above =>
          obtain ⟨rfl, rfl⟩ : l = a ∧ ls = above ++ k :: below := by simpa using heq
          exact absurd hm (hgood l List.mem_cons_self)
    | ok st₁ =>
      have hfine : ¬ Malformed P l := by
        intro hm
        obtain ⟨e', hr⟩ : ∃ e', reportOf fileName (n + 1) l = some e' := hm.reported
        have herror : parseLine P fileName (n + 1) l st = .error e' :=
          parseLine_error_iff.mpr ⟨hm, hr⟩
        simp [hl] at herror
      simp only [ih]
      constructor
      · rintro ⟨above, k, below, rfl, hgood, hk, hrk⟩
        refine ⟨l :: above, k, below, rfl, ?_, hk, ?_⟩
        · intro a ha
          rcases List.mem_cons.mp ha with rfl | ha
          · exact hfine
          · exact hgood a ha
        · simpa [Nat.add_assoc, Nat.add_comm, Nat.add_left_comm] using hrk
      · rintro ⟨above, k, below, heq, hgood, hk, hrk⟩
        cases above with
        | nil =>
          obtain ⟨rfl, rfl⟩ : l = k ∧ ls = below := by simpa using heq
          exact absurd hk hfine
        | cons a above =>
          obtain ⟨rfl, rfl⟩ : l = a ∧ ls = above ++ k :: below := by simpa using heq
          refine ⟨above, k, below, rfl, fun b hb => hgood b (List.mem_cons_of_mem _ hb), hk, ?_⟩
          simpa [Nat.add_assoc, Nat.add_comm, Nat.add_left_comm] using hrk

/-- Each accepted line adds one entry exactly when it is an entry line. -/
theorem networkLine_isSome (h : ¬ Malformed P l) :
    (networkLine P l).isSome = (classify l).isEntry := by
  unfold Malformed at h
  unfold networkLine
  cases hc : classify l with
  | ignored | header => rfl
  | entry text =>
    simp only [hc, ← parseNetwork_eq_none_iff] at h
    simpa [Line.isEntry, Option.isSome_iff_ne_none] using h

theorem entriesOf_length (h : ∀ l ∈ ls, ¬ Malformed P l) (m : Metadata) :
    (entriesOf P m ls).length = ls.countP fun l => (classify l).isEntry := by
  induction ls generalizing m with
  | nil => rfl
  | cons l ls ih =>
    have hl := networkLine_isSome (h l List.mem_cons_self)
    rw [entriesOf, List.length_append, ih fun k hk => h k (List.mem_cons_of_mem _ hk),
      List.countP_cons, ← hl]
    cases networkLine P l <;> simp [Nat.add_comm]

/-- The headers the loop carries are the last values above. -/
theorem foldl_headerAfter_eq (above : List String) :
    above.foldl (headerAfter P) {} = metadataAbove P above := by
  have hslot (key : HeaderKey) : key.slot (above.foldl (headerAfter P) {}) =
      lastValue P key above := by
    rw [foldl_headerAfter_slot]
    cases key <;> rfl
  have hdate := hslot .sourceFileDate
  have hsource := hslot .listSourceUrl
  have hurl := hslot .maintainerUrl
  have hmaintainer := hslot .maintainer
  have hcategory := hslot .category
  simp only [HeaderKey.slot] at hdate hsource hurl hmaintainer hcategory
  unfold metadataAbove
  rw [← hdate, ← hsource, ← hurl, ← hmaintainer, ← hcategory]

theorem entriesOf_eq_referenceFrom (above ls : List String) :
    entriesOf P (metadataAbove P above) ls = referenceFrom P above ls := by
  induction ls generalizing above with
  | nil => rfl
  | cons l ls ih =>
    have hafter : headerAfter P (metadataAbove P above) l = metadataAbove P (above ++ [l]) := by
      rw [← foldl_headerAfter_eq, ← foldl_headerAfter_eq, List.foldl_append]
      rfl
    rw [entriesOf, referenceFrom, hafter, ih]

theorem entriesOf_eq_reference : entriesOf P {} (lines content) = reference P (lines content) :=
  entriesOf_eq_referenceFrom [] (lines content)

theorem updateHeader_sections_nonempty {value : String}
    (h : ∀ s ∈ st.sections, s.networks ≠ []) :
    ∀ s ∈ (updateHeader key value st).sections, s.networks ≠ [] := by
  intro s hs
  by_cases heq : key.slot st.metadata = value
  · exact h s (by simpa [updateHeader, heq] using hs)
  · by_cases hn : st.networks = []
    · exact h s (by simpa [updateHeader, heq, hn] using hs)
    · have hs' : s ∈ st.sections ∨ s = ⟨st.metadata, st.networks⟩ := by
        simpa [updateHeader, heq, hn] using hs
      rcases hs' with hs | rfl
      · exact h s hs
      · exact hn

/-- Only sections with networks are ever frozen. -/
theorem parseLine_sections_nonempty (hl : parseLine P fileName n l st = .ok st')
    (h : ∀ s ∈ st.sections, s.networks ≠ []) : ∀ s ∈ st'.sections, s.networks ≠ [] := by
  obtain ⟨_, rfl⟩ | ⟨key, raw, value, _, _, rfl⟩ | ⟨text, network, _, _, rfl⟩ :=
    parseLine_cases hl
  · exact h
  · exact updateHeader_sections_nonempty h
  · exact h

theorem parseLines_sections_nonempty (hl : parseLines P fileName n ls st = .ok st')
    (h : ∀ s ∈ st.sections, s.networks ≠ []) : ∀ s ∈ st'.sections, s.networks ≠ [] := by
  induction ls generalizing n st with
  | nil =>
    cases hl
    exact h
  | cons l ls ih =>
    unfold parseLines at hl
    cases hline : parseLine P fileName (n + 1) l st with
    | error e => simp [hline] at hl
    | ok st₁ =>
      simp only [hline] at hl
      exact ih hl (parseLine_sections_nonempty hline h)

theorem ParseState.finish_nonempty (h : ∀ s ∈ st.sections, s.networks ≠ []) :
    ∀ s ∈ st.finish, s.networks ≠ [] := by
  intro s hs
  by_cases hn : st.networks = []
  · exact h s (by simpa [finish, hn] using hs)
  · have hs' : s ∈ st.sections ∨ s = ⟨st.metadata, st.networks⟩ := by
      simpa [finish, hn] using hs
    rcases hs' with hs | rfl
    · exact h s hs
    · exact hn

/-- No section of a parsed file is empty. -/
theorem parse_sections_nonempty (h : parse P fileName content = .ok ipset) :
    ∀ s ∈ ipset.sections, s.networks ≠ [] := by
  unfold parse at h
  cases hl : parseLines P fileName 0 (lines content) {} with
  | error e => simp [hl] at h
  | ok st =>
    simp only [hl, Except.ok.injEq] at h
    subst h
    have hfrozen := parseLines_sections_nonempty hl (by simp)
    exact ParseState.finish_nonempty hfrozen

theorem Ipset.networkCount_eq (ipset : Ipset) : ipset.networkCount = ipset.entries.length := by
  simp [networkCount, entries, sectionEntries, List.length_flatMap]

/-- `parse` reports the first malformed line, under its 1-based number. -/
theorem parse_error_iff : parse P fileName content = .error e ↔
    ∃ above l below, lines content = above ++ l :: below ∧ (∀ k ∈ above, ¬ Malformed P k) ∧
      Malformed P l ∧ reportOf fileName (above.length + 1) l = some e := by
  have hparse : parse P fileName content = .error e ↔
      parseLines P fileName 0 (lines content) {} = .error e := by
    unfold parse
    cases parseLines P fileName 0 (lines content) {} <;> simp
  rw [hparse, parseLines_error_iff]
  simp only [Nat.zero_add]

/-- Among lines one of which is malformed there is a first malformed one. -/
theorem exists_first_malformed (h : ∃ l ∈ ls, Malformed P l) :
    ∃ above l below, ls = above ++ l :: below ∧ (∀ k ∈ above, ¬ Malformed P k) ∧
      Malformed P l := by
  induction ls with
  | nil => simp at h
  | cons l ls ih =>
    by_cases hl : Malformed P l
    · exact ⟨[], l, ls, rfl, by simp, hl⟩
    · have hrest : ∃ k ∈ ls, Malformed P k := by
        obtain ⟨k, hk, hm⟩ := h
        rcases List.mem_cons.mp hk with rfl | hk
        · exact absurd hm hl
        · exact ⟨k, hk, hm⟩
      obtain ⟨above, k, below, rfl, hgood, hm⟩ := ih hrest
      refine ⟨l :: above, k, below, rfl, ?_, hm⟩
      intro a ha
      rcases List.mem_cons.mp ha with rfl | ha
      · exact hl
      · exact hgood a ha

theorem parse_fails_iff : (∃ e, parse P fileName content = .error e) ↔
    ∃ l ∈ lines content, Malformed P l := by
  constructor
  · rintro ⟨e, h⟩
    obtain ⟨above, l, below, heq, _, hm, _⟩ := parse_error_iff.mp h
    exact ⟨l, by simp [heq], hm⟩
  · intro h
    obtain ⟨above, l, below, heq, hgood, hm⟩ := exists_first_malformed h
    obtain ⟨e, he⟩ : ∃ e, reportOf fileName (above.length + 1) l = some e := hm.reported
    exact ⟨e, parse_error_iff.mpr ⟨above, l, below, heq, hgood, hm, he⟩⟩

theorem parse_networkCount (h : parse P fileName content = .ok ipset) :
    ipset.networkCount = (lines content).countP fun l => (classify l).isEntry := by
  have hgood : ∀ l ∈ lines content, ¬ Malformed P l := by
    intro l hl hm
    obtain ⟨e, he⟩ : ∃ e, parse P fileName content = .error e := parse_fails_iff.mpr ⟨l, hl, hm⟩
    simp [h] at he
  rw [Ipset.networkCount_eq, (parse_entries h).2, entriesOf_length hgood]

/-- `parse` agrees with the lines of every file. -/
theorem parse_agreesWithLines (P : Parsers) (fileName content : String) :
    AgreesWithLines P fileName content where
  fails_iff := parse_fails_iff
  reports_first := by
    intro e h
    obtain ⟨above, l, below, heq, hgood, hm, hr⟩ := parse_error_iff.mp h
    exact ⟨above, l, below, heq, hgood, hm, hr, reportOf_lineNumber hr⟩
  entries_eq := by
    intro ipset h
    obtain ⟨hname, hentries⟩ := parse_entries h
    exact ⟨hname, hentries.trans entriesOf_eq_reference⟩
  sections_nonempty := fun _ h => parse_sections_nonempty h
  networkCount_eq := fun _ h => parse_networkCount h

end IpReputation
