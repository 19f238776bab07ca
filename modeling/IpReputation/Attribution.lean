import IpReputation.Verdict

/-! Which list a block is attributed to in the exported counters. -/
namespace IpReputation

variable {β : Type} {M : MmdbWriter β} {G : Geoip2 β} {filter : IpFilter} {ipsets : List Ipset}
  {a : Ipv4Addr} {m : Metrics} {os : List Occurrence} {hit : Match} {x : Ipset × Section}

/-- The sections with a network for `a`, each with its list, in insertion order. -/
def coveringSections (ipsets : List Ipset) (a : Ipv4Addr) : List (Ipset × Section) :=
  (ipsets.flatMap fun ipset => ipset.sections.map (ipset, ·)).filter
    fun x => x.2.networks.any (·.contains a)

def categoryDropped (filter : IpFilter) (x : Ipset × Section) : Bool :=
  x.2.metadata.category ∈ filter.dropCategories

def fileNameDropped (filter : IpFilter) (x : Ipset × Section) : Bool :=
  x.1.fileName ∈ filter.dropFileNames

/-- `x` is the one section of one list that a block of `a` is put down to. -/
structure Attributed (filter : IpFilter) (ipsets : List Ipset) (a : Ipv4Addr)
    (x : Ipset × Section) : Prop where
  listed : x.1 ∈ ipsets ∧ x.2 ∈ x.1.sections
  covers : ∃ network ∈ x.2.networks, network.contains a = true
  dropped : x.2.metadata.category ∈ filter.dropCategories ∨ x.1.fileName ∈ filter.dropFileNames
  first_category : (∃ y ∈ coveringSections ipsets a, categoryDropped filter y = true) →
    (coveringSections ipsets a).find? (categoryDropped filter) = some x
  first_fileName : (¬ ∃ y ∈ coveringSections ipsets a, categoryDropped filter y = true) →
    (coveringSections ipsets a).find? (fileNameDropped filter) = some x

/-- The label of a block: file name, maintainer and category of one list. -/
def blockLabel (x : Ipset × Section) : String × String × String :=
  (x.1.fileName, x.2.metadata.maintainer, x.2.metadata.category)

/-- The heads of a section's covering occurrences: its own, once for each network. -/
theorem heads_of_section (ipset : Ipset) (s : Section) :
    ((s.occurrences ipset.fileName).filter fun o => o.network.contains a).map
        (fun o => (o.fileName, o.metadata)) =
      List.replicate (s.networks.countP (·.contains a)) (ipset.fileName, s.metadata) := by
  rw [List.eq_replicate_iff]
  constructor
  · simp [Section.occurrences, List.filter_map, List.countP_eq_length_filter, Function.comp_def]
  · intro head hhead
    simp only [Section.occurrences, List.mem_map, List.mem_filter] at hhead
    obtain ⟨o, ⟨⟨network, _, rfl⟩, _⟩, rfl⟩ := hhead
    rfl

/-- Looking through copies of each element finds what looking through the elements does. -/
theorem find?_flatMap_replicate {α γ : Type} (p : γ → Bool) (head : α → γ) (n : α → Nat)
    (xs : List α) :
    (xs.flatMap fun x => List.replicate (n x) (head x)).find? p =
      ((xs.filter fun x => decide (0 < n x)).find? fun x => p (head x)).map head := by
  induction xs with
  | nil => rfl
  | cons x xs ih =>
    rw [List.flatMap_cons, List.find?_append, ih]
    by_cases hn : 0 < n x
    · by_cases hp : p (head x) = true <;> simp [hn, hp]
    · simp [Nat.eq_zero_of_not_pos hn]

theorem covering_heads : (covering ipsets a).map (fun o => (o.fileName, o.metadata)) =
    (ipsets.flatMap fun ipset => ipset.sections.map (ipset, ·)).flatMap fun x =>
      List.replicate (x.2.networks.countP (·.contains a)) (x.1.fileName, x.2.metadata) := by
  simp only [covering, occurrences, Ipset.occurrences, List.filter_flatMap, List.map_flatMap,
    heads_of_section, List.flatMap_assoc, List.flatMap_map]

/-- Looking among the occurrences or among the sections finds the same list and header. -/
theorem find?_covering (ipsets : List Ipset) (a : Ipv4Addr) (p : String × Metadata → Bool) :
    ((covering ipsets a).find? fun o => p (o.fileName, o.metadata)).map
        (fun o => (o.fileName, o.metadata)) =
      ((coveringSections ipsets a).find? fun x => p (x.1.fileName, x.2.metadata)).map
        fun x => (x.1.fileName, x.2.metadata) := by
  have hany (x : Ipset × Section) : decide (0 < x.2.networks.countP (·.contains a)) =
      x.2.networks.any (·.contains a) := by
    rw [Bool.eq_iff_iff]
    simp [List.countP_pos_iff]
  have hmap := List.find?_map (f := fun o : Occurrence => (o.fileName, o.metadata)) (p := p)
    (l := covering ipsets a)
  rw [covering_heads, find?_flatMap_replicate] at hmap
  simp only [hany] at hmap
  exact hmap.symm

/-- The element at the position found is the one found. -/
theorem find?_of_findIdx? {α : Type} {p : α → Bool} {xs : List α} {i : Nat}
    (h : xs.findIdx? p = some i) : ∃ x, xs[i]? = some x ∧ xs.find? p = some x := by
  obtain ⟨hi, _, _⟩ := List.findIdx?_eq_some_iff_getElem.mp h
  refine ⟨xs[i], List.getElem?_eq_getElem hi, ?_⟩
  rw [List.find?_eq_bind_findIdx?_getElem?, h, Option.bind_some, List.getElem?_eq_getElem hi]

/-- The position `findMatch` returns is that of the first occurrence with a dropped category,
or else of the first with a dropped file name. -/
theorem findMatch_entryOf_some (h : filter.findMatch (entryOf os) = some hit) :
    ∃ o, os[hit.index]? = some o ∧
      ((os.find? fun o => o.metadata.category ∈ filter.dropCategories).or
        (os.find? fun o => o.fileName ∈ filter.dropFileNames)) = some o := by
  simp only [IpFilter.findMatch, entryOf, List.findIdx?_map, Option.or_eq_some_iff,
    Option.map_eq_some_iff, Option.map_eq_none_iff] at h
  rcases h with ⟨i, hi, rfl⟩ | ⟨hnone, i, hi, rfl⟩
  · obtain ⟨o, ho, hfind⟩ := find?_of_findIdx? hi
    exact ⟨o, ho, Option.or_eq_some_iff.mpr (.inl hfind)⟩
  · obtain ⟨o, ho, hfind⟩ := find?_of_findIdx? hi
    refine ⟨o, ho, Option.or_eq_some_iff.mpr (.inr ⟨?_, hfind⟩)⟩
    rw [List.find?_eq_bind_findIdx?_getElem?]
    exact Option.bind_eq_none_iff.mpr fun j hj => by
      have := hnone.symm.trans hj
      cases this

theorem mem_coveringSections : x ∈ coveringSections ipsets a ↔
    (x.1 ∈ ipsets ∧ x.2 ∈ x.1.sections) ∧ ∃ network ∈ x.2.networks, network.contains a = true := by
  obtain ⟨ipset, s⟩ := x
  simp [coveringSections]

/-- A search that fails among the occurrences fails among the sections. -/
theorem find?_covering_none {p : String × Metadata → Bool}
    (h : (covering ipsets a).find? (fun o => p (o.fileName, o.metadata)) = none) :
    (coveringSections ipsets a).find? (fun x => p (x.1.fileName, x.2.metadata)) = none := by
  have heq := find?_covering ipsets a p
  rw [h] at heq
  exact Option.map_eq_none_iff.mp heq.symm

/-- A search that succeeds among the occurrences gives a section with the same head. -/
theorem find?_covering_some {p : String × Metadata → Bool} {o : Occurrence}
    (h : (covering ipsets a).find? (fun o => p (o.fileName, o.metadata)) = some o) :
    ∃ x, (coveringSections ipsets a).find? (fun x => p (x.1.fileName, x.2.metadata)) = some x ∧
      x.1.fileName = o.fileName ∧ x.2.metadata = o.metadata := by
  have heq := find?_covering ipsets a p
  rw [h, Option.map_some] at heq
  obtain ⟨x, hx, hhead⟩ := Option.map_eq_some_iff.mp heq.symm
  obtain ⟨hname, hmeta⟩ := Prod.mk.inj hhead
  exact ⟨x, hx, hname, hmeta⟩

/-- The occurrence `findMatch` points at has the head of the section a block is put down to. -/
theorem exists_attributed {o : Occurrence}
    (h : (((covering ipsets a).find? fun o => o.metadata.category ∈ filter.dropCategories).or
      ((covering ipsets a).find? fun o => o.fileName ∈ filter.dropFileNames)) = some o) :
    ∃ x, Attributed filter ipsets a x ∧ x.1.fileName = o.fileName ∧ x.2.metadata = o.metadata := by
  rcases Option.or_eq_some_iff.mp h with hcat | ⟨hnone, hfile⟩
  · obtain ⟨x, hx, hname, hmeta⟩ :=
      find?_covering_some (p := fun head => head.2.category ∈ filter.dropCategories) hcat
    have hdropped : categoryDropped filter x = true := List.find?_some hx
    obtain ⟨hlisted, hcovers⟩ := mem_coveringSections.mp (List.mem_of_find?_eq_some hx)
    refine ⟨x, ⟨hlisted, hcovers, .inl (of_decide_eq_true hdropped), fun _ => hx, ?_⟩,
      hname, hmeta⟩
    intro hno
    exact absurd ⟨x, List.mem_of_find?_eq_some hx, hdropped⟩ hno
  · obtain ⟨x, hx, hname, hmeta⟩ :=
      find?_covering_some (p := fun head => head.1 ∈ filter.dropFileNames) hfile
    have hno :=
      find?_covering_none (p := fun head => head.2.category ∈ filter.dropCategories) hnone
    have hdropped : fileNameDropped filter x = true := List.find?_some hx
    obtain ⟨hlisted, hcovers⟩ := mem_coveringSections.mp (List.mem_of_find?_eq_some hx)
    refine ⟨x, ⟨hlisted, hcovers, .inr (of_decide_eq_true hdropped), ?_, fun _ => hx⟩,
      hname, hmeta⟩
    rintro ⟨y, hy, hcat⟩
    exact absurd hcat (List.find?_eq_none.mp hno y hy)

/-- What `recordBlock` reads of the record of `x`: never `"unknown"`. -/
structure ReadsSection (entry : FireholEntry) (hit : Match) (x : Ipset × Section) : Prop where
  fileName : entry.fileName[hit.index]? = some x.1.fileName
  maintainer : entry.maintainer[hit.index]? = some x.2.metadata.maintainer
  category : entry.category[hit.index]? = some x.2.metadata.category
  sourceFileDate :
    entry.sourceFileDateRfc3339[hit.index]? = some x.2.metadata.sourceFileDateRfc3339

theorem ReadsSection.recordBlock {entry : FireholEntry} (h : ReadsSection entry hit x)
    (m : Metrics) : recordBlock entry hit m = m.countBlocked (blockLabel x) := by
  simp [IpReputation.recordBlock, Metrics.countBlocked, blockLabel, field, h.fileName,
    h.maintainer, h.category]

theorem readsSection_entryOf {o : Occurrence} (ho : os[hit.index]? = some o)
    (hname : x.1.fileName = o.fileName) (hmeta : x.2.metadata = o.metadata) :
    ReadsSection (entryOf os) hit x := by
  constructor <;> simp [entryOf, ho, hname, hmeta]

variable [ByteString β] {s : Served G}

/-- Every block of an IPv4 address is counted under the name, the maintainer and the category of
one section that lists it and that the filter drops. -/
theorem attributesBlocks (hM : M.Lawful) (hG : G.Reads M) (h : ServesBuilt M G ipsets s)
    (hdrop : (filter.shouldDrop s.snapshot (.v4 a) m).1 = true) :
    ∃ x, Attributed filter ipsets a x ∧
      (filter.shouldDrop s.snapshot (.v4 a) m).2 = m.countBlocked (blockLabel x) ∧
      ∀ snapshot entry hit, s.snapshot = some snapshot →
        G.lookup snapshot.reader.dependent (.v4 a) = .ok entry →
        filter.findMatch entry = some hit → ReadsSection entry hit x := by
  obtain ⟨snapshot, hsnap, hv4, -⟩ := h.lookup hM hG
  rw [hsnap] at hdrop ⊢
  obtain ⟨entry, hentry, hsome⟩ := shouldDrop_iff_findMatch.mp hdrop
  obtain ⟨hit, hfind⟩ := Option.isSome_iff_exists.mp hsome
  have hcovering : entry = entryOf (covering ipsets a) := by
    rw [hv4 a] at hentry
    split at hentry
    · cases hentry
    · exact (Except.ok.inj hentry).symm
  obtain ⟨o, ho, hfirst⟩ := findMatch_entryOf_some (hcovering ▸ hfind)
  obtain ⟨x, hx, hname, hmeta⟩ := exists_attributed hfirst
  have hreads : ReadsSection entry hit x := hcovering ▸ readsSection_entryOf ho hname hmeta
  refine ⟨x, hx, ?_, ?_⟩
  · simp only [IpFilter.shouldDrop, Mmdb.lookup, hentry, hfind]
    exact hreads.recordBlock m
  · intro snapshot' entry' hit' hs' hl' hf'
    obtain rfl := Option.some.inj hs'
    obtain rfl := Except.ok.inj (hentry.symm.trans hl')
    obtain rfl := Option.some.inj (hfind.symm.trans hf')
    exact hreads

open Reference in
/-- The disk with a database of two lists that both contain `10.1.2.3`. -/
def overlappingDisk : Disk Bytes :=
  (writeMmdb mmdbWriter {} 7 [abuseIpset, spamNetset] 0 fireholMmdb ⟨fun _ => none, []⟩).2

open Reference in
def overlappingServed : Served geoip2 :=
  (Mmdb.load (fun _ => "firehol.mmdb") {} fireholMmdb overlappingDisk.fs {}).2

open Reference in
theorem overlapping_servesBuilt :
    ServesBuilt mmdbWriter geoip2 [abuseIpset, spamNetset] overlappingServed :=
  ⟨{}, 7, 0, fireholMmdb, ⟨fun _ => none, []⟩, 1, overlappingDisk, fun _ => "firehol.mmdb", {}, {},
    rfl, rfl⟩

/-- The name of the first list and the category of the second are dropped. -/
def overlappingFilter : IpFilter := ⟨{"spam"}, {"abuse.ipset"}⟩

theorem overlapping_dropped :
    (overlappingFilter.shouldDrop overlappingServed.snapshot (.v4 0x0A010203#32) {}).1 = true := by
  have hverdict : (overlappingFilter.verdict overlappingServed.snapshot
      (.v4 0x0A010203#32)).isSome = true := by decide
  simpa only [shouldDrop_eq] using hverdict

open Reference in
/-- `10.1.2.3` is put down to the second list: a category comes before a file name. -/
theorem attributesBlocks_overlapping :
    ∃ x, Attributed overlappingFilter [abuseIpset, spamNetset] 0x0A010203#32 x ∧
      x.1 = spamNetset ∧
      (overlappingFilter.shouldDrop overlappingServed.snapshot (.v4 0x0A010203#32) {}).2 =
        Metrics.countBlocked {} (blockLabel x) := by
  obtain ⟨x, hx, hcount, -⟩ := attributesBlocks (m := {}) mmdbWriter_lawful geoip2_reads
    overlapping_servesBuilt overlapping_dropped
  obtain ⟨s, hspam⟩ : ∃ s, (coveringSections [abuseIpset, spamNetset] 0x0A010203#32).find?
      (categoryDropped overlappingFilter) = some (spamNetset, s) := ⟨_, rfl⟩
  have hfirst := hx.first_category
    ⟨_, List.mem_of_find?_eq_some hspam, List.find?_some hspam⟩
  obtain rfl := Option.some.inj (hspam.symm.trans hfirst)
  exact ⟨_, hx, rfl, hcount⟩

end IpReputation
