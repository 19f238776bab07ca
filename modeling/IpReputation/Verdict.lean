import IpReputation.Handle
import IpReputation.IpsetLines
import IpReputation.RecordAlignment

/-! From the text of the list files to the verdict on an address. -/
namespace IpReputation

variable {β : Type} {M : MmdbWriter β} {G : Geoip2 β} {P : Parsers} {filter : IpFilter}
  {files : List (String × String)} {o : Occurrence} {a : Ipv4Addr} {ip : IpAddr} {m : Metrics}

/-- The files that parse, in order; the others are left out with a warning. -/
def parseAll (P : Parsers) (files : List (String × String)) : List Ipset :=
  files.filterMap fun file => (parse P file.1 file.2).toOption

/-- Below the lines `above`, `content` has a network line for `a`. -/
def ListedBelow (P : Parsers) (content : String) (above : List String) (a : Ipv4Addr) : Prop :=
  ∃ l below network, lines content = above ++ l :: below ∧
    networkLine P l = some network ∧ network.contains a = true

/-- The file parses and lists `a`, under a dropped category or under a dropped name. -/
def Blocks (P : Parsers) (filter : IpFilter) (file : String × String) (a : Ipv4Addr) : Prop :=
  (∃ ipset, parse P file.1 file.2 = .ok ipset) ∧
    ∃ above, ListedBelow P file.2 above a ∧
      (lastValue P .category above ∈ filter.dropCategories ∨ file.1 ∈ filter.dropFileNames)

theorem mem_ipset_occurrences {ipset : Ipset} : o ∈ ipset.occurrences ↔
    o.fileName = ipset.fileName ∧ (o.metadata, o.network) ∈ ipset.entries := by
  obtain ⟨fileName, metadata, network⟩ := o
  simp only [Ipset.occurrences, Section.occurrences, Ipset.entries, sectionEntries,
    List.mem_flatMap, List.mem_map, Occurrence.mk.injEq, Prod.mk.injEq]
  constructor
  · rintro ⟨s, hs, n, hn, rfl, rfl, rfl⟩
    exact ⟨rfl, s, hs, n, hn, rfl, rfl⟩
  · rintro ⟨rfl, s, hs, n, hn, rfl, rfl⟩
    exact ⟨s, hs, n, hn, rfl, rfl, rfl⟩

theorem mem_parseAll {ipset : Ipset} :
    ipset ∈ parseAll P files ↔ ∃ file ∈ files, parse P file.1 file.2 = .ok ipset := by
  simp only [parseAll, List.mem_filterMap]
  constructor
  · rintro ⟨file, hf, hp⟩
    refine ⟨file, hf, ?_⟩
    cases hr : parse P file.1 file.2 with
    | error e => simp [hr, Except.toOption] at hp
    | ok parsed => simpa [hr, Except.toOption] using hp
  · rintro ⟨file, hf, hp⟩
    exact ⟨file, hf, by simp [hp, Except.toOption]⟩

/-- The occurrences of the parsed files are their entry lines, each under the header in force. -/
theorem mem_occurrences_parseAll : o ∈ occurrences (parseAll P files) ↔
    ∃ file ∈ files, (∃ ipset, parse P file.1 file.2 = .ok ipset) ∧ o.fileName = file.1 ∧
      (o.metadata, o.network) ∈ entriesOf P {} (lines file.2) := by
  simp only [occurrences, List.mem_flatMap, mem_parseAll, mem_ipset_occurrences]
  constructor
  · rintro ⟨ipset, ⟨file, hf, hp⟩, hname, hentry⟩
    obtain ⟨hfile, hentries⟩ := parse_entries hp
    exact ⟨file, hf, ⟨ipset, hp⟩, hname.trans hfile, hentries ▸ hentry⟩
  · rintro ⟨file, hf, ⟨ipset, hp⟩, hname, hentry⟩
    obtain ⟨hfile, hentries⟩ := parse_entries hp
    exact ⟨ipset, ⟨file, hf, hp⟩, hname.trans hfile.symm, hentries.symm ▸ hentry⟩

/-- The category in force below the lines `above`. -/
theorem category_foldl (above : List String) :
    (above.foldl (headerAfter P) {}).category = lastValue P .category above := by
  have h : HeaderKey.category.slot (above.foldl (headerAfter P) {}) = lastValue P .category above :=
    foldl_headerAfter_slot {} above
  exact h

/-- A covering occurrence with a dropped field is a file that blocks the address. -/
theorem exists_covering_iff_blocks :
    (∃ o ∈ covering (parseAll P files) a,
      o.metadata.category ∈ filter.dropCategories ∨ o.fileName ∈ filter.dropFileNames) ↔
    ∃ file ∈ files, Blocks P filter file a := by
  simp only [covering, List.mem_filter, mem_occurrences_parseAll, mem_entriesOf]
  constructor
  · rintro ⟨o, ⟨⟨file, hf, hp, hname, above, l, below, hl, hn, hm⟩, hc⟩, hdrop⟩
    refine ⟨file, hf, hp, above, ⟨l, below, o.network, hl, hn, hc⟩, ?_⟩
    have hcategory := category_foldl (P := P) above
    rw [← hm] at hcategory
    rw [← hcategory, ← hname]
    exact hdrop
  · rintro ⟨file, hf, hp, above, ⟨l, below, network, hl, hn, hc⟩, hdrop⟩
    refine ⟨⟨file.1, above.foldl (headerAfter P) {}, network⟩,
      ⟨⟨file, hf, hp, rfl, above, l, below, hl, hn, rfl⟩, hc⟩, ?_⟩
    simpa only [category_foldl] using hdrop

/-- Some list of the record matches the filter. -/
theorem findMatch_entryOf {os : List Occurrence} : (filter.findMatch (entryOf os)).isSome = true ↔
    ∃ o ∈ os, o.metadata.category ∈ filter.dropCategories ∨ o.fileName ∈ filter.dropFileNames := by
  rw [findMatch_isSome]
  simp only [entryOf, List.mem_map]
  constructor
  · rintro (⟨_, ⟨o, ho, rfl⟩, hd⟩ | ⟨_, ⟨o, ho, rfl⟩, hd⟩)
    · exact ⟨o, ho, .inl hd⟩
    · exact ⟨o, ho, .inr hd⟩
  · rintro ⟨o, ho, hd | hd⟩
    · exact .inl ⟨_, ⟨o, ho, rfl⟩, hd⟩
    · exact .inr ⟨_, ⟨o, ho, rfl⟩, hd⟩

/-- What the filter answers from the bytes of a database. -/
theorem shouldDrop_serialised {snapshot : Snapshot G} {limit : Nat} {ipsets : List Ipset}
    {epoch : SystemTime} (hM : M.Lawful) (hG : G.ReadsUpTo M limit)
    (hfew : ∀ a, ip = .v4 a → (covering ipsets a).length ≤ limit)
    (hs : serialise M ipsets epoch = .ok snapshot.reader.owner) :
    (filter.shouldDrop (some snapshot) ip m).1 = true ↔ ∃ a, ip = .v4 a ∧
      ∃ o ∈ covering ipsets a,
        o.metadata.category ∈ filter.dropCategories ∨ o.fileName ∈ filter.dropFileNames := by
  have hbuilt := snapshot.reader.built
  rw [shouldDrop_iff_findMatch]
  cases ip with
  | v6 a =>
    obtain ⟨w, hw, -⟩ := serialise_stored hM hs
    simp [hG.lookup_v6 w _ _ a hw hbuilt]
  | v4 a =>
    rw [lookup_serialised hM hG hs hbuilt a (hfew a rfl)]
    by_cases hnil : covering ipsets a = []
    · simp [hnil]
    · simp [hnil, findMatch_entryOf]

variable [ByteString β] {writeFaults : WriteFaults β} {faults : LoadFaults} {now : SystemTime}
  {ipsets : List Ipset} {buildEpoch : SystemTime} {output : Path} {d d' : Disk β} {size : Nat}
  {lossy : Path → String} {s s' : Served G}

/-- `served` is what the agent holds after building `ipsets` and loading the result. -/
def ServesBuilt (M : MmdbWriter β) (G : Geoip2 β) (ipsets : List Ipset) (served : Served G) :
    Prop :=
  ∃ writeFaults now buildEpoch output d size d' lossy faults s,
    writeMmdb M writeFaults now ipsets buildEpoch output d = (.ok size, d') ∧
      Mmdb.load lossy faults output d'.fs s = (.ok (), served)

theorem ServesBuilt.serialised (h : ServesBuilt M G ipsets s) : ∃ snapshot epoch,
    s.snapshot = some snapshot ∧ serialise M ipsets epoch = .ok snapshot.reader.owner := by
  obtain ⟨_, _, epoch, output, d, size, d', _, _, _, hw, hl⟩ := h
  obtain ⟨bytes, hs, -, hfile⟩ := writeMmdb_ok hw
  obtain ⟨snapshot, hsnap, hread⟩ := Mmdb.load_ok hl
  have howner : bytes = snapshot.reader.owner := by simpa [readFile, hfile] using hread
  exact ⟨snapshot, epoch, hsnap, howner ▸ hs⟩

/-- What a lookup returns once a built database is served. -/
theorem ServesBuilt.lookup (hM : M.Lawful) (hG : G.Reads M) (h : ServesBuilt M G ipsets s) :
    ∃ snapshot, s.snapshot = some snapshot ∧
      (∀ a, G.lookup snapshot.reader.dependent (.v4 a) =
        if covering ipsets a = [] then .error .notFound else .ok (entryOf (covering ipsets a))) ∧
      ∀ a, G.lookup snapshot.reader.dependent (.v6 a) = .error .ipv4Only := by
  obtain ⟨snapshot, epoch, hsnap, hs⟩ := h.serialised
  have hbuilt := snapshot.reader.built
  refine ⟨snapshot, hsnap, fun a => lookup_serialised hM (hG _) hs hbuilt a (Nat.le_refl _), ?_⟩
  intro a
  obtain ⟨w, hwb, -⟩ := serialise_stored hM hs
  exact (hG 0).lookup_v6 w _ _ a hwb hbuilt

/-- What the filter answers once a built database is served. -/
theorem ServesBuilt.shouldDrop_upTo {limit : Nat} (hM : M.Lawful) (hG : G.ReadsUpTo M limit)
    (hfew : ∀ a, ip = .v4 a → (covering ipsets a).length ≤ limit) (h : ServesBuilt M G ipsets s) :
    (filter.shouldDrop s.snapshot ip m).1 = true ↔ ∃ a, ip = .v4 a ∧
      ∃ o ∈ covering ipsets a,
        o.metadata.category ∈ filter.dropCategories ∨ o.fileName ∈ filter.dropFileNames := by
  obtain ⟨snapshot, epoch, hsnap, hs⟩ := h.serialised
  rw [hsnap]
  exact shouldDrop_serialised hM hG hfew hs

theorem ServesBuilt.shouldDrop (hM : M.Lawful) (hG : G.Reads M) (h : ServesBuilt M G ipsets s) :
    (filter.shouldDrop s.snapshot ip m).1 = true ↔ ∃ a, ip = .v4 a ∧
      ∃ o ∈ covering ipsets a,
        o.metadata.category ∈ filter.dropCategories ∨ o.fileName ∈ filter.dropFileNames := by
  cases ip with
  | v4 a =>
    refine h.shouldDrop_upTo hM (hG (covering ipsets a).length) ?_
    rintro _ ⟨⟩
    exact Nat.le_refl _
  | v6 a => exact h.shouldDrop_upTo hM (hG 0) (by simp)

/-- End to end: after building and loading, an address is dropped exactly when it is IPv4 and
some parsed file lists it under a dropped category or a dropped file name. -/
theorem shouldDrop_iff_blocks (hM : M.Lawful) (hG : G.Reads M)
    (hw : writeMmdb M writeFaults now (parseAll P files) buildEpoch output d = (.ok size, d'))
    (hl : Mmdb.load lossy faults output d'.fs s = (.ok (), s')) :
    (filter.shouldDrop s'.snapshot ip m).1 = true ↔
      ∃ a, ip = .v4 a ∧ ∃ file ∈ files, Blocks P filter file a := by
  have hserved : ServesBuilt M G (parseAll P files) s' :=
    ⟨_, _, _, _, _, _, _, _, _, _, hw, hl⟩
  simp only [hserved.shouldDrop hM hG, exists_covering_iff_blocks]

/-- A file whose category changes half-way, and one that does not parse. -/
def multiFiles : List (String × String) := [
  ("multi.ipset", "# Category: abuse\n1.1.1.1\n# Category: spam\n10.0.0.0/8\n"),
  ("bad.ipset", "hello\n")]

/-- The disk with the database of `multiFiles` on it. -/
def multiDisk : Disk Reference.Bytes :=
  (writeMmdb Reference.mmdbWriter {} 7 (parseAll Reference.parsers multiFiles) 0 fireholMmdb
    ⟨fun _ => none, []⟩).2

/-- What is served after loading it. -/
def multiServed : Served Reference.geoip2 :=
  (Mmdb.load (fun _ => "firehol.mmdb") {} fireholMmdb multiDisk.fs {}).2

theorem multi_written : writeMmdb Reference.mmdbWriter {} 7
    (parseAll Reference.parsers multiFiles) 0 fireholMmdb ⟨fun _ => none, []⟩ =
      (.ok 1, multiDisk) := by rfl

theorem multi_loaded : Mmdb.load (fun _ => "firehol.mmdb") {} fireholMmdb multiDisk.fs {} =
    (.ok (), multiServed) := by rfl

theorem multiServed_servesBuilt : ServesBuilt Reference.mmdbWriter Reference.geoip2
    (parseAll Reference.parsers multiFiles) multiServed :=
  ⟨{}, 7, 0, fireholMmdb, ⟨fun _ => none, []⟩, 1, multiDisk, fun _ => "firehol.mmdb", {}, {},
    multi_written, multi_loaded⟩

/-- `10.1.2.3` with category `spam` dropped. -/
theorem shouldDrop_multi :
    ((⟨{"spam"}, ∅⟩ : IpFilter).shouldDrop multiServed.snapshot (.v4 0x0A010203#32) {}).1 = true ↔
      ∃ a, IpAddr.v4 0x0A010203#32 = .v4 a ∧
        ∃ file ∈ multiFiles, Blocks Reference.parsers ⟨{"spam"}, ∅⟩ file a :=
  shouldDrop_iff_blocks Reference.mmdbWriter_lawful Reference.geoip2_reads multi_written
    multi_loaded

/-- It is blocked. -/
theorem verdict_multi : ((⟨{"spam"}, ∅⟩ : IpFilter).verdict multiServed.snapshot
    (.v4 0x0A010203#32)).isSome = true := by decide

end IpReputation
