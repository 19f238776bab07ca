import IpReputation.AtomicReplace
import IpReputation.Library.RegionMap

/-! The record `write_mmdb` stores for an address lists the networks containing it, in order. -/
namespace IpReputation

variable {β : Type} {M : MmdbWriter β} {ipsets : List Ipset} {buildEpoch : SystemTime} {bytes : β}

/-- One network of one section of one list. -/
structure Occurrence where
  fileName : String
  metadata : Metadata
  network : Ipv4Net
  deriving DecidableEq

def Section.occurrences (fileName : String) (s : Section) : List Occurrence :=
  s.networks.map fun network => ⟨fileName, s.metadata, network⟩

def Ipset.occurrences (ipset : Ipset) : List Occurrence :=
  ipset.sections.flatMap (Section.occurrences ipset.fileName)

/-- All occurrences in insertion order: by ipset, then by section, then by network. -/
def occurrences (ipsets : List Ipset) : List Occurrence := ipsets.flatMap Ipset.occurrences

/-- The occurrences whose network contains `a`, in insertion order. -/
def covering (ipsets : List Ipset) (a : Ipv4Addr) : List Occurrence :=
  (occurrences ipsets).filter fun o => o.network.contains a

/-- The six arrays of a record and the field of an occurrence each one collects. -/
def columns : List (String × (Occurrence → String)) := [
  (FILE_NAME, fun o => o.fileName),
  (SOURCE_FILE_DATE, fun o => o.metadata.sourceFileDateRfc3339),
  (LIST_SOURCE_URL, fun o => o.metadata.listSourceUrl),
  (MAINTAINER_URL, fun o => o.metadata.maintainerUrl),
  (MAINTAINER, fun o => o.metadata.maintainer),
  (CATEGORY, fun o => o.metadata.category)]

/-- The entry a reader decodes from the record of these occurrences. -/
def entryOf (os : List Occurrence) : FireholEntry where
  fileName := os.map fun o => o.fileName
  sourceFileDateRfc3339 := os.map fun o => o.metadata.sourceFileDateRfc3339
  listSourceUrl := os.map fun o => o.metadata.listSourceUrl
  maintainerUrl := os.map fun o => o.metadata.maintainerUrl
  maintainer := os.map fun o => o.metadata.maintainer
  category := os.map fun o => o.metadata.category

def Occurrence.record (M : MmdbWriter β) (o : Occurrence) : M.Value :=
  IpReputation.record M o.fileName o.metadata

/-- The insertion an occurrence causes. -/
def Occurrence.update (M : MmdbWriter β) (o : Occurrence) : Ipv4Net × M.Value :=
  (o.network, o.record M)

theorem insertNetwork_updates (hM : M.Lawful) {value : M.Value} {fileName : String}
    {w w' : M.Writer} {network : Ipv4Net}
    (h : insertNetwork M value fileName w network = .ok w') :
    RegionMap.Updates Ipv4Net.contains M.mergeDeep (M.stored w) (M.stored w') (network, value) := by
  intro a
  simp only [insertNetwork] at h
  split at h
  · rename_i w₁ hw
    cases h
    have habsorb : M.insertWith w network (RegionMap.absorb M.mergeDeep value) = some w' := by
      rw [← hw]
      congr 1
      funext existing
      cases existing <;> rfl
    exact hM.stored_insertWith w network _ _ a habsorb
  · cases h

/-- The three nested loops are one sequence of insertions, an occurrence at a time. -/
theorem insertIpsets_sequence (hM : M.Lawful) {w w' : M.Writer}
    (h : ipsets.foldlM (insertIpset M) w = .ok w') :
    RegionMap.Sequence Ipv4Net.contains M.mergeDeep (M.stored w)
      ((occurrences ipsets).map (Occurrence.update M)) (M.stored w') := by
  have hnetwork : ∀ value fileName w network w', insertNetwork M value fileName w network = .ok w' →
      RegionMap.Sequence Ipv4Net.contains M.mergeDeep (M.stored w) [(network, value)]
        (M.stored w') :=
    fun value fileName w network w' h => .cons (insertNetwork_updates hM h) .nil
  have hsection : ∀ fileName w s w', insertSection M fileName w s = .ok w' →
      RegionMap.Sequence Ipv4Net.contains M.mergeDeep (M.stored w)
        ((s.occurrences fileName).map (Occurrence.update M)) (M.stored w') := by
    intro fileName w s w' h
    have := RegionMap.Sequence.foldlM (hnetwork (record M fileName s.metadata) fileName) h
    simpa [Section.occurrences, List.flatMap_singleton', Occurrence.update, Occurrence.record,
      Function.comp_def, ← List.map_eq_flatMap] using this
  have hipset : ∀ w ipset w', insertIpset M w ipset = .ok w' →
      RegionMap.Sequence Ipv4Net.contains M.mergeDeep (M.stored w)
        (ipset.occurrences.map (Occurrence.update M)) (M.stored w') := by
    intro w ipset w' h
    have := RegionMap.Sequence.foldlM (hsection ipset.fileName) h
    simpa [Ipset.occurrences, List.map_flatMap] using this
  have := RegionMap.Sequence.foldlM hipset h
  simpa [occurrences, List.map_flatMap] using this

/-- After the insertions an address holds the merge of the records covering it. -/
theorem stored_eq_merged (hM : M.Lawful) {w : M.Writer}
    (h : ipsets.foldlM (insertIpset M) (newWriter M buildEpoch) = .ok w) (a : Ipv4Addr) :
    M.stored w a =
      RegionMap.merged M.mergeDeep ((covering ipsets a).map (Occurrence.record M)) := by
  have hempty : M.stored (newWriter M buildEpoch) = fun _ => none :=
    funext fun a => hM.stored_build _ _ _ _ a
  have hseq := insertIpsets_sequence hM h
  rw [hempty] at hseq
  rw [hseq.apply_empty, List.filter_map, List.map_map]
  rfl

/-- A field of the record written for one occurrence is that occurrence's single value. -/
theorem record_column {name : String} {get : Occurrence → String} (hc : (name, get) ∈ columns)
    (o : Occurrence) : M.Column (o.record M) name [get o] := by
  refine ⟨_, rfl, (by decide : (columns.map (·.1)).Nodup), ?_⟩
  simp only [columns, List.mem_cons, List.not_mem_nil, or_false, Prod.mk.injEq] at hc
  rcases hc with ⟨rfl, rfl⟩ | ⟨rfl, rfl⟩ | ⟨rfl, rfl⟩ | ⟨rfl, rfl⟩ | ⟨rfl, rfl⟩ | ⟨rfl, rfl⟩ <;> rfl

theorem foldl_append_singletons (get : Occurrence → String) (acc : List String)
    (os : List Occurrence) :
    (os.map fun o => [get o]).foldl (· ++ ·) acc = acc ++ os.map get := by
  induction os generalizing acc with
  | nil => simp
  | cons o os ih => simp [ih]

/-- Merging keeps every array in step with the occurrences. -/
theorem merged_column (hM : M.Lawful) {name : String} {get : Occurrence → String}
    (hc : (name, get) ∈ columns) {os : List Occurrence} {v : M.Value}
    (h : RegionMap.merged M.mergeDeep (os.map (Occurrence.record M)) = some v) :
    M.Column v name (os.map get) := by
  cases os with
  | nil =>
    rw [List.map_nil, RegionMap.merged_nil] at h
    cases h
  | cons o os =>
    rw [List.map_cons, RegionMap.merged_cons, Option.some.injEq] at h
    subst h
    have hrel : List.Forall₂ (fun v xs => M.Column v name xs) (os.map (Occurrence.record M))
        (os.map fun o => [get o]) := by
      rw [List.forall₂_map_left_iff, List.forall₂_map_right_iff, List.forall₂_same]
      intro o _
      exact record_column hc o
    rw [List.map_cons, ← List.singleton_append, ← foldl_append_singletons]
    exact RegionMap.foldl_merge_rel (fun hv hw => hv.merge hM hw) hrel (record_column hc o)

/-- A serialised database comes from a tree whose values are the merges of the covering records. -/
theorem serialise_stored (hM : M.Lawful) (h : serialise M ipsets buildEpoch = .ok bytes) :
    ∃ w, M.toBytes w = some bytes ∧ ∀ a, M.stored w a =
      RegionMap.merged M.mergeDeep ((covering ipsets a).map (Occurrence.record M)) := by
  simp only [serialise] at h
  split at h
  · cases h
  · rename_i w hw
    split at h
    · cases h
    · rename_i b hb
      cases h
      exact ⟨w, hb, stored_eq_merged hM hw⟩

theorem merged_holds (hM : M.Lawful) {os : List Occurrence} {v : M.Value}
    (h : RegionMap.merged M.mergeDeep (os.map (Occurrence.record M)) = some v) :
    M.Holds v (entryOf os) where
  fileName := merged_column hM (by simp [columns]) h
  sourceFileDate := merged_column hM (by simp [columns]) h
  listSourceUrl := merged_column hM (by simp [columns]) h
  maintainerUrl := merged_column hM (by simp [columns]) h
  maintainer := merged_column hM (by simp [columns]) h
  category := merged_column hM (by simp [columns]) h

theorem length_of_mem_columns {os : List Occurrence} {column : List String}
    (h : column ∈ (entryOf os).columns) : column.length = os.length := by
  simp only [FireholEntry.columns, entryOf, List.mem_cons, List.not_mem_nil, or_false] at h
  rcases h with rfl | rfl | rfl | rfl | rfl | rfl <;> exact List.length_map ..

/-- What a reader of the database answers for an IPv4 address that is not in too many places. -/
theorem lookup_serialised {G : Geoip2 β} {r : G.Reader} {limit : Nat} (hM : M.Lawful)
    (hG : G.ReadsUpTo M limit) (hs : serialise M ipsets buildEpoch = .ok bytes)
    (hr : G.fromBytes bytes = some r) (a : Ipv4Addr) (hfew : (covering ipsets a).length ≤ limit) :
    G.lookup r (.v4 a) =
      if covering ipsets a = [] then .error .notFound else .ok (entryOf (covering ipsets a)) := by
  obtain ⟨w, hw, hstored⟩ := serialise_stored hM hs
  split
  · rename_i hnil
    apply hG.lookup_absent w bytes r a hw hr
    rw [hstored, hnil]
    rfl
  · rename_i hne
    cases hv : M.stored w a with
    | none =>
      have hmap := RegionMap.merged_eq_none_iff.mp ((hstored a).symm.trans hv)
      exact absurd (List.map_eq_nil_iff.mp hmap) hne
    | some v =>
      have hholds := merged_holds hM ((hstored a).symm.trans hv)
      refine hG.lookup_stored w bytes r a v _ hw hr hv hholds ?_
      intro column hcolumn
      rw [length_of_mem_columns hcolumn]
      exact hfew

/-- The six arrays have one element for each occurrence, and element `i` of each is the field of
occurrence `i`. -/
def Aligned (M : MmdbWriter β) (v : M.Value) (os : List Occurrence) : Prop :=
  ∀ c ∈ columns, ∃ strings : List String, M.Column v c.1 strings ∧ strings.length = os.length ∧
    ∀ (i : Nat) (o : Occurrence), os[i]? = some o → strings[i]? = some (c.2 o)

/-- After `write_mmdb` the record of an address is absent when no network contains it, and
otherwise its six arrays list the fields of all occurrences containing it, index by index. -/
theorem record_alignment [ByteString β] {faults : WriteFaults β} {now : SystemTime}
    {output : Path} {d d' : Disk β} {size : Nat} (hM : M.Lawful)
    (h : writeMmdb M faults now ipsets buildEpoch output d = (.ok size, d')) :
    ∃ w bytes, M.toBytes w = some bytes ∧ d'.fs output = some (.file bytes now) ∧
      ∀ a, (M.stored w a = none ↔ covering ipsets a = []) ∧
        ∀ v, M.stored w a = some v → Aligned M v (covering ipsets a) := by
  obtain ⟨bytes, hs, -, hfile⟩ := writeMmdb_ok h
  obtain ⟨w, hw, hstored⟩ := serialise_stored hM hs
  refine ⟨w, bytes, hw, hfile, ?_⟩
  intro a
  constructor
  · rw [hstored, RegionMap.merged_eq_none_iff, List.map_eq_nil_iff]
  · intro v hv c hc
    refine ⟨(covering ipsets a).map c.2, ?_, by simp, ?_⟩
    · exact merged_column hM hc ((hstored a).symm.trans hv)
    · intro i o ho
      simp [ho]

open Reference in
/-- Two lists overlapping on `10.1.0.0/16`. -/
theorem record_alignment_overlap :
    ∃ w bytes, mmdbWriter.toBytes w = some bytes ∧
      (writeMmdb mmdbWriter {} 7 [abuseIpset, spamNetset] 0 fireholMmdb ⟨fun _ => none, []⟩).2.fs
        fireholMmdb = some (.file bytes 7) ∧
      ∀ a, (mmdbWriter.stored w a = none ↔ covering [abuseIpset, spamNetset] a = []) ∧
        ∀ v, mmdbWriter.stored w a = some v →
          Aligned mmdbWriter v (covering [abuseIpset, spamNetset] a) :=
  record_alignment mmdbWriter_lawful
    (rfl : writeMmdb mmdbWriter {} 7 [abuseIpset, spamNetset] 0 fireholMmdb ⟨fun _ => none, []⟩ =
      (.ok 1, _))

end IpReputation
