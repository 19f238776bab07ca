import IpReputation.Recovery
import IpReputation.Selection
import IpReputation.Startup

/-! From the commit an update fetches to the verdict on an address. -/
namespace IpReputation

variable {β : Type} {M : MmdbWriter β} {G : Geoip2 β} {P : Parsers} {filter : IpFilter}
  {ignoreCountry : Bool} {unreadable : Path → Bool} {tree : List TreeEntry} {tip : Commit}
  {workTree : Path → Option (List UInt8)} {files : List Path} {ipsets : List Ipset}
  {bytes : β} {snapshot : Snapshot G} {ip : IpAddr} {m : Metrics} {limit : Nat}

/-- The name and the text of a list file, when both are UTF-8. -/
def textFile (workTree : Path → Option (List UInt8)) (p : Path) : Option (String × String) :=
  (p.fileName.bind fromUtf8).bind fun name => ((workTree p).bind fromUtf8).map (name, ·)

/-- Some list file of the commit, outside the skipped directories, blocks `a`. -/
def CommitBlocks (P : Parsers) (ignoreCountry : Bool) (filter : IpFilter) (tip : Commit)
    (a : Ipv4Addr) : Prop :=
  ∃ p ∈ selection ignoreCountry tip.tree, ∃ file, textFile (contentAt tip.tree) p = some file ∧
    Blocks P filter file a

/-- How many networks of the commit's lists contain `a`; the record of `a` has a value for each. -/
def listings (P : Parsers) (ignoreCountry : Bool) (tip : Commit) (a : Ipv4Addr) : Nat :=
  (covering (parseFiles P (contentAt tip.tree) (selection ignoreCountry tip.tree)) a).length

theorem collected_eq_selection (h : collectIpsetFiles ignoreCountry unreadable tree = .ok files) :
    files = selection ignoreCountry tree := by
  have hwalk : WalksTo ignoreCountry unreadable (located [] tree) ⟨[], []⟩
      (collectRecursive ignoreCountry unreadable tree ⟨[], []⟩) :=
    collectRecursive_walksTo tree [] ⟨[], []⟩ rfl rfl
  simp only [collectIpsetFiles] at h
  rcases hr : collectRecursive ignoreCountry unreadable tree ⟨[], []⟩ with ⟨e | u, w⟩
  · simp [hr] at h
  · rw [hr] at hwalk h
    obtain rfl := Except.ok.inj h
    rcases hwalk with ⟨-, -, hfiles⟩ | ⟨⟨e, he⟩, -⟩
    · exact hfiles
    · cases he

/-- `parse_files` parses the texts of the files, and leaves the others out. -/
theorem parseFiles_eq_parseAll :
    parseFiles P workTree files = parseAll P (files.filterMap (textFile workTree)) := by
  rw [parseFiles, parseAll, List.filterMap_filterMap]
  apply List.filterMap_congr
  intro p _
  simp only [parseFile, textFile]
  cases hname : p.fileName.bind fromUtf8 with
  | none => rfl
  | some name =>
    cases hcontent : (workTree p).bind fromUtf8 with
    | none => rfl
    | some content => cases hparse : parse P name content <;> simp [hparse, Except.toOption]

/-- From the database of a commit the filter answers by the lists of the commit's tree. -/
theorem shouldDrop_databaseOf (hM : M.Lawful) (hG : G.ReadsUpTo M limit)
    (hfew : ∀ a, ip = .v4 a → listings P ignoreCountry tip a ≤ limit)
    (hdb : databaseOf P M ignoreCountry tip = some snapshot.reader.owner) :
    (filter.shouldDrop (some snapshot) ip m).1 = true ↔
      ∃ a, ip = .v4 a ∧ CommitBlocks P ignoreCountry filter tip a := by
  simp only [databaseOf] at hdb
  split at hdb
  · cases hdb
  · rename_i files hfiles
    split at hdb
    · cases hdb
    · rename_i epoch hepoch
      obtain rfl := collected_eq_selection hfiles
      cases hs : serialise M (parseFiles P (contentAt tip.tree) (selection ignoreCountry tip.tree))
          epoch with
      | error e => simp [hs, Except.toOption] at hdb
      | ok bytes =>
        obtain rfl : bytes = snapshot.reader.owner := by simpa [hs, Except.toOption] using hdb
        rw [shouldDrop_serialised hM hG hfew hs, parseFiles_eq_parseAll]
        simp only [exists_covering_iff_blocks, List.mem_filterMap, CommitBlocks]
        constructor
        · rintro ⟨a, rfl, file, ⟨p, hp, hfile⟩, hblocks⟩
          exact ⟨a, rfl, p, hp, file, hfile, hblocks⟩
        · rintro ⟨a, rfl, p, hp, file, hfile, hblocks⟩
          exact ⟨a, rfl, file, ⟨p, hp, hfile⟩, hblocks⟩

/-- Unless the time of the file is that of the snapshot, an `Ok` means the file was loaded. -/
theorem Mmdb.reloadIfChanged_loads {lossy : Path → String} {faults : LoadFaults} {path : Path}
    {fs : FileSystem β} {s s' : Served G} {b : Bool} {t : SystemTime}
    (hfile : fs path = some (.file bytes t))
    (hchanged : ∀ snapshot, s.snapshot = some snapshot → snapshot.modified ≠ some t)
    (h : Mmdb.reloadIfChanged lossy faults path fs s = (.ok b, s')) :
    ∃ snapshot, s'.snapshot = some snapshot ∧ snapshot.reader.owner = bytes := by
  simp only [Mmdb.reloadIfChanged] at h
  split at h
  · simp at h
  · rename_i modified hmodified
    obtain rfl : t = modified := by
      simp only [modifiedTime, metadata, hfile] at hmodified
      split at hmodified
      · cases hmodified
      · exact Except.ok.inj hmodified
    have hnew : Mmdb.unchanged s.snapshot t = false := by
      cases hsnap : s.snapshot with
      | none => rfl
      | some snapshot => simpa [Mmdb.unchanged] using hchanged snapshot hsnap
    rw [hnew] at h
    simp only [Bool.false_eq_true, if_false] at h
    split at h
    · simp at h
    · rename_i s₁ hload
      obtain ⟨-, rfl⟩ := Prod.mk.inj h
      rcases Mmdb.loadLocked_cases hload with ⟨e, he⟩ | ⟨read, reader, hread, howner, hr⟩
      · simp at he
      · have hbytes := Mmdb.readFile_of_tryRead hread
        simp only [readFile, hfile, Except.ok.injEq] at hbytes
        rw [(Prod.mk.inj hr).2]
        exact ⟨_, rfl, howner.trans hbytes.symm⟩

variable [ByteString β] {u : FireholUpdater} {env : RunEnv β} {lossy : Path → String}
  {loadFaults : LoadFaults} {mmdbPath : Path} {w w' : World β} {s s' : Served G}

/-- An update that gets past its freshness check and ends well serves the commit it fetched. -/
theorem runUpdate_serves (hg : env.git.Checkouts)
    (hfree : w.lock.held = false) (hpassed : PassedCheck u mmdbPath w tip env)
    (hclock : ∀ snapshot, s.snapshot = some snapshot → snapshot.modified ≠ some env.now)
    (h : u.runUpdate P M env lossy loadFaults mmdbPath w s = (.ok (), w', s')) :
    ∃ snapshot, s'.snapshot = some snapshot ∧
      databaseOf P M u.ignoreCountry tip = some snapshot.reader.owner := by
  obtain ⟨c, dir, mmdbEpoch, hsync, hstat, hlt⟩ := hpassed
  simp only [FireholUpdater.runUpdate] at h
  split at h
  · simp at h
  · rename_i w₁ hskipped
    obtain ⟨-, c', tip', dir', mmdbEpoch', hsync', hstat', hle⟩ := update_skipped hfree hskipped
    rw [hsync] at hsync'
    rw [modifiedEpoch_ok hstat] at hstat'
    simp only [Prod.mk.injEq, Except.ok.injEq] at hsync' hstat'
    obtain ⟨⟨-, rfl⟩, -⟩ := hsync'
    omega
  · rename_i w₁ hbuilt
    obtain ⟨bytes, hdb, hfile⟩ := update_database hg hsync hbuilt
    split at h
    · simp at h
    · rename_i b s₁ hreload
      obtain ⟨-, -, rfl⟩ : () = () ∧ w₁ = w' ∧ s₁ = s' := by simpa using h
      obtain ⟨snapshot, hsnap, howner⟩ := Mmdb.reloadIfChanged_loads hfile hclock hreload
      exact ⟨snapshot, hsnap, howner ▸ hdb⟩

/-- End to end, from upstream to the agent: once an update with a newer commit has ended well, an
address is dropped exactly when a list file of that commit blocks it. -/
theorem runUpdate_verdict (hM : M.Lawful) (hG : G.ReadsUpTo M limit)
    (hfew : ∀ a, ip = .v4 a → listings P u.ignoreCountry tip a ≤ limit)
    (hg : env.git.Checkouts) (hfree : w.lock.held = false)
    (hpassed : PassedCheck u mmdbPath w tip env)
    (hclock : ∀ snapshot, s.snapshot = some snapshot → snapshot.modified ≠ some env.now)
    (h : u.runUpdate P M env lossy loadFaults mmdbPath w s = (.ok (), w', s')) :
    (filter.shouldDrop s'.snapshot ip m).1 = true ↔
      ∃ a, ip = .v4 a ∧ CommitBlocks P u.ignoreCountry filter tip a := by
  obtain ⟨snapshot, hsnap, hdb⟩ := runUpdate_serves hg hfree hpassed hclock h
  rw [hsnap]
  exact shouldDrop_databaseOf hM hG hfew hdb

open Reference in
theorem firstUpdate_ends :
    (updater.runUpdate parsers mmdbWriter (runEnv (bareCommit 1 2000) 3000)
      (fun _ => "firehol.mmdb") {} fireholMmdb emptyWorld ({} : Served geoip2)).1 = .ok () := by rfl

open Reference in
/-- The first update of an empty machine, from a commit that lists `1.2.3.4`. -/
theorem runUpdate_verdict_first :
    (IpFilter.shouldDrop ⟨∅, {"bare.ipset"}⟩
        (updater.runUpdate parsers mmdbWriter (runEnv (bareCommit 1 2000) 3000)
          (fun _ => "firehol.mmdb") {} fireholMmdb emptyWorld ({} : Served geoip2)).2.2.snapshot
        (.v4 0x01020304#32) {}).1 = true ↔
      ∃ a, IpAddr.v4 0x01020304#32 = .v4 a ∧
        CommitBlocks parsers updater.ignoreCountry ⟨∅, {"bare.ipset"}⟩ (bareCommit 1 2000) a := by
  have hpassed : PassedCheck updater fireholMmdb emptyWorld (bareCommit 1 2000)
      (runEnv (bareCommit 1 2000) 3000) := ⟨_, _, 0, rfl, rfl, by decide⟩
  have hrun : updater.runUpdate parsers mmdbWriter (runEnv (bareCommit 1 2000) 3000)
      (fun _ => "firehol.mmdb") {} fireholMmdb emptyWorld ({} : Served geoip2) = (.ok (), _, _) :=
    Prod.ext firstUpdate_ends rfl
  have hfew : ∀ a, IpAddr.v4 0x01020304#32 = .v4 a →
      listings parsers updater.ignoreCountry (bareCommit 1 2000) a ≤ 28 := by
    rintro a ⟨⟩
    decide
  exact (runUpdate_verdict mmdbWriter_lawful (geoip2_readsUpTo 28) hfew
    (git_checkouts fun _ _ => some (bareCommit 1 2000)) rfl hpassed (by simp) hrun :)

variable {cli : Cli} {env : StartEnv G} {serving : Serving}

omit [ByteString β] in
/-- What a start loads bears the time of the file, or none. -/
theorem loadExisting_modified {fs : FileSystem β}
    (h : loadExisting env mmdbPath fs {} = (.ok (), s)) (hsnap : s.snapshot = some snapshot)
    {t : SystemTime} (ht : snapshot.modified = some t) :
    ∃ node, fs mmdbPath = some node ∧ node.modified = t := by
  unfold loadExisting at h
  split at h
  · rcases Mmdb.loadLocked_cases h with ⟨e, he⟩ | ⟨bytes, reader, -, -, hr⟩
    · simp at he
    · obtain ⟨-, rfl⟩ := Prod.mk.inj hr
      obtain rfl := Option.some.inj hsnap
      change (modifiedTime env.loadFaults mmdbPath fs).toOption = some t at ht
      simp only [modifiedTime, metadata] at ht
      split at ht
      · cases ht
      · cases hnode : fs mmdbPath with
        | none => simp [hnode, Except.toOption] at ht
        | some node => exact ⟨node, rfl, by simpa [hnode, Except.toOption] using ht⟩
  · obtain ⟨-, rfl⟩ := Prod.mk.inj h
    cases hsnap

theorem run_serving (h : run P M cli env w = (.ok serving, w', s')) :
    serving = ⟨cli.spoaListenAdress, cli.filter⟩ := by
  simp only [run] at h
  repeat' split at h
  all_goals simp only [Prod.mk.injEq, Except.ok.injEq, reduceCtorEq, false_and] at h
  exact h.1.symm

/-- The agent opens its listener with the verdicts of the commit it fetched, when that is newer
than the database it found, under the drop options of its command line. -/
theorem run_verdict (hM : M.Lawful) (hG : G.ReadsUpTo M limit)
    (hfew : ∀ a, ip = .v4 a → listings P cli.fireholIgnoreCountry tip a ≤ limit)
    (hg : env.update.git.Checkouts) (hfree : w.lock.held = false)
    (hpath : absolute env.currentDir cli.mmdbPath = some mmdbPath)
    (hpassed : PassedCheck cli.updater mmdbPath w tip env.update)
    (hclock : ∀ node, w.fs mmdbPath = some node → node.modified ≠ env.update.now)
    (h : run P M cli env w = (.ok serving, w', s')) :
    (serving.filter.shouldDrop s'.snapshot ip m).1 = true ↔
      ∃ a, ip = .v4 a ∧ CommitBlocks P cli.fireholIgnoreCountry cli.filter tip a := by
  obtain ⟨path, s, hpath', hload, -, hupdate⟩ := run_ok h
  obtain rfl := Option.some.inj (hpath'.symm.trans hpath)
  obtain rfl := run_serving h
  have hfresh : ∀ snapshot, s.snapshot = some snapshot →
      snapshot.modified ≠ some env.update.now := by
    intro snapshot hsnap ht
    obtain ⟨node, hnode, htime⟩ := loadExisting_modified hload hsnap ht
    exact hclock node hnode htime
  obtain ⟨snapshot, hsnap, hdb⟩ := runUpdate_serves hg hfree hpassed hfresh hupdate
  rw [hsnap]
  exact shouldDrop_databaseOf hM hG hfew hdb

open Reference in
/-- A first start in `/data`, while a commit that lists `1.2.3.4` is upstream. -/
def firstStart : StartEnv geoip2 where
  currentDir := some dataDir
  lossy _ := "firehol.mmdb"
  update := runEnv (bareCommit 1 2000) 3000

/-- The options of that start. -/
def firstCli : Cli := exampleCli.withDrops none (some "bare.ipset")

open Reference in
theorem firstStart_serves : (run parsers mmdbWriter firstCli firstStart emptyWorld).1 =
    .ok ⟨firstCli.spoaListenAdress, firstCli.filter⟩ := by rfl

open Reference in
theorem firstStart_passes :
    PassedCheck firstCli.updater fireholMmdb emptyWorld (bareCommit 1 2000) firstStart.update :=
  ⟨_, _, 0, rfl, rfl, by decide⟩

open Reference in
theorem run_verdict_first :
    (firstCli.filter.shouldDrop (run parsers mmdbWriter firstCli firstStart emptyWorld).2.2.snapshot
        (.v4 0x01020304#32) {}).1 = true ↔
      ∃ a, IpAddr.v4 0x01020304#32 = .v4 a ∧
        CommitBlocks parsers firstCli.fireholIgnoreCountry firstCli.filter (bareCommit 1 2000)
          a := by
  have hrun : run parsers mmdbWriter firstCli firstStart emptyWorld = (.ok _, _, _) :=
    Prod.ext firstStart_serves rfl
  have hfew : ∀ a, IpAddr.v4 0x01020304#32 = .v4 a →
      listings parsers firstCli.fireholIgnoreCountry (bareCommit 1 2000) a ≤ 28 := by
    rintro a ⟨⟩
    decide
  exact (run_verdict mmdbWriter_lawful (geoip2_readsUpTo 28) hfew
    (git_checkouts fun _ _ => some (bareCommit 1 2000)) rfl rfl firstStart_passes
    (by simp [emptyWorld]) hrun :)

end IpReputation
