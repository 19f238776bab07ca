import IpReputation.AtomicReplace
import IpReputation.Git
import IpReputation.Mmdb

/-! `firehol/mod.rs`: one update of the database from the blocklist repository. -/
namespace IpReputation

variable {β : Type}

structure FireholUpdater where
  repo : GitRepository
  ignoreCountry : Bool

/-- `update_lock`, a mutex that a panic may have poisoned. -/
structure UpdateLock where
  held : Bool := false
  poisoned : Bool := false

/-- What an update works on; the clone is kept apart from the other files. -/
structure World (β : Type) where
  dir : RepoDir
  fs : FileSystem β
  lock : UpdateLock := {}

/-- What one run meets: how `git2` and the file system behave, and the clock at the write. -/
structure RunEnv (β : Type) where
  git : Git2
  statFails : Bool := false
  writeFaults : WriteFaults β := {}
  now : SystemTime

inductive UpdateError
  | git (e : GitError)
  | stat (p : Path)
  | commitTree
  | collect (e : CollectError)
  | noEntries (path : Path)
  | negativeTimestamp
  | timestampOutOfRange
  | build (e : BuildError)
  deriving DecidableEq

/-- Whole seconds since the epoch, `0` before it. -/
def systemTimeToEpoch (time : SystemTime) : Int :=
  if time < 0 then 0 else min (time / nanos) i64Max

/-- Modification time of `p` as Unix seconds, or `0` when the file does not exist. -/
def modifiedEpoch (statFails : Bool) (p : Path) (fs : FileSystem β) : Except UpdateError Int :=
  if statFails then .error (.stat p)
  else
    match metadata p fs with
    | .ok node => .ok (systemTimeToEpoch node.modified)
    | .error .notFound => .ok 0
    | .error _ => .error (.stat p)

inductive FileError
  | notUtf8Name
  | cannotRead
  | malformed (e : ParseError)

/-- One file of `parse_files`, relative to the root of the working tree. -/
def parseFile (P : Parsers) (workTree : Path → Option (List UInt8)) (relative : Path) :
    Except FileError Ipset :=
  match relative.fileName.bind fromUtf8 with
  | none => .error .notUtf8Name
  | some fileName =>
    match (workTree relative).bind fromUtf8 with
    | none => .error .cannotRead
    | some content =>
      match parse P fileName content with
      | .error e => .error (.malformed e)
      | .ok ipset => .ok ipset

/-- Unreadable or malformed files are skipped with a warning. -/
def parseFiles (P : Parsers) (workTree : Path → Option (List UInt8)) (files : List Path) :
    List Ipset :=
  files.filterMap fun relative => (parseFile P workTree relative).toOption

/-- The commit time as a `SystemTime`. -/
def buildEpoch (commitEpoch : Int) : Except UpdateError SystemTime :=
  if commitEpoch < 0 then .error .negativeTimestamp
  else if commitEpoch > i64Max then .error .timestampOutOfRange
  else .ok (commitEpoch * nanos)

namespace FireholUpdater

/-- `open_or_clone` and `remote_tip`. -/
def synchronise (u : FireholUpdater) (g : Git2) (dir : RepoDir) :
    Except UpdateError (Clone × Commit) × RepoDir :=
  match u.repo.openOrClone g dir with
  | (.error e, dir) => (.error (.git e), dir)
  | (.ok c, dir) =>
    match u.repo.remoteTip g c with
    | .error e => (.error (.git e), dir)
    | .ok tip => (.ok (c, tip), dir)

/-- From the checkout to the build epoch: what `write_mmdb` is given. -/
def prepare (u : FireholUpdater) (P : Parsers) (g : Git2) (tip : Commit) (c : Clone) :
    Except UpdateError (List Ipset × SystemTime) × Clone :=
  match u.repo.checkout g tip c with
  | (.error e, c) => (.error (.git e), c)
  | (.ok (), c) =>
    match g.tree tip with
    | none => (.error .commitTree, c)
    | some tree =>
      match collectIpsetFiles u.ignoreCountry g.unreadable tree with
      | .error e => (.error (.collect e), c)
      | .ok files =>
        let ipsets := parseFiles P c.workTree files
        if (ipsets.map Ipset.networkCount).sum = 0 then (.error (.noEntries u.repo.path), c)
        else
          match buildEpoch tip.time.toInt with
          | .error e => (.error e, c)
          | .ok epoch => (.ok (ipsets, epoch), c)

variable [ByteString β]

/-- Everything `update_and_build_mmdb` does under its lock. -/
def updateLocked (u : FireholUpdater) (P : Parsers) (M : MmdbWriter β) (env : RunEnv β)
    (mmdbPath : Path) (w : World β) : Except UpdateError Bool × World β :=
  match u.synchronise env.git w.dir with
  | (.error e, dir) => (.error e, { w with dir })
  | (.ok (c, tip), dir) =>
    match modifiedEpoch env.statFails mmdbPath w.fs with
    | .error e => (.error e, { w with dir })
    | .ok mmdbEpoch =>
      if tip.time.toInt ≤ mmdbEpoch then (.ok false, { w with dir })
      else
        match u.prepare P env.git tip c with
        | (.error e, c) => (.error e, { w with dir := .repository c })
        | (.ok (ipsets, epoch), c) =>
          match writeMmdb M env.writeFaults env.now ipsets epoch mmdbPath ⟨w.fs, []⟩ with
          | (.error e, d) => (.error (.build e), { w with dir := .repository c, fs := d.fs })
          | (.ok _, d) => (.ok true, { w with dir := .repository c, fs := d.fs })

/-- Synchronises the repository and rebuilds `mmdbPath` when the blocklists are newer than the
file. Answers `Ok(true)` when a new database was written; a poisoned lock is taken over. -/
def updateAndBuildMmdb (u : FireholUpdater) (P : Parsers) (M : MmdbWriter β) (env : RunEnv β)
    (mmdbPath : Path) (w : World β) : Except UpdateError Bool × World β :=
  if w.lock.held then (.ok false, w)
  else
    let locked : World β := { w with lock := { w.lock with held := true } }
    let (answer, w) := u.updateLocked P M env mmdbPath locked
    (answer, { w with lock := { w.lock with held := false } })

inductive RunError
  | update (e : UpdateError)
  | reload (e : LoadError)
  deriving DecidableEq

/-- Updates, then loads the new file so that lookups switch to it. -/
def runUpdate {G : Geoip2 β} (u : FireholUpdater) (P : Parsers) (M : MmdbWriter β)
    (env : RunEnv β) (lossy : Path → String) (loadFaults : LoadFaults) (mmdbPath : Path)
    (w : World β) (s : Served G) : Except RunError Unit × World β × Served G :=
  match u.updateAndBuildMmdb P M env mmdbPath w with
  | (.error e, w) => (.error (.update e), w, s)
  | (.ok false, w) => (.ok (), w, s)
  | (.ok true, w) =>
    match Mmdb.reloadIfChanged lossy loadFaults mmdbPath w.fs s with
    | (.error e, s) => (.error (.reload e), w, s)
    | (.ok _, s) => (.ok (), w, s)

end FireholUpdater

/-- The database of a commit: the lists of its tree, under its commit time. -/
def databaseOf (P : Parsers) (M : MmdbWriter β) (ignoreCountry : Bool) (tip : Commit) : Option β :=
  match collectIpsetFiles ignoreCountry (fun _ => false) tip.tree with
  | .error _ => none
  | .ok files =>
    match buildEpoch tip.time.toInt with
    | .error _ => none
    | .ok epoch => (serialise M (parseFiles P (contentAt tip.tree) files) epoch).toOption

variable {u : FireholUpdater} {P : Parsers} {M : MmdbWriter β} {g : Git2} {servers : Servers}
  {tip : Commit} {c c' : Clone} {dir dir' : RepoDir} {ipsets : List Ipset} {epoch : SystemTime}

/-- Only the contents at the listed paths matter to `parse_files`. -/
theorem parseFiles_congr {files : List Path} {t t' : Path → Option (List UInt8)}
    (h : ∀ p ∈ files, t p = t' p) : parseFiles P t files = parseFiles P t' files := by
  simp only [parseFiles]
  apply List.filterMap_congr
  intro p hp
  simp only [parseFile, h p hp]

/-- Whatever the clone held before, what a run prepares is what the commit itself says. -/
theorem prepare_database (hg : g.Checkouts)
    (h : u.prepare P g tip c = (.ok (ipsets, epoch), c')) :
    databaseOf P M u.ignoreCountry tip = (serialise M ipsets epoch).toOption := by
  simp only [FireholUpdater.prepare] at h
  split at h
  · simp at h
  · rename_i c₁ hcheckout
    split at h
    · simp at h
    · rename_i tree htree
      obtain rfl := hg.tree_eq _ _ htree
      split at h
      · simp at h
      · rename_i files hfiles
        split at h
        · simp at h
        · split at h
          · simp at h
          · rename_i epoch' hepoch
            simp only [Prod.mk.injEq, Except.ok.injEq] at h
            obtain ⟨⟨rfl, rfl⟩, rfl⟩ := h
            have hcontent : ∀ p ∈ files, c₁.workTree p = contentAt tip.tree p := by
              intro p hp
              obtain ⟨content, hat⟩ := contentAt_of_collected hfiles hp
              rw [hat, checkout_content hg hcheckout hat]
            simp only [databaseOf, collectIpsetFiles_readable hfiles, hepoch,
              parseFiles_congr hcontent]

/-- A synchronised run has the tip its source serves, and its clone on disk. -/
theorem synchronise_tip (hg : g.Lawful servers)
    (h : u.synchronise g dir = (.ok (c, tip), dir')) :
    dir' = .repository c ∧
      ∃ url, u.repo.Source dir url ∧ servers url (headsRef u.repo.branch) = some tip := by
  simp only [FireholUpdater.synchronise] at h
  split at h
  · simp at h
  · rename_i c₁ dir₁ hopen
    split at h
    · simp at h
    · rename_i tip₁ htip
      simp only [Prod.mk.injEq, Except.ok.injEq] at h
      obtain ⟨⟨rfl, rfl⟩, rfl⟩ := h
      obtain ⟨hdir, url, hsource, htracks⟩ :=
        openOrClone_tracks hg.lookups hg.transfers hg.finds_branch hopen
      exact ⟨hdir, url, hsource, remoteTip_tracked hg.lookups htracks htip⟩

variable [ByteString β] {env : RunEnv β} {mmdbPath : Path} {w w' : World β}
  {answer : Except UpdateError Bool}

/-- The ways a run under the lock ends. -/
inductive Ends (u : FireholUpdater) (P : Parsers) (M : MmdbWriter β) (env : RunEnv β)
    (mmdbPath : Path) (w : World β) : Except UpdateError Bool → World β → Prop
  /-- Nothing was compared. -/
  | early (e : UpdateError) (dir : RepoDir) :
      (∀ c tip dir', u.synchronise env.git w.dir = (.ok (c, tip), dir') →
        modifiedEpoch env.statFails mmdbPath w.fs = .error e) →
      Ends u P M env mmdbPath w (.error e) { w with dir }
  /-- The tip is not newer than the file. -/
  | skipped {c : Clone} {tip : Commit} {dir : RepoDir} {mmdbEpoch : Int} :
      u.synchronise env.git w.dir = (.ok (c, tip), dir) →
      modifiedEpoch env.statFails mmdbPath w.fs = .ok mmdbEpoch →
      tip.time.toInt ≤ mmdbEpoch → Ends u P M env mmdbPath w (.ok false) { w with dir }
  /-- The tip is newer, but the lists could not be prepared. -/
  | unprepared {c c' : Clone} {tip : Commit} {dir : RepoDir} {mmdbEpoch : Int}
      {e : UpdateError} :
      u.synchronise env.git w.dir = (.ok (c, tip), dir) →
      modifiedEpoch env.statFails mmdbPath w.fs = .ok mmdbEpoch →
      mmdbEpoch < tip.time.toInt → u.prepare P env.git tip c = (.error e, c') →
      Ends u P M env mmdbPath w (.error e) { w with dir := .repository c' }
  /-- The tip is newer, but the database could not be written. -/
  | unwritten {c c' : Clone} {tip : Commit} {dir : RepoDir} {mmdbEpoch : Int}
      {ipsets : List Ipset} {epoch : SystemTime} {e : BuildError} {d : Disk β} :
      u.synchronise env.git w.dir = (.ok (c, tip), dir) →
      modifiedEpoch env.statFails mmdbPath w.fs = .ok mmdbEpoch →
      mmdbEpoch < tip.time.toInt → u.prepare P env.git tip c = (.ok (ipsets, epoch), c') →
      writeMmdb M env.writeFaults env.now ipsets epoch mmdbPath ⟨w.fs, []⟩ = (.error e, d) →
      Ends u P M env mmdbPath w (.error (.build e))
        { w with dir := .repository c', fs := d.fs }
  | built {c c' : Clone} {tip : Commit} {dir : RepoDir} {mmdbEpoch : Int}
      {ipsets : List Ipset} {epoch : SystemTime} {size : Nat} {d : Disk β} :
      u.synchronise env.git w.dir = (.ok (c, tip), dir) →
      modifiedEpoch env.statFails mmdbPath w.fs = .ok mmdbEpoch →
      mmdbEpoch < tip.time.toInt → u.prepare P env.git tip c = (.ok (ipsets, epoch), c') →
      writeMmdb M env.writeFaults env.now ipsets epoch mmdbPath ⟨w.fs, []⟩ = (.ok size, d) →
      Ends u P M env mmdbPath w (.ok true) { w with dir := .repository c', fs := d.fs }

theorem updateLocked_ends (h : u.updateLocked P M env mmdbPath w = (answer, w')) :
    Ends u P M env mmdbPath w answer w' := by
  simp only [FireholUpdater.updateLocked] at h
  split at h
  · rename_i e dir hsync
    obtain ⟨rfl, rfl⟩ := Prod.mk.inj h
    refine .early e dir ?_
    intro c tip dir' hok
    simp [hsync] at hok
  · rename_i c tip dir hsync
    split at h
    · rename_i e hstat
      obtain ⟨rfl, rfl⟩ := Prod.mk.inj h
      exact .early e dir fun _ _ _ _ => hstat
    · rename_i mmdbEpoch hstat
      split at h
      · rename_i hle
        obtain ⟨rfl, rfl⟩ := Prod.mk.inj h
        exact .skipped hsync hstat hle
      · rename_i hnewer
        have hlt : mmdbEpoch < tip.time.toInt := by omega
        split at h
        · rename_i e c' hprep
          obtain ⟨rfl, rfl⟩ := Prod.mk.inj h
          exact .unprepared hsync hstat hlt hprep
        · rename_i ipsets epoch c' hprep
          split at h
          · rename_i e d hwrite
            obtain ⟨rfl, rfl⟩ := Prod.mk.inj h
            exact .unwritten hsync hstat hlt hprep hwrite
          · rename_i size d hwrite
            obtain ⟨rfl, rfl⟩ := Prod.mk.inj h
            exact .built hsync hstat hlt hprep hwrite

/-- A run that got the lock ends in one of these ways and gives the lock back. -/
theorem update_ends (h : u.updateAndBuildMmdb P M env mmdbPath w = (answer, w'))
    (hfree : w.lock.held = false) :
    ∃ w₁, Ends u P M env mmdbPath { w with lock := { w.lock with held := true } } answer w₁ ∧
      w' = { w₁ with lock := { w₁.lock with held := false } } := by
  simp only [FireholUpdater.updateAndBuildMmdb, hfree, Bool.false_eq_true, if_false] at h
  obtain ⟨rfl, rfl⟩ := Prod.mk.inj h
  exact ⟨_, updateLocked_ends rfl, rfl⟩

theorem update_held (hheld : w.lock.held = true) :
    u.updateAndBuildMmdb P M env mmdbPath w = (.ok false, w) := by
  simp [FireholUpdater.updateAndBuildMmdb, hheld]

omit [ByteString β] in
/-- A check that got an epoch read the metadata. -/
theorem modifiedEpoch_ok {fs : FileSystem β} {statFails : Bool} {mmdbEpoch : Int}
    (h : modifiedEpoch statFails mmdbPath fs = .ok mmdbEpoch) :
    modifiedEpoch false mmdbPath fs = .ok mmdbEpoch := by
  cases statFails with
  | true => simp [modifiedEpoch] at h
  | false => exact h

/-- Under a free lock a run answers `Ok(false)` only by the freshness check. -/
theorem update_skipped (hfree : w.lock.held = false)
    (h : u.updateAndBuildMmdb P M env mmdbPath w = (.ok false, w')) :
    w'.fs = w.fs ∧ ∃ c tip dir mmdbEpoch, u.synchronise env.git w.dir = (.ok (c, tip), dir) ∧
      modifiedEpoch false mmdbPath w.fs = .ok mmdbEpoch ∧ tip.time.toInt ≤ mmdbEpoch := by
  obtain ⟨w₁, hends, rfl⟩ := update_ends h hfree
  cases hends with
  | skipped hsync hstat hle => exact ⟨rfl, _, _, _, _, hsync, modifiedEpoch_ok hstat, hle⟩

/-- A run that finds the tip no newer than the file answers `Ok(false)`. -/
theorem update_current {mmdbEpoch : Int} (hfree : w.lock.held = false)
    (hsync : u.synchronise env.git w.dir = (.ok (c, tip), dir))
    (hstat : modifiedEpoch env.statFails mmdbPath w.fs = .ok mmdbEpoch)
    (hle : tip.time.toInt ≤ mmdbEpoch) :
    ∃ w', u.updateAndBuildMmdb P M env mmdbPath w = (.ok false, w') := by
  simp [FireholUpdater.updateAndBuildMmdb, FireholUpdater.updateLocked, hfree, hsync, hstat, hle]

omit [ByteString β] in
/-- The metadata of a present file decides its epoch. -/
theorem modifiedEpoch_some {fs : FileSystem β} {node : FileStore.Node β SystemTime}
    (h : fs mmdbPath = some node) :
    modifiedEpoch false mmdbPath fs = .ok (systemTimeToEpoch node.modified) := by
  simp [modifiedEpoch, metadata, h]

omit [ByteString β] in
/-- Once the metadata can be read the check has an epoch, also where there is no file. -/
theorem modifiedEpoch_readable (p : Path) (fs : FileSystem β) :
    ∃ mmdbEpoch, modifiedEpoch false p fs = .ok mmdbEpoch := by
  cases hp : fs p with
  | none => exact ⟨0, by simp [modifiedEpoch, metadata, hp]⟩
  | some node => exact ⟨_, modifiedEpoch_some hp⟩

end IpReputation
