import IpReputation.DropSets
import IpReputation.Idempotence

/-! `main.rs`: the start-up of the agent, up to the listener. -/
namespace IpReputation

variable {β : Type} {G : Geoip2 β}

/-- `FireholUpdater::new` on the options. -/
def Cli.updater (cli : Cli) : FireholUpdater where
  repo := ⟨cli.fireholRepoPath, cli.fireholRepoUrl, cli.fireholRepoBranch⟩
  ignoreCountry := cli.fireholIgnoreCountry

/-- What a start meets: the machine, the file watcher, the sockets and the scheduler. -/
structure StartEnv (G : Geoip2 β) where
  currentDir : Option Path
  lossy : Path → String
  isFileFails : Bool := false
  loadFaults : LoadFaults := {}
  createsWatcher : Bool := true
  watches : Path → Bool := fun _ => true
  binds : String → Bool := fun _ => true
  update : RunEnv β
  reloadFaults : LoadFaults := {}
  /-- What a panic of the blocking task leaves behind. -/
  panicked : Option (World β × Served G) := none
  createsScheduler : Bool := true
  parsesCron : String → Bool := fun _ => true
  addsJob : Bool := true
  startsScheduler : Bool := true

inductive StartError
  | mmdbPath (p : Path)
  | load (e : LoadError)
  | noParent (p : Path)
  | noFileName (p : Path)
  | watcher
  | watch (dir : Path)
  | metricsListener (addr : String)
  | update (e : FireholUpdater.RunError)
  | panicked
  | createScheduler
  | cron (expression : String)
  | addJob
  | startScheduler
  deriving DecidableEq

/-- `MmdbWatcher::start`: the directory of `path` is watched. -/
def MmdbWatcher.start (env : StartEnv G) (path : Path) : Except StartError Unit :=
  match path.parent with
  | none | some [] => .error (.noParent path)
  | some dir =>
    match path.fileName with
    | none => .error (.noFileName path)
    | some _ =>
      if !env.createsWatcher then .error .watcher
      else if !env.watches dir then .error (.watch dir)
      else .ok ()

/-- `MetricsServer::bind`. -/
def MetricsServer.bind (env : StartEnv G) (addr : String) : Except StartError Unit :=
  if env.binds addr then .ok () else .error (.metricsListener addr)

/-- The job of the automatic update. -/
def schedule (env : StartEnv G) (expression : String) : Except StartError Unit :=
  if !env.createsScheduler then .error .createScheduler
  else if !env.parsesCron expression then .error (.cron expression)
  else if !env.addsJob then .error .addJob
  else if !env.startsScheduler then .error .startScheduler
  else .ok ()

/-- `mmdb_path.is_file()`, which is also `false` when the metadata cannot be read. -/
def StartEnv.isFile (env : StartEnv G) (path : Path) (fs : FileSystem β) : Bool :=
  !env.isFileFails && IpReputation.isFile path fs

/-- What `spoa::serve` is called with. -/
structure Serving where
  address : String
  filter : IpFilter

/-- Loads the database that is there already. -/
def loadExisting (env : StartEnv G) (path : Path) (fs : FileSystem β)
    (s : Served G) : Except LoadError Unit × Served G :=
  if env.isFile path fs then Mmdb.load env.lossy env.loadFaults path fs s else (.ok (), s)

variable [ByteString β]

/-- The first `run_update`, on a thread of its own. -/
def initialUpdate (P : Parsers) (M : MmdbWriter β) (cli : Cli) (env : StartEnv G)
    (mmdbPath : Path) (w : World β) (s : Served G) :
    Except StartError Unit × World β × Served G :=
  match env.panicked with
  | some (w, s) => (.error .panicked, w, s)
  | none =>
    match cli.updater.runUpdate P M env.update env.lossy env.reloadFaults mmdbPath w s with
    | (.error e, w, s) => (.error (.update e), w, s)
    | (.ok (), w, s) => (.ok (), w, s)

/-- `run`, up to the call of `spoa::serve`. -/
def run (P : Parsers) (M : MmdbWriter β) (cli : Cli) (env : StartEnv G)
    (w : World β) : Except StartError Serving × World β × Served G :=
  match absolute env.currentDir cli.mmdbPath with
  | none => (.error (.mmdbPath cli.mmdbPath), w, {})
  | some mmdbPath =>
    match loadExisting env mmdbPath w.fs {} with
    | (.error e, s) => (.error (.load e), w, s)
    | (.ok (), s) =>
      match MmdbWatcher.start env mmdbPath with
      | .error e => (.error e, w, s)
      | .ok () =>
        match MetricsServer.bind env cli.spoaListenAdressMetricsPrometheus with
        | .error e => (.error e, w, s)
        | .ok () =>
          match initialUpdate P M cli env mmdbPath w s with
          | (.error e, w, s) => (.error e, w, s)
          | (.ok (), w, s) =>
            match schedule env cli.fireholUpdateCronJob with
            | .error e => (.error e, w, s)
            | .ok () => (.ok ⟨cli.spoaListenAdress, cli.filter⟩, w, s)

/-- The watcher can be asked to watch `path`: it has a parent directory and a file name. -/
def Watchable (path : Path) : Prop :=
  (∃ dir, path.parent = some dir ∧ dir ≠ []) ∧ path.fileName ≠ none

/-- Whoever starts on these files, with a commit of `time` upstream, and reaches `serve` has a
database loaded. A fresh updater's lock is free. -/
def OpensLoaded (P : Parsers) (M : MmdbWriter β) (G : Geoip2 β) (cli : Cli)
    (currentDir : Option Path) (isFileFails : Bool) (fs : FileSystem β) (time : Int64) : Prop :=
  ∀ (env : StartEnv G) dir tip serving w s, env.currentDir = currentDir →
    env.isFileFails = isFileFails → tip.time = time →
    Upstream cli.updater tip env.update (⟨dir, fs, {}⟩ : World β) →
    run P M cli env ⟨dir, fs, {}⟩ = (.ok serving, w, s) → s.snapshot.isSome

variable {P : Parsers} {M : MmdbWriter β} {cli : Cli} {env : StartEnv G}
  {mmdbPath : Path} {w w' : World β} {s s' : Served G} {serving : Serving}

/-- `run_update` without an error: either nothing was built, or there is a database. -/
theorem runUpdate_ok {u : FireholUpdater} {env : RunEnv β} {lossy : Path → String}
    {faults : LoadFaults}
    (h : u.runUpdate P M env lossy faults mmdbPath w s = (.ok (), w', s')) :
    (u.updateAndBuildMmdb P M env mmdbPath w = (.ok false, w') ∧ s' = s) ∨
      s'.snapshot.isSome := by
  simp only [FireholUpdater.runUpdate] at h
  split at h
  · simp at h
  · rename_i w₁ hskipped
    simp only [Prod.mk.injEq, true_and] at h
    obtain ⟨rfl, rfl⟩ := h
    exact .inl ⟨hskipped, rfl⟩
  · split at h
    · simp at h
    · rename_i b s₁ hreload
      simp only [Prod.mk.injEq, true_and] at h
      obtain ⟨-, rfl⟩ := h
      exact .inr (Mmdb.reloadIfChanged_ok hreload)

theorem initialUpdate_ok (h : initialUpdate P M cli env mmdbPath w s = (.ok (), w', s')) :
    cli.updater.runUpdate P M env.update env.lossy env.reloadFaults mmdbPath w s =
      (.ok (), w', s') := by
  simp only [initialUpdate] at h
  split at h
  · simp at h
  · split at h
    · simp at h
    · rename_i w₁ s₁ hrun
      obtain ⟨rfl, rfl⟩ := Prod.mk.inj (Prod.mk.inj h).2
      exact hrun

/-- What a start that reaches `serve` went through. -/
theorem run_ok (h : run P M cli env w = (.ok serving, w', s')) :
    ∃ mmdbPath s, absolute env.currentDir cli.mmdbPath = some mmdbPath ∧
      loadExisting env mmdbPath w.fs {} = (.ok (), s) ∧
      MmdbWatcher.start env mmdbPath = .ok () ∧
      cli.updater.runUpdate P M env.update env.lossy env.reloadFaults mmdbPath w s =
        (.ok (), w', s') := by
  simp only [run] at h
  split at h
  · simp at h
  · rename_i mmdbPath hpath
    split at h
    · simp at h
    · rename_i s hload
      split at h
      · simp at h
      · rename_i hwatch
        split at h
        · simp at h
        · split at h
          · simp at h
          · rename_i w₁ s₁ hupdate
            split at h
            · simp at h
            · simp only [Prod.mk.injEq] at h
              obtain ⟨-, rfl, rfl⟩ := h
              exact ⟨mmdbPath, s, hpath, hload, hwatch, initialUpdate_ok hupdate⟩

omit [ByteString β] in
theorem watchable_of_start (h : MmdbWatcher.start env mmdbPath = .ok ()) : Watchable mmdbPath := by
  simp only [MmdbWatcher.start] at h
  split at h
  · cases h
  · cases h
  · rename_i dir hne hparent
    split at h
    · cases h
    · rename_i name hname
      exact ⟨⟨dir, hparent, hne⟩, by simp [hname]⟩

omit [ByteString β] in
/-- Where nothing refuses, a watchable path is watched. -/
theorem start_of_watchable (h : Watchable mmdbPath) (hcreates : env.createsWatcher = true)
    (hwatches : ∀ dir, env.watches dir = true) : MmdbWatcher.start env mmdbPath = .ok () := by
  obtain ⟨⟨dir, hparent, hne⟩, hname⟩ := h
  obtain ⟨name, hname⟩ := Option.ne_none_iff_exists'.mp hname
  cases dir with
  | nil => exact absurd rfl hne
  | cons c cs => simp [MmdbWatcher.start, hparent, hname, hcreates, hwatches]

omit [ByteString β] in
/-- A regular file is loaded, or the start fails. -/
theorem loadExisting_ok {fs : FileSystem β} (hfile : env.isFile mmdbPath fs = true)
    (h : loadExisting env mmdbPath fs s = (.ok (), s')) : s'.snapshot.isSome := by
  rw [loadExisting, if_pos hfile] at h
  obtain ⟨snapshot, hsnap, -⟩ := Mmdb.load_ok h
  rw [hsnap]
  rfl

/-- A tip newer than what is at `mmdbPath` is built, or the update fails. -/
theorem not_skipped_of_newer {u : FireholUpdater} {tip : Commit} {env : RunEnv β}
    {mmdbEpoch : Int} (hfree : w.lock.held = false) (hup : Upstream u tip env w)
    (hstat : modifiedEpoch false mmdbPath w.fs = .ok mmdbEpoch)
    (hlt : mmdbEpoch < tip.time.toInt) :
    u.updateAndBuildMmdb P M env mmdbPath w ≠ (.ok false, w') := by
  intro h
  obtain ⟨-, c, t, dir, mmdbEpoch', hsync, hstat', hle⟩ := update_skipped hfree h
  obtain rfl := hup.2 _ _ _ hsync
  rw [hstat] at hstat'
  obtain rfl := Except.ok.inj hstat'
  omega

/-- When nothing else fails, and no database is loaded at first, a tip no newer than what is at
`mmdbPath` makes the agent serve without one. -/
theorem serves_unloaded (P : Parsers) (M : MmdbWriter β) (G : Geoip2 β)
    {currentDir : Option Path} {isFileFails : Bool} {fs : FileSystem β} {time : Int64}
    {mmdbEpoch : Int}
    (hpath : absolute currentDir cli.mmdbPath = some mmdbPath) (hwatch : Watchable mmdbPath)
    (hunloaded : (!isFileFails && isFile mmdbPath fs) = false)
    (hstat : modifiedEpoch false mmdbPath fs = .ok mmdbEpoch) (hle : time.toInt ≤ mmdbEpoch) :
    ¬ OpensLoaded P M G cli currentDir isFileFails fs time := by
  intro hopens
  let tip : Commit := Reference.bareCommit 0 time
  let update : RunEnv β := { git := Reference.git fun _ _ => some tip, now := 0 }
  let env : StartEnv G := { currentDir, isFileFails, lossy := fun _ => "", update }
  let w : World β := ⟨.repository (Reference.freshClone "" "" tip), fs, {}⟩
  obtain ⟨⟨-, c, dir, hsync⟩, hup⟩ :=
    compares_reference (w := w) cli.updater tip (0 : SystemTime) rfl
  obtain ⟨w', hskip⟩ : ∃ w', cli.updater.updateAndBuildMmdb P M update mmdbPath w =
      (.ok false, w') := update_current rfl hsync hstat hle
  have hpath : absolute env.currentDir cli.mmdbPath = some mmdbPath := hpath
  have hload : loadExisting env mmdbPath w.fs ({} : Served G) = (.ok (), {}) := by
    simp only [loadExisting, StartEnv.isFile, env, w, hunloaded, Bool.false_eq_true, if_false]
  have hstart : MmdbWatcher.start env mmdbPath = .ok () :=
    start_of_watchable hwatch rfl fun _ => rfl
  have hupdate : initialUpdate P M cli env mmdbPath w {} = (.ok (), w', {}) := by
    simp only [initialUpdate, FireholUpdater.runUpdate, env, hskip]
  have hrun : run P M cli env w =
      (.ok ⟨cli.spoaListenAdress, cli.filter⟩, w', ({} : Served G)) := by
    simp only [run, hpath, hload, hstart, hupdate]
    rfl
  exact absurd (hopens env _ tip _ _ _ rfl rfl rfl hup hrun) (by simp)

/-- The listener opens only with a database, whatever else happens, exactly when `MMDB_PATH`
cannot be watched, or is a regular file, or is older than the commit upstream. -/
theorem opensLoaded_iff {currentDir : Option Path} {isFileFails : Bool} {fs : FileSystem β}
    {time : Int64} :
    OpensLoaded P M G cli currentDir isFileFails fs time ↔
      ∀ mmdbPath, absolute currentDir cli.mmdbPath = some mmdbPath → Watchable mmdbPath →
        (isFileFails = false ∧ isFile mmdbPath fs = true) ∨
          ∃ mmdbEpoch, modifiedEpoch false mmdbPath fs = .ok mmdbEpoch ∧
            mmdbEpoch < time.toInt := by
  constructor
  · intro hopens mmdbPath hpath hwatch
    by_contra hneither
    obtain ⟨hunloaded, hnewer⟩ := not_or.mp hneither
    obtain ⟨mmdbEpoch, hstat⟩ := modifiedEpoch_readable mmdbPath fs
    refine serves_unloaded P M G hpath hwatch ?_ hstat ?_ hopens
    · simpa using hunloaded
    · by_contra hlt
      exact hnewer ⟨mmdbEpoch, hstat, by omega⟩
  · intro hcond env dir tip serving w s hdir hlook htime hup hrun
    obtain ⟨mmdbPath, s₁, hpath, hload, hstart, hupdate⟩ := run_ok hrun
    rw [hdir] at hpath
    rcases runUpdate_ok hupdate with ⟨hskipped, rfl⟩ | hsome
    · rcases hcond mmdbPath hpath (watchable_of_start hstart) with
        ⟨hok, hfile⟩ | ⟨mmdbEpoch, hstat, hlt⟩
      · refine loadExisting_ok ?_ hload
        simp [StartEnv.isFile, hlook, hok, hfile]
      · subst htime
        exact absurd hskipped (not_skipped_of_newer rfl hup hstat hlt)
    · exact hsome

/-- The working directory `/data`. -/
def dataDir : Path := [.rootDir, .normal (osString "data")]

open Reference in
/-- An empty directory of second 3000 at `MMDB_PATH`, as a container runtime makes one for a
missing mount: it is not loaded, and it looks newer than the commit. -/
theorem not_opensLoaded_directory :
    ¬ OpensLoaded parsers mmdbWriter geoip2 exampleCli (some dataDir) false
      (fun p => if p = fireholMmdb then some (.directory (3000 * nanos)) else none) 2000 := by
  have hpath : absolute (some dataDir) exampleCli.mmdbPath = some fireholMmdb := rfl
  have hwatch : Watchable fireholMmdb := ⟨⟨dataDir, rfl, by decide⟩, by decide⟩
  exact serves_unloaded parsers mmdbWriter geoip2 hpath hwatch rfl rfl (by decide)

end IpReputation
