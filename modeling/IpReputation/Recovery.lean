import IpReputation.Idempotence

/-! A failed update leaves the database, and what the next run makes of it, as they were. -/
namespace IpReputation

open FileStore (Node)

variable {β : Type} [ByteString β] {u : FireholUpdater} {P : Parsers} {M : MmdbWriter β}
  {G : Geoip2 β} {env : RunEnv β} {mmdbPath : Path} {w w' : World β} {tip : Commit}
  {e : UpdateError} {c : Clone} {dir : RepoDir} {ipsets : List Ipset} {epoch : SystemTime}
  {d : Disk β} {fs : FileSystem β}

/-- A failed `write_mmdb` keeps the output, and the temporary file it created is gone. -/
theorem writeMmdb_failed {faults : WriteFaults β} {now : SystemTime} {e : BuildError}
    (hext : mmdbPath.extension ≠ some TMP)
    (h : writeMmdb M faults now ipsets epoch mmdbPath ⟨fs, []⟩ = (.error e, d)) :
    d.fs mmdbPath = fs mmdbPath ∧ (d.fs = fs ∨ d.fs (tempPath mmdbPath) = none) := by
  by_cases hname : mmdbPath.fileName = none
  · obtain ⟨e', h'⟩ := replacement_no_name M hname faults now ipsets epoch fs
    rw [replacement, h] at h'
    obtain ⟨-, rfl⟩ := Prod.mk.inj h'
    exact ⟨rfl, .inl rfl⟩
  · have hne : mmdbPath ≠ tempPath mmdbPath := by
      intro heq
      rcases (withExtension_eq_self_iff (by decide)).mp heq.symm with hn | ht
      · exact hname hn
      · exact hext ht
    rcases writeMmdb_cases M faults now ipsets epoch hne (untouched_start fs) with
      ⟨e', h'⟩ | ⟨e', d', h', hu, hgone⟩ | ⟨bytes, d', -, h', -⟩
    · rw [h] at h'
      obtain ⟨-, rfl⟩ := Prod.mk.inj h'
      exact ⟨rfl, .inl rfl⟩
    · rw [h] at h'
      obtain ⟨-, rfl⟩ := Prod.mk.inj h'
      exact ⟨hu.now, .inr hgone⟩
    · rw [h] at h'
      cases (Prod.mk.inj h').1

/-- What a failed run leaves in the files and in the lock. -/
theorem update_failed (hext : mmdbPath.extension ≠ some TMP)
    (h : u.updateAndBuildMmdb P M env mmdbPath w = (.error e, w')) :
    w'.fs mmdbPath = w.fs mmdbPath ∧ (w'.fs = w.fs ∨ w'.fs (tempPath mmdbPath) = none) ∧
      w'.lock.held = false := by
  cases hheld : w.lock.held with
  | true => simp [update_held hheld] at h
  | false =>
    obtain ⟨w₁, hends, rfl⟩ := update_ends h hheld
    cases hends with
    | early e dir hearly => exact ⟨rfl, .inl rfl, rfl⟩
    | unprepared hsync hstat hlt hprep => exact ⟨rfl, .inl rfl, rfl⟩
    | unwritten hsync hstat hlt hprep hwrite =>
      obtain ⟨hkept, htemp⟩ := writeMmdb_failed hext hwrite
      exact ⟨hkept, htemp, rfl⟩

/-- What a run writes is the database of the tip it fetched, whatever its clone held before. -/
theorem update_database (hg : env.git.Checkouts)
    (hsync : u.synchronise env.git w.dir = (.ok (c, tip), dir))
    (h : u.updateAndBuildMmdb P M env mmdbPath w = (.ok true, w')) :
    ∃ bytes, databaseOf P M u.ignoreCountry tip = some bytes ∧
      w'.fs mmdbPath = some (.file bytes env.now) := by
  cases hheld : w.lock.held with
  | true => simp [update_held hheld] at h
  | false =>
    obtain ⟨w₁, hends, rfl⟩ := update_ends h hheld
    cases hends with
    | built hsync' hstat hlt hprep hwrite =>
      rw [hsync] at hsync'
      simp only [Prod.mk.injEq, Except.ok.injEq] at hsync'
      obtain ⟨⟨rfl, rfl⟩, rfl⟩ := hsync'
      obtain ⟨bytes, hs, -, hfile⟩ := writeMmdb_ok hwrite
      refine ⟨bytes, ?_, hfile⟩
      rw [prepare_database hg hprep, hs]
      rfl

omit [ByteString β] in
/-- The freshness check depends on the database alone. -/
theorem modifiedEpoch_congr {fs' : FileSystem β} (h : fs' mmdbPath = fs mmdbPath) :
    modifiedEpoch false mmdbPath fs' = modifiedEpoch false mmdbPath fs := by
  simp [modifiedEpoch, metadata, h]

/-- A run that fetches `tip` in a world whose database is the one of `w`. -/
structure NextRun (u : FireholUpdater) (mmdbPath : Path) (w : World β) (tip : Commit)
    (env : RunEnv β) (w₁ : World β) : Prop where
  same : w₁.fs mmdbPath = w.fs mmdbPath
  free : w₁.lock.held = false
  checkouts : env.git.Checkouts
  fetches : ∃ c dir, u.synchronise env.git w₁.dir = (.ok (c, tip), dir)

/-- The failed run past its freshness check: it had found the file older than `tip`. -/
def PassedCheck (u : FireholUpdater) (mmdbPath : Path) (w : World β) (tip : Commit)
    (env : RunEnv β) : Prop :=
  ∃ c dir mmdbEpoch, u.synchronise env.git w.dir = (.ok (c, tip), dir) ∧
    modifiedEpoch env.statFails mmdbPath w.fs = .ok mmdbEpoch ∧ mmdbEpoch < tip.time.toInt

/-- A failed update is harmless: the database and what is served are as before, no temporary file
is left and the lock is free. The next run is skipped only for a tip that was not newer than the
database before the failed run either, hence not when that run had passed the check; and when it
builds, it builds what a run on any other clone builds of the same tip. -/
structure Recovers (u : FireholUpdater) (P : Parsers) (M : MmdbWriter β) (G : Geoip2 β)
    (mmdbPath : Path) (env : RunEnv β) (w : World β) (e : UpdateError) (w' : World β) : Prop where
  database : w'.fs mmdbPath = w.fs mmdbPath
  snapshot : ∀ lossy loadFaults (s : Served G),
    u.runUpdate P M env lossy loadFaults mmdbPath w s = (.error (.update e), w', s)
  temporary : w'.fs = w.fs ∨ w'.fs (tempPath mmdbPath) = none
  lock : w'.lock.held = false
  skipped : ∀ tip next w₁ w₂, NextRun u mmdbPath w' tip next w₁ →
    u.updateAndBuildMmdb P M next mmdbPath w₁ = (.ok false, w₂) →
    ∃ mmdbEpoch, modifiedEpoch false mmdbPath w.fs = .ok mmdbEpoch ∧ tip.time.toInt ≤ mmdbEpoch
  not_skipped : ∀ tip next w₁ w₂, PassedCheck u mmdbPath w tip env →
    NextRun u mmdbPath w' tip next w₁ →
    u.updateAndBuildMmdb P M next mmdbPath w₁ ≠ (.ok false, w₂)
  rebuilt : ∀ tip next w₁ w₂, NextRun u mmdbPath w' tip next w₁ →
    u.updateAndBuildMmdb P M next mmdbPath w₁ = (.ok true, w₂) →
    ∀ other v₁ v₂, other.git.Checkouts →
      (∃ c dir, u.synchronise other.git v₁.dir = (.ok (c, tip), dir)) →
      u.updateAndBuildMmdb P M other mmdbPath v₁ = (.ok true, v₂) →
      ∃ bytes, w₂.fs mmdbPath = some (.file bytes next.now) ∧
        v₂.fs mmdbPath = some (.file bytes other.now)

theorem recovers (hext : mmdbPath.extension ≠ some TMP)
    (h : u.updateAndBuildMmdb P M env mmdbPath w = (.error e, w')) :
    Recovers u P M G mmdbPath env w e w' := by
  obtain ⟨hkept, htemp, hlock⟩ := update_failed hext h
  have hskip : ∀ tip next w₁ w₂, NextRun u mmdbPath w' tip next w₁ →
      u.updateAndBuildMmdb P M next mmdbPath w₁ = (.ok false, w₂) →
      ∃ mmdbEpoch, modifiedEpoch false mmdbPath w.fs = .ok mmdbEpoch ∧
        tip.time.toInt ≤ mmdbEpoch := by
    intro tip next w₁ w₂ hnext hrun
    obtain ⟨c, dir, hsync⟩ := hnext.fetches
    obtain ⟨-, c', tip', dir', mmdbEpoch, hsync', hstat, hle⟩ := update_skipped hnext.free hrun
    rw [hsync] at hsync'
    simp only [Prod.mk.injEq, Except.ok.injEq] at hsync'
    obtain ⟨⟨-, rfl⟩, -⟩ := hsync'
    refine ⟨mmdbEpoch, ?_, hle⟩
    rw [← modifiedEpoch_congr (hnext.same.trans hkept), hstat]
  refine ⟨hkept, ?_, htemp, hlock, hskip, ?_, ?_⟩
  · intro lossy loadFaults s
    simp only [FireholUpdater.runUpdate, h]
  · rintro tip next w₁ w₂ ⟨c, dir, mmdbEpoch, hsync, hstat, hlt⟩ hnext hrun
    obtain ⟨mmdbEpoch', hstat', hle⟩ := hskip tip next w₁ w₂ hnext hrun
    rw [modifiedEpoch_ok hstat] at hstat'
    obtain rfl := Except.ok.inj hstat'
    omega
  · rintro tip next w₁ w₂ hnext hrun other v₁ v₂ hother ⟨c', dir', hsync'⟩ hrun'
    obtain ⟨c, dir, hsync⟩ := hnext.fetches
    obtain ⟨bytes, hdb, hfile⟩ := update_database hnext.checkouts hsync hrun
    obtain ⟨bytes', hdb', hfile'⟩ := update_database hother hsync' hrun'
    obtain rfl := Option.some.inj (hdb.symm.trans hdb')
    exact ⟨bytes, hfile, hfile'⟩

open Reference in
/-- A first build whose rename fails. -/
theorem recovers_rename :
    Recovers updater parsers mmdbWriter geoip2 fireholMmdb
      { runEnv (bareCommit 1 2000) 3000 with writeFaults := { rename := true } } emptyWorld
      (.build (.rename (tempPath fireholMmdb) fireholMmdb))
      (updater.updateAndBuildMmdb parsers mmdbWriter
        { runEnv (bareCommit 1 2000) 3000 with writeFaults := { rename := true } } fireholMmdb
        emptyWorld).2 :=
  recovers (by decide) rfl

open Reference in
/-- A database of second 3000, the clone of an earlier run, and a commit of second 2000. -/
def currentWorld : World Bytes :=
  (updater.updateAndBuildMmdb parsers mmdbWriter (runEnv (bareCommit 1 2000) 3000) fireholMmdb
    emptyWorld).2

open Reference in
/-- The run in which `find_commit` fails. -/
def lostCommit : RunEnv Bytes :=
  { runEnv (bareCommit 1 2000) 4000 with
    git := { git (fun _ _ => some (bareCommit 1 2000)) with findCommit := fun _ _ => none } }

open Reference in
/-- The tip lookup fails before the freshness check; the next run fetches the same tip and is
skipped, for the database had been up to date all along. -/
theorem skipped_after_lost_commit :
    ∃ w' w₂, updater.updateAndBuildMmdb parsers mmdbWriter lostCommit fireholMmdb currentWorld =
        (.error (.git (.commit 1)), w') ∧
      NextRun updater fireholMmdb w' (bareCommit 1 2000) (runEnv (bareCommit 1 2000) 5000) w' ∧
      updater.updateAndBuildMmdb parsers mmdbWriter (runEnv (bareCommit 1 2000) 5000) fireholMmdb
        w' = (.ok false, w₂) :=
  ⟨_, _, rfl, ⟨rfl, rfl, git_checkouts fun _ _ => some (bareCommit 1 2000), _, _, rfl⟩, rfl⟩

end IpReputation
