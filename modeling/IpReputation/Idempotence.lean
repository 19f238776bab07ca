import IpReputation.ReferenceGit
import IpReputation.Updater

/-! When the runs after a successful update leave the database alone. -/
namespace IpReputation

variable {β : Type} [ByteString β]

/-- Whatever a run fetches is `tip`. -/
def Upstream (u : FireholUpdater) (tip : Commit) (env : RunEnv β) (w : World β) : Prop :=
  (∃ servers, env.git.Lawful servers) ∧
    ∀ c t dir, u.synchronise env.git w.dir = (.ok (c, t), dir) → t = tip

/-- The run fetches `tip` and can stat the database: it reaches the freshness check. -/
def Compares (u : FireholUpdater) (tip : Commit) (env : RunEnv β) (w : World β) : Prop :=
  env.statFails = false ∧ ∃ c dir, u.synchronise env.git w.dir = (.ok (c, tip), dir)

/-- Worlds after `w`, in which only runs that see `tip` upstream write the database. -/
inductive Later (u : FireholUpdater) (P : Parsers) (M : MmdbWriter β) (mmdbPath : Path)
    (tip : Commit) (w : World β) : World β → Prop
  | now : Later u P M mmdbPath tip w w
  | others {w₁ w₂ : World β} : Later u P M mmdbPath tip w w₁ →
      w₂.fs mmdbPath = w₁.fs mmdbPath → w₂.lock = w₁.lock → Later u P M mmdbPath tip w w₂
  | run {w₁ w₂ : World β} {env : RunEnv β} {answer : Except UpdateError Bool} :
      Later u P M mmdbPath tip w w₁ → Upstream u tip env w₁ →
      u.updateAndBuildMmdb P M env mmdbPath w₁ = (answer, w₂) → Later u P M mmdbPath tip w w₂

/-- From `w` on no run changes the database, and those that compare the tip answer `Ok(false)`. -/
def SkippedFrom (u : FireholUpdater) (P : Parsers) (M : MmdbWriter β) (mmdbPath : Path)
    (tip : Commit) (w : World β) : Prop :=
  ∀ w₁ env answer w₂, Later u P M mmdbPath tip w w₁ → Upstream u tip env w₁ →
    u.updateAndBuildMmdb P M env mmdbPath w₁ = (answer, w₂) →
    w₂.fs mmdbPath = w.fs mmdbPath ∧ (Compares u tip env w₁ → answer = .ok false)

variable {u : FireholUpdater} {P : Parsers} {M : MmdbWriter β} {env : RunEnv β} {mmdbPath : Path}
  {w w' : World β} {tip : Commit} {answer : Except UpdateError Bool} {c : Clone}
  {node : FileStore.Node β SystemTime}

/-- A run that fetches a tip no newer than the file leaves the files alone. -/
theorem run_current (hfree : w.lock.held = false) (hfile : w.fs mmdbPath = some node)
    (hle : tip.time.toInt ≤ systemTimeToEpoch node.modified) (hup : Upstream u tip env w)
    (h : u.updateAndBuildMmdb P M env mmdbPath w = (answer, w')) :
    w'.fs = w.fs ∧ w'.lock.held = false ∧ (Compares u tip env w → answer = .ok false) := by
  obtain ⟨w₁, hends, rfl⟩ := update_ends h hfree
  -- A run that finds the tip newer contradicts `hle`.
  have hnewer : ∀ {c t dir mmdbEpoch}, u.synchronise env.git w.dir = (.ok (c, t), dir) →
      modifiedEpoch env.statFails mmdbPath w.fs = .ok mmdbEpoch →
      ¬ mmdbEpoch < t.time.toInt := by
    intro c t dir mmdbEpoch hsync hstat
    obtain rfl := hup.2 _ _ _ hsync
    have hread := modifiedEpoch_ok hstat
    rw [modifiedEpoch_some hfile] at hread
    obtain rfl := Except.ok.inj hread
    omega
  cases hends with
  | early e dir hearly =>
    refine ⟨rfl, rfl, ?_⟩
    rintro ⟨hstat, c, dir', hsync⟩
    have herror := hearly _ _ _ hsync
    rw [hstat, modifiedEpoch_some hfile] at herror
    cases herror
  | skipped hsync hstat hskip => exact ⟨rfl, rfl, fun _ => rfl⟩
  | unprepared hsync hstat hlt _ => exact absurd hlt (hnewer hsync hstat)
  | unwritten hsync hstat hlt _ _ => exact absurd hlt (hnewer hsync hstat)
  | built hsync hstat hlt _ _ => exact absurd hlt (hnewer hsync hstat)

/-- The file and the free lock, carried over all later runs. -/
theorem later_current (hfree : w.lock.held = false) (hfile : w.fs mmdbPath = some node)
    (hle : tip.time.toInt ≤ systemTimeToEpoch node.modified)
    (h : Later u P M mmdbPath tip w w') :
    w'.fs mmdbPath = w.fs mmdbPath ∧ w'.lock.held = false := by
  induction h with
  | now => exact ⟨rfl, hfree⟩
  | others _ hsame hlock ih => exact ⟨hsame.trans ih.1, by rw [hlock, ih.2]⟩
  | run _ hup hrun ih =>
    obtain ⟨hfs, hlock, -⟩ := run_current ih.2 (ih.1.trans hfile) hle hup hrun
    exact ⟨by rw [hfs, ih.1], hlock⟩

/-- What an `Ok(true)` run leaves: the clone, the file written at its clock, the free lock. -/
theorem update_built (h : u.updateAndBuildMmdb P M env mmdbPath w = (.ok true, w')) :
    (∃ c, w'.dir = .repository c) ∧ (∃ bytes, w'.fs mmdbPath = some (.file bytes env.now)) ∧
      w'.lock.held = false := by
  cases hheld : w.lock.held with
  | true => simp [update_held hheld] at h
  | false =>
    obtain ⟨w₁, hends, rfl⟩ := update_ends h hheld
    cases hends with
    | built hsync hstat hlt hprep hwrite =>
      obtain ⟨bytes, -, -, hfile⟩ := writeMmdb_ok hwrite
      exact ⟨⟨_, rfl⟩, ⟨bytes, hfile⟩, rfl⟩

/-- A run that compares a newer tip does not answer `Ok(false)`. -/
theorem run_newer (hfree : w.lock.held = false) (hfile : w.fs mmdbPath = some node)
    (hlt : systemTimeToEpoch node.modified < tip.time.toInt) (hcompares : Compares u tip env w)
    (h : u.updateAndBuildMmdb P M env mmdbPath w = (answer, w')) : answer ≠ .ok false := by
  rintro rfl
  obtain ⟨-, c, dir, hsync⟩ := hcompares
  obtain ⟨-, c', t, dir', mmdbEpoch, hsync', hstat, hle⟩ := update_skipped hfree h
  rw [hsync] at hsync'
  rw [modifiedEpoch_some hfile] at hstat
  simp only [Prod.mk.injEq, Except.ok.injEq] at hsync' hstat
  obtain ⟨⟨-, rfl⟩, -⟩ := hsync'
  omega

omit [ByteString β] in
/-- There is always a run that compares: a clone whose every remote serves `tip`. -/
theorem compares_reference (u : FireholUpdater) (tip : Commit) (now : SystemTime)
    (hdir : w.dir = .repository c) :
    Compares u tip { git := Reference.git fun _ _ => some tip, now } w ∧
      Upstream u tip { git := Reference.git fun _ _ => some tip, now } w := by
  obtain ⟨c', hopen, htip⟩ := Reference.git_fetches u.repo tip c
  have hsync : u.synchronise (Reference.git fun _ _ => some tip) w.dir =
      (.ok (c', tip), .repository c') := by
    simp only [FireholUpdater.synchronise, hdir, hopen, htip]
  refine ⟨⟨rfl, c', _, hsync⟩, ⟨_, Reference.git_lawful_const tip⟩, ?_⟩
  intro c'' t dir hother
  rw [hsync] at hother
  simp only [Prod.mk.injEq, Except.ok.injEq] at hother
  exact hother.1.2.symm

theorem not_skippedFrom {bytes : β} {t : SystemTime} (hdir : w.dir = .repository c)
    (hfile : w.fs mmdbPath = some (.file bytes t)) (hfree : w.lock.held = false)
    (hlt : systemTimeToEpoch t < tip.time.toInt) : ¬ SkippedFrom u P M mmdbPath tip w := by
  intro hskipped
  obtain ⟨hcompares, hup⟩ := compares_reference u tip 0 hdir
  exact run_newer hfree hfile hlt hcompares rfl
    ((hskipped w _ _ _ .now hup rfl).2 hcompares)

/-- After a successful build the later runs that see `tip` upstream, the commit just built or
any other, are all skipped exactly when its time is not later than the second of the wall clock
at the write. -/
theorem skippedFrom_iff (h : u.updateAndBuildMmdb P M env mmdbPath w = (.ok true, w')) :
    SkippedFrom u P M mmdbPath tip w' ↔ tip.time.toInt ≤ systemTimeToEpoch env.now := by
  obtain ⟨⟨c', hdir⟩, ⟨bytes, hfile⟩, hfree⟩ := update_built h
  constructor
  · intro hskipped
    by_contra hlt
    exact not_skippedFrom hdir hfile hfree (by omega) hskipped
  · intro hle w₁ later answer w₂ hlater hup hrun
    obtain ⟨hsame, hfree₁⟩ := later_current hfree hfile hle hlater
    obtain ⟨hfs, -, hanswer⟩ := run_current hfree₁ (hsame.trans hfile) hle hup hrun
    exact ⟨by rw [hfs, hsame], hanswer⟩

open Reference in
/-- A commit of second 2000 built at second 3000. -/
theorem skippedFrom_bare :
    SkippedFrom updater parsers mmdbWriter fireholMmdb (bareCommit 1 2000)
        (updater.updateAndBuildMmdb parsers mmdbWriter (runEnv (bareCommit 1 2000) 3000)
          fireholMmdb emptyWorld).2 ↔
      (bareCommit 1 2000).time.toInt ≤ systemTimeToEpoch (3000 * nanos) :=
  skippedFrom_iff (rfl : updater.updateAndBuildMmdb parsers mmdbWriter
    (runEnv (bareCommit 1 2000) 3000) fireholMmdb emptyWorld = (.ok true, _))

open Reference in
/-- A commit of second 2000 built at second 1000: the clock of the machine is behind, the file
looks older than the commit, and the next run builds it again. -/
theorem not_skippedFrom_behind :
    (updater.updateAndBuildMmdb parsers mmdbWriter (runEnv (bareCommit 1 2000) 1000)
        fireholMmdb emptyWorld).1 = .ok true ∧
      ¬ SkippedFrom updater parsers mmdbWriter fireholMmdb (bareCommit 1 2000)
        (updater.updateAndBuildMmdb parsers mmdbWriter (runEnv (bareCommit 1 2000) 1000)
          fireholMmdb emptyWorld).2 := by
  have hrun : updater.updateAndBuildMmdb parsers mmdbWriter (runEnv (bareCommit 1 2000) 1000)
      fireholMmdb emptyWorld = (.ok true, _) := rfl
  obtain ⟨⟨c, hdir⟩, ⟨bytes, hfile⟩, hfree⟩ := update_built hrun
  exact ⟨rfl, not_skippedFrom hdir hfile hfree (by decide)⟩

end IpReputation
