import IpReputation.Library.Transition
import IpReputation.Recovery
import Mathlib.Logic.Function.Iterate

/-! Update runs interleaved with upstream pushes and the passing of time. -/
namespace IpReputation

open FileStore (Node)
open Transition

variable {β : Type} [ByteString β]

/-- What a fetch meets: what the urls serve, and the clone that records where to fetch from. -/
structure Sighting where
  servers : Servers
  dir : RepoDir

/-- Where the run that holds `update_lock` stands; `seen` is what its fetch met. -/
inductive UpdatePhase (β : Type)
  | idle
  | started
  | synced (c : Clone) (tip : Commit) (seen : Sighting)
  | outdated (c : Clone) (tip : Commit) (seen : Sighting)
  | prepared (tip : Commit) (seen : Sighting) (ipsets : List Ipset) (epoch : SystemTime)
  | written (tip : Commit) (seen : Sighting) (temp : TempFile)
      (trail : List (FileOp × FileSystem β))
  | done (fetched : Option (Commit × Sighting)) (answer : Except UpdateError Bool)

/-- Upstream, the clock, this machine and the run in progress. -/
structure Publication (β : Type) where
  servers : Servers
  clock : SystemTime
  world : World β
  phase : UpdatePhase β := .idle
  /-- The database when the run in progress took the lock. -/
  entered : Option (Node β SystemTime) := none

omit [ByteString β] in
/-- What a fetch at this moment would meet. -/
def Publication.sighting (s : Publication β) : Sighting := ⟨s.servers, s.world.dir⟩

variable (u : FireholUpdater) (P : Parsers) (M : MmdbWriter β) (mmdbPath : Path)

/-- The next step of the run in progress. -/
def work (env : RunEnv β) (s : Publication β) : Publication β :=
  match s.phase with
  | .idle => s
  | .started =>
    match u.synchronise env.git s.world.dir with
    | (.error e, dir) =>
      { s with world := { s.world with dir }, phase := .done none (.error e) }
    | (.ok (c, tip), dir) =>
      { s with world := { s.world with dir }, phase := .synced c tip s.sighting }
  | .synced c tip seen =>
    match modifiedEpoch env.statFails mmdbPath s.world.fs with
    | .error e => { s with phase := .done (some (tip, seen)) (.error e) }
    | .ok mmdbEpoch =>
      if tip.time.toInt ≤ mmdbEpoch then { s with phase := .done (some (tip, seen)) (.ok false) }
      else { s with phase := .outdated c tip seen }
  | .outdated c tip seen =>
    match u.prepare P env.git tip c with
    | (.error e, c) =>
      { s with
        world := { s.world with dir := .repository c }
        phase := .done (some (tip, seen)) (.error e) }
    | (.ok (ipsets, epoch), c) =>
      { s with
        world := { s.world with dir := .repository c }
        phase := .prepared tip seen ipsets epoch }
  | .prepared tip seen ipsets epoch =>
    match serialise M ipsets epoch with
    | .error e => { s with phase := .done (some (tip, seen)) (.error (.build e)) }
    | .ok bytes =>
      match TempFile.write env.writeFaults env.now (tempPath mmdbPath) bytes ⟨s.world.fs, []⟩ with
      | (.error e, d) =>
        { s with
          world := { s.world with fs := d.fs }
          phase := .done (some (tip, seen)) (.error (.build e)) }
      | (.ok temp, d) =>
        { s with
          world := { s.world with fs := d.fs }
          phase := .written tip seen temp d.trail }
  | .written tip seen temp trail =>
    match temp.persist env.writeFaults mmdbPath ⟨s.world.fs, trail⟩ with
    | (.error e, d) =>
      { s with
        world := { s.world with fs := d.fs }
        phase := .done (some (tip, seen)) (.error (.build e)) }
    | (.ok (), d) =>
      { s with world := { s.world with fs := d.fs }, phase := .done (some (tip, seen)) (.ok true) }
  | .done _ _ => s

inductive Event
  | push
  | tick
  | run
  | busy
  deriving DecidableEq

inductive PublicationStep : Publication β → Event → Publication β → Prop
  /-- Some url serves another commit for a branch, newer or older. -/
  | push {s : Publication β} (url name : String) (commit : Commit) :
      PublicationStep s .push
        { s with
          servers := Function.update s.servers url
            (Function.update (s.servers url) name (some commit)) }
  | tick {s : Publication β} {now : SystemTime} : s.clock ≤ now →
      PublicationStep s .tick { s with clock := now }
  | start {s : Publication β} : s.world.lock.held = false →
      PublicationStep s .run
        { s with
          world := { s.world with lock := { s.world.lock with held := true } }
          phase := .started
          entered := s.world.fs mmdbPath }
  | work {s : Publication β} {env : RunEnv β} : s.world.lock.held = true →
      env.git.Lawful s.servers → env.now = s.clock →
      PublicationStep s .run (work u P M mmdbPath env s)
  | finish {s : Publication β} {fetched : Option (Commit × Sighting)}
      {answer : Except UpdateError Bool} : s.phase = .done fetched answer →
      PublicationStep s .run
        { s with
          world := { s.world with lock := { s.world.lock with held := false } }
          phase := .idle }
  /-- Another run finds the lock taken and answers `Ok(false)`. -/
  | busy {s : Publication β} {env : RunEnv β} :
      u.updateAndBuildMmdb P M env mmdbPath s.world = (.ok false, s.world) →
      s.world.lock.held = true → PublicationStep s .busy s

/-- A clone, files and servers of any kind; no run is in progress. -/
def publication : System (Publication β) Event where
  initial s := s.phase = .idle ∧ s.world.lock.held = false
  step := PublicationStep u P M mmdbPath

/-- `tip` was that of the tracked branch at the configured url, or at the one recorded in the
clone. -/
def Fetched (seen : Sighting) (tip : Commit) : Prop :=
  ∃ url, u.repo.Source seen.dir url ∧ seen.servers url (headsRef u.repo.branch) = some tip

/-- The database at `mmdbPath` is the one of `tip`. -/
def Holds (s : Publication β) (tip : Commit) : Prop :=
  ∃ bytes t, s.world.fs mmdbPath = some (.file bytes t) ∧
    databaseOf P M u.ignoreCountry tip = some bytes

/-- The database was left alone, and `tip` is not newer than it in whole seconds. -/
def NotNewer (s : Publication β) (tip : Commit) : Prop :=
  s.world.fs mmdbPath = s.entered ∧
    ∃ mmdbEpoch, modifiedEpoch false mmdbPath s.world.fs = .ok mmdbEpoch ∧
      tip.time.toInt ≤ mmdbEpoch

/-- What is known at each phase of a run. -/
def Known (s : Publication β) : Prop :=
  match s.phase with
  | .idle => True
  | .started => s.world.fs mmdbPath = s.entered
  | .synced _ tip seen | .outdated _ tip seen =>
    Fetched u seen tip ∧ s.world.fs mmdbPath = s.entered
  | .prepared tip seen ipsets epoch =>
    Fetched u seen tip ∧
      databaseOf P M u.ignoreCountry tip = (serialise M ipsets epoch).toOption
  | .written tip seen temp _ => Fetched u seen tip ∧ temp = ⟨some (tempPath mmdbPath)⟩ ∧
    ∃ bytes t, s.world.fs (tempPath mmdbPath) = some (.file bytes t) ∧
      databaseOf P M u.ignoreCountry tip = some bytes
  | .done fetched (.ok true) => ∃ tip seen, fetched = some (tip, seen) ∧ Fetched u seen tip ∧
    Holds u P M mmdbPath s tip
  | .done fetched (.ok false) => ∃ tip seen, fetched = some (tip, seen) ∧ Fetched u seen tip ∧
    NotNewer mmdbPath s tip
  | .done _ (.error _) => True

variable {u P M mmdbPath} {s t : Publication β} {env : RunEnv β}

theorem known_work (hg : env.git.Lawful s.servers) (h : Known u P M mmdbPath s) :
    Known u P M mmdbPath (work u P M mmdbPath env s) := by
  obtain ⟨servers, clock, world, phase, entered⟩ := s
  cases phase with
  | idle => exact h
  | started =>
    rcases hsync : u.synchronise env.git world.dir with ⟨e | ⟨c, tip⟩, dir⟩
    · simp only [work, hsync]
      trivial
    · simp only [work, hsync]
      exact ⟨(synchronise_tip hg hsync).2, h⟩
  | synced c tip seen =>
    cases hstat : modifiedEpoch env.statFails mmdbPath world.fs with
    | error e =>
      simp only [work, hstat]
      trivial
    | ok mmdbEpoch =>
      by_cases hle : tip.time.toInt ≤ mmdbEpoch
      · simp only [work, hstat, if_pos hle]
        exact ⟨tip, seen, rfl, h.1, h.2, mmdbEpoch, modifiedEpoch_ok hstat, hle⟩
      · simp only [work, hstat, if_neg hle]
        exact h
  | outdated c tip seen =>
    rcases hprep : u.prepare P env.git tip c with ⟨e | ⟨ipsets, epoch⟩, c'⟩
    · simp only [work, hprep]
      trivial
    · simp only [work, hprep]
      exact ⟨h.1, prepare_database hg.checkouts hprep⟩
  | prepared tip seen ipsets epoch =>
    cases hs : serialise M ipsets epoch with
    | error e =>
      simp only [work, hs]
      trivial
    | ok bytes =>
      rcases hw : TempFile.write env.writeFaults env.now (tempPath mmdbPath) bytes
        ⟨world.fs, []⟩ with ⟨e | temp, d⟩
      · simp only [work, hs, hw]
        trivial
      · simp only [work, hs, hw]
        obtain ⟨htemp, hfile⟩ := TempFile.write_ok hw
        refine ⟨h.1, htemp, bytes, env.now, hfile, ?_⟩
        rw [h.2, hs]
        rfl
  | written tip seen temp trail =>
    obtain ⟨hfetched, rfl, bytes, now, hfile, hdb⟩ := h
    rcases hp : TempFile.persist env.writeFaults ⟨some (tempPath mmdbPath)⟩ mmdbPath
      ⟨world.fs, trail⟩ with ⟨e | u, d⟩
    · simp only [work, hp]
      trivial
    · simp only [work, hp]
      exact ⟨tip, seen, rfl, hfetched, bytes, now, TempFile.persist_ok hp hfile, hdb⟩
  | done fetched answer => exact h

omit [ByteString β] in
/-- Pushes and the clock touch neither the files nor the run. -/
theorem Known.congr (h : Known u P M mmdbPath s) (hworld : t.world = s.world)
    (hphase : t.phase = s.phase) (hentered : t.entered = s.entered) :
    Known u P M mmdbPath t := by
  obtain ⟨servers, clock, world, phase, entered⟩ := s
  obtain ⟨servers', clock', world', phase', entered'⟩ := t
  subst hworld hphase hentered
  cases phase' with
  | done fetched answer => cases answer with
    | ok b => cases b <;> exact h
    | error e => trivial
  | _ => exact h

theorem known_stable : (publication u P M mmdbPath).Stable (Known u P M mmdbPath) := by
  intro s event t h hs
  cases h with
  | push url name commit => exact hs.congr rfl rfl rfl
  | tick hle => exact hs.congr rfl rfl rfl
  | start hfree => exact rfl
  | work hheld hg hnow => exact known_work hg hs
  | finish hdone => trivial
  | busy hanswer hheld => exact hs

theorem known_reachable (h : (publication u P M mmdbPath).Reachable s) :
    Known u P M mmdbPath s := by
  apply known_stable.reachable _ h
  rintro s ⟨hidle, -⟩
  simp only [Known, hidle]

/-- A run works on the files, the clone and its own phase. -/
theorem work_frame (u : FireholUpdater) (P : Parsers) (M : MmdbWriter β) (mmdbPath : Path)
    (env : RunEnv β) (s : Publication β) :
    (work u P M mmdbPath env s).servers = s.servers ∧
      (work u P M mmdbPath env s).clock = s.clock ∧
      (work u P M mmdbPath env s).world.lock = s.world.lock := by
  obtain ⟨servers, clock, world, phase, entered⟩ := s
  simp only [work]
  split
  · exact ⟨rfl, rfl, rfl⟩
  · split <;> exact ⟨rfl, rfl, rfl⟩
  · split
    · exact ⟨rfl, rfl, rfl⟩
    · split <;> exact ⟨rfl, rfl, rfl⟩
  · split <;> exact ⟨rfl, rfl, rfl⟩
  · split
    · exact ⟨rfl, rfl, rfl⟩
    · split <;> exact ⟨rfl, rfl, rfl⟩
  · split <;> exact ⟨rfl, rfl, rfl⟩
  · exact ⟨rfl, rfl, rfl⟩

/-- The run in progress may take `n` steps in a row. -/
theorem work_run (env : RunEnv β) (hheld : s.world.lock.held = true) (hg : env.git.Lawful s.servers)
    (hnow : env.now = s.clock) (n : Nat) :
    ∃ events, (publication u P M mmdbPath).Run s events ((work u P M mmdbPath env)^[n] s) := by
  induction n generalizing s with
  | zero => exact ⟨[], .refl⟩
  | succ n ih =>
    obtain ⟨hservers, hclock, hlock⟩ := work_frame u P M mmdbPath env s
    obtain ⟨events, hrun⟩ := ih (by rw [hlock, hheld]) (by rw [hservers]; exact hg)
      (by rw [hclock, hnow])
    exact ⟨.run :: events, .head (.work hheld hg hnow) hrun⟩

/-- A run that is done stays so. -/
theorem work_done {fetched : Option (Commit × Sighting)} {answer : Except UpdateError Bool}
    (hdone : s.phase = .done fetched answer) (n : Nat) :
    (work u P M mmdbPath env)^[n] s = s := by
  apply Function.iterate_fixed
  simp only [work, hdone]

/-- Undisturbed, the steps of a run add up to `updateLocked`. -/
theorem work_alone (env : RunEnv β) (hstart : s.phase = .started) : ∃ fetched,
    (work u P M mmdbPath env)^[5] s =
      { s with
        world := (u.updateLocked P M env mmdbPath s.world).2
        phase := .done fetched (u.updateLocked P M env mmdbPath s.world).1 } ∧
      ∀ c tip dir, u.synchronise env.git s.world.dir = (.ok (c, tip), dir) →
        fetched = some (tip, s.sighting) := by
  obtain ⟨servers, clock, world, phase, entered⟩ := s
  obtain rfl : phase = .started := hstart
  rw [Function.iterate_succ_apply]
  rcases hsync : u.synchronise env.git world.dir with ⟨e | ⟨c, tip⟩, dir⟩
  · refine ⟨none, ?_, by simp⟩
    simp only [work, FireholUpdater.updateLocked, hsync]
    exact work_done rfl 4
  refine ⟨some (tip, ⟨servers, world.dir⟩), ?_, by simp [Publication.sighting]⟩
  rw [Function.iterate_succ_apply]
  cases hstat : modifiedEpoch env.statFails mmdbPath world.fs with
  | error e =>
    simp only [work, FireholUpdater.updateLocked, hsync, hstat]
    exact work_done rfl 3
  | ok mmdbEpoch =>
    by_cases hle : tip.time.toInt ≤ mmdbEpoch
    · simp only [work, FireholUpdater.updateLocked, hsync, hstat, if_pos hle]
      exact work_done rfl 3
    rw [Function.iterate_succ_apply]
    rcases hprep : u.prepare P env.git tip c with ⟨e | ⟨ipsets, epoch⟩, c'⟩
    · simp only [work, FireholUpdater.updateLocked, hsync, hstat, if_neg hle, hprep]
      exact work_done rfl 2
    rw [Function.iterate_succ_apply]
    cases hs : serialise M ipsets epoch with
    | error e =>
      simp only [work, FireholUpdater.updateLocked, hsync, hstat, if_neg hle, hprep, writeMmdb, hs]
      exact work_done rfl 1
    | ok bytes =>
      rcases hw : TempFile.write env.writeFaults env.now (tempPath mmdbPath) bytes
        ⟨world.fs, []⟩ with ⟨e | temp, d⟩
      · simp only [work, FireholUpdater.updateLocked, hsync, hstat, if_neg hle, hprep, writeMmdb,
          hs, hw]
        exact work_done rfl 1
      rw [Function.iterate_one]
      rcases hp : temp.persist env.writeFaults mmdbPath d with ⟨e | u, d'⟩
      · simp only [work, FireholUpdater.updateLocked, hsync, hstat, if_neg hle, hprep, writeMmdb,
          hs, hw, hp, Publication.sighting]
      · simp only [work, FireholUpdater.updateLocked, hsync, hstat, if_neg hle, hprep, writeMmdb,
          hs, hw, hp, Publication.sighting]

/-- Alone, a run of the machine is `update_and_build_mmdb`. -/
theorem update_alone (u : FireholUpdater) (P : Parsers) (M : MmdbWriter β) (mmdbPath : Path)
    (s : Publication β) (env : RunEnv β) (hfree : s.world.lock.held = false)
    (hg : env.git.Lawful s.servers) (hnow : env.now = s.clock) :
    ∃ events t fetched, (publication u P M mmdbPath).Run s events t ∧
      t.phase = .done fetched (u.updateAndBuildMmdb P M env mmdbPath s.world).1 ∧
      { t.world with lock := { t.world.lock with held := false } } =
        (u.updateAndBuildMmdb P M env mmdbPath s.world).2 ∧
      t.servers = s.servers ∧ t.clock = s.clock ∧
      ∀ c tip dir, u.synchronise env.git s.world.dir = (.ok (c, tip), dir) →
        fetched = some (tip, s.sighting) := by
  have hstart : PublicationStep u P M mmdbPath s .run _ := .start hfree
  obtain ⟨events, hwork⟩ := work_run (s := { s with
    world := { s.world with lock := { s.world.lock with held := true } }
    phase := .started
    entered := s.world.fs mmdbPath }) env rfl hg hnow 5
  obtain ⟨fetched, halone, hfetched⟩ := work_alone (s := { s with
    world := { s.world with lock := { s.world.lock with held := true } }
    phase := .started
    entered := s.world.fs mmdbPath }) env rfl
  rw [halone] at hwork
  refine ⟨_, _, fetched, .head hstart hwork, ?_, ?_, rfl, rfl, hfetched⟩
  · simp [FireholUpdater.updateAndBuildMmdb, hfree]
  · simp [FireholUpdater.updateAndBuildMmdb, hfree]

/-- However pushes, the clock and the runs interleave, a run that answers `Ok` fetched a tip that
was upstream at that moment; after `Ok(true)` the file is the database of that tip, and after
`Ok(false)` the file is untouched and the tip not newer than it in whole seconds. -/
theorem answers_published (h : (publication u P M mmdbPath).Reachable s)
    {fetched : Option (Commit × Sighting)} {b : Bool} (hdone : s.phase = .done fetched (.ok b)) :
    ∃ tip seen, fetched = some (tip, seen) ∧ Fetched u seen tip ∧
      (b = true → Holds u P M mmdbPath s tip) ∧ (b = false → NotNewer mmdbPath s tip) := by
  have hknown := known_reachable h
  simp only [Known, hdone] at hknown
  cases b with
  | true =>
    obtain ⟨tip, seen, hf, hfetched, hholds⟩ := hknown
    exact ⟨tip, seen, hf, hfetched, fun _ => hholds, by simp⟩
  | false =>
    obtain ⟨tip, seen, hf, hfetched, hnot⟩ := hknown
    exact ⟨tip, seen, hf, hfetched, by simp, fun _ => hnot⟩

open Reference in
/-- Commit 1, of second 10, is upstream at second 100. -/
def firstPublication : Publication Bytes where
  servers _ _ := some (listCommit 1 10 "1.2.3.4\n")
  clock := 100 * nanos
  world := emptyWorld

open Reference in
/-- The first run builds commit 1. -/
theorem answers_published_first :
    ∃ (s : Publication Bytes) (fetched : Option (Commit × Sighting)),
      s.phase = .done fetched (.ok true) ∧
        ∃ tip seen, fetched = some (tip, seen) ∧ Fetched updater seen tip ∧
          (true = true → Holds updater parsers mmdbWriter fireholMmdb s tip) ∧
          (true = false → NotNewer fireholMmdb s tip) := by
  obtain ⟨events, s, fetched, hrun, hphase, -⟩ := update_alone updater parsers mmdbWriter
    fireholMmdb firstPublication (runEnv (listCommit 1 10 "1.2.3.4\n") 100) rfl
    (git_lawful_const (listCommit 1 10 "1.2.3.4\n")) rfl
  have hdone : s.phase = .done fetched (.ok true) := hphase
  exact ⟨s, fetched, hdone, answers_published (.run (.initial ⟨rfl, rfl⟩) hrun) hdone⟩

open Reference in
/-- After the first run commit 2, of second 50, becomes upstream. -/
def secondServers : Servers :=
  Function.update firstPublication.servers updater.repo.url
    (Function.update (firstPublication.servers updater.repo.url) (headsRef "master")
      (some (listCommit 2 50 "5.6.7.8\n")))

theorem secondServers_serves (url name : String) : secondServers url name ≠ none := by
  simp only [secondServers, firstPublication, Function.update_apply]
  split
  · rw [Function.update_apply]
    split <;> exact Option.some_ne_none _
  · exact Option.some_ne_none _

open Reference in
/-- The world the first run leaves. -/
def firstWorld : World Bytes :=
  (updater.updateAndBuildMmdb parsers mmdbWriter (runEnv (listCommit 1 10 "1.2.3.4\n") 100)
    fireholMmdb emptyWorld).2

open Reference in
def secondEnv : RunEnv Bytes := { git := git secondServers, now := 100 * nanos }

/-- Whether a file is a database with a record for `a`. -/
def recorded (a : Ipv4Addr) (node : Node Reference.Bytes SystemTime) : Bool :=
  match node with
  | .file (.database tree) _ => (tree a).isSome
  | _ => false

open Reference in
/-- Commit 2 was made before commit 1 was built and pushed only afterwards: the second run
fetches it, finds the file newer and answers `Ok(false)`, and the file stays that of commit 1. -/
theorem pushed_late_never_built :
    ∃ s : Publication Bytes,
      (publication updater parsers mmdbWriter fireholMmdb).Reachable s ∧
        ∃ tip seen, s.phase = .done (some (tip, seen)) (.ok false) ∧
          ¬ Holds updater parsers mmdbWriter fireholMmdb s tip := by
  obtain ⟨events, s₁, fetched₁, hrun₁, hphase₁, hworld₁, hservers₁, hclock₁, -⟩ :=
    update_alone updater parsers mmdbWriter fireholMmdb firstPublication
      (runEnv (listCommit 1 10 "1.2.3.4\n") 100) rfl
      (git_lawful_const (listCommit 1 10 "1.2.3.4\n")) rfl
  have hfinish : PublicationStep updater parsers mmdbWriter fireholMmdb s₁ .run _ :=
    .finish hphase₁
  rw [hworld₁] at hfinish
  have hpush : PublicationStep updater parsers mmdbWriter fireholMmdb _ .push _ :=
    .push (s := { firstPublication with
      clock := s₁.clock, world := firstWorld, entered := s₁.entered })
      updater.repo.url (headsRef "master") (listCommit 2 50 "5.6.7.8\n")
  obtain ⟨events₂, s₂, fetched₂, hrun₂, hphase₂, hworld₂, -, -, hfetched₂⟩ :=
    update_alone updater parsers mmdbWriter fireholMmdb
      { s₁ with servers := secondServers, world := firstWorld, phase := .idle } secondEnv rfl
      (git_lawful secondServers_serves) hclock₁.symm
  have hfiles : s₂.world.fs = firstWorld.fs := (congrArg World.fs hworld₂ :)
  have htip : fetched₂ = some (listCommit 2 50 "5.6.7.8\n", ⟨secondServers, firstWorld.dir⟩) :=
    hfetched₂ _ _ _ rfl
  have hfirst : (publication updater parsers mmdbWriter fireholMmdb).Reachable firstPublication :=
    .initial ⟨rfl, rfl⟩
  rw [hservers₁] at hfinish
  have hreach : (publication updater parsers mmdbWriter fireholMmdb).Reachable s₂ :=
    (((hfirst.run hrun₁).step hfinish).step hpush).run hrun₂
  refine ⟨s₂, hreach, _, _, htip ▸ hphase₂, ?_⟩
  rintro ⟨bytes, t, hfile, hdb⟩
  rw [hfiles] at hfile
  -- 5.6.7.8 tells the two databases apart.
  have hnew : (databaseOf parsers mmdbWriter updater.ignoreCountry
    (listCommit 2 50 "5.6.7.8\n")).any (fun bytes => recorded 0x05060708#32 (.file bytes t)) =
      true := rfl
  have hold : (firstWorld.fs fireholMmdb).any (recorded 0x05060708#32) = false := rfl
  rw [hdb] at hnew
  rw [hfile] at hold
  exact Bool.false_ne_true (hold.symm.trans hnew)

end IpReputation
