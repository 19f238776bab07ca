import IpReputation.Provenance

/-! The agent killed and started again: what survives on disk and what is served from it. -/
namespace IpReputation

open FileStore (Node)
open Transition

variable {β : Type} [ByteString β]

variable (M : MmdbWriter β) (mmdbPath : Path)

/-- The files that the next step of the run passes through. -/
def midway (env : RunEnv β) (s : Publication β) : List (FileSystem β) :=
  match s.phase with
  | .prepared _ _ ipsets epoch =>
    match serialise M ipsets epoch with
    | .error _ => []
    | .ok bytes =>
      (TempFile.write env.writeFaults env.now (tempPath mmdbPath) bytes
        ⟨s.world.fs, []⟩).2.trail.map (·.2)
  | .written _ _ temp _ =>
    (temp.persist env.writeFaults mmdbPath ⟨s.world.fs, []⟩).2.trail.map (·.2)
  | _ => []

/-- The process is killed between two file operations. Whatever it did to the clone stays, its
locks and its run are gone. -/
inductive Killed (s : Publication β) : Publication β → Prop
  | mk (env : RunEnv β) (dir : RepoDir) (fs : FileSystem β) : env.now = s.clock →
      fs = s.world.fs ∨ fs ∈ midway M mmdbPath env s →
      Killed s { s with world := ⟨dir, fs, {}⟩, phase := .idle }

variable (u : FireholUpdater) (P : Parsers)

/-- The agent loses its memory; upstream and the disk go on. -/
inductive Restart (G : Geoip2 β) :
    Reloads (publishing u P M mmdbPath) G → Reloads (publishing u P M mmdbPath) G → Prop
  | mk {r : Reloads (publishing u P M mmdbPath) G} {s : Publication β} :
      Killed M mmdbPath r.files.now s →
      Restart G r (.start ⟨s, r.files.past ++ [s.sighting], r.files.first⟩)

inductive Moment
  | moves (actor : Actor)
  | restart
  deriving DecidableEq

/-- One machine over all lifetimes of its agent. -/
def lifetimes (G : Geoip2 β) (lossy : Path → String) :
    System (Reloads (publishing u P M mmdbPath) G) Moment where
  initial := (reloads (publishing u P M mmdbPath) G lossy).initial
  step r moment r' :=
    match moment with
    | .moves actor => (reloads (publishing u P M mmdbPath) G lossy).step r actor r'
    | .restart => Restart M mmdbPath u P G r r'

variable {M mmdbPath u P} {s t : Publication β} {env : RunEnv β} {d : Disk β} {fs : FileSystem β}
  {op : FileOp} {path target : Path} {held : Option (Node β SystemTime)}
  {allowed : Option (Node β SystemTime) → Prop} {c c' : Chronicle β}

/-- At every moment of the run `target` held what is allowed. -/
structure Within (target : Path) (allowed : Option (Node β SystemTime) → Prop) (d : Disk β) :
    Prop where
  now : allowed (d.fs target)
  past : ∀ x ∈ d.trail, allowed (x.2 target)

omit [ByteString β] in
theorem Within.did (op : FileOp) (h : Within target allowed d) (hfs : allowed (fs target)) :
    Within target allowed (d.did op fs) := by
  refine ⟨hfs, ?_⟩
  intro x hx
  rcases List.mem_append.mp hx with hx | hx
  · exact h.past x hx
  · obtain rfl := List.mem_singleton.mp hx
    exact hfs

omit [ByteString β] in
theorem Within.removeQuietly (h : Within target allowed d) (hne : target ≠ path) :
    Within target allowed (removeQuietly path d) := by
  unfold IpReputation.removeQuietly
  cases hr : FileStore.remove path d.fs with
  | error e => exact h
  | ok fs => exact h.did .remove (by rw [FileStore.remove_of_ne hr hne]; exact h.now)

/-- Writing the temporary file never touches another one. -/
theorem TempFile.write_within (faults : WriteFaults β) (now : SystemTime) (bytes : β)
    (hne : target ≠ path) (h : Within target allowed d) :
    Within target allowed (TempFile.write faults now path bytes d).2 := by
  simp only [TempFile.write]
  split
  · exact h
  · split
    · exact h
    · rename_i fs hcreate
      obtain ⟨-, rfl⟩ := createFile_eq hcreate
      let created := d.did .create
        (Function.update d.fs path (some (.file ByteString.empty now)))
      have hcreated : Within target allowed created :=
        h.did .create (by rw [Function.update_of_ne hne]; exact h.now)
      have hwritten : ∀ left, Within target allowed
          (created.did .write (FileStore.write left now path created.fs)) := fun left =>
        hcreated.did .write (by rw [FileStore.write_of_ne hne]; exact hcreated.now)
      split
      · exact (hwritten _).removeQuietly hne
      · split
        · exact (hwritten _).removeQuietly hne
        · exact (hwritten _).did .sync (hwritten _).now

omit [ByteString β] in
/-- Giving the temporary file away leaves the target alone or moves that file over it. -/
theorem TempFile.persist_within (faults : WriteFaults β) {node : Node β SystemTime}
    (hne : target ≠ path) (hfile : d.fs path = some node) (h : Within target allowed d)
    (hnode : allowed (some node)) :
    Within target allowed (TempFile.persist faults ⟨some path⟩ target d).2 := by
  simp only [TempFile.persist]
  split
  · exact h.removeQuietly hne
  · split
    · exact h.removeQuietly hne
    · rename_i fs hrename
      exact h.did .rename (by
        rw [(FileStore.rename_target hrename hfile (Ne.symm hne)).1]
        exact hnode)

/-- Wherever a step is cut short, the database is the old one or that of the run's commit. -/
theorem midway_file (hne : mmdbPath ≠ tempPath mmdbPath) (h : Known u P M mmdbPath s)
    (hmid : fs ∈ midway M mmdbPath env s) :
    fs mmdbPath = s.world.fs mmdbPath ∨
      ∃ bytes now seen tip, fs mmdbPath = some (.file bytes now) ∧ s.phase.seen = some seen ∧
        Fetched u seen tip ∧ databaseOf P M u.ignoreCountry tip = some bytes := by
  obtain ⟨servers, clock, world, phase, entered⟩ := s
  cases phase with
  | idle | started | synced c tip seen | outdated c tip seen | done fetched answer => cases hmid
  | prepared tip seen ipsets epoch =>
    simp only [midway] at hmid
    split at hmid
    · cases hmid
    · rename_i bytes hs
      obtain ⟨x, hx, rfl⟩ := List.mem_map.mp hmid
      have hwithin : Within mmdbPath (· = world.fs mmdbPath) (⟨world.fs, []⟩ : Disk β) :=
        ⟨rfl, by simp⟩
      exact .inl ((TempFile.write_within env.writeFaults env.now bytes hne hwithin).past x hx)
  | written tip seen temp trail =>
    obtain ⟨hfetched, rfl, bytes, t, hfile, hdb⟩ := h
    obtain ⟨x, hx, rfl⟩ := List.mem_map.mp hmid
    have hwithin : Within mmdbPath (fun node => node = world.fs mmdbPath ∨
        node = some (.file bytes t)) (⟨world.fs, []⟩ : Disk β) := ⟨.inl rfl, by simp⟩
    rcases (TempFile.persist_within env.writeFaults hne hfile hwithin (.inr rfl)).past x hx with
      hkept | hmoved
    · exact .inl hkept
    · exact .inr ⟨bytes, t, seen, tip, hmoved, rfl, hfetched, hdb⟩

theorem killed_file (hne : mmdbPath ≠ tempPath mmdbPath) (h : Known u P M mmdbPath s)
    (hkilled : Killed M mmdbPath s t) :
    t.world.fs mmdbPath = s.world.fs mmdbPath ∨
      ∃ bytes now seen tip, t.world.fs mmdbPath = some (.file bytes now) ∧
        s.phase.seen = some seen ∧ Fetched u seen tip ∧
        databaseOf P M u.ignoreCountry tip = some bytes := by
  obtain ⟨env, dir, fs, -, rfl | hmid⟩ := hkilled
  · exact .inl rfl
  · exact midway_file hne h hmid

/-- No kill leaves a file behind that was not written as a whole. -/
theorem chronicled_killed (hne : mmdbPath ≠ tempPath mmdbPath) (hc : Chronicled u P M mmdbPath c)
    (hkilled : Killed M mmdbPath c.now s) :
    Chronicled u P M mmdbPath ⟨s, c.past ++ [s.sighting], c.first⟩ := by
  have hsub : c.past ⊆ c.past ++ [s.sighting] := List.subset_append_left ..
  have hidle : s.phase = .idle := by
    obtain ⟨env, dir, fs, -⟩ := hkilled
    rfl
  refine ⟨by simp only [Known, hidle], by simp, ?_, ?_⟩
  · intro seen hseen
    rw [hidle] at hseen
    cases hseen
  · rcases killed_file hne hc.known hkilled with
      hkept | ⟨bytes, now, seen, tip, hmoved, hseen, hfrom⟩
    · rw [hkept]
      rcases hc.file with hfirst | ⟨bytes, t, hbytes, hfrom⟩
      · exact .inl hfirst
      · exact .inr ⟨bytes, t, hbytes, hfrom.mono hsub⟩
    · exact .inr ⟨bytes, now, hmoved, seen, hsub (hc.seen seen hseen), tip, hfrom⟩

variable {G : Geoip2 β} {lossy : Path → String} {r : Reloads (publishing u P M mmdbPath) G}
  {snapshot : Snapshot G}

/-- What every lifetime keeps: the database on disk and the one in memory are traced. -/
def Lasting (r : Reloads (publishing u P M mmdbPath) G) : Prop :=
  Sourced (Chronicled u P M mmdbPath) (Traced u P M) r

theorem lasting_start (h : Chronicled u P M mmdbPath c) :
    Lasting (.start c : Reloads (publishing u P M mmdbPath) G) := by
  refine ⟨h, ?_, ?_, ?_⟩
  · intro tid path hpath
    cases hpath
  · intro snapshot hsnap
    cases hsnap
  · intro tid call path entry stage bytes hin
    cases hin

theorem lasting_stable (hne : mmdbPath ≠ tempPath mmdbPath) :
    (reloads (publishing u P M mmdbPath) G lossy).Stable Lasting := by
  refine sourced_stable (fun _ _ => chronicled_step hne) ?_ fun _ _ _ => traced_step
  rintro files path bytes hfiles rfl hread
  exact traced_read hfiles hread

theorem lasting_reachable (hne : mmdbPath ≠ tempPath mmdbPath)
    (h : (lifetimes M mmdbPath u P G lossy).Reachable r) : Lasting r := by
  refine System.Stable.reachable (I := Lasting) ?_ ?_ h
  · intro r moment r' hstep hr
    cases moment with
    | moves actor => exact lasting_stable hne hstep hr
    | restart =>
      obtain ⟨hkilled⟩ := hstep
      exact lasting_start (chronicled_killed hne hr.files hkilled)
  · rintro r ⟨files, hfiles, rfl⟩
    exact lasting_start (chronicled_initial hfiles)

/-- Over any number of lifetimes, wherever each ends, what is served is the file that was there
before the first, or answers every address that is not in too many networks by the lists of one
commit that was the tip of the branch at some earlier moment. -/
theorem served_traced {limit : Nat} (hM : M.Lawful) (hG : G.ReadsUpTo M limit)
    (hne : mmdbPath ≠ tempPath mmdbPath)
    (h : (lifetimes M mmdbPath u P G lossy).Reachable r)
    (hsnap : r.served.snapshot = some snapshot) :
    (∃ t, r.files.first = some (.file snapshot.reader.owner t)) ∨
      ∃ seen ∈ r.files.past, ∃ tip, Fetched u seen tip ∧
        ∀ (filter : IpFilter) ip m,
          (∀ a, ip = .v4 a → listings P u.ignoreCountry tip a ≤ limit) →
          ((filter.shouldDrop (some snapshot) ip m).1 = true ↔
            ∃ a, ip = .v4 a ∧ CommitBlocks P u.ignoreCountry filter tip a) := by
  rcases (lasting_reachable hne h).served snapshot hsnap with
    hfirst | ⟨seen, hseen, tip, hfetched, hdb⟩
  · exact .inl hfirst
  · exact .inr ⟨seen, hseen, tip, hfetched,
      fun filter ip m hfew => shouldDrop_databaseOf hM hG hfew hdb⟩

/-- Within one lifetime the agent runs as it did without restarts. -/
theorem lifetimes_run {actors : List Actor} {r' : Reloads (publishing u P M mmdbPath) G}
    (hrun : (reloads (publishing u P M mmdbPath) G lossy).Run r actors r') :
    (lifetimes M mmdbPath u P G lossy).Run r (actors.map .moves) r' := by
  induction hrun with
  | refl => exact .refl
  | head hstep hrun ih => exact .head hstep ih

/-- A new agent can load what it finds, undisturbed. -/
theorem load_started (G : Geoip2 β) (lossy : Path → String) (c : Chronicle β)
    (faults : LoadFaults) :
    ∃ actors r, (reloads (publishing u P M mmdbPath) G lossy).Run (.start c) actors r ∧
      r.served = (Mmdb.load lossy faults mmdbPath c.now.world.fs {}).2 := by
  have hready : ((Reloads.start c : Reloads (publishing u P M mmdbPath) G).threads 0).Ready :=
    trivial
  have hpath : (publishing u P M mmdbPath).called mmdbPath := rfl
  obtain ⟨actors, r, hrun, -, hserved, -⟩ : ∃ actors r,
      (reloads (publishing u P M mmdbPath) G lossy).Run (.start c) actors r ∧ r.loadLock = none ∧
        r.served = (Mmdb.load lossy faults mmdbPath c.now.world.fs {}).2 ∧ r.threads 0 = _ :=
    load_alone faults hready rfl hpath
  exact ⟨actors, r, hrun, hserved⟩

theorem restart_reachable (h : (lifetimes M mmdbPath u P G lossy).Reachable r)
    (hkilled : Killed M mmdbPath r.files.now s) : (lifetimes M mmdbPath u P G lossy).Reachable
      (.start ⟨s, r.files.past ++ [s.sighting], r.files.first⟩) := by
  have hrestart : Restart M mmdbPath u P G r _ := .mk hkilled
  exact System.Reachable.step (a := .restart) h hrestart

open Reference in
/-- After the first update the agent has been killed. -/
theorem firstLifetime (G : Geoip2 Bytes) (lossy : Path → String) :
    ∃ files, files.now.world.fs = firstWorld.fs ∧ files.first = none ∧
      (lifetimes mmdbWriter fireholMmdb updater parsers G lossy).Reachable (.start files) := by
  obtain ⟨events, s, fetched, hrun, hphase, hworld, -⟩ := update_alone updater parsers mmdbWriter
    fireholMmdb firstPublication (runEnv (listCommit 1 10 "1.2.3.4\n") 100) rfl
    (git_lawful_const (listCommit 1 10 "1.2.3.4\n")) rfl
  have hfiles : s.world.fs = firstWorld.fs := (congrArg World.fs hworld :)
  have hinitial : (lifetimes mmdbWriter fireholMmdb updater parsers G lossy).initial
      (.start ⟨firstPublication, [firstPublication.sighting], none⟩) :=
    ⟨_, ⟨⟨rfl, rfl⟩, rfl, rfl⟩, rfl⟩
  obtain ⟨actors, files, hpublished, rfl, hnone⟩ := publishing_run lossy hrun (.start
    ⟨firstPublication, [firstPublication.sighting], none⟩) rfl
  obtain ⟨r, hr, rfl⟩ : ∃ r : Reloads (publishing updater parsers mmdbWriter fireholMmdb) G,
      (lifetimes mmdbWriter fireholMmdb updater parsers G lossy).Reachable r ∧ r.files = files :=
    ⟨_, (System.Reachable.initial hinitial).run (lifetimes_run hpublished), rfl⟩
  have hkilled : Killed mmdbWriter fireholMmdb r.files.now _ :=
    .mk { runEnv (bareCommit 1 10) 100 with now := r.files.now.clock } .missing _ rfl (.inl rfl)
  refine ⟨_, ?_, ?_, restart_reachable hr hkilled⟩
  · exact hfiles
  · exact hnone

open Reference in
/-- What the second agent loads is what the first one had built. -/
theorem served_traced_second :
    ∃ (r : Reloads (publishing updater parsers mmdbWriter fireholMmdb) geoip2) (snapshot : _),
      r.served.snapshot = some snapshot ∧
        ((∃ t, r.files.first = some (.file snapshot.reader.owner t)) ∨
          ∃ seen ∈ r.files.past, ∃ tip, Fetched updater seen tip ∧
            ∀ (filter : IpFilter) ip m,
              (∀ a, ip = .v4 a → listings parsers updater.ignoreCountry tip a ≤ 28) →
              ((filter.shouldDrop (some snapshot) ip m).1 = true ↔
                ∃ a, ip = .v4 a ∧ CommitBlocks parsers updater.ignoreCountry filter tip a)) := by
  obtain ⟨files, hfiles, -, hreach⟩ := firstLifetime geoip2 fun _ => "firehol.mmdb"
  obtain ⟨actors, r, hload, hserved⟩ := load_started geoip2 _ files {}
  have hsome : r.served.snapshot.isSome = true := by
    rw [hserved, hfiles]
    rfl
  obtain ⟨snapshot, hsnap⟩ := Option.isSome_iff_exists.mp hsome
  exact ⟨r, snapshot, hsnap, served_traced mmdbWriter_lawful (geoip2_readsUpTo 28) (by decide)
    (hreach.run (lifetimes_run hload)) hsnap⟩

end IpReputation
