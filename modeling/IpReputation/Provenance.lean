import IpReputation.Publication
import IpReputation.ReloadSources
import IpReputation.TreeVerdict

/-! Updates and reloads together: where every database that is ever served comes from. -/
namespace IpReputation

open FileStore (Node)
open Transition

variable {β : Type} [ByteString β]

/-- Upstream and this machine, with what a fetch would have met at every moment so far, and the
first database. -/
structure Chronicle (β : Type) where
  now : Publication β
  past : List Sighting
  first : Option (Node β SystemTime)

variable (u : FireholUpdater) (P : Parsers) (M : MmdbWriter β) (mmdbPath : Path)

/-- The files as pushes, the clock and the update runs change them. -/
def publishing : Files β where
  State := Chronicle β
  view c := c.now.world.fs
  initial c := (publication u P M mmdbPath).initial c.now ∧ c.past = [c.now.sighting] ∧
    c.first = c.now.world.fs mmdbPath
  step c c' := (∃ event, (publication u P M mmdbPath).step c.now event c'.now) ∧
    c'.past = c.past ++ [c'.now.sighting] ∧ c'.first = c.first
  called path := path = mmdbPath

/-- The database of a commit that was the tip of the branch at one of these moments. -/
def FromUpstream (past : List Sighting) (bytes : β) : Prop :=
  ∃ seen ∈ past, ∃ tip, Fetched u seen tip ∧ databaseOf P M u.ignoreCountry tip = some bytes

/-- What the fetch of the run in progress met. -/
def UpdatePhase.seen : UpdatePhase β → Option Sighting
  | .synced _ _ seen | .outdated _ _ seen | .prepared _ seen _ _ | .written _ seen _ _ => some seen
  | .idle | .started | .done _ _ => none

/-- The database at `mmdbPath` is the first one or was made of a commit from upstream, and what a
run has fetched was upstream then. -/
structure Chronicled (c : Chronicle β) : Prop where
  known : Known u P M mmdbPath c.now
  current : c.now.sighting ∈ c.past
  seen : ∀ seen, c.now.phase.seen = some seen → seen ∈ c.past
  file : c.now.world.fs mmdbPath = c.first ∨
    ∃ bytes t, c.now.world.fs mmdbPath = some (.file bytes t) ∧ FromUpstream u P M c.past bytes

variable {u P M mmdbPath} {past past' : List Sighting} {bytes : β} {s : Publication β}
  {env : RunEnv β} {c c' : Chronicle β}

omit [ByteString β] in
theorem FromUpstream.mono (h : FromUpstream u P M past bytes) (hsub : past ⊆ past') :
    FromUpstream u P M past' bytes := by
  obtain ⟨seen, hseen, tip, hrest⟩ := h
  exact ⟨seen, hsub hseen, tip, hrest⟩

/-- A run goes on with what it fetched, or fetches what is upstream now. -/
theorem work_seen {seen : Sighting} (h : (work u P M mmdbPath env s).phase.seen = some seen) :
    s.phase.seen = some seen ∨ seen = s.sighting := by
  obtain ⟨servers, clock, world, phase, entered⟩ := s
  cases phase with
  | idle => exact .inl h
  | started =>
    rcases hsync : u.synchronise env.git world.dir with ⟨e | ⟨c, tip⟩, dir⟩
    · simp [work, hsync, UpdatePhase.seen] at h
    · simp only [work, hsync, UpdatePhase.seen, Option.some.injEq] at h
      exact .inr h.symm
  | synced c tip old =>
    cases hstat : modifiedEpoch env.statFails mmdbPath world.fs with
    | error e => simp [work, hstat, UpdatePhase.seen] at h
    | ok mmdbEpoch =>
      by_cases hle : tip.time.toInt ≤ mmdbEpoch
      · simp [work, hstat, hle, UpdatePhase.seen] at h
      · simp only [work, hstat, if_neg hle] at h
        exact .inl h
  | outdated c tip old =>
    rcases hprep : u.prepare P env.git tip c with ⟨e | ⟨ipsets, epoch⟩, c'⟩
    · simp [work, hprep, UpdatePhase.seen] at h
    · simp only [work, hprep] at h
      exact .inl h
  | prepared tip old ipsets epoch =>
    cases hs : serialise M ipsets epoch with
    | error e => simp [work, hs, UpdatePhase.seen] at h
    | ok bytes =>
      rcases hw : TempFile.write env.writeFaults env.now (tempPath mmdbPath) bytes
        ⟨world.fs, []⟩ with ⟨e | temp, d⟩
      · simp [work, hs, hw, UpdatePhase.seen] at h
      · simp only [work, hs, hw] at h
        exact .inl h
  | written tip old temp trail =>
    rcases hp : temp.persist env.writeFaults mmdbPath ⟨world.fs, trail⟩ with ⟨e | u, d⟩ <;>
      simp [work, hp, UpdatePhase.seen] at h
  | done fetched answer => exact .inl h

omit [ByteString β] in
/-- `persist` leaves the target alone, or gives it the temporary file. -/
theorem TempFile.persist_target {faults : WriteFaults β} {path target : Path} {d : Disk β}
    {node : Node β SystemTime} (hne : target ≠ path) (hfile : d.fs path = some node) :
    (TempFile.persist faults ⟨some path⟩ target d).2.fs target = d.fs target ∨
      (TempFile.persist faults ⟨some path⟩ target d).2.fs target = some node := by
  have hremoved : (removeQuietly path d).fs target = d.fs target := by
    unfold removeQuietly
    cases hr : FileStore.remove path d.fs with
    | error e => rfl
    | ok fs => exact FileStore.remove_of_ne hr hne
  simp only [TempFile.persist]
  split
  · exact .inl hremoved
  · split
    · exact .inl hremoved
    · rename_i fs hrename
      exact .inr (FileStore.rename_target hrename hfile (Ne.symm hne)).1

/-- A step of a run leaves the database alone, or renames the one of its commit over it. -/
theorem work_file (hne : mmdbPath ≠ tempPath mmdbPath) (h : Known u P M mmdbPath s) :
    (work u P M mmdbPath env s).world.fs mmdbPath = s.world.fs mmdbPath ∨
      ∃ bytes t seen tip, (work u P M mmdbPath env s).world.fs mmdbPath = some (.file bytes t) ∧
        s.phase.seen = some seen ∧ Fetched u seen tip ∧
        databaseOf P M u.ignoreCountry tip = some bytes := by
  obtain ⟨servers, clock, world, phase, entered⟩ := s
  cases phase with
  | idle | done fetched answer => exact .inl rfl
  | started =>
    rcases hsync : u.synchronise env.git world.dir with ⟨e | ⟨c, tip⟩, dir⟩ <;>
      exact .inl (by simp only [work, hsync])
  | synced c tip old =>
    cases hstat : modifiedEpoch env.statFails mmdbPath world.fs with
    | error e => exact .inl (by simp only [work, hstat])
    | ok mmdbEpoch =>
      by_cases hle : tip.time.toInt ≤ mmdbEpoch
      · exact .inl (by simp only [work, hstat, if_pos hle])
      · exact .inl (by simp only [work, hstat, if_neg hle])
  | outdated c tip old =>
    rcases hprep : u.prepare P env.git tip c with ⟨e | ⟨ipsets, epoch⟩, c'⟩ <;>
      exact .inl (by simp only [work, hprep])
  | prepared tip old ipsets epoch =>
    left
    cases hs : serialise M ipsets epoch with
    | error e => simp only [work, hs]
    | ok bytes =>
      rcases TempFile.write_cases env.writeFaults env.now bytes hne (untouched_start world.fs) with
        ⟨e, hw⟩ | ⟨e, d, hw, hkept, -⟩ | ⟨d, hw, hkept, -⟩
      · simp only [work, hs, hw]
      · simp only [work, hs, hw]
        exact hkept.now
      · simp only [work, hs, hw]
        exact hkept.now
  | written tip old temp trail =>
    obtain ⟨hfetched, rfl, bytes, t, hfile, hdb⟩ := h
    have hfile : (⟨world.fs, trail⟩ : Disk β).fs (tempPath mmdbPath) = some (.file bytes t) := hfile
    have hworld : (work u P M mmdbPath env ⟨servers, clock, world,
        .written tip old ⟨some (tempPath mmdbPath)⟩ trail, entered⟩).world.fs =
        (TempFile.persist env.writeFaults ⟨some (tempPath mmdbPath)⟩ mmdbPath
          ⟨world.fs, trail⟩).2.fs := by
      simp only [work]
      rcases TempFile.persist env.writeFaults ⟨some (tempPath mmdbPath)⟩ mmdbPath
        ⟨world.fs, trail⟩ with ⟨e | u, d⟩ <;> rfl
    rw [hworld]
    rcases TempFile.persist_target hne hfile with hkept | hmoved
    · exact .inl hkept
    · exact .inr ⟨bytes, t, old, tip, hmoved, rfl, hfetched, hdb⟩

/-- A step leaves the database alone, or renames the one of the commit of its run over it. -/
theorem publicationStep_file {event : Event} (hne : mmdbPath ≠ tempPath mmdbPath)
    (h : PublicationStep u P M mmdbPath s event t) (hs : Known u P M mmdbPath s) :
    t.world.fs mmdbPath = s.world.fs mmdbPath ∨
      ∃ bytes now seen tip, t.world.fs mmdbPath = some (.file bytes now) ∧
        s.phase.seen = some seen ∧ Fetched u seen tip ∧
        databaseOf P M u.ignoreCountry tip = some bytes := by
  cases h with
  | work hheld hg hnow => exact work_file hne hs
  | push url name commit | tick hle | start hfree | finish hdone | busy hanswer hheld =>
    exact .inl rfl

/-- What a run has fetched was upstream before, or is now. -/
theorem publicationStep_seen {event : Event} {seen : Sighting}
    (h : PublicationStep u P M mmdbPath s event t) (hseen : t.phase.seen = some seen) :
    s.phase.seen = some seen ∨ seen = s.sighting := by
  cases h with
  | work hheld hg hnow => exact work_seen hseen
  | push url name commit | tick hle | busy hanswer hheld => exact .inl hseen
  | start hfree | finish hdone => cases hseen

theorem chronicled_step (hne : mmdbPath ≠ tempPath mmdbPath)
    (h : (publishing u P M mmdbPath).step c c') (hc : Chronicled u P M mmdbPath c) :
    Chronicled u P M mmdbPath c' := by
  obtain ⟨⟨event, hstep⟩, hpast, hfirst⟩ := h
  have hsub : c.past ⊆ c'.past := by
    rw [hpast]
    exact List.subset_append_left ..
  refine ⟨known_stable hstep hc.known, ?_, ?_, ?_⟩
  · rw [hpast]
    exact List.mem_append_right _ (List.mem_singleton_self _)
  · intro seen hseen
    rcases publicationStep_seen hstep hseen with hold | rfl
    · exact hsub (hc.seen seen hold)
    · exact hsub hc.current
  · rcases publicationStep_file hne hstep hc.known with
      hkept | ⟨bytes, now, seen, tip, hmoved, hseen, hfrom⟩
    · rw [hkept, hfirst]
      exact hc.file.imp_right fun ⟨bytes, t, hbytes, hfrom⟩ => ⟨bytes, t, hbytes, hfrom.mono hsub⟩
    · exact .inr ⟨bytes, now, hmoved, seen, hsub (hc.seen seen hseen), tip, hfrom⟩

theorem chronicled_initial (h : (publishing u P M mmdbPath).initial c) :
    Chronicled u P M mmdbPath c := by
  obtain ⟨⟨hidle, -⟩, hpast, hfirst⟩ := h
  refine ⟨by simp only [Known, hidle], by simp [hpast], ?_, .inl hfirst.symm⟩
  intro seen hseen
  rw [hidle] at hseen
  cases hseen

variable (u P M) in
/-- The bytes are those of the first database or of a commit from upstream. -/
def Traced (c : Chronicle β) (bytes : β) : Prop :=
  (∃ t, c.first = some (.file bytes t)) ∨ FromUpstream u P M c.past bytes

omit [ByteString β] in
theorem traced_read (hc : Chronicled u P M mmdbPath c)
    (h : readFile mmdbPath c.now.world.fs = .ok bytes) : Traced u P M c bytes := by
  cases hnode : c.now.world.fs mmdbPath with
  | none => simp [readFile, hnode] at h
  | some node =>
    cases node with
    | directory t => simp [readFile, hnode] at h
    | file read t =>
      simp only [readFile, hnode, Except.ok.injEq] at h
      subst h
      rcases hc.file with hfirst | ⟨bytes, now, hbytes, hfrom⟩
      · exact .inl ⟨t, by rw [← hfirst, hnode]⟩
      · rw [hnode, Option.some.injEq, Node.file.injEq] at hbytes
        exact .inr (hbytes.1 ▸ hfrom)

theorem traced_step (h : (publishing u P M mmdbPath).step c c') (hc : Traced u P M c bytes) :
    Traced u P M c' bytes := by
  obtain ⟨-, hpast, hfirst⟩ := h
  refine hc.imp ?_ fun hfrom => hfrom.mono ?_
  · rintro ⟨t, ht⟩
    exact ⟨t, hfirst.trans ht⟩
  · rw [hpast]
    exact List.subset_append_left ..

variable {G : Geoip2 β} {lossy : Path → String} {r : Reloads (publishing u P M mmdbPath) G}
  {snapshot : Snapshot G}

/-- The steps of upstream and the update runs are steps of the files under the loads. -/
theorem publishing_run (lossy : Path → String) {events : List Event} {s t : Publication β}
    (hrun : (publication u P M mmdbPath).Run s events t)
    (r : Reloads (publishing u P M mmdbPath) G) (hnow : r.files.now = s) :
    ∃ actors files, (reloads (publishing u P M mmdbPath) G lossy).Run r actors { r with files } ∧
      files.now = t ∧ files.first = r.files.first := by
  induction hrun generalizing r with
  | refl => exact ⟨[], r.files, .refl, hnow, rfl⟩
  | @head s s' t event events hstep hrun ih =>
    subst hnow
    have hfiles : (publishing u P M mmdbPath).step r.files
        ⟨s', r.files.past ++ [s'.sighting], r.files.first⟩ := ⟨⟨event, hstep⟩, rfl, rfl⟩
    obtain ⟨actors, files, hrest, rfl, hfirst⟩ := ih
      { r with files := ⟨s', r.files.past ++ [s'.sighting], r.files.first⟩ } rfl
    exact ⟨.files :: actors, files, .head (.files hfiles) hrest, rfl, hfirst⟩

end IpReputation
