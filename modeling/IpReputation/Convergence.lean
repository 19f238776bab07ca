import IpReputation.Watcher

/-! The watcher converges: whatever is stale is still owed, queued or being looked at. -/
namespace IpReputation

open Transition

variable {β : Type} {G : Geoip2 β} {path p : Path} {fileName : OsString} {lossy : Path → String}
  {w w' : Watching path G} {s t : Reloads (versionedFile β path) G} {v v' : Versioned β}
  {work : Work (versionedFile β path) G} {entry : Entry (versionedFile β path) G} {call : Call}
  {answer : Answer} {bytes : β}

/-- Undisturbed, `stat` fails only where there is no file. -/
theorem content_of_modifiedTime {e : FileStore.IoError}
    (h : modifiedTime {} path ((versionedFile β path).view v) = .error e) : v.content = none := by
  cases hcur : v.current with
  | none => simp [Versioned.content, hcur]
  | some c => simp [modifiedTime, metadata, hcur] at h

/-- Undisturbed, so does `read`. -/
theorem content_of_tryRead {e : FileStore.IoError}
    (h : tryRead {} path ((versionedFile β path).view v) = .error e) : v.content = none := by
  cases hcur : v.current with
  | none => simp [Versioned.content, hcur]
  | some c => simp [tryRead, readFile, hcur] at h

theorem fromBytes_of_tryNew (h : OwnedReader.tryNew G bytes = none) : G.fromBytes bytes = none := by
  simp only [OwnedReader.tryNew] at h
  split at h
  · assumption
  · cases h

theorem not_valid_of_content (h : v.content = none) : ¬ v.Valid G bytes := by
  rintro ⟨hcontent, -⟩
  rw [h] at hcontent
  cases hcontent

/-- A call of the loop that took the lock on the current version fails only on a file that is no
database. -/
theorem advance_rejects {e : LoadError} (hknows : Knows v entry work)
    (hpins : ∀ seen, work.stage.seen = some seen → Pins v seen)
    (hentry : entry.files.version = v.version)
    (h : (advance lossy {} call path v work).stage = .done (.error e)) :
    work.stage = .done (.error e) ∨ ∀ bytes, ¬ v.Valid G bytes := by
  obtain ⟨stage, served, published⟩ := work
  cases stage with
  | locked =>
    cases call with
    | load => simp [advance, afterStat] at h
    | reloadIfChanged =>
      cases hm : modifiedTime {} path ((versionedFile β path).view v) with
      | error e => exact .inr fun bytes => not_valid_of_content (content_of_modifiedTime hm)
      | ok modified => simp [advance, afterStat, hm] at h
  | compare modified =>
    by_cases hu : Mmdb.unchanged served.snapshot modified = true <;> simp [advance, hu] at h
  | toRead modified =>
    cases hr : tryRead {} path ((versionedFile β path).view v) with
    | error e => exact .inr fun bytes => not_valid_of_content (content_of_tryRead hr)
    | ok bytes => simp [advance, hr] at h
  | toParse modified bytes seen =>
    cases hp : OwnedReader.tryNew G bytes with
    | none =>
      refine .inr ?_
      rintro bytes' ⟨hcontent, hparses⟩
      obtain ⟨t, hsource⟩ := hknows.tagged.source
      have hseen := hpins seen rfl
      have hle : v.version ≤ seen.version := hentry ▸ hknows.since
      have hsame := hseen.2 (le_antisymm hseen.1 hle)
      rw [hcontent, Versioned.content, hsource] at hsame
      obtain rfl := Option.some.inj hsame
      rw [fromBytes_of_tryNew hp] at hparses
      cases hparses
    | some reader => simp [advance, hp] at h
  | toGauge modified reader seen | toSwap modified reader seen | toCount => simp [advance] at h
  | done answer => exact .inl h

/-- A call of the loop that failed on the current version had no database before it. -/
structure Honest (s : Reloads (versionedFile β path) G) : Prop where
  since : ∀ call p entry answer, s.threads loopThread = .returned call p entry answer →
    entry.files.version ≤ s.files.version
  rejected : ∀ call p entry e, s.threads loopThread = .inside call p entry (.done (.error e)) ∨
    s.threads loopThread = .returned call p entry (.error e) →
    entry.files.version = s.files.version → ∀ bytes, ¬ s.files.Valid G bytes

theorem Honest.loopStep (h : Honest s) (hs : (reloads (versionedFile β path) G lossy).Reachable s)
    (hstep : LoopStep lossy s t) : Honest t := by
  have hversions := versions_reachable hs
  cases hstep with
  | lock hwait hfree =>
    constructor
    · intro call' p' entry' answer' hret
      simp at hret
    · intro call' p' entry' e hfailed
      simp at hfailed
  | @work call p entry stage hin =>
    constructor
    · intro call' p' entry' answer' hret
      simp [Reloads.worked] at hret
    · rintro call' p' entry' e (hdone | hret) hversion
      · have hcalled : (s.threads loopThread).path = some p := by rw [hin]; rfl
        obtain rfl : p = path := called_reachable hs hcalled
        simp only [Reloads.worked, Function.update_self, Thread.inside.injEq] at hdone
        obtain ⟨-, -, rfl, hdone⟩ := hdone
        have hpins := fun seen => (pinned_reachable hs).held _ _ _ _ _ seen hin
        rcases advance_rejects (hversions.knows _ _ _ _ _ hin) hpins hversion hdone with
          hbefore | hinvalid
        · obtain rfl : stage = .done (.error e) := hbefore
          exact h.rejected _ _ _ _ (.inl hin) hversion
        · exact hinvalid
      · simp [Reloads.worked] at hret
  | unlock hdone =>
    constructor
    · intro call' p' entry' answer' hret
      simp only [Reloads.left_self, Thread.returned.injEq] at hret
      obtain ⟨-, -, rfl, -⟩ := hret
      exact hversions.entered _ _ _ _ _ hdone
    · rintro call' p' entry' e (hin | hret) hversion
      · simp at hin
      · simp only [Reloads.left_self, Thread.returned.injEq] at hret
        obtain ⟨-, -, rfl, rfl⟩ := hret
        exact h.rejected _ _ _ _ (.inl hdone) hversion

/-- What the loop's thread has done does not depend on the steps of the others. -/
theorem Honest.congr (h : Honest s) (hthread : t.threads loopThread = s.threads loopThread)
    (hfiles : t.files = s.files) : Honest t := by
  constructor
  · simpa only [hthread, hfiles] using h.since
  · simpa only [hthread, hfiles] using h.rejected

/-- No file is any the more a database for being touched. -/
theorem Honest.files (h : Honest s) (hversions : Versions s) (hstep : s.files.Step v) :
    Honest { s with files := v } := by
  constructor
  · intro call p entry answer hret
    exact (h.since _ _ _ _ hret).trans hstep.version_le
  · intro call p entry e hfailed hversion bytes hvalid
    have hentry : entry.files.version ≤ s.files.version := by
      rcases hfailed with hin | hret
      · exact hversions.entered _ _ _ _ _ hin
      · exact h.since _ _ _ _ hret
    have hle : s.files.version ≤ v.version := hstep.version_le
    have hsame : s.files.version = v.version := le_antisymm hle (hversion ▸ hentry)
    refine h.rejected _ _ _ _ hfailed (hversion.trans hsame.symm) bytes ?_
    exact ⟨(hstep.pins.2 hsame).trans hvalid.1, hvalid.2⟩

/-- The loop's thread is about to look at the current version or has looked at nothing newer. -/
inductive Looking (s : Reloads (versionedFile β path) G) : Prop
  | waiting {call : Call} {p : Path} : s.threads loopThread = .waiting call p → Looking s
  | inside {call : Call} {p : Path} {entry : Entry (versionedFile β path) G}
      {stage : Stage (versionedFile β path) G} :
      s.threads loopThread = .inside call p entry stage →
      entry.files.version = s.files.version → Looking s
  | returned {call : Call} {p : Path} {entry : Entry (versionedFile β path) G} {answer : Answer} :
      s.threads loopThread = .returned call p entry answer →
      entry.files.version = s.files.version → Looking s

theorem Looking.loopStep (h : Looking s) (hstep : LoopStep lossy s t) : Looking t := by
  cases hstep with
  | lock hwait hfree => exact .inside Reloads.entered_self rfl
  | work hin =>
    cases h with
    | waiting hwait => simp [hin] at hwait
    | returned hret hversion => simp [hin] at hret
    | inside hin' hversion =>
      obtain ⟨-, -, rfl, -⟩ := Thread.inside.inj (hin.symm.trans hin')
      exact .inside Reloads.worked_self hversion
  | unlock hdone =>
    cases h with
    | waiting hwait => simp [hdone] at hwait
    | returned hret hversion => simp [hdone] at hret
    | inside hin hversion =>
      obtain ⟨-, -, rfl, -⟩ := Thread.inside.inj (hdone.symm.trans hin)
      exact .returned Reloads.left_self hversion

theorem Looking.congr (h : Looking s) (hthread : t.threads loopThread = s.threads loopThread)
    (hversion : t.files.version = s.files.version) : Looking t := by
  cases h with
  | waiting hwait => exact .waiting (hthread.trans hwait)
  | inside hin hentry => exact .inside (hthread.trans hin) (hentry.trans hversion.symm)
  | returned hret hentry => exact .returned (hthread.trans hret) (hentry.trans hversion.symm)

/-- What will make the loop look at the current version. -/
inductive Pending (fileName : OsString) (w : Watching path G) : Prop
  | start : w.phase = .start → Pending fileName w
  | owed : 0 < w.owed → Pending fileName w
  | queued {batch : EventBatch} :
      batch ∈ w.channel → changes fileName batch = true → Pending fileName w
  | looking : w.phase = .loading ∨ w.phase = .reloading → Looking w.core → Pending fileName w

/-- A database that is not served yet will be looked at. -/
structure Tracks (fileName : OsString) (lossy : Path → String) (w : Watching path G) : Prop where
  follows : Follows lossy w
  honest : Honest w.core
  pending : ∀ bytes, w.core.files.Valid G bytes → Fresh w.core ∨ Pending fileName w

/-- A call of the loop that returned while the version was current has published it. -/
theorem Tracks.answered (hw : Tracks fileName lossy w)
    (hret : w.core.threads loopThread = .returned call p entry answer)
    (hlook : Looking w.core) (hvalid : w.core.files.Valid G bytes) : Fresh w.core := by
  cases hlook with
  | waiting hwait => simp [hret] at hwait
  | inside hin hversion => simp [hret] at hin
  | returned hret' hversion =>
    obtain ⟨-, -, rfl, rfl⟩ := Thread.returned.inj (hret.symm.trans hret')
    cases answer with
    | ok b =>
      obtain ⟨seen, hlast, hle⟩ :=
        (versions_reachable hw.follows.core).returned _ _ _ _ _ hret
      exact ⟨seen, hlast, hversion ▸ hle⟩
    | error e => exact absurd hvalid (hw.honest.rejected _ _ _ _ (.inr hret) hversion bytes)

/-- What the loop's thread knows is kept by the calls, from whichever thread. -/
theorem Tracks.stepped (hw : Tracks fileName lossy w) {actor : Actor}
    (hfollows : Follows lossy { w with core := t })
    (hstep : (reloads (versionedFile β path) G lossy).step w.core actor t)
    (hactor : actor ≠ .files) (hhonest : Honest t) (hlooking : Looking w.core → Looking t) :
    Tracks fileName lossy { w with core := t } := by
  refine ⟨hfollows, hhonest, ?_⟩
  intro bytes hvalid
  have hfiles : t.files = w.core.files := files_other hstep hactor
  rcases hw.pending bytes (by simpa only [hfiles] using hvalid) with hfresh | hpending
  · exact .inl (hfresh.step (versions_reachable hw.follows.core) hstep hactor)
  · refine .inr ?_
    cases hpending with
    | start hphase => exact .start hphase
    | owed howed => exact .owed howed
    | queued hmem hbatch => exact .queued hmem hbatch
    | looking hphase hlook => exact .looking hphase (hlooking hlook)

/-- A step outside the calls. -/
theorem Tracks.still (hw : Tracks fileName lossy w) (hfollows : Follows lossy w')
    (hcore : w'.core = w.core) (hpending : ∀ bytes, w.core.files.Valid G bytes →
      Pending fileName w → Fresh w.core ∨ Pending fileName w') : Tracks fileName lossy w' := by
  refine ⟨hfollows, hcore ▸ hw.honest, ?_⟩
  intro bytes hvalid
  rw [hcore] at hvalid ⊢
  rcases hw.pending bytes hvalid with hfresh | hold
  · exact .inl hfresh
  · exact hpending bytes hvalid hold

/-- The loop's thread is given a call. -/
theorem Tracks.called (hfollows : Follows lossy w') (hcore : w'.core = w.core.calling call)
    (hphase : w'.phase = .loading ∨ w'.phase = .reloading) : Tracks fileName lossy w' := by
  have hwait : w'.core.threads loopThread = .waiting call path := by
    rw [hcore, Reloads.calling_self]
  refine ⟨hfollows, ?_, fun _ _ => .inr (.looking hphase (.waiting hwait))⟩
  constructor
  · intro call p entry answer hret
    simp [hwait] at hret
  · intro call p entry e hfailed
    simp [hwait] at hfailed

/-- The call has returned and its thread is joined. -/
theorem Tracks.joined (hw : Tracks fileName lossy w)
    (hfollows : Follows lossy { w with phase := .recv })
    (hret : w.core.threads loopThread = .returned call p entry answer)
    (hphase : w.phase ≠ .start) : Tracks fileName lossy { w with phase := .recv } := by
  refine hw.still hfollows rfl ?_
  intro bytes hvalid hpending
  cases hpending with
  | start hstart => exact absurd hstart hphase
  | owed howed => exact .inr (.owed howed)
  | queued hmem hbatch => exact .inr (.queued hmem hbatch)
  | looking hbusy hlook => exact .inl (hw.answered hret hlook hvalid)

/-- A replacement is owed a batch, and a touch makes no new version. -/
theorem Tracks.replaced (hw : Tracks fileName lossy w) (hstep : w.core.files.Step v)
    (hfollows : Follows lossy { w with
      core := { w.core with files := v }
      owed := w.owed + (v.version - w.core.files.version) }) :
    Tracks fileName lossy { w with
      core := { w.core with files := v }
      owed := w.owed + (v.version - w.core.files.version) } := by
  refine ⟨hfollows, hw.honest.files (versions_reachable hw.follows.core) hstep, ?_⟩
  intro bytes hvalid
  rcases Nat.lt_or_ge w.core.files.version v.version with hnew | hold
  · have howed : 0 < w.owed + (v.version - w.core.files.version) := by omega
    exact .inr (.owed howed)
  · have hversion := le_antisymm hstep.version_le hold
    have hcontent := hstep.pins.2 hversion
    rcases hw.pending bytes ⟨hcontent.trans hvalid.1, hvalid.2⟩ with hfresh | hpending
    · obtain ⟨seen, hlast, hle⟩ := hfresh
      exact .inl ⟨seen, hlast, hold.trans hle⟩
    · refine .inr ?_
      cases hpending with
      | start hphase => exact .start hphase
      | owed howed => exact .owed (Nat.lt_of_lt_of_le howed (Nat.le_add_right ..))
      | queued hmem hbatch => exact .queued hmem hbatch
      | looking hphase hlook => exact .looking hphase (hlook.congr rfl hversion.symm)

theorem tracks_stable : (watching path G fileName lossy).Stable (Tracks fileName lossy) := by
  intro w mover w' h hw
  have hfollows := follows_stable h hw.follows
  cases h with
  | absent hphase hfile =>
    refine hw.still hfollows rfl ?_
    rintro bytes ⟨hcontent, -⟩
    cases hcur : w.core.files.current with
    | none => simp [Versioned.content, hcur] at hcontent
    | some c => simp [isFile, metadata, hcur, FileStore.Node.isFile] at hfile
  | load hphase hfile => exact .called hfollows rfl (.inl rfl)
  | loaded hphase hret => exact hw.joined hfollows hret (by simp [hphase])
  | put batch owed hroom hle hbatch =>
    refine hw.still hfollows rfl ?_
    intro bytes hvalid hpending
    refine .inr ?_
    rcases hbatch with hbatch | rfl
    · exact .queued (List.mem_append_right _ (List.mem_singleton_self batch)) hbatch
    · cases hpending with
      | start hphase => exact .start hphase
      | owed howed => exact .owed howed
      | queued hmem hqueued => exact .queued (List.mem_append_left _ hmem) hqueued
      | looking hphase hlook => exact .looking hphase hlook
  | skip hphase hchannel hbatch =>
    refine hw.still hfollows rfl ?_
    intro bytes hvalid hpending
    refine .inr ?_
    cases hpending with
    | start hstart => exact .start hstart
    | owed howed => exact .owed howed
    | looking hbusy hlook => exact .looking hbusy hlook
    | queued hmem hqueued =>
      rw [hchannel] at hmem
      rcases List.mem_cons.mp hmem with rfl | hmem
      · simp [hbatch] at hqueued
      · exact .queued hmem hqueued
  | spawn hphase hchannel hbatch => exact .called hfollows rfl (.inr rfl)
  | join hphase hret => exact hw.joined hfollows hret (by simp [hphase])
  | reload hloop =>
    have hhonest := hw.honest.loopStep hw.follows.core hloop
    exact hw.stepped hfollows hloop.step (by simp) hhonest fun hlook => hlook.loopStep hloop
  | other hstep hfiles hthread =>
    have hsame := threads_other hstep hthread
    have hstill := files_other hstep hfiles
    exact hw.stepped hfollows hstep hfiles (hw.honest.congr hsame hstill)
      fun hlook => hlook.congr hsame (congrArg Versioned.version hstill)
  | files hstep => exact hw.replaced hstep hfollows

theorem tracks_reachable (h : (watching path G fileName lossy).Reachable w) :
    Tracks fileName lossy w := by
  apply tracks_stable.reachable _ h
  rintro w ⟨files, hfiles, rfl⟩
  refine ⟨follows_initial hfiles, ?_, fun _ _ => .inr (.start rfl)⟩
  constructor
  · intro call p entry answer hret
    cases hret
  · rintro call p entry e (hin | hret) hversion
    · cases hin
    · cases hret

/-- Nothing is left to deliver or to receive, the loop waits and no call is under way. -/
structure Watching.Quiet (w : Watching path G) : Prop where
  channel : w.channel = []
  owed : w.owed = 0
  waits : w.phase = .recv
  calls : ∀ tid, (w.core.threads tid).Ready

/-- The loop's thread may take `n` steps in a row. -/
theorem loop_iterate (fileName : OsString) (lossy : Path → String) (n : Nat)
    {stage : Stage (versionedFile β path) G}
    (h : w.core.threads loopThread = .inside call p entry stage) :
    (watching path G fileName lossy).Run w (List.replicate n .reload)
      { w with
        core := w.core.worked loopThread call p entry
          ((advance lossy {} call p w.core.files)^[n]
            ⟨stage, w.core.served, w.core.published⟩) } := by
  induction n with
  | zero =>
    have hsame : w.core.worked loopThread call p entry
        ⟨stage, w.core.served, w.core.published⟩ = w.core := by
      simp [Reloads.worked, ← h]
    rw [Function.iterate_zero_apply, hsame]
    exact .refl
  | succ n ih =>
    rw [Function.iterate_succ_apply', List.replicate_succ']
    generalize (advance lossy {} call p w.core.files)^[n]
      ⟨stage, w.core.served, w.core.published⟩ = work at ih ⊢
    have hin : (w.core.worked loopThread call p entry work).threads loopThread =
        .inside call p entry work.stage := Reloads.worked_self
    have hstep : LoopStep lossy (w.core.worked loopThread call p entry work) _ := .work hin
    rw [show (w.core.worked loopThread call p entry work).worked loopThread call p entry _ =
      w.core.worked loopThread call p entry (advance lossy {} call p w.core.files work) by
        simp [Reloads.worked]] at hstep
    exact ih.tail (.reload hstep)

/-- Alone, the loop answers a batch that names the file by one `reload_if_changed`. -/
theorem watch_alone (lossy : Path → String) {batch : EventBatch} {rest : List EventBatch}
    (hphase : w.phase = .recv) (hchannel : w.channel = batch :: rest)
    (hbatch : changes fileName batch = true) (hfree : w.core.loadLock = none) :
    ∃ movers w', (watching path G fileName lossy).Run w movers w' ∧
      (∀ mover ∈ movers, ∀ actor, mover ≠ .other actor) ∧ w'.phase = .recv ∧ w'.channel = rest ∧
      w'.owed = w.owed ∧ w'.core.files = w.core.files ∧ w'.core.loadLock = none ∧
      (∀ tid, (w.core.threads tid).Ready → (w'.core.threads tid).Ready) ∧
      w'.core.served = (Mmdb.reloadIfChanged lossy {} path
        ((versionedFile β path).view w.core.files) w.core.served).2 := by
  let reload := Mmdb.reloadIfChanged lossy {} path
    ((versionedFile β path).view w.core.files) w.core.served
  let locked := (w.core.calling .reloadIfChanged).entered .reloadIfChanged path
  obtain ⟨published, hw⟩ :=
    advance_reloadIfChanged lossy {} path locked.files locked.served locked.published
  let done := locked.worked loopThread .reloadIfChanged path ⟨w.core.files, w.core.served⟩
    ⟨.done reload.1, reload.2, published⟩
  have hspawn : WatchStep fileName lossy w .watchLoop _ := .spawn hphase hchannel hbatch
  have hlock : LoopStep lossy (w.core.calling .reloadIfChanged) locked :=
    .lock Reloads.calling_self hfree
  have hin : ({ w with core := locked, channel := rest, phase := .reloading } :
    Watching path G).core.threads loopThread = _ := Reloads.entered_self
  have hwork := loop_iterate fileName lossy 7 hin
  dsimp only at hwork
  rw [hw] at hwork
  have hunlock : LoopStep lossy done _ := .unlock Reloads.worked_self
  have hrun := (hwork.tail (.reload hunlock)).tail (.join rfl Reloads.left_self)
  refine ⟨_, _, .head hspawn (.head (.reload hlock) hrun),
    by simp, rfl, rfl, rfl, rfl, rfl, ?_, rfl⟩
  intro tid hready
  by_cases htid : tid = loopThread
  · subst htid
    rw [Reloads.left_self]
    trivial
  · simpa [done, locked, Reloads.left, Reloads.worked, Reloads.entered, Reloads.calling, htid]
      using hready

/-- Alone, a replacement and the batch that names it lead from rest to rest. -/
theorem replace_alone (lossy : Path → String) {batch : EventBatch}
    (hbatch : changes fileName batch = true) (bytes : β) (t : SystemTime) (hquiet : w.Quiet)
    (hfree : w.core.loadLock = none) (ht : t ∉ w.core.files.used) :
    ∃ movers w', (watching path G fileName lossy).Run w movers w' ∧ w'.Quiet ∧
      w'.core.loadLock = none ∧
      w'.core.files = ⟨w.core.files.version + 1, some (bytes, t), insert t w.core.files.used⟩ ∧
      w'.core.served = (Mmdb.reloadIfChanged lossy {} path
        ((versionedFile β path).view w'.core.files) w.core.served).2 := by
  let files : Versioned β :=
    ⟨w.core.files.version + 1, some (bytes, t), insert t w.core.files.used⟩
  let replaced : Watching path G := { w with
    core := { w.core with files }
    owed := w.owed + (files.version - w.core.files.version) }
  let queued : Watching path G :=
    { replaced with channel := replaced.channel ++ [batch], owed := 0 }
  have hreplace : WatchStep fileName lossy w (.other .files) replaced :=
    .files (.replace bytes t ht)
  have hput : WatchStep fileName lossy replaced .debouncer queued :=
    .put batch 0 (by simp [replaced, hquiet.channel, CAPACITY]) (Nat.zero_le _) (.inl hbatch)
  have hchannel : queued.channel = [batch] := by simp [queued, replaced, hquiet.channel]
  obtain ⟨movers, w', hrun, -, hphase, hempty, howed, hfiles, hlock, hready, hserved⟩ :=
    watch_alone lossy (w := queued) hquiet.waits hchannel hbatch hfree
  exact ⟨_, w', .head hreplace (.head hput hrun),
    ⟨hempty, howed, hphase, fun tid => hready tid (hquiet.calls tid)⟩, hlock, hfiles,
    by rw [hserved, hfiles]⟩

/-- A database in the file is what lookups are answered from, and whatever is in the file they are
answered from the last snapshot published. -/
structure Converged (w : Watching path G) : Prop where
  current : ∀ bytes, w.core.files.Valid G bytes → w.core.served.content = some bytes
  last : w.core.served.content = w.core.lastPublished

/-- The watcher converges, in whatever order replacements, batches and reloads come. Assumed, in
`LoopStep`: a `stat` or `read` of the loop's own calls fails only where there is no file. Those of
other threads may fail at any time. -/
theorem converged_reachable (h : (watching path G fileName lossy).Reachable w) (hquiet : w.Quiet) :
    Converged w := by
  have hw := tracks_reachable h
  refine ⟨?_, served_eq_lastPublished hw.follows.core⟩
  intro bytes hvalid
  have hfresh : Fresh w.core := by
    rcases hw.pending bytes hvalid with hfresh | hpending
    · exact hfresh
    · exfalso
      cases hpending with
      | start hphase => simp [hquiet.waits] at hphase
      | owed howed => simp [hquiet.owed] at howed
      | queued hmem hbatch => simp [hquiet.channel] at hmem
      | looking hbusy hlook => simp [hquiet.waits] at hbusy
  exact (hfresh.served_eq hw.follows.core).trans hvalid.1

/-- After a database and, over it, a file that is none. -/
theorem converged_reachable_corrupt :
    ∃ w : Watching [.rootDir, .normal (osString "firehol.mmdb")] Reference.geoip2,
      w.core.files.content = some .empty ∧ w.core.served.content = some (.database fun _ => none) ∧
      Converged w := by
  let name := osString "firehol.mmdb"
  let start : Watching [.rootDir, .normal name] Reference.geoip2 := { core := .start ⟨0, none, ∅⟩ }
  let batch : EventBatch := .ok [[.rootDir, .normal name]]
  have hbatch : changes name batch = true := by decide
  have hstart : (watching [.rootDir, .normal name] Reference.geoip2 name fun _ => "").Reachable
      { start with phase := .recv } :=
    .step (.initial ⟨_, ⟨rfl, by simp [Versioned.Stamped]⟩, rfl⟩) (.absent rfl rfl)
  obtain ⟨_, w, hrun, hquiet, hfree, hfiles, hserved⟩ :=
    replace_alone (fun _ => "") hbatch (.database fun _ => none) 1
      (w := { start with phase := .recv }) ⟨rfl, rfl, rfl, fun _ => trivial⟩ rfl
      (by simp [start, Reloads.start])
  obtain ⟨_, w', hrun', hquiet', -, hfiles', hserved'⟩ :=
    replace_alone (fun _ => "") hbatch .empty 2 hquiet hfree
      (by simp [hfiles, start, Reloads.start])
  refine ⟨w', ?_, ?_, converged_reachable ((hstart.run hrun).run hrun') hquiet'⟩
  · rw [hfiles']
    rfl
  · rw [hserved', hserved, hfiles', hfiles]
    rfl

end IpReputation
