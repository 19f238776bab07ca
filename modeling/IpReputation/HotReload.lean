import IpReputation.Convergence
import IpReputation.ReloadMetrics

/-! `Toucher` and `Counters`: while the file is only touched the answers stay, and every touch is
loaded at most once. -/
namespace IpReputation

open Transition

variable {β : Type} {G : Geoip2 β} {path p : Path} {fileName : OsString} {lossy : Path → String}
  {w w' : Watching path G} {s t : Reloads (versionedFile β path) G} {v v' : Versioned β}
  {work : Work (versionedFile β path) G} {bytes : β} {actor : Actor} {mover : Mover}
  {faults : LoadFaults} {served : Served G} {tid : Nat} {call : Call}
  {entry : Entry (versionedFile β path) G} {stage : Stage (versionedFile β path) G}

/-- The counters that the benchmark reads from the registry. -/
structure Counters where
  allowed : Nat
  blocked : Nat
  loads : Nat
  deriving DecidableEq

namespace Counters

def snapshot (m : Metrics) : Counters :=
  ⟨m.ipAllowedRequests, m.ipBlockedRequests.total, m.mmdbFileLoaded.total⟩

/-- The counters only grow, so that no difference is negative. -/
def since (now before : Counters) : Counters :=
  ⟨now.allowed - before.allowed, now.blocked - before.blocked, now.loads - before.loads⟩

end Counters

/-- The modification time of the file that is served. -/
def Served.time (served : Served G) : Option SystemTime := served.snapshot.bind Snapshot.modified

def Versioned.time (v : Versioned β) : Option SystemTime := v.current.map Prod.snd

/-- One load is due for a time that is not the file's. -/
def late (modified : Option SystemTime) (v : Versioned β) : Nat :=
  if modified = v.time then 0 else 1

/-- Publications so far, and those still due without another touch. -/
def Work.due (v : Versioned β) (work : Work (versionedFile β path) G) : Nat :=
  work.published.length +
    match work.stage with
    | .compare m =>
      if work.served.time = some m then late work.served.time v else 1 + late (some m) v
    | .toRead modified | .toParse modified _ _ | .toGauge modified _ _ | .toSwap modified _ _ =>
      1 + late modified v
    | .locked | .toCount | .done _ => late work.served.time v

theorem late_le_one (modified : Option SystemTime) (v : Versioned β) : late modified v ≤ 1 := by
  unfold late
  split <;> omega

theorem unchanged_iff {m : SystemTime} :
    Mmdb.unchanged served.snapshot m = true ↔ served.time = some m := by
  cases hsnap : served.snapshot with
  | none => simp [Mmdb.unchanged, Served.time, hsnap]
  | some snapshot => simp [Mmdb.unchanged, Served.time, hsnap]

/-- `stat` finds the file's own time. -/
theorem late_modifiedTime {m : SystemTime}
    (h : modifiedTime faults p ((versionedFile β path).view v) = .ok m) :
    late (some m) v = 0 := by
  obtain ⟨bytes, hcur⟩ := modifiedTime_versioned h
  simp [late, Versioned.time, hcur]

/-- A reload publishes nothing that was not due. -/
theorem due_advance (v : Versioned β) (work : Work (versionedFile β path) G) :
    Work.due v (advance lossy faults .reloadIfChanged p v work) ≤ Work.due v work := by
  obtain ⟨stage, served, published⟩ := work
  cases stage with
  | locked =>
    cases hstat : modifiedTime faults p ((versionedFile β path).view v) with
    | error e => simp only [advance, afterStat, hstat, Work.due, le_refl]
    | ok m =>
      simp only [advance, afterStat, hstat, Work.due, late_modifiedTime hstat]
      split
      · exact le_rfl
      · rename_i hne
        have htime : v.time = some m := by
          obtain ⟨bytes, hcur⟩ := modifiedTime_versioned hstat
          simp [Versioned.time, hcur]
        have hlate : late served.time v = 1 := by
          rw [late, htime, if_neg hne]
        omega
  | compare m =>
    by_cases hu : Mmdb.unchanged served.snapshot m = true
    · simp only [advance, hu, if_true, Work.due, unchanged_iff.mp hu, le_refl]
    · have hne : served.time ≠ some m := fun h => hu (unchanged_iff.mpr h)
      simp only [advance, if_neg hu, Work.due, if_neg hne, le_refl]
  | toRead modified =>
    have hserved := late_le_one served.time v
    cases hr : tryRead faults p ((versionedFile β path).view v) with
    | error e =>
      simp only [advance, hr, Work.due]
      omega
    | ok bytes => simp only [advance, hr, Work.due, le_refl]
  | toParse modified bytes seen =>
    have hserved := late_le_one served.time v
    cases hp : OwnedReader.tryNew G bytes with
    | none =>
      simp only [advance, hp, Work.due]
      omega
    | some reader => simp only [advance, hp, Work.due, le_refl]
  | toGauge modified reader seen => exact le_rfl
  | toSwap modified reader seen =>
    simp only [advance, Work.due, Served.time, Option.bind_some, List.length_append,
      List.length_singleton]
    omega
  | toCount => exact le_rfl
  | done answer => exact le_rfl

/-- Whatever happens to the file, it makes at most one more load due. -/
theorem due_files (v v' : Versioned β) (work : Work (versionedFile β path) G) :
    Work.due v' work ≤ Work.due v work + 1 := by
  obtain ⟨stage, served, published⟩ := work
  have hlate : ∀ modified, late modified v' ≤ 1 := fun modified => late_le_one modified v'
  cases stage with
  | compare m =>
    have htime := hlate served.time
    have hm := hlate (some m)
    simp only [Work.due]
    split <;> omega
  | toRead modified | toParse modified bytes seen | toGauge modified reader seen
  | toSwap modified reader seen =>
    have hm := hlate modified
    simp only [Work.due]
    omega
  | locked | toCount | done answer =>
    have htime := hlate served.time
    simp only [Work.due]
    omega

/-- The stage of a call; `locked` stands for any thread that has not begun one. -/
def Thread.progress (thread : Thread (versionedFile β path) G) : Stage (versionedFile β path) G :=
  match thread with
  | .inside _ _ _ stage => stage
  | .idle | .waiting .. | .returned .. => .locked

namespace Reloads

/-- The stage of the call that holds the lock. -/
def held (s : Reloads (versionedFile β path) G) : Stage (versionedFile β path) G :=
  match s.loadLock with
  | none => .locked
  | some tid => (s.threads tid).progress

def due (s : Reloads (versionedFile β path) G) : Nat :=
  Work.due s.files ⟨s.held, s.served, s.published⟩

end Reloads

/-- The call, if the thread has one under way, is no `load`. -/
def Thread.OnlyReloads (thread : Thread (versionedFile β path) G) : Prop :=
  match thread with
  | .waiting call _ | .inside call _ _ _ => call = .reloadIfChanged
  | .idle | .returned .. => True

def OnlyReloads (s : Reloads (versionedFile β path) G) : Prop :=
  ∀ tid, (s.threads tid).OnlyReloads

/-- Steps of the machine in the benchmark: the file is touched, never replaced, and no call but
`reload_if_changed` is made. -/
structure HotStep (lossy : Path → String) (s : Reloads (versionedFile β path) G) (actor : Actor)
    (t : Reloads (versionedFile β path) G) : Prop where
  step : (reloads (versionedFile β path) G lossy).step s actor t
  touch : t.files.version = s.files.version
  calls : OnlyReloads s → OnlyReloads t

theorem held_of_inside (hs : Exclusive s) (h : s.threads tid = .inside call p entry stage) :
    s.held = stage := by
  simp only [Reloads.held, hs _ _ _ _ _ h, h, Thread.progress]

theorem Thread.Ready.progress {thread : Thread (versionedFile β path) G} (h : thread.Ready) :
    thread.progress = .locked := by
  cases thread with
  | idle | returned call p entry answer => rfl
  | waiting call p | inside call p entry stage => exact absurd h (by simp [Thread.Ready])

/-- One step pays for what it makes due. -/
theorem due_step (hs : Exclusive s) (honly : OnlyReloads s) (h : HotStep lossy s actor t) :
    t.due ≤ s.due + if actor = .files then 1 else 0 := by
  have hstep := h.step
  cases hstep with
  | @call tid call p hready hpath =>
    have hheld : Reloads.held { s with
        threads := Function.update s.threads tid (.waiting call p) } = s.held := by
      simp only [Reloads.held]
      split
      · rfl
      · rename_i holder _
        by_cases heq : holder = tid
        · subst heq
          rw [Function.update_self, hready.progress, Thread.progress]
        · rw [Function.update_of_ne heq]
    simp only [Reloads.due, hheld]
    exact Nat.le_add_right _ _
  | @lock tid call p hwait hfree =>
    have hbefore : s.held = .locked := by simp only [Reloads.held, hfree]
    have hheld : Reloads.held { s with
        loadLock := some tid
        threads := Function.update s.threads tid
          (.inside call p ⟨s.files, s.served⟩ .locked) } = .locked := by
      simp only [Reloads.held, Function.update_self, Thread.progress]
    simp only [Reloads.due, hheld, hbefore]
    exact Nat.le_add_right _ _
  | @work tid call p entry stage faults hin =>
    have hcall := honly tid
    rw [hin] at hcall
    obtain rfl : call = .reloadIfChanged := hcall
    have hbefore := held_of_inside hs hin
    have hheld := held_of_inside (exclusive_stable h.step hs)
      (Reloads.worked_self (w := advance lossy faults .reloadIfChanged p s.files
        ⟨stage, s.served, s.published⟩))
    have hdue : Work.due s.files (advance lossy faults .reloadIfChanged p s.files
        ⟨stage, s.served, s.published⟩) ≤ Work.due s.files ⟨stage, s.served, s.published⟩ :=
      due_advance s.files _
    simp only [Reloads.due, hheld, hbefore]
    exact hdue.trans (Nat.le_add_right _ _)
  | @unlock tid call p entry answer hdone =>
    have hbefore := held_of_inside hs hdone
    rw [Reloads.due, Reloads.due, hbefore]
    exact Nat.le_add_right _ _
  | @lookup filter ip => exact Nat.le_add_right _ _
  | @files files hfiles => exact due_files s.files files ⟨s.held, s.served, s.published⟩

/-- Bytes that a call has read are those of the database. -/
def Stage.Has (bytes : β) : Stage (versionedFile β path) G → Prop
  | .toParse _ read _ => read = bytes
  | .toGauge _ reader _ | .toSwap _ reader _ => reader.owner = bytes
  | .locked | .compare _ | .toRead _ | .toCount | .done _ => True

/-- What is served, in the file and in the hands of the call under way is one database. -/
structure SameBytes (bytes : β) (s : Reloads (versionedFile β path) G) : Prop where
  exclusive : Exclusive s
  file : ∃ m, s.files.current = some (bytes, m)
  served : ∃ snapshot, s.served.snapshot = some snapshot ∧ snapshot.reader.owner = bytes
  held : ∀ tid call p entry stage, s.threads tid = .inside call p entry stage → stage.Has bytes

theorem has_advance {m : SystemTime} (hcur : v.current = some (bytes, m))
    (hstage : work.stage.Has bytes)
    (hserved : ∃ snapshot, work.served.snapshot = some snapshot ∧ snapshot.reader.owner = bytes) :
    (advance lossy faults call p v work).stage.Has bytes ∧
      ∃ snapshot, (advance lossy faults call p v work).served.snapshot = some snapshot ∧
        snapshot.reader.owner = bytes := by
  obtain ⟨stage, served, published⟩ := work
  cases stage with
  | locked =>
    cases call <;> cases hstat : modifiedTime faults p ((versionedFile β path).view v) <;>
      simp only [advance, afterStat, hstat] <;> exact ⟨trivial, hserved⟩
  | compare m =>
    by_cases hu : Mmdb.unchanged served.snapshot m = true
    · simp only [advance, hu, if_true]
      exact ⟨trivial, hserved⟩
    · simp only [advance, if_neg hu]
      exact ⟨trivial, hserved⟩
  | toRead modified =>
    cases hr : tryRead faults p ((versionedFile β path).view v) with
    | error e =>
      simp only [advance, hr]
      exact ⟨trivial, hserved⟩
    | ok read =>
      simp only [advance, hr]
      obtain ⟨m', hcur'⟩ := tryRead_versioned hr
      rw [hcur] at hcur'
      obtain ⟨rfl, -⟩ := Prod.mk.inj (Option.some.inj hcur')
      exact ⟨rfl, hserved⟩
  | toParse modified read seen =>
    cases hp : OwnedReader.tryNew G read with
    | none =>
      simp only [advance, hp]
      exact ⟨trivial, hserved⟩
    | some reader =>
      simp only [advance, hp]
      exact ⟨(Mmdb.tryNew_owner hp).trans hstage, hserved⟩
  | toGauge modified reader seen => exact ⟨hstage, hserved⟩
  | toSwap modified reader seen => exact ⟨trivial, _, rfl, hstage⟩
  | toCount | done answer => exact ⟨trivial, hserved⟩

theorem SameBytes.step (h : SameBytes bytes s) (hstep : HotStep lossy s actor t) :
    SameBytes bytes t := by
  have hmachine := hstep.step
  have htouch := hstep.touch
  have hexclusive := exclusive_stable hmachine h.exclusive
  cases hmachine with
  | call hready hpath =>
    refine ⟨hexclusive, h.file, h.served, ?_⟩
    intro tid' call' p' entry' stage' hin
    exact h.held _ _ _ _ _ (inside_of_update (by simp) hin).1
  | lock hwait hfree =>
    refine ⟨hexclusive, h.file, h.served, ?_⟩
    intro tid' call' p' entry' stage' hin
    rcases inside_of_lock hin with ⟨-, -, rfl⟩ | hbefore
    · trivial
    · exact h.held _ _ _ _ _ hbefore
  | @work tid call p entry stage faults hbefore =>
    obtain ⟨m, hcur⟩ := h.file
    have hstage := h.held _ _ _ _ _ hbefore
    refine ⟨hexclusive, ⟨m, hcur⟩, (has_advance hcur hstage h.served).2, ?_⟩
    intro tid' call' p' entry' stage' hin
    obtain ⟨-, -, rfl⟩ := h.exclusive.inside_of_worked hbefore hin
    exact (has_advance hcur hstage h.served).1
  | unlock hdone =>
    refine ⟨hexclusive, h.file, h.served, ?_⟩
    intro tid' call' p' entry' stage' hin
    exact h.held _ _ _ _ _ (inside_of_update (by simp) hin).1
  | lookup => exact ⟨hexclusive, h.file, h.served, h.held⟩
  | files hfiles =>
    refine ⟨hexclusive, ?_, h.served, h.held⟩
    cases hfiles with
    | replace bytes' m hfresh => exact absurd htouch (Nat.succ_ne_self _)
    | touch bytes' m₀ m hcur hfresh =>
      obtain ⟨m', hcur'⟩ := h.file
      rw [hcur] at hcur'
      obtain ⟨rfl, -⟩ := Prod.mk.inj (Option.some.inj hcur')
      exact ⟨m, rfl⟩

/-- The loads counted are publications. -/
def Counted (s : Reloads (versionedFile β path) G) : Prop :=
  s.served.metrics.mmdbFileLoaded.total ≤ s.published.length

theorem Midway.counted (h : Midway entry work) :
    work.served.metrics.mmdbFileLoaded.total ≤ work.published.length := by
  obtain ⟨stage, served, published⟩ := work
  cases stage with
  | toSwap modified reader seen => exact h.2.le
  | toCount =>
    have hcount := h.2
    dsimp only at hcount ⊢
    omega
  | done answer => exact (Midway.done h).fileLoaded.le
  | locked | compare m | toRead modified | toParse modified read seen
  | toGauge modified reader seen => exact h.1.fileLoaded.le

theorem counted_stable : (reloads (versionedFile β path) G lossy).Stable fun s =>
    Accounts s ∧ Counted s := by
  intro s actor t h hs
  obtain ⟨haccounts, hcounted⟩ := hs
  refine ⟨accounts_stable h haccounts, ?_⟩
  cases h with
  | work faults hin => exact (midway_advance (haccounts.held _ _ _ _ _ hin)).counted
  | @lookup filter ip =>
    have hloaded : Served.loaded { s.served with
        metrics := (filter.shouldDrop s.served.snapshot ip s.served.metrics).2 } =
          s.served.loaded := shouldDrop_loaded filter ip
    simp only [Served.loaded, Prod.mk.injEq] at hloaded
    simp only [Counted, hloaded.2.2]
    exact hcounted
  | call hready hpath | lock hwait hfree | unlock hdone | files hfiles => exact hcounted

theorem counted_reachable (h : (reloads (versionedFile β path) G lossy).Reachable s) :
    Counted s := by
  refine (counted_stable.reachable ?_ h).2
  rintro s ⟨files, hfiles, rfl⟩
  have hstart : (reloads (versionedFile β path) G lossy).Reachable (.start files) :=
    .initial ⟨files, hfiles, rfl⟩
  exact ⟨accounts_reachable hstart, Nat.le_refl _⟩

/-- Since `s` the snapshot is the same one or another one has been published. -/
def Republished (s t : Reloads (versionedFile β path) G) : Prop :=
  t.published = s.published ∧ t.served.snapshot = s.served.snapshot ∨
    s.published.length < t.published.length

theorem republished_advance (v : Versioned β) (work : Work (versionedFile β path) G) :
    (advance lossy faults call p v work).published = work.published ∧
        (advance lossy faults call p v work).served.snapshot = work.served.snapshot ∨
      work.published.length < (advance lossy faults call p v work).published.length := by
  obtain ⟨stage, served, published⟩ := work
  cases stage with
  | compare m => by_cases hu : Mmdb.unchanged served.snapshot m = true <;> simp [advance, hu]
  | toRead modified =>
    cases hr : tryRead faults p ((versionedFile β path).view v) <;> simp [advance, hr]
  | toParse modified read seen => cases hp : OwnedReader.tryNew G read <;> simp [advance, hp]
  | toSwap modified reader seen =>
    right
    simp only [advance, List.length_append, List.length_singleton]
    omega
  | locked | toGauge modified reader seen | toCount | done answer => exact .inl ⟨rfl, rfl⟩

theorem Republished.trans {u : Reloads (versionedFile β path) G} (h : Republished s t)
    (k : Republished t u) : Republished s u := by
  obtain ⟨hpub, hsnap⟩ | hmore := h
  · rwa [Republished, hpub, hsnap] at k
  · right
    obtain ⟨hpub, -⟩ | hmore' := k
    · rwa [hpub]
    · omega

theorem republished_step (h : (reloads (versionedFile β path) G lossy).step s actor t) :
    Republished s t := by
  cases h with
  | work faults hin => exact republished_advance ..
  | call hready hpath | lock hwait hfree | unlock hdone | lookup | files hfiles =>
    exact .inl ⟨rfl, rfl⟩

/-- A file touched since then bears a time that nothing bore. -/
structure Since (v v' : Versioned β) : Prop where
  used : v.used ⊆ v'.used
  time : v'.time = v.time ∨ ∀ m, v'.time = some m → m ∉ v.used

theorem Since.step {v₀ : Versioned β} (h : Since v₀ v) (hstep : v.Step v') : Since v₀ v' := by
  refine ⟨h.used.trans hstep.used_subset, .inr ?_⟩
  intro m hm hmem
  obtain ⟨⟨bytes, m'⟩, hcur, rfl⟩ := Option.map_eq_some_iff.mp hm
  exact hstep.stamp_fresh hcur (h.used hmem)

theorem Since.machine {v₀ : Versioned β} (h : Since v₀ s.files)
    (hstep : (reloads (versionedFile β path) G lossy).step s actor t) : Since v₀ t.files := by
  cases hstep with
  | files hfiles => exact h.step hfiles
  | call hready hpath | lock hwait hfree | work faults hin | unlock hdone | lookup => exact h

/-- In the benchmark nothing but the watcher reloads, and the file is only touched. -/
structure Hot (w : Watching path G) (mover : Mover) (w' : Watching path G) : Prop where
  mover : ∀ tid, mover ≠ .other (.thread tid)
  touch : w'.core.files.version = w.core.files.version

/-- `Toucher`, the watcher with its reloads, and the lookups, in any order. -/
def hotReload (path : Path) (G : Geoip2 β) (fileName : OsString) (lossy : Path → String) :
    System (Watching path G) Mover := (watching path G fileName lossy).restrict Hot

def Mover.touches : Mover → Nat
  | .other .files => 1
  | _ => 0

theorem onlyReloads_update {threads : Nat → Thread (versionedFile β path) G}
    {new : Thread (versionedFile β path) G} (h : ∀ tid, (threads tid).OnlyReloads)
    (hnew : new.OnlyReloads) (tid' : Nat) : (Function.update threads tid new tid').OnlyReloads := by
  by_cases heq : tid' = tid
  · subst heq
    rwa [Function.update_self]
  · rw [Function.update_of_ne heq]
    exact h tid'

theorem LoopStep.onlyReloads (h : LoopStep lossy s t) (honly : OnlyReloads s) : OnlyReloads t := by
  have hloop := honly loopThread
  cases h with
  | lock hwait hfree =>
    rw [hwait] at hloop
    exact onlyReloads_update honly hloop
  | work hin =>
    rw [hin] at hloop
    exact onlyReloads_update honly hloop
  | unlock hdone => exact onlyReloads_update honly trivial

/-- Once the loop waits, a step of the benchmark is one of the machine, or none. -/
theorem hotStep_of_watch (hw : Follows lossy w) (hphase : w.phase = .recv ∨ w.phase = .reloading)
    (h : (hotReload path G fileName lossy).step w mover w') :
    (w'.phase = .recv ∨ w'.phase = .reloading) ∧ (w'.core = w.core ∨
      ∃ actor, HotStep lossy w.core actor w'.core ∧
        (if actor = .files then 1 else 0) ≤ mover.touches) := by
  obtain ⟨hstep, hhot⟩ := h
  have htouch := hhot.touch
  cases hstep with
  | absent hstart hfile => simp [hstart] at hphase
  | load hstart hfile => simp [hstart] at hphase
  | loaded hloading hret => simp [hloading] at hphase
  | put batch owed hroom hle hbatch => exact ⟨hphase, .inl rfl⟩
  | skip hrecv hchannel hbatch => exact ⟨hphase, .inl rfl⟩
  | join hreloading hret => exact ⟨.inl rfl, .inl rfl⟩
  | spawn hrecv hchannel hbatch =>
    have hready := hw.resting (.inr hrecv)
    refine ⟨.inr rfl, .inr ⟨.thread loopThread, ⟨.call hready rfl, rfl, ?_⟩, by simp⟩⟩
    intro honly
    exact onlyReloads_update honly rfl
  | reload hloop =>
    exact ⟨hphase, .inr ⟨.thread loopThread, ⟨hloop.step, htouch, hloop.onlyReloads⟩, by simp⟩⟩
  | @other core actor hstep hfiles hthread =>
    refine ⟨hphase, .inr ⟨actor, ⟨hstep, htouch, ?_⟩, by simp [hfiles]⟩⟩
    intro honly
    cases actor with
    | thread tid => exact absurd rfl (hhot.mover tid)
    | files => exact absurd rfl hfiles
    | lookup =>
      cases hstep with
      | lookup => exact honly
  | files hfiles =>
    exact ⟨hphase, .inr ⟨.files, ⟨.files hfiles, htouch, fun honly => honly⟩,
      by simp [Mover.touches]⟩⟩

/-- What holds while the benchmark runs, from the state `s` of the machine on. -/
structure Heated (lossy : Path → String) (bytes : β) (s : Reloads (versionedFile β path) G)
    (w : Watching path G) : Prop where
  follows : Follows lossy w
  phase : w.phase = .recv ∨ w.phase = .reloading
  same : SameBytes bytes w.core
  only : OnlyReloads w.core
  republished : Republished s w.core
  since : Since s.files w.core.files

theorem heated_stable : (hotReload path G fileName lossy).Stable (Heated lossy bytes s) := by
  intro w mover w' h hw
  have hfollows := follows_stable h.1 hw.follows
  obtain ⟨hphase, hcore | ⟨actor, hstep, -⟩⟩ := hotStep_of_watch hw.follows hw.phase h
  · exact ⟨hfollows, hphase, hcore ▸ hw.same, hcore ▸ hw.only, hcore ▸ hw.republished,
      hcore ▸ hw.since⟩
  · refine ⟨hfollows, hphase, hw.same.step hstep, hstep.calls hw.only,
      hw.republished.trans (republished_step hstep.step), hw.since.machine hstep.step⟩

/-- Each touch makes at most one load due. -/
theorem due_watch (h : (hotReload path G fileName lossy).step w mover w')
    (hw : Heated lossy bytes s w) : w'.core.due ≤ w.core.due + mover.touches := by
  obtain ⟨-, hcore | ⟨actor, hstep, htouches⟩⟩ := hotStep_of_watch hw.follows hw.phase h
  · rw [hcore]
    exact Nat.le_add_right _ _
  · have hdue := due_step hw.same.exclusive hw.only hstep
    omega

/-- One database gives one verdict. -/
theorem shouldDrop_owner {a b : Snapshot G} (h : a.reader.owner = b.reader.owner)
    (filter : IpFilter) (ip : IpAddr) (m : Metrics) :
    filter.shouldDrop (some a) ip m = filter.shouldDrop (some b) ip m := by
  have hdependent : a.reader.dependent = b.reader.dependent := by
    have ha := a.reader.built
    rw [h, b.reader.built] at ha
    exact (Option.some.inj ha).symm
  simp only [IpFilter.shouldDrop, Mmdb.lookup, hdependent]

/-- The benchmark's reloads from `s` to `t`, with so many touches in between. -/
structure HotReloaded (s t : Reloads (versionedFile β path) G) (touches : Nat) : Prop where
  verdict : ∀ (filter : IpFilter) ip m,
    filter.shouldDrop t.served.snapshot ip m = filter.shouldDrop s.served.snapshot ip m
  loads : ((Counters.snapshot t.served.metrics).since (.snapshot s.served.metrics)).loads ≤
    touches + late s.served.time s.files
  reloaded : t.loadLock = none → t.served.time = t.files.time → t.files.time ≠ s.files.time →
    0 < ((Counters.snapshot t.served.metrics).since (.snapshot s.served.metrics)).loads

/-- Hot reload under touches: whatever the schedule, no answer changes, the watcher loads at most
once a touch, and if it has caught up with the file after a touch it has loaded. -/
theorem hotReload_harmless {snapshot : Snapshot G} {m : SystemTime} {moves : List Mover}
    (h : (watching path G fileName lossy).Reachable w) (hphase : w.phase = .recv)
    (hfree : w.core.loadLock = none) (honly : OnlyReloads w.core)
    (hserved : w.core.served.snapshot = some snapshot)
    (hfile : w.core.files.current = some (snapshot.reader.owner, m))
    (hrun : (hotReload path G fileName lossy).Run w moves w') :
    HotReloaded w.core w'.core (moves.map Mover.touches).sum := by
  have hfollows : Follows lossy w := by
    apply follows_stable.reachable _ h
    rintro w ⟨files, hfiles, rfl⟩
    exact follows_initial hfiles
  have hexclusive := exclusive_reachable hfollows.core
  have hidle : SameBytes snapshot.reader.owner w.core := by
    refine ⟨hexclusive, ⟨m, hfile⟩, ⟨snapshot, hserved, rfl⟩, ?_⟩
    intro tid call p entry stage hin
    have hlock := hexclusive _ _ _ _ _ hin
    rw [hfree] at hlock
    cases hlock
  have hstart : Heated lossy snapshot.reader.owner w.core w :=
    ⟨hfollows, .inl hphase, hidle, honly, .inl ⟨rfl, rfl⟩, ⟨Set.Subset.rfl, .inl rfl⟩⟩
  have hend := heated_stable.run hrun hstart
  have hbefore := (accounts_reachable hfollows.core).free hfree
  constructor
  · intro filter ip m
    obtain ⟨last, hlast, howner⟩ := hend.same.served
    rw [hlast, hserved]
    exact shouldDrop_owner howner filter ip m
  · have hdue := hrun.charge heated_stable (f := fun w => w.core.due)
      (fun _ _ _ hstep hw => due_watch hstep hw) hstart
    have hheld : w.core.held = .locked := by simp only [Reloads.held, hfree]
    have hcounted := counted_reachable hend.follows.core
    have hfirst := hbefore.fileLoaded
    simp only [Reloads.due, hheld, Work.due] at hdue
    simp only [Counted] at hcounted
    simp only [Counters.since, Counters.snapshot]
    omega
  · intro hfree' hcaught htouched
    have hafter := ((accounts_reachable hend.follows.core).free hfree').fileLoaded
    have hfirst := hbefore.fileLoaded
    have hpublished : w.core.published.length < w'.core.published.length := by
      obtain ⟨-, hsnap⟩ | hmore := hend.republished
      · exfalso
        obtain ⟨bytes, m', hcur⟩ : ∃ bytes m', w'.core.files.current = some (bytes, m') :=
          ⟨_, hend.same.file⟩
        have htime : w'.core.files.time = some m' := by
          simp only [Versioned.time, hcur, Option.map_some]
        have hnew : m' ∉ w.core.files.used := by
          obtain hsame | hnew := hend.since.time
          · exact absurd hsame htouched
          · exact hnew m' htime
        have hmodified : snapshot.modified = some m' := by
          have hsame : w'.core.served.time = snapshot.modified := by
            simp only [Served.time, hsnap, hserved, Option.bind_some]
          rw [← hsame, hcaught, htime]
        obtain ⟨seen, -, htag⟩ := (versions_reachable hfollows.core).consistent.served _ hserved
        exact hnew (htag.used m' hmodified)
      · exact hmore
    simp only [Counters.since, Counters.snapshot]
    omega

theorem onlyReloads_of_ready (h : ∀ tid, (s.threads tid).Ready) : OnlyReloads s := by
  intro tid
  have hready := h tid
  cases hthread : s.threads tid with
  | idle | returned call p entry answer => trivial
  | waiting call p | inside call p entry stage => simp [hthread, Thread.Ready] at hready

/-- What the watcher does by itself belongs to the benchmark, and touches nothing. -/
theorem hotReload_own {moves : List Mover}
    (hrun : (watching path G fileName lossy).Run w moves w')
    (hown : ∀ mover ∈ moves, ∀ actor, mover ≠ .other actor) :
    (hotReload path G fileName lossy).Run w moves w' ∧ (moves.map Mover.touches).sum = 0 := by
  induction hrun with
  | refl => exact ⟨.refl, rfl⟩
  | @head w w₁ w' mover moves hstep hrun ih =>
    have hmover := hown mover List.mem_cons_self
    obtain ⟨hrest, hsum⟩ := ih fun mover hmem => hown mover (List.mem_cons_of_mem _ hmem)
    have hfiles : w₁.core.files = w.core.files := by
      cases hstep with
      | reload hloop => exact files_other hloop.step (by simp)
      | other hactor => exact absurd rfl (hmover _)
      | files hfiles => exact absurd rfl (hmover _)
      | absent | load | loaded | put | skip | spawn | join => rfl
    have htouches : mover.touches = 0 := by
      cases mover with
      | other actor => exact absurd rfl (hmover actor)
      | startUp | debouncer | watchLoop | reload => rfl
    refine ⟨.head ⟨hstep, ⟨fun tid => hmover _, by rw [hfiles]⟩⟩ hrest, ?_⟩
    rw [List.map_cons, List.sum_cons, htouches, hsum]

/-- The database that is served is touched, and the watcher catches up. -/
theorem hotReload_harmless_touch :
    ∃ w w' : Watching [.rootDir, .normal (osString "firehol.mmdb")] Reference.geoip2,
      w.core.served.time = some 1 ∧ w'.core.served.time = some 2 ∧
        HotReloaded w.core w'.core 1 := by
  let name := osString "firehol.mmdb"
  let start : Watching [.rootDir, .normal name] Reference.geoip2 := { core := .start ⟨0, none, ∅⟩ }
  let batch : EventBatch := .ok [[.rootDir, .normal name]]
  have hbatch : changes name batch = true := by decide
  have hstart : (watching [.rootDir, .normal name] Reference.geoip2 name fun _ => "").Reachable
      { start with phase := .recv } :=
    .step (.initial ⟨_, ⟨rfl, by simp [Versioned.Stamped]⟩, rfl⟩) (.absent rfl rfl)
  obtain ⟨_, w, hrun, hquiet, hfree, hfiles, hserved⟩ :=
    replace_alone (fun _ => "") hbatch (.database fun _ => none) 1
      (w := { start with phase := .recv })
      ⟨rfl, rfl, rfl, fun _ => trivial⟩ rfl (by simp [start, Reloads.start])
  have hsnapshot : w.core.served.snapshot = some ⟨Reference.emptyReader, some 1⟩ := by
    rw [hserved, hfiles]
    rfl
  have hcurrent : w.core.files.current = some (Reference.emptyReader.owner, 1) := by
    rw [hfiles]
    rfl
  let files : Versioned Reference.Bytes :=
    ⟨w.core.files.version, some (Reference.emptyReader.owner, 2), insert 2 w.core.files.used⟩
  have hfile : w.core.files.Step files :=
    .touch _ 1 2 hcurrent (by simp [hfiles, start, Reloads.start])
  let touched : Watching [.rootDir, .normal name] Reference.geoip2 :=
    { w with
      core := { w.core with files }
      owed := w.owed + (files.version - w.core.files.version) }
  let queued : Watching [.rootDir, .normal name] Reference.geoip2 :=
    { touched with channel := touched.channel ++ [batch] }
  have htouch : WatchStep name (fun _ => "") w (.other .files) touched := .files hfile
  have hput : WatchStep name (fun _ => "") touched .debouncer queued :=
    .put batch touched.owed (by simp [touched, hquiet.channel, CAPACITY]) (Nat.le_refl _)
      (.inl hbatch)
  have hchannel : queued.channel = [batch] := by simp [queued, touched, hquiet.channel]
  obtain ⟨moves, w', hwatch, hown, -, -, -, -, -, -, hreloaded⟩ :=
    watch_alone (w := queued) (fun _ => "") hquiet.waits hchannel hbatch hfree
  obtain ⟨hhot, hsum⟩ := hotReload_own hwatch hown
  have hharmless := hotReload_harmless (hstart.run hrun) hquiet.waits hfree
    (onlyReloads_of_ready hquiet.calls) hsnapshot hcurrent
    (.head ⟨htouch, ⟨by simp, rfl⟩⟩ (.head ⟨hput, ⟨by simp, rfl⟩⟩ hhot))
  refine ⟨w, w', ?_, ?_, ?_⟩
  · rw [Served.time, hsnapshot]
    rfl
  · rw [hreloaded]
    change (Mmdb.reloadIfChanged _ {} _ ((versionedFile Reference.Bytes _).view files)
      w.core.served).2.time = some 2
    rw [hserved, hfiles]
    rfl
  · simpa [Mover.touches, hsum] using hharmless

end IpReputation
