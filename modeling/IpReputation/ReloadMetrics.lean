import IpReputation.Reload
import IpReputation.Reference

/-! Failed loads change nothing, and the metrics describe the served snapshot. -/
namespace IpReputation

open Transition

variable {β : Type} {E : Files β} {G : Geoip2 β} {lossy : Path → String} {faults : LoadFaults}
  {s t : Reloads E G} {served : Served G} {tid : Nat} {call : Call} {path : Path}
  {entry : Entry E G} {stage : Stage E G} {files : E.State} {w : Work E G}

/-- The part of what is served that a load may change. -/
def Served.loaded (served : Served G) : Option (Snapshot G) × Int × CounterVec String :=
  (served.snapshot, served.metrics.mmdbNodeCount, served.metrics.mmdbFileLoaded)

/-- The node count of a snapshot, `0` when there is none. -/
def nodeCount (snapshot : Option (Snapshot G)) : Int :=
  match snapshot with
  | some snapshot => (G.nodeCount snapshot.reader.dependent).toNat
  | none => 0

/-- The gauge describes the snapshot and the counters sum to the publications. -/
structure Settled (served : Served G) (published : Nat) : Prop where
  nodeCount : served.metrics.mmdbNodeCount = nodeCount served.snapshot
  fileLoaded : served.metrics.mmdbFileLoaded.total = published

/-- How far gauge, snapshot and counter have got in a call that holds the lock. -/
def Midway (entry : Entry E G) (w : Work E G) : Prop :=
  match w.stage with
  | .toSwap _ reader _ =>
    w.served.metrics.mmdbNodeCount = (G.nodeCount reader.dependent).toNat ∧
      w.served.metrics.mmdbFileLoaded.total = w.published.length
  | .toCount =>
    w.served.metrics.mmdbNodeCount = nodeCount w.served.snapshot ∧
      w.served.metrics.mmdbFileLoaded.total + 1 = w.published.length
  | .done (.ok _) => Settled w.served w.published.length
  | _ => Settled w.served w.published.length ∧ w.served.loaded = entry.served.loaded

/-- Reads and failures leave everything; gauge, snapshot and counter are written in turn. -/
theorem midway_advance (h : Midway entry w) :
    Midway entry (advance lossy faults call path files w) := by
  obtain ⟨stage, served, published⟩ := w
  cases stage with
  | locked =>
    cases call <;> cases hm : modifiedTime faults path (E.view files) <;>
      simp only [advance, afterStat, hm] <;> exact h
  | compare modified =>
    by_cases hu : Mmdb.unchanged served.snapshot modified = true
    · simp only [advance, hu, if_true]
      exact h.1
    · simp only [advance, if_neg hu]
      exact h
  | toRead modified =>
    cases hr : tryRead faults path (E.view files) <;> simp only [advance, hr] <;> exact h
  | toParse modified bytes seen =>
    cases hp : OwnedReader.tryNew G bytes <;> simp only [advance, hp] <;> exact h
  | toGauge modified reader seen => exact ⟨rfl, h.1.fileLoaded⟩
  | toSwap modified reader seen =>
    refine ⟨h.1, ?_⟩
    simp only [advance, List.length_append, List.length_singleton]
    exact congrArg (· + 1) h.2
  | toCount =>
    refine ⟨h.1, ?_⟩
    simp only [advance, Metrics.countLoad, CounterVec.total_inc]
    exact h.2
  | done answer => exact h

/-- A published snapshot is only ever replaced by another one. -/
theorem advance_isSome (h : w.served.snapshot.isSome = true) :
    (advance lossy faults call path files w).served.snapshot.isSome = true := by
  obtain ⟨stage, served, published⟩ := w
  cases stage with
  | compare modified =>
    by_cases hu : Mmdb.unchanged served.snapshot modified = true
    · simpa only [advance, hu, if_true] using h
    · simpa only [advance, if_neg hu] using h
  | toRead modified =>
    cases hr : tryRead faults path (E.view files) <;> simpa only [advance, hr] using h
  | toParse modified bytes seen =>
    cases hp : OwnedReader.tryNew G bytes <;> simpa only [advance, hp] using h
  | toSwap modified reader seen => rfl
  | locked | toGauge modified reader seen | toCount | done answer => exact h

/-- A lookup only counts a blocked request. -/
theorem shouldDrop_loaded (filter : IpFilter) (ip : IpAddr) :
    Served.loaded { served with
      metrics := (filter.shouldDrop served.snapshot ip served.metrics).2 } = served.loaded := by
  rcases shouldDrop_metrics filter served.snapshot ip served.metrics with h | ⟨entry, hit, h⟩
  · rw [h]
  · rw [h]
    rfl

theorem Settled.congr {served' : Served G} {n : Nat} (h : Settled served n)
    (heq : served'.loaded = served.loaded) : Settled served' n := by
  simp only [Served.loaded, Prod.mk.injEq] at heq
  obtain ⟨hsnap, hgauge, hcount⟩ := heq
  exact ⟨by rw [hgauge, hsnap, h.nodeCount], by rw [hcount, h.fileLoaded]⟩

theorem Midway.congr {served' : Served G} {published : List E.State}
    (h : Midway entry ⟨stage, served, published⟩) (heq : served'.loaded = served.loaded) :
    Midway entry ⟨stage, served', published⟩ := by
  have heq' := heq
  simp only [Served.loaded, Prod.mk.injEq] at heq'
  obtain ⟨hsnap, hgauge, hcount⟩ := heq'
  cases stage with
  | toSwap modified reader seen => exact ⟨hgauge.trans h.1, by rw [hcount]; exact h.2⟩
  | toCount => exact ⟨by rw [hgauge, hsnap]; exact h.1, by rw [hcount]; exact h.2⟩
  | done answer =>
    cases answer with
    | ok b => exact Settled.congr h heq
    | error e => exact ⟨h.1.congr heq, heq.trans h.2⟩
  | locked | compare modified | toRead modified | toParse modified bytes seen
  | toGauge modified reader seen => exact ⟨h.1.congr heq, heq.trans h.2⟩

/-- A finished call leaves gauge and counters settled. -/
theorem Midway.done {answer : Answer} {published : List E.State}
    (h : Midway entry ⟨.done answer, served, published⟩) : Settled served published.length := by
  cases answer with
  | ok b => exact h
  | error e => exact h.1

/-- The bookkeeping, whether the lock is free or held. -/
structure Accounts (s : Reloads E G) : Prop where
  exclusive : Exclusive s
  free : s.loadLock = none → Settled s.served s.published.length
  held : ∀ tid call path entry stage, s.threads tid = .inside call path entry stage →
    Midway entry ⟨stage, s.served, s.published⟩

theorem accounts_stable : (reloads E G lossy).Stable Accounts := by
  intro s actor t h hs
  refine ⟨exclusive_stable h hs.exclusive, ?_, ?_⟩
  · intro hfree
    cases h with
    | call hready hpath => exact hs.free hfree
    | lock hwait hlock => cases hfree
    | work faults hbefore =>
      have hlock := hs.exclusive _ _ _ _ _ hbefore
      exact absurd (hlock.symm.trans hfree) (by simp)
    | unlock hbefore => exact (hs.held _ _ _ _ _ hbefore).done
    | @lookup filter ip => exact (hs.free hfree).congr (shouldDrop_loaded filter ip)
    | files hstep => exact hs.free hfree
  · intro tid' call' path' entry' stage' hin
    cases h with
    | call hready hpath =>
      have hbefore := (inside_of_update (by simp) hin).1
      exact hs.held _ _ _ _ _ hbefore
    | lock hwait hlock =>
      rcases inside_of_lock hin with ⟨-, rfl, rfl⟩ | hbefore
      · exact ⟨hs.free hlock, rfl⟩
      · exact hs.held _ _ _ _ _ hbefore
    | work faults hbefore =>
      obtain ⟨-, rfl, rfl⟩ := hs.exclusive.inside_of_worked hbefore hin
      exact midway_advance (hs.held _ _ _ _ _ hbefore)
    | unlock hdone =>
      have hbefore := (inside_of_update (by simp) hin).1
      exact hs.held _ _ _ _ _ hbefore
    | @lookup filter ip => exact (hs.held _ _ _ _ _ hin).congr (shouldDrop_loaded filter ip)
    | files hstep => exact hs.held _ _ _ _ _ hin

theorem accounts_reachable (h : (reloads E G lossy).Reachable s) : Accounts s := by
  apply accounts_stable.reachable _ h
  rintro s ⟨files, -, rfl⟩
  refine ⟨?_, fun _ => ⟨rfl, rfl⟩, ?_⟩
  · intro tid call path entry stage hin
    cases hin
  · intro tid call path entry stage hin
    cases hin

theorem isSome_stable : (reloads E G lossy).Stable fun s => s.served.snapshot.isSome = true := by
  intro s actor t h hs
  cases h with
  | work faults hbefore => exact advance_isSome hs
  | call hready hpath | lock hwait hlock | unlock hbefore | lookup | files hstep => exact hs

/-- What holds of every state of the machine: a call about to return an error has changed
nothing since it took the lock, a database once served stays served, and between the calls the
gauge and the counters describe the snapshot and its publications. -/
structure MetricsDescribeServed (lossy : Path → String) (s : Reloads E G) : Prop where
  failed : ∀ tid call path entry e, s.threads tid = .inside call path entry (.done (.error e)) →
    s.served.snapshot = entry.served.snapshot ∧
      s.served.metrics.mmdbNodeCount = entry.served.metrics.mmdbNodeCount ∧
      s.served.metrics.mmdbFileLoaded = entry.served.metrics.mmdbFileLoaded
  kept : s.served.snapshot.isSome = true → ∀ actors t, (reloads E G lossy).Run s actors t →
    t.served.snapshot.isSome = true
  nodeCount : s.loadLock = none → s.served.metrics.mmdbNodeCount = nodeCount s.served.snapshot
  fileLoaded : s.loadLock = none →
    s.served.metrics.mmdbFileLoaded.total = s.published.length

/-- Failed loads are invisible, and between the calls the metrics describe the served snapshot. -/
theorem metricsDescribeServed (h : (reloads E G lossy).Reachable s) :
    MetricsDescribeServed lossy s := by
  have hs := accounts_reachable h
  refine ⟨?_, ?_, fun hfree => (hs.free hfree).nodeCount, fun hfree => (hs.free hfree).fileLoaded⟩
  · intro tid call path entry e hin
    have hloaded := (hs.held _ _ _ _ _ hin).2
    simpa only [Served.loaded, Prod.mk.injEq] using hloaded
  · intro hsome actors t hrun
    exact isSome_stable.run hrun hsome

/-- Files that change in any way, under calls for any path. -/
def anyFiles (β : Type) : Files β where
  State := FileSystem β
  view fs := fs
  initial _ := True
  step _ _ := True
  called _ := True

/-- After a first `load` of an empty database. -/
theorem metricsDescribeServed_load :
    ∃ s : Reloads (anyFiles Reference.Bytes) Reference.geoip2,
      s.served.snapshot.isSome = true ∧ MetricsDescribeServed (fun _ => "firehol.mmdb") s := by
  let start : Reloads (anyFiles Reference.Bytes) Reference.geoip2 :=
    .start fun _ => some (.file (.database fun _ => none) 7)
  obtain ⟨actors, hrun⟩ :=
    call_alone (fun _ => "firehol.mmdb") {} 0 .load [] start 6 trivial rfl trivial rfl
  refine ⟨_, ?_, metricsDescribeServed (.run (.initial ⟨_, trivial, rfl⟩) hrun)⟩
  rfl

end IpReputation
