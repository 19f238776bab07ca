import IpReputation.Library.Transition
import IpReputation.Spoa
import Mathlib.Logic.Function.Iterate

/-! Concurrent `load` and `reload_if_changed` calls, one step at a time, while files change. -/
namespace IpReputation

open Transition

/-- How the files may change by themselves, and which of them the calls name. -/
structure Files (β : Type) where
  State : Type
  view : State → FileSystem β
  initial : State → Prop
  step : State → State → Prop
  called : Path → Prop

/-- The two entry points. -/
inductive Call
  | load
  | reloadIfChanged
  deriving DecidableEq

/-- `Ok(())` of `load` is written `Ok(true)`. -/
abbrev Answer := Except LoadError Bool

variable {β : Type}

/-- Where a call that holds the lock stands; `seen` are the files at the moment of the read. -/
inductive Stage (E : Files β) (G : Geoip2 β)
  | locked
  | compare (modified : SystemTime)
  | toRead (modified : Option SystemTime)
  | toParse (modified : Option SystemTime) (bytes : β) (seen : E.State)
  | toGauge (modified : Option SystemTime) (reader : OwnedReader G) (seen : E.State)
  | toSwap (modified : Option SystemTime) (reader : OwnedReader G) (seen : E.State)
  | toCount
  | done (answer : Answer)

/-- What was there when a call took the lock. -/
structure Entry (E : Files β) (G : Geoip2 β) where
  files : E.State
  served : Served G

/-- A call of one thread; several threads may wait, only the holder of the lock is inside. -/
inductive Thread (E : Files β) (G : Geoip2 β)
  | idle
  | waiting (call : Call) (path : Path)
  | inside (call : Call) (path : Path) (entry : Entry E G) (stage : Stage E G)
  | returned (call : Call) (path : Path) (entry : Entry E G) (answer : Answer)

/-- The shared state and the threads. -/
structure Reloads (E : Files β) (G : Geoip2 β) where
  files : E.State
  served : Served G := {}
  loadLock : Option Nat := none
  threads : Nat → Thread E G := fun _ => .idle
  /-- For every snapshot published so far, in order, the files it was read from. -/
  published : List E.State := []

/-- What a call works on: its stage, what is served and what has been published. -/
structure Work (E : Files β) (G : Geoip2 β) where
  stage : Stage E G
  served : Served G
  published : List E.State

variable {E : Files β} {G : Geoip2 β}

/-- After `modified_time`: only `reload_if_changed` fails with it. -/
def afterStat (call : Call) (path : Path) (modified : Except FileStore.IoError SystemTime) :
    Stage E G :=
  match call, modified with
  | .load, modified => .toRead modified.toOption
  | .reloadIfChanged, .ok modified => .compare modified
  | .reloadIfChanged, .error _ => .done (.error (.metadata path))

/-- The next step of a call that holds the lock. -/
def advance (lossy : Path → String) (faults : LoadFaults) (call : Call) (path : Path)
    (files : E.State) (w : Work E G) : Work E G :=
  match w.stage with
  | .locked => { w with stage := afterStat call path (modifiedTime faults path (E.view files)) }
  | .compare modified =>
    if Mmdb.unchanged w.served.snapshot modified then { w with stage := .done (.ok false) }
    else { w with stage := .toRead (some modified) }
  | .toRead modified =>
    match tryRead faults path (E.view files) with
    | .error _ => { w with stage := .done (.error (.read path)) }
    | .ok bytes => { w with stage := .toParse modified bytes files }
  | .toParse modified bytes seen =>
    match OwnedReader.tryNew G bytes with
    | none => { w with stage := .done (.error (.parse path)) }
    | some reader => { w with stage := .toGauge modified reader seen }
  | .toGauge modified reader seen =>
    let metrics := w.served.metrics.setNodeCount (G.nodeCount reader.dependent)
    { w with stage := .toSwap modified reader seen, served := { w.served with metrics } }
  | .toSwap modified reader seen =>
    { stage := .toCount
      served := { w.served with snapshot := some ⟨reader, modified⟩ }
      published := w.published ++ [seen] }
  | .toCount =>
    let metrics := w.served.metrics.countLoad (lossy path)
    { w with stage := .done (.ok true), served := { w.served with metrics } }
  | .done answer => { w with stage := .done answer }

/-- Who moves. -/
inductive Actor
  | thread (tid : Nat)
  | lookup
  | files
  deriving DecidableEq

/-- What `s` becomes when thread `tid`, inside with `entry`, has worked. -/
def Reloads.worked (s : Reloads E G) (tid : Nat) (call : Call) (path : Path) (entry : Entry E G)
    (w : Work E G) : Reloads E G :=
  { s with
    served := w.served
    published := w.published
    threads := Function.update s.threads tid (.inside call path entry w.stage) }

def Thread.Ready : Thread E G → Prop
  | .idle | .returned .. => True
  | _ => False

inductive Step (E : Files β) (G : Geoip2 β) (lossy : Path → String) :
    Reloads E G → Actor → Reloads E G → Prop
  | call {s : Reloads E G} {tid : Nat} {call : Call} {path : Path} :
      (s.threads tid).Ready → E.called path → Step E G lossy s (.thread tid)
        { s with threads := Function.update s.threads tid (.waiting call path) }
  | lock {s : Reloads E G} {tid : Nat} {call : Call} {path : Path} :
      s.threads tid = .waiting call path → s.loadLock = none → Step E G lossy s (.thread tid)
        { s with
          loadLock := some tid
          threads := Function.update s.threads tid
            (.inside call path ⟨s.files, s.served⟩ .locked) }
  | work {s : Reloads E G} {tid : Nat} {call : Call} {path : Path} {entry : Entry E G}
      {stage : Stage E G} (faults : LoadFaults) :
      s.threads tid = .inside call path entry stage → Step E G lossy s (.thread tid)
        (s.worked tid call path entry
          (advance lossy faults call path s.files ⟨stage, s.served, s.published⟩))
  | unlock {s : Reloads E G} {tid : Nat} {call : Call} {path : Path} {entry : Entry E G}
      {answer : Answer} :
      s.threads tid = .inside call path entry (.done answer) → Step E G lossy s (.thread tid)
        { s with
          loadLock := none
          threads := Function.update s.threads tid (.returned call path entry answer) }
  | lookup {s : Reloads E G} {filter : IpFilter} {ip : IpAddr} : Step E G lossy s .lookup
      { s with
        served := { s.served with
          metrics := (filter.shouldDrop s.served.snapshot ip s.served.metrics).2 } }
  | files {s : Reloads E G} {files : E.State} :
      E.step s.files files → Step E G lossy s .files { s with files }

/-- Nothing is loaded, no thread has called yet. -/
def Reloads.start (files : E.State) : Reloads E G := { files }

def reloads (E : Files β) (G : Geoip2 β) (lossy : Path → String) :
    System (Reloads E G) Actor where
  initial s := ∃ files, E.initial files ∧ s = .start files
  step := Step E G lossy

variable {lossy : Path → String} {s t : Reloads E G} {tid : Nat} {call : Call} {path : Path}
  {entry : Entry E G} {stage : Stage E G} {faults : LoadFaults} {actor : Actor}

theorem Reloads.worked_self {w : Work E G} :
    (s.worked tid call path entry w).threads tid = .inside call path entry w.stage :=
  Function.update_self ..

/-- Whoever is inside holds the lock. -/
def Exclusive (s : Reloads E G) : Prop :=
  ∀ tid call path entry stage, s.threads tid = .inside call path entry stage →
    s.loadLock = some tid

theorem Exclusive.eq (h : Exclusive s) {tid' : Nat} {call' : Call} {path' : Path}
    {entry' : Entry E G} {stage' : Stage E G}
    (hs : s.threads tid = .inside call path entry stage)
    (hs' : s.threads tid' = .inside call' path' entry' stage') : tid' = tid :=
  Option.some.inj ((h _ _ _ _ _ hs').symm.trans (h _ _ _ _ _ hs))

/-- A thread that is inside after another one's move was inside before it. -/
theorem inside_of_update {threads : Nat → Thread E G} {new : Thread E G} {tid' : Nat}
    (hnew : ∀ call path entry stage, new ≠ .inside call path entry stage)
    (h : Function.update threads tid new tid' = .inside call path entry stage) :
    threads tid' = .inside call path entry stage ∧ tid' ≠ tid := by
  by_cases heq : tid' = tid
  · subst heq
    rw [Function.update_self] at h
    exact absurd h (hnew call path entry stage)
  · rw [Function.update_of_ne heq] at h
    exact ⟨h, heq⟩

/-- A thread that is inside after `tid` took the lock is `tid` or was inside before. -/
theorem inside_of_lock {threads : Nat → Thread E G} {tid' : Nat} {call' : Call} {path' : Path}
    {entry' : Entry E G} {stage' : Stage E G}
    (h : Function.update threads tid (.inside call path entry stage) tid' =
      .inside call' path' entry' stage') :
    (tid' = tid ∧ entry' = entry ∧ stage' = stage) ∨
      threads tid' = .inside call' path' entry' stage' := by
  by_cases heq : tid' = tid
  · subst heq
    simp only [Function.update_self, Thread.inside.injEq] at h
    obtain ⟨-, -, rfl, rfl⟩ := h
    exact .inl ⟨rfl, rfl, rfl⟩
  · rw [Function.update_of_ne heq] at h
    exact .inr h

/-- Only the thread that worked can be inside. -/
theorem Exclusive.inside_of_worked (h : Exclusive s)
    (hbefore : s.threads tid = .inside call path entry stage) {w : Work E G} {tid' : Nat}
    {call' : Call} {path' : Path} {entry' : Entry E G} {stage' : Stage E G}
    (hin : (s.worked tid call path entry w).threads tid' = .inside call' path' entry' stage') :
    tid' = tid ∧ entry' = entry ∧ stage' = w.stage := by
  rcases inside_of_lock hin with hown | hother
  · exact hown
  · have heq : tid' = tid := h.eq hbefore hother
    subst heq
    rw [Reloads.worked_self] at hin
    obtain ⟨-, -, rfl, rfl⟩ := Thread.inside.inj hin
    exact ⟨rfl, rfl, rfl⟩

theorem exclusive_stable : (reloads E G lossy).Stable Exclusive := by
  intro s actor t h hs tid' call' path' entry' stage' hin
  cases h with
  | call hready hpath =>
    have hbefore := (inside_of_update (by simp) hin).1
    exact hs _ _ _ _ _ hbefore
  | lock hwait hfree =>
    rcases inside_of_lock hin with ⟨rfl, -, -⟩ | hbefore
    · rfl
    · have hheld := hs _ _ _ _ _ hbefore
      rw [hfree] at hheld
      cases hheld
  | work faults hbefore =>
    obtain ⟨rfl, -, -⟩ := hs.inside_of_worked hbefore hin
    exact hs _ _ _ _ _ hbefore
  | unlock hbefore =>
    obtain ⟨hin, hne⟩ := inside_of_update (by simp) hin
    exact absurd (hs.eq hbefore hin) hne
  | lookup => exact hs _ _ _ _ _ hin
  | files hstep => exact hs _ _ _ _ _ hin

theorem exclusive_reachable (h : (reloads E G lossy).Reachable s) : Exclusive s := by
  apply exclusive_stable.reachable _ h
  rintro s ⟨files, -, rfl⟩ tid call path entry stage hin
  cases hin

/-- The holder of the lock may take `n` steps in a row. -/
theorem work_iterate (lossy : Path → String) (faults : LoadFaults) (n : Nat)
    (h : s.threads tid = .inside call path entry stage) :
    ∃ as, (reloads E G lossy).Run s as (s.worked tid call path entry
      ((advance lossy faults call path s.files)^[n] ⟨stage, s.served, s.published⟩)) := by
  induction n with
  | zero =>
    refine ⟨[], ?_⟩
    have hsame : s.worked tid call path entry ⟨stage, s.served, s.published⟩ = s := by
      simp [Reloads.worked, ← h]
    rw [Function.iterate_zero_apply, hsame]
    exact .refl
  | succ n ih =>
    obtain ⟨as, hrun⟩ := ih
    rw [Function.iterate_succ_apply']
    generalize (advance lossy faults call path s.files)^[n] ⟨stage, s.served, s.published⟩ = w
      at hrun ⊢
    have hin : (s.worked tid call path entry w).threads tid = .inside call path entry w.stage :=
      Reloads.worked_self
    have hstep : Step E G lossy _ (.thread tid) _ := .work faults hin
    rw [show (s.worked tid call path entry w).worked tid call path entry _ =
      s.worked tid call path entry (advance lossy faults call path s.files w) by
        simp [Reloads.worked]] at hstep
    exact ⟨_, hrun.tail hstep⟩

/-- A whole call without another thread's step in between. -/
theorem call_alone (lossy : Path → String) (faults : LoadFaults) (tid : Nat) (call : Call)
    (path : Path) (s : Reloads E G) (n : Nat) {answer : Answer} {served : Served G}
    {published : List E.State}
    (hready : (s.threads tid).Ready) (hfree : s.loadLock = none) (hpath : E.called path)
    (hw : (advance lossy faults call path s.files)^[n] ⟨.locked, s.served, s.published⟩ =
      ⟨.done answer, served, published⟩) :
    ∃ actors, (reloads E G lossy).Run s actors
      { s with
        served, published
        threads := Function.update s.threads tid
          (.returned call path ⟨s.files, s.served⟩ answer) } := by
  have hcall : Step E G lossy s (.thread tid)
      { s with threads := Function.update s.threads tid (.waiting call path) } :=
    .call hready hpath
  have hlock : Step E G lossy
      { s with threads := Function.update s.threads tid (.waiting call path) } (.thread tid) _ :=
    .lock (Function.update_self ..) hfree
  obtain ⟨actors, hwork⟩ := work_iterate (s := { s with
    loadLock := some tid
    threads := Function.update (Function.update s.threads tid (.waiting call path)) tid
      (.inside call path ⟨s.files, s.served⟩ .locked) }) lossy faults n (Function.update_self ..)
  rw [hw] at hwork
  have hunlock : Step E G lossy
      { s with
        served, published
        loadLock := some tid
        threads := Function.update s.threads tid
          (.inside call path ⟨s.files, s.served⟩ (.done answer)) } (.thread tid) _ :=
    .unlock (Function.update_self ..)
  simp only [Reloads.worked, Function.update_idem, ← hfree] at hlock hwork hunlock
  exact ⟨_, .head hcall (.head hlock (hwork.tail hunlock))⟩

/-- A call that is done stays so. -/
theorem advance_done (n : Nat) (lossy : Path → String) (faults : LoadFaults) (call : Call)
    (path : Path) (files : E.State) (answer : Answer) (served : Served G)
    (published : List E.State) :
    (advance lossy faults call path files)^[n] ⟨.done answer, served, published⟩ =
      ⟨.done answer, served, published⟩ :=
  Function.iterate_fixed rfl n

/-- Undisturbed, the steps from the read on add up to `load_locked`. -/
theorem advance_toRead (lossy : Path → String) (faults : LoadFaults) (call : Call) (path : Path)
    (files : E.State) (served : Served G) (published : List E.State)
    (modified : Option SystemTime) :
    ∃ published',
      (advance lossy faults call path files)^[5] ⟨.toRead modified, served, published⟩ =
        ⟨.done ((Mmdb.loadLocked lossy faults path (E.view files) served modified).1.map
            fun _ => true),
          (Mmdb.loadLocked lossy faults path (E.view files) served modified).2, published'⟩ := by
  cases hr : tryRead faults path (E.view files) with
  | error e =>
    have hread : advance lossy faults call path files ⟨.toRead modified, served, published⟩ =
        ⟨.done (.error (.read path)), served, published⟩ := by simp only [advance, hr]
    refine ⟨published, ?_⟩
    rw [Function.iterate_succ_apply, hread, advance_done]
    simp only [Mmdb.loadLocked, hr, Except.map]
  | ok bytes =>
    have hread : advance lossy faults call path files ⟨.toRead modified, served, published⟩ =
        ⟨.toParse modified bytes files, served, published⟩ := by simp only [advance, hr]
    cases hp : OwnedReader.tryNew G bytes with
    | none =>
      have hparse : advance lossy faults call path files
          ⟨.toParse modified bytes files, served, published⟩ =
            ⟨.done (.error (.parse path)), served, published⟩ := by simp only [advance, hp]
      refine ⟨published, ?_⟩
      rw [Function.iterate_succ_apply, hread, Function.iterate_succ_apply, hparse, advance_done]
      simp only [Mmdb.loadLocked, hr, hp, Except.map]
    | some reader =>
      have hparse : advance lossy faults call path files
          ⟨.toParse modified bytes files, served, published⟩ =
            ⟨.toGauge modified reader files, served, published⟩ := by simp only [advance, hp]
      refine ⟨published ++ [files], ?_⟩
      rw [Function.iterate_succ_apply, hread, Function.iterate_succ_apply, hparse]
      simp only [Mmdb.loadLocked, hr, hp]
      rfl

/-- Undisturbed, the steps of a `load` add up to `Mmdb.load`. -/
theorem advance_load (lossy : Path → String) (faults : LoadFaults) (path : Path)
    (files : E.State) (served : Served G) (published : List E.State) :
    ∃ published',
      (advance lossy faults .load path files)^[6] ⟨.locked, served, published⟩ =
        ⟨.done ((Mmdb.load lossy faults path (E.view files) served).1.map fun _ => true),
          (Mmdb.load lossy faults path (E.view files) served).2, published'⟩ := by
  rw [Function.iterate_succ_apply]
  exact advance_toRead lossy faults .load path files served published
    (modifiedTime faults path (E.view files)).toOption

/-- Undisturbed, the steps of a `reload_if_changed` add up to `Mmdb.reloadIfChanged`. -/
theorem advance_reloadIfChanged (lossy : Path → String) (faults : LoadFaults) (path : Path)
    (files : E.State) (served : Served G) (published : List E.State) :
    ∃ published',
      (advance lossy faults .reloadIfChanged path files)^[7] ⟨.locked, served, published⟩ =
        ⟨.done (Mmdb.reloadIfChanged lossy faults path (E.view files) served).1,
          (Mmdb.reloadIfChanged lossy faults path (E.view files) served).2, published'⟩ := by
  cases hm : modifiedTime faults path (E.view files) with
  | error e =>
    have hstat : advance lossy faults .reloadIfChanged path files ⟨.locked, served, published⟩ =
        ⟨.done (.error (.metadata path)), served, published⟩ := by
      simp only [advance, afterStat, hm]
    refine ⟨published, ?_⟩
    rw [Function.iterate_succ_apply, hstat, advance_done]
    simp only [Mmdb.reloadIfChanged, hm]
  | ok modified =>
    have hstat : advance lossy faults .reloadIfChanged path files ⟨.locked, served, published⟩ =
        ⟨.compare modified, served, published⟩ := by
      simp only [advance, afterStat, hm]
    rw [Function.iterate_succ_apply, hstat, Function.iterate_succ_apply]
    by_cases hu : Mmdb.unchanged served.snapshot modified = true
    · have hskip : advance lossy faults .reloadIfChanged path files
          ⟨.compare modified, served, published⟩ =
            ⟨.done (.ok false), served, published⟩ := by simp only [advance, hu, if_true]
      refine ⟨published, ?_⟩
      rw [hskip, advance_done]
      simp only [Mmdb.reloadIfChanged, hm, hu, if_true]
    · have hchanged : advance lossy faults .reloadIfChanged path files
          ⟨.compare modified, served, published⟩ =
            ⟨.toRead (some modified), served, published⟩ := by
        simp only [advance, if_neg hu]
      obtain ⟨published', h⟩ := advance_toRead lossy faults .reloadIfChanged path files served
        published (some modified)
      refine ⟨published', ?_⟩
      rw [hchanged, h]
      simp only [Mmdb.reloadIfChanged, hm, if_neg hu]
      rcases Mmdb.loadLocked lossy faults path (E.view files) served (some modified) with
        ⟨_ | _, _⟩ <;> rfl

/-- Alone, a `load` of the machine is `Mmdb.load`. -/
theorem load_alone (faults : LoadFaults) (hready : (s.threads tid).Ready)
    (hfree : s.loadLock = none) (hpath : E.called path) :
    ∃ actors t, (reloads E G lossy).Run s actors t ∧ t.loadLock = none ∧
      t.served = (Mmdb.load lossy faults path (E.view s.files) s.served).2 ∧
      t.threads tid = .returned .load path ⟨s.files, s.served⟩
        ((Mmdb.load lossy faults path (E.view s.files) s.served).1.map fun _ => true) := by
  obtain ⟨published, hw⟩ := advance_load lossy faults path s.files s.served s.published
  obtain ⟨actors, hrun⟩ := call_alone lossy faults tid .load path s 6 hready hfree hpath hw
  exact ⟨actors, _, hrun, hfree, rfl, Function.update_self ..⟩

end IpReputation
