import IpReputation.Workers

/-! Whether `Workers::run` returns: what a panic of a worker thread does to the batch. -/
namespace IpReputation.Bench

open Client
open ScatterGather
open Transition

variable {n iters : Nat} {checks : Bool} {encode : IpAddr → Bytes} {workload : Workload}
  {connections : Fin n → Connection} {P Q : Pool n Nat Worker Nat WorkerReport}
  {moves : List (Move n)} {w : Worker}

/-- `Workers::run` returns when no worker thread panics, panics itself when all do, and hangs when
some do and others do not; it takes no more than five steps a worker, and one more, to get there. -/
theorem batch_settles (hn : 0 < n)
    (hreach : (workers checks encode workload connections).Reachable P) (howner : P.owner = .ready)
    (hrun : (workers checks encode workload connections).Run (batch iters P) moves Q)
    (hmoves : ∀ a ∈ moves, a ≠ .start) :
    moves.length ≤ 5 * n + 1 ∧
      (ScatterGather.Settled (fun iters i => share iters n i) (fun _ => Works checks encode) Q →
        (Q.owner = .ready ↔ ∀ i, Q.threads i ≠ .panicked) ∧
          (Q.owner = .panicked ↔ ∀ i, Q.threads i = .panicked)) := by
  refine ⟨round_steps hreach howner hrun hmoves, ?_⟩
  exact settled_iff (fun _ => works_total) hn ((batch_reachable hreach howner iters).run hrun)

/-- Without addresses only a run of no requests ends. -/
theorem works_empty {out : Option (Worker × WorkerReport)} {requests : Nat}
    (hw : w.workload = .fixed []) (h : Works checks encode w requests out) :
    out = none ↔ 0 < requests := by
  obtain ⟨trips, rfl, rfl⟩ := h
  cases trips with
  | nil => simp [Worker.run]
  | cons trip trips => simp [Worker.run, hw, Workload.nextIp]

theorem share_pos_iff (hn : 0 < n) {iters : Nat} (i : Fin n) :
    0 < share iters n i ↔ n ≤ iters ∨ i < iters := by
  by_cases hle : n ≤ iters
  · have hdiv : 0 < iters / n := Nat.div_pos hle hn
    simp only [share, hle, true_or, iff_true]
    omega
  · have hlt : iters < n := Nat.lt_of_not_le hle
    simp only [share, Nat.div_eq_of_lt hlt, Nat.mod_eq_of_lt hlt, hle, false_or, Nat.zero_add]
    split <;> simp_all

/-- At rest after a first batch without addresses, the owner has panicked or still waits. -/
theorem empty_settled (hn : 0 < n) (hiters : 0 < iters)
    (hreach : (workers checks encode (.fixed []) connections).Reachable Q)
    (hrounds : Q.rounds = [iters])
    (hs : ScatterGather.Settled (fun iters i => share iters n i) (fun _ => Works checks encode) Q) :
    Q.owner ≠ .ready ∧ (Q.owner = .panicked ↔ n ≤ iters) := by
  have hinv := inv_reachable hreach
  have htotal : ∀ (i : Fin n) (w : Worker) (requests : Nat), ∃ out, Works checks encode w requests
      out := fun _ => works_total
  -- A thread has panicked exactly when it was given a request.
  have hdead : ∀ i, Q.threads i = .panicked ↔ 0 < share iters n i := by
    intro i
    have htraced := hinv.traced i
    rw [hrounds] at htraced
    rcases hs.thread htotal i with hdead | ⟨⟨w, hidle⟩, hslot⟩
    · rw [hdead] at htraced
      obtain ⟨past, w, requests, hserial, hwork, hall⟩ := htraced
      cases past with
      | nil =>
        obtain ⟨rfl, -⟩ := List.cons.inj hall
        have hw : w.workload = .fixed [] := by
          rw [hserial.of_nil]
          rfl
        exact iff_of_true hdead ((works_empty hw hwork).mp rfl)
      | cons x past => simp at hall
    · rw [hidle] at htraced
      obtain ⟨past, hserial, hall⟩ := htraced
      have hahead : Q.ahead i = [] := by
        simp [Pool.ahead, hslot, hs.todo htotal, ScatterGather.entriesOf]
      rw [hahead, List.append_nil] at hall
      rw [hall] at hserial
      obtain ⟨r, hwork⟩ := hserial.of_singleton
      refine iff_of_false (by simp [hidle]) ?_
      intro hpos
      cases (works_empty rfl hwork).mpr hpos
  obtain ⟨hready, hpanicked⟩ := settled_iff htotal hn hreach hs
  constructor
  · intro howner
    apply hready.mp howner ⟨0, hn⟩
    rw [hdead, share_pos_iff hn]
    exact .inr hiters
  · rw [hpanicked]
    simp only [hdead, share_pos_iff hn]
    constructor
    · intro hall
      by_contra hlt
      have hlast := hall ⟨iters, by omega⟩
      simp only [lt_self_iff_false, or_false] at hlast
      exact hlt hlast
    · exact fun hle i => .inl hle

/-- With a list of separators for `BENCH_IPS`, which is taken for a list of no addresses, the first
batch never returns: it panics when every connection has a request in it, and hangs when it is
smaller than that. -/
theorem separators_hang {list : String} (hlist : trim list ≠ "")
    (hitems : commaItems list = []) (hn : 0 < n) (hiters : 0 < iters)
    (hinitial : (workers checks encode (.fixed []) connections).initial P)
    (hrun : (workers checks encode (.fixed []) connections).Run (batch iters P) moves Q)
    (hmoves : ∀ a ∈ moves, a ≠ .start) :
    Workload.fromEnv (some list) = .ok (.fixed []) ∧ Q.owner ≠ .ready ∧
      (ScatterGather.Settled (fun iters i => share iters n i) (fun _ => Works checks encode) Q →
        (Q.owner = .panicked ↔ n ≤ iters)) := by
  have hreach : (workers checks encode (.fixed []) connections).Reachable Q :=
    (batch_reachable (.initial hinitial) (congrArg Pool.owner hinitial) iters).run hrun
  have hrounds : Q.rounds = [iters] := by
    rw [rounds_run hrun hmoves, hinitial]
    rfl
  have hsettled := empty_settled hn hiters hreach hrounds
  refine ⟨?_, ?_, fun hs => (hsettled hs).2⟩
  · simp only [Workload.fromEnv, if_neg hlist, hitems, Workload.parseItems, Except.map]
  · -- A batch that had returned would have left nothing to do.
    intro howner
    exact (hsettled ((inv_reachable hreach).settled howner)).1 howner

/-- Two connections without addresses, after a batch of one request. -/
theorem separators_run (checks : Bool) (encode : IpAddr → Bytes)
    (connections : Fin 2 → Connection) :
    ∃ P Q moves, (workers checks encode (.fixed []) connections).initial P ∧
      (workers checks encode (.fixed []) connections).Run (batch 1 P) moves Q ∧
      (∀ a ∈ moves, a ≠ .start) ∧ Q.owner = .round [] 1 ∧ Q.queue = [] ∧
      (∀ i, Q.slots i = none) ∧ Q.threads 0 = .panicked ∧ ∃ w, Q.threads 1 = .idle w := by
  let start (i : Fin 2) : Worker := Worker.start (.fixed []) (i + 1) (connections i)
  have hpanic : Works checks encode (start 0) 1 none := ⟨[⟨[], true, 0⟩], rfl, rfl⟩
  have hnone : Works checks encode (start 1) 0 (some (start 1, {})) := ⟨[], rfl, rfl⟩
  let P : Pool 2 Nat Worker Nat WorkerReport :=
    ⟨.ready, fun _ => none, fun i => .idle (start i), [], [], []⟩
  obtain ⟨Q, hrun, hQ⟩ : ∃ Q, (workers checks encode (.fixed []) connections).Run (batch 1 P)
      [.owner, .owner, .worker 0, .worker 0, .worker 1, .worker 1, .worker 1, .owner] Q ∧
      Q.owner = .round [] 1 ∧ Q.queue = [] ∧ (∀ i, Q.slots i = none) ∧ Q.threads 0 = .panicked ∧
      ∃ w, Q.threads 1 = .idle w := by
    refine ⟨_, .head (Step.send rfl rfl (by simp [batch, P])) <|
      .head (Step.send rfl rfl (by simp [batch, P])) <| .head (Step.take rfl rfl) <|
      .head (Step.panic rfl hpanic) <| .head (Step.take rfl rfl) <|
      .head (Step.finish rfl hnone) <| .head (Step.report rfl) <|
      .head (Step.receive rfl rfl) .refl, rfl, rfl, ?_, rfl, _, rfl⟩
    simp [Fin.forall_fin_two]
  exact ⟨P, Q, _, rfl, hrun, by simp, hQ⟩

theorem hung_settled {Q : Pool 2 Nat Worker Nat WorkerReport} {w : Worker}
    (howner : Q.owner = .round [] 1) (hqueue : Q.queue = []) (hslots : ∀ i, Q.slots i = none)
    (hfirst : Q.threads 0 = .panicked) (hsecond : Q.threads 1 = .idle w) :
    ScatterGather.Settled (fun iters i => share iters 2 i) (fun _ => Works checks encode) Q := by
  have hthreads : ∀ i, Q.threads i = .panicked ∨ Q.threads i = .idle w := by
    rw [Fin.forall_fin_two]
    exact ⟨.inl hfirst, .inr hsecond⟩
  intro a R hstep
  cases hstep with
  | start iters h => rfl
  | send h | sendFails h | done h => simp [howner] at h
  | receive h h' => simp [hqueue] at h'
  | receiveFails h h' hdead => simp [hsecond] at hdead
  | @take i s c h h' => simp [hslots i] at h'
  | @finish i s s' c r h | @panic i s c h | @report i s r h =>
    rcases hthreads i with h' | h' <;> simp [h'] at h

/-- `BENCH_IPS=,` with two connections: the first batch, of one request, hangs. -/
theorem separators_hang_two :
    ∃ P Q moves, (workers (n := 2) false (fun _ => []) (.fixed []) fun _ =>
        { stream := { incoming := [] }, streamId := 1 }).initial P ∧
      (workers false (fun _ => []) (.fixed []) fun _ =>
        { stream := { incoming := [] }, streamId := 1 }).Run (batch 1 P) moves Q ∧
      Workload.fromEnv (some ",") = .ok (.fixed []) ∧ Q.owner ≠ .ready ∧
      (Q.owner = .panicked ↔ 2 ≤ 1) := by
  obtain ⟨P, Q, moves, hinitial, hrun, hmoves, howner, hqueue, hslots, hfirst, w, hsecond⟩ :=
    separators_run false (fun _ => []) fun _ => { stream := { incoming := [] }, streamId := 1 }
  obtain ⟨hworkload, hready, hpanicked⟩ := separators_hang (by decide : trim "," ≠ "") rfl
    Nat.two_pos Nat.one_pos hinitial hrun hmoves
  exact ⟨P, Q, moves, hinitial, hrun, hworkload, hready,
    hpanicked (hung_settled howner hqueue hslots hfirst hsecond)⟩

theorem batch_settles_two :
    ∃ P Q moves, (workers (n := 2) false (fun _ => []) (.fixed []) fun _ =>
        { stream := { incoming := [] }, streamId := 1 }).Run (batch 1 P) moves Q ∧
      moves.length ≤ 5 * 2 + 1 ∧
      (ScatterGather.Settled (fun iters i => share iters 2 i) (fun _ => Works false fun _ => []) Q →
        (Q.owner = .ready ↔ ∀ i, Q.threads i ≠ .panicked) ∧
          (Q.owner = .panicked ↔ ∀ i, Q.threads i = .panicked)) := by
  obtain ⟨P, Q, moves, hinitial, hrun, hmoves, -⟩ :=
    separators_run false (fun _ => []) fun _ => { stream := { incoming := [] }, streamId := 1 }
  exact ⟨P, Q, moves, hrun, batch_settles Nat.two_pos (.initial hinitial)
    (congrArg Pool.owner hinitial) hrun hmoves⟩

end IpReputation.Bench
