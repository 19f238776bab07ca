import IpReputation.Library.ScatterGather
import IpReputation.LoadGenerator

/-! `Workers` and `Summary` of `benches/spoe/main.rs`: batches spread over all connections. -/
namespace IpReputation.Bench

open Client
open ScatterGather
open Transition

/-- Aggregate of every `Workers::run` of one benchmark; `F` is `f64`. -/
structure Summary (F : Type) extends Tally where
  /-- `(latency, weight)`: each worker reservoir represents `count / samples` requests. -/
  weightedSamples : List (Nat × F) := []

def Tally.merge (t report : Tally) : Tally :=
  { t with
    count := t.count + report.count
    blocked := t.blocked + report.blocked
    errors := t.errors + report.errors
    firstError := t.firstError <|> report.firstError
    tx := t.tx + report.tx
    rx := t.rx + report.rx
    totalLatency := t.totalLatency + report.totalLatency
    minLatency :=
      match report.minLatency with
      | none => t.minLatency
      | some m => some (t.minLatency.elim m fun current => min current m)
    maxLatency := max t.maxLatency report.maxLatency }

variable {F : Type} (quotient : Nat → Nat → F)

/-- `quotient` divides two counters as `f64`. -/
def Summary.merge (s : Summary F) (report : WorkerReport) : Summary F where
  toTally := s.toTally.merge report.toTally
  weightedSamples :=
    if report.samples = [] then s.weightedSamples
    else
      s.weightedSamples ++
        report.samples.map (·, quotient report.count report.samples.length)

/-- The requests of connection `index` of `count`, in a batch of `iters`. -/
def share (iters count index : Nat) : Nat :=
  iters / count + if index < iters % count then 1 else 0

/-- What `Workers::start` makes of a connection; stream ids start at 1. -/
def Worker.start (workload : Workload) (streamId : Nat) (connection : Connection) : Worker where
  connection := connection
  workload := workload
  rng := .new (BitVec.ofNat 64 (0x1000 + streamId))
  reservoirRng := .new (BitVec.ofNat 64 (0x2000 + streamId))

/-- What a worker thread may make of a command: any requests may go any way. -/
def Works (checks : Bool) (encode : IpAddr → Bytes) (w : Worker) (requests : Nat)
    (out : Option (Worker × WorkerReport)) : Prop :=
  ∃ trips : List Trip, trips.length = requests ∧
    out = (Worker.run checks encode trips w).map fun w => ({ w with report := {} }, w.report)

variable {n : Nat} (checks : Bool) (encode : IpAddr → Bytes) (workload : Workload)

/-- `n` workers on these connections, in batches of any sizes. -/
def workers (connections : Fin n → Connection) :
    System (Pool n Nat Worker Nat WorkerReport) (Move n) :=
  pool (fun iters i => share iters n i) (fun _ => Works checks encode)
    fun i => Worker.start workload (i + 1) (connections i)

/-- What the owner has made of the reports it received. -/
def summary (P : Pool n Nat Worker Nat WorkerReport) : Summary F :=
  P.received.foldl (fun s x => s.merge quotient x.2) {}

/-- The latencies and the replies of the requests that were answered. -/
def answers : List Trip → List (Except Stop BatchReply) → List (Nat × BatchReply)
  | trip :: trips, .ok reply :: results => (trip.latency, reply) :: answers trips results
  | _ :: trips, .error _ :: results => answers trips results
  | _, _ => []

def failures (results : List (Except Stop BatchReply)) : Nat := results.countP fun r => !r.isOk

/-- What a worker thread has done since its connection was opened. -/
structure History where
  worker : Worker
  trips : List Trip
  ips : List IpAddr
  results : List (Except Stop BatchReply)
  log : List (Nat × Reply)

def History.turns (h : History) : List Turn := List.zipWith Trip.turn h.trips h.ips

/-- The requests are those that the seed and the workload determine, the results are what the calls
of the connection returned, and the log has the latency and the reply of each answered one. -/
structure History.Genuine (checks : Bool) (encode : IpAddr → Bytes) (workload : Workload)
    (streamId : Nat) (c : Connection) (h : History) : Prop where
  drawn : draw workload h.ips.length (.new (BitVec.ofNat 64 (0x1000 + streamId))) 0 =
    some (h.ips, h.worker.rng)
  issued : h.trips.length = h.ips.length
  calls : converse checks encode h.turns c = (h.results, h.worker.connection)
  answers : answers h.trips h.results = h.log.map fun x => (x.1, x.2.counted)

/-- The requests answered on all connections. -/
def combined (histories : Fin n → History) : List (Nat × Reply) :=
  (List.finRange n).flatMap fun i => (histories i).log

variable {checks encode workload} {w w' : Worker} {turns turns' : List Turn} {c c' : Connection}
  {t t' : Tally} {log log' : List (Nat × Reply)} {ips ips' : List IpAddr} {rng rng' : SplitMix64}
  {results results' : List (Except Stop BatchReply)} {cmds : List Nat} {trips trips' : List Trip}
  {reports : List WorkerReport} {logs : List (List (Nat × Reply))} {iters : Nat}

theorem works_total (w : Worker) (requests : Nat) : ∃ out, Works checks encode w requests out :=
  ⟨_, List.replicate requests ⟨[], true, 0⟩, List.length_replicate, rfl⟩

theorem draw_append {m k sequence : Nat} {last : SplitMix64}
    (h : draw workload m rng sequence = some (ips, rng'))
    (h' : draw workload k rng' (sequence + m) = some (ips', last)) :
    draw workload (m + k) rng sequence = some (ips ++ ips', last) := by
  induction m generalizing rng sequence ips with
  | zero =>
    obtain ⟨rfl, rfl⟩ := Prod.mk.inj (Option.some.inj h)
    rw [Nat.zero_add]
    exact h'
  | succ m ih =>
    rw [Nat.succ_add, draw]
    rw [draw] at h
    cases hnext : workload.nextIp rng (sequence + 1) with
    | none => simp [hnext] at h
    | some drawn =>
      obtain ⟨ip, next⟩ := drawn
      simp only [hnext, Option.map_eq_some_iff] at h ⊢
      obtain ⟨⟨rest, rng₁⟩, hrest, hlast⟩ := h
      obtain ⟨rfl, rfl⟩ := Prod.mk.inj hlast
      have hsequence : sequence + (m + 1) = sequence + 1 + m := by omega
      rw [hsequence] at h'
      exact ⟨_, ih hrest h', rfl⟩

/-- A conversation without a panic goes on where it was left. -/
theorem converse_append (h : ∀ p, .error (.panic p) ∉ results)
    (hrun : converse checks encode turns c = (results, c')) (turns' : List Turn) :
    converse checks encode (turns ++ turns') c =
      (results ++ (converse checks encode turns' c').1, (converse checks encode turns' c').2) := by
  induction turns generalizing c results with
  | nil =>
    obtain ⟨rfl, rfl⟩ := Prod.mk.inj hrun
    rfl
  | cons t turns ih =>
    rcases converse_cons checks encode t turns c with ⟨p, -, hpanic⟩ | hcons
    · obtain ⟨rfl, -⟩ := Prod.mk.inj (hrun.symm.trans hpanic)
      exact absurd (List.mem_singleton_self _) (h p)
    · obtain ⟨rfl, rfl⟩ := Prod.mk.inj (hrun.symm.trans hcons)
      have hrest := ih (c := ((c.before t).call checks encode t.request).2)
        (fun p hp => h p (List.mem_cons_of_mem _ hp)) rfl
      rcases converse_cons checks encode t (turns ++ turns') c with ⟨p, hpanic, -⟩ | happend
      · exact absurd (List.mem_cons.mpr (.inl hpanic.symm)) (h p)
      · rw [List.cons_append, happend, hrest]
        rfl

theorem answered_append (h : results.length = turns.length) :
    answered (turns ++ turns') (results ++ results') =
      answered turns results + answered turns' results' := by
  induction turns generalizing results with
  | nil =>
    rw [List.length_eq_zero_iff.mp h]
    simp [answered]
  | cons t turns ih =>
    cases results with
    | nil => cases h
    | cons result results =>
      have hrest : answered (turns ++ turns') (results ++ results') =
          answered turns results + answered turns' results' := ih (Nat.succ.inj h)
      cases result with
      | error e => exact hrest
      | ok reply =>
        simp only [List.cons_append, answered, hrest]
        omega

theorem blocked_append (results results' : List (Except Stop BatchReply)) :
    Client.blocked (results ++ results') = Client.blocked results + Client.blocked results' := by
  induction results with
  | nil => simp [Client.blocked]
  | cons result results ih =>
    cases result with
    | error e => exact ih
    | ok reply =>
      simp only [List.cons_append, Client.blocked, ih]
      omega

theorem answers_append (h : results.length = trips.length) :
    answers (trips ++ trips') (results ++ results') =
      answers trips results ++ answers trips' results' := by
  induction trips generalizing results with
  | nil =>
    rw [List.length_eq_zero_iff.mp h]
    cases trips' <;> cases results' <;> rfl
  | cons trip trips ih =>
    cases results with
    | nil => cases h
    | cons result results =>
      have hrest : answers (trips ++ trips') (results ++ results') =
          answers trips results ++ answers trips' results' := ih (Nat.succ.inj h)
      cases result with
      | error e => exact hrest
      | ok reply => simp only [List.cons_append, answers, hrest]

theorem zipWith_take (trips : List Trip) (ips : List IpAddr) :
    List.zipWith Trip.turn (trips.take ips.length) ips = List.zipWith Trip.turn trips ips := by
  induction trips generalizing ips with
  | nil => simp
  | cons trip trips ih => cases ips <;> simp [ih]

/-- The log of a run is what its calls answered. -/
theorem answers_log {stop : Option Client.Error}
    (h : log.map (·.1) = (trips.take log.length).map Trip.latency) :
    answers trips (log.map (fun x => .ok x.2.counted) ++ stop.toList.map (.error ∘ .err)) =
      log.map fun x => (x.1, x.2.counted) := by
  induction log generalizing trips with
  | nil =>
    cases stop with
    | none => cases trips <;> rfl
    | some e =>
      cases trips with
      | nil => rfl
      | cons trip trips => cases trips <;> rfl
  | cons x log ih =>
    cases trips with
    | nil => cases h
    | cons trip trips =>
      simp only [List.map_cons, List.length_cons, List.take_succ_cons, List.cons.injEq] at h
      simp only [List.map_cons, List.cons_append, answers, ih h.2, h.1]

theorem failures_log (log : List (Nat × Reply)) (stop : Option Client.Error) :
    failures (log.map (fun x => .ok x.2.counted) ++ stop.toList.map (.error ∘ .err)) =
      stop.toList.length := by
  have hlog : failures (log.map fun x => .ok x.2.counted) = 0 := by
    rw [failures, List.countP_map]
    exact List.countP_eq_zero.mpr fun x _ => by simp [Except.isOk, Except.toBool]
  rw [failures, List.countP_append]
  rw [failures] at hlog
  rw [hlog]
  cases stop <;> rfl

/-- One run, and the report taken from it. -/
def Reported (requests : Nat) (r : WorkerReport) : Prop :=
  r.errors = 0 ∧ r.count = requests ∨ r.errors = 1 ∧ r.count < requests

/-- All runs of a worker, as one conversation over its connection, with a log for each run. -/
structure Worked (checks : Bool) (encode : IpAddr → Bytes) (w w' : Worker) (cmds : List Nat)
    (reports : List WorkerReport) (trips : List Trip) (ips : List IpAddr)
    (results : List (Except Stop BatchReply)) (logs : List (List (Nat × Reply))) : Prop where
  fresh : w'.report = {}
  workload : w'.workload = w.workload
  sequence : w'.sequence = w.sequence + ips.length
  drawn : draw w.workload ips.length w.rng w.sequence = some (ips, w'.rng)
  issued : trips.length = ips.length
  calls : converse checks encode (List.zipWith Trip.turn trips ips) w.connection =
    (results, w'.connection)
  alive : ∀ p, .error (.panic p) ∉ results
  length : results.length = ips.length
  answers : answers trips results = logs.flatten.map fun x => (x.1, x.2.counted)
  requests : ips.length = (reports.map (·.count)).sum + (reports.map (·.errors)).sum
  count : answered (List.zipWith Trip.turn trips ips) results = (reports.map (·.count)).sum
  blocked : Client.blocked results = (reports.map (·.blocked)).sum
  errors : failures results = (reports.map (·.errors)).sum
  reported : List.Forall₂ Reported cmds reports
  described : List.Forall₂ (fun r log => r.Describes log) reports logs

theorem worked_refl (hfresh : w.report = {}) :
    Worked checks encode w w [] [] [] [] [] [] where
  fresh := hfresh
  workload := rfl
  sequence := rfl
  drawn := rfl
  issued := rfl
  calls := rfl
  alive := by simp
  length := rfl
  answers := rfl
  requests := rfl
  count := rfl
  blocked := rfl
  errors := rfl
  reported := .nil
  described := .nil

/-- One run more. -/
theorem Worked.run {w₁ : Worker} (h : Worked checks encode w w₁ cmds reports trips ips results logs)
    (hrun : Worker.run checks encode trips' w₁ = some w') :
    ∃ trips ips results logs, Worked checks encode w { w' with report := {} }
      (cmds ++ [trips'.length]) (reports ++ [w'.report]) trips ips results logs := by
  obtain ⟨ips', log, stop, hran, hdescribes⟩ := run_ran hrun
  have hlog : w'.report.Describes log := hdescribes [] (h.fresh ▸ describes_fresh)
  have hcount := hlog.tally.count
  have herrors : w'.report.errors = stop.toList.length := by
    rw [hran.errors, h.fresh]
    exact Nat.zero_add _
  have hlength := hran.length
  have hrequests := hran.requests
  have hissued : (trips'.take ips'.length).length = ips'.length :=
    List.length_take_of_le (by omega)
  have hturns : List.zipWith Trip.turn (trips ++ trips'.take ips'.length) (ips ++ ips') =
      List.zipWith Trip.turn trips ips ++ List.zipWith Trip.turn trips' ips' := by
    rw [List.zipWith_append h.issued, zipWith_take]
  have hresults : results.length = (List.zipWith Trip.turn trips ips).length := by
    rw [List.length_zipWith, h.issued, Nat.min_self, h.length]
  have hlatencies : log.map (·.1) =
      ((trips'.take ips'.length).take log.length).map Trip.latency := by
    rw [List.take_take, Nat.min_eq_left (by omega)]
    exact hran.latencies
  have hdrawn := hran.drawn
  rw [h.workload, h.sequence] at hdrawn
  refine ⟨trips ++ trips'.take ips'.length, ips ++ ips',
    results ++ (log.map (fun x => .ok x.2.counted) ++ stop.toList.map (.error ∘ .err)),
    logs ++ [log], ?_⟩
  constructor
  case fresh => rfl
  case workload => exact hran.workload.trans h.workload
  case sequence =>
    simp only [hran.sequence, h.sequence, List.length_append]
    omega
  case drawn =>
    rw [List.length_append]
    exact draw_append h.drawn hdrawn
  case issued => rw [List.length_append, List.length_append, h.issued, hissued]
  case calls => rw [hturns, converse_append h.alive h.calls, hran.calls]
  case alive =>
    intro p hp
    rcases List.mem_append.mp hp with hp | hp
    · exact h.alive p hp
    · revert hp
      cases stop <;> simp
  case length =>
    simp only [List.length_append, List.length_map, h.length]
    omega
  case answers =>
    rw [answers_append (h.length.trans h.issued.symm), h.answers, answers_log hlatencies]
    simp
  case requests =>
    simp only [List.length_append, List.map_append, List.sum_append, List.map_cons, List.map_nil,
      List.sum_singleton, h.requests, hrequests, hcount, herrors]
    omega
  case count =>
    rw [hturns, answered_append hresults, h.count, answered_checks hran.asked, List.map_append,
      List.sum_append, ← hcount]
    · simp
    · rw [List.length_zipWith]
      omega
  case blocked =>
    rw [blocked_append, h.blocked, blocked_results, List.map_append, List.sum_append,
      ← hlog.tally.blocked]
    simp
  case errors =>
    rw [failures, List.countP_append, ← failures, ← failures, h.errors, failures_log,
      List.map_append, List.sum_append, ← herrors]
    simp
  case reported =>
    refine List.rel_append h.reported (.cons ?_ .nil)
    cases hstop : stop with
    | none => exact .inl ⟨by simp [herrors, hstop], hcount.trans (hran.ended hstop)⟩
    | some e =>
      rw [hstop] at herrors hlength
      refine .inr ⟨herrors, ?_⟩
      rw [hcount]
      exact hlength
  case described => exact List.rel_append h.described (.cons hlog .nil)

theorem worked_of_serial (h : Serial (Works checks encode) w cmds reports w')
    (hfresh : w.report = {}) :
    ∃ trips ips results logs, Worked checks encode w w' cmds reports trips ips results logs := by
  induction h with
  | nil => exact ⟨[], [], [], [], worked_refl hfresh⟩
  | @snoc w₁ w₂ cmds reports requests r hserial hwork ih =>
    obtain ⟨trips, ips, results, logs, hworked⟩ := ih
    obtain ⟨trips', rfl, hout⟩ := hwork
    obtain ⟨w', hrun, hend⟩ := Option.map_eq_some_iff.mp hout.symm
    obtain ⟨rfl, rfl⟩ := Prod.mk.inj hend
    exact hworked.run hrun

theorem Tally.Describes.merge (h : t.Describes log) (h' : t'.Describes log') :
    (t.merge t').Describes (log ++ log') := by
  have hleast : Least ((log ++ log').map (·.1)) (minOption t.minLatency t'.minLatency) := by
    rw [List.map_append]
    exact h.minLatency.append h'.minLatency
  have hgreatest : {x | x = 0 ∨ x ∈ (log ++ log').map (·.1)} =
      {x | x = 0 ∨ x ∈ log.map (·.1)} ∪ {x | x = 0 ∨ x ∈ log'.map (·.1)} := by
    ext x
    simp only [List.map_append, List.mem_append, Set.mem_ofPred_eq, Set.mem_union]
    tauto
  refine ⟨?_, ?_, ?_, ?_, ?_, ?_, ?_⟩
  · simp [Tally.merge, h.count, h'.count]
  · simp [Tally.merge, h.blocked, h'.blocked]
  · simp [Tally.merge, h.tx, h'.tx]
  · simp [Tally.merge, h.rx, h'.rx]
  · simp [Tally.merge, h.totalLatency, h'.totalLatency]
  · cases hm : t.minLatency <;> cases hm' : t'.minLatency <;>
      simpa [Tally.merge, hm, hm', minOption] using hleast
  · rw [hgreatest]
    exact h.maxLatency.union h'.maxLatency

theorem foldl_add {S R : Type} {merge : S → R → S} (f : S → Nat) (g : R → Nat)
    (h : ∀ s r, f (merge s r) = f s + g r) (l : List R) (s : S) :
    f (l.foldl merge s) = f s + (l.map g).sum := by
  induction l generalizing s with
  | nil => rfl
  | cons r l ih =>
    rw [List.foldl_cons, ih, h, List.map_cons, List.sum_cons]
    omega

/-- A summary is of one log, and samples that log. -/
structure Summary.Samples (s : Summary F) (log : List (Nat × Reply)) : Prop where
  describes : s.toTally.Describes log
  /-- The samples are the latencies of different requests. -/
  sampled : (s.weightedSamples.map (·.1)).Subperm (log.map (·.1))
  some : s.weightedSamples = [] → log = []

theorem samples_nil : ({} : Summary F).Samples [] :=
  ⟨describes_nil, List.Subperm.refl _, fun _ => rfl⟩

/-- The order of the log does not matter. -/
theorem Tally.Describes.perm (h : t.Describes log) (hperm : log.Perm log') :
    t.Describes log' where
  count := h.count.trans hperm.length_eq
  blocked := h.blocked.trans (hperm.countP_eq _)
  tx := h.tx.trans (hperm.map _).sum_nat
  rx := h.rx.trans (hperm.map _).sum_nat
  totalLatency := h.totalLatency.trans (hperm.map _).sum_nat
  minLatency := by
    have hleast := h.minLatency
    have hmem : ∀ x, x ∈ log.map (·.1) ↔ x ∈ log'.map (·.1) := fun x => (hperm.map _).mem_iff
    cases hm : t.minLatency with
    | none =>
      rw [hm] at hleast
      have hnil : log.map (·.1) = [] := hleast
      exact List.eq_nil_iff_forall_not_mem.mpr fun x hx => by simpa [hnil] using (hmem x).mpr hx
    | some m =>
      rw [hm] at hleast
      simpa only [Least, hmem] using hleast
  maxLatency := by
    have hmem : ∀ x, x ∈ log.map (·.1) ↔ x ∈ log'.map (·.1) := fun x => (hperm.map _).mem_iff
    simpa only [hmem] using h.maxLatency

theorem Summary.Samples.perm {s : Summary F} (h : s.Samples log) (hperm : log.Perm log') :
    s.Samples log' :=
  ⟨h.describes.perm hperm, h.sampled.trans (hperm.map _).subperm,
    fun hempty => (h.some hempty ▸ hperm).nil_eq.symm⟩

theorem WorkerReport.Describes.eq_nil {r : WorkerReport} (h : r.Describes log)
    (hempty : r.samples = []) : log = [] := by
  have hfull := h.full
  rw [hempty] at hfull
  refine List.length_eq_zero_iff.mp ?_
  simp only [List.length_nil, RESERVOIR] at hfull
  omega

theorem Summary.Samples.merge {quotient : Nat → Nat → F} {s : Summary F} {r : WorkerReport}
    (h : s.Samples log) (hr : r.Describes log') : (s.merge quotient r).Samples (log ++ log') := by
  have hmerged := h.describes.merge hr.tally
  by_cases hempty : r.samples = []
  · refine ⟨hmerged, ?_, ?_⟩ <;> simp only [Summary.merge, hempty, if_true]
    · rw [List.map_append]
      exact h.sampled.trans (List.sublist_append_left ..).subperm
    · intro hnone
      rw [h.some hnone, hr.eq_nil hempty]
      rfl
  · refine ⟨hmerged, ?_, ?_⟩ <;> simp only [Summary.merge, if_neg hempty]
    · rw [List.map_append, List.map_append, List.map_map]
      refine h.sampled.append ?_
      simpa only [Function.comp_def, List.map_id'] using hr.samples
    · intro hnone
      exact absurd (List.map_eq_nil_iff.mp (List.append_eq_nil_iff.mp hnone).2) hempty

theorem samples_foldl {quotient : Nat → Nat → F} {l : List (Fin n × WorkerReport)}
    {s : Summary F} (h : s.Samples log)
    (hl : List.Forall₂ (fun x log => x.2.Describes log) l logs) :
    (l.foldl (fun s x => s.merge quotient x.2) s).Samples (log ++ logs.flatten) := by
  induction hl generalizing s log with
  | nil => simpa using h
  | cons hx hrest ih =>
    rw [List.foldl_cons, List.flatten_cons, ← List.append_assoc]
    exact ih (h.merge hx)

theorem reported_sum (h : List.Forall₂ Reported cmds reports) :
    (reports.map (·.count)).sum + (reports.map (·.errors)).sum ≤ cmds.sum ∧
      ((reports.map (·.errors)).sum = 0 → (reports.map (·.count)).sum = cmds.sum) := by
  induction h with
  | nil => simp
  | cons hr hrest ih =>
    simp only [List.map_cons, List.sum_cons]
    rcases hr with ⟨herrors, hcount⟩ | ⟨herrors, hcount⟩
    · constructor
      · omega
      · intro hzero
        have hrest := ih.2 (by omega)
        omega
    · omega

variable {P : Pool n Nat Worker Nat WorkerReport} {quotient : Nat → Nat → F}
  {connections : Fin n → Connection} {i : Fin n}

/-- The runs of each worker, once no batch is under way. -/
theorem worked_ready (h : (workers checks encode workload connections).Reachable P)
    (howner : P.owner = .ready) (i : Fin n) :
    ∃ w trips ips results logs, P.threads i = .idle w ∧
      Worked checks encode (Worker.start workload (i + 1) (connections i)) w
        (P.rounds.map fun iters => share iters n i) (ScatterGather.entriesOf i P.received) trips
          ips results logs := by
  obtain ⟨⟨w, hidle, hserial⟩, -, -⟩ := (inv_reachable h).ready howner i
  obtain ⟨trips, ips, results, logs, hworked⟩ := worked_of_serial hserial rfl
  exact ⟨w, trips, ips, results, logs, hidle, hworked⟩

/-- The summary is of the logs of all connections, in whatever order the reports came. -/
theorem samples_combined (quotient : Nat → Nat → F) {logs : Fin n → List (List (Nat × Reply))}
    (h : ∀ i, List.Forall₂ (fun (r : WorkerReport) log => r.Describes log)
      (ScatterGather.entriesOf i P.received) (logs i)) :
    (summary quotient P).Samples ((List.finRange n).flatMap fun i => (logs i).flatten) := by
  obtain ⟨all, hall, hperm⟩ := forall₂_entriesOf P.received logs h
  have hsamples : (summary quotient P).Samples all.flatten := samples_foldl samples_nil hall
  have hflatten : ((List.finRange n).flatMap logs).flatten =
      (List.finRange n).flatMap fun i => (logs i).flatten := by
    rw [← List.flatMap_id, List.flatMap_assoc]
    simp only [List.flatMap_id]
  exact hsamples.perm (hflatten ▸ hperm.symm.flatten)

theorem summary_count : (summary quotient P).count = (P.received.map (·.2.count)).sum :=
  (foldl_add (fun s : Summary F => s.count) (fun x : Fin n × WorkerReport => x.2.count)
    (fun _ _ => rfl) P.received {}).trans (Nat.zero_add _)

/-- The start of a batch of `iters` requests. -/
def batch (iters : Nat) (P : Pool n Nat Worker Nat WorkerReport) :
    Pool n Nat Worker Nat WorkerReport :=
  { P with owner := .round (commands fun i => share iters n i) n, rounds := P.rounds ++ [iters] }

theorem batch_reachable (hreach : (workers checks encode workload connections).Reachable P)
    (howner : P.owner = .ready) (iters : Nat) :
    (workers checks encode workload connections).Reachable (batch iters P) :=
  hreach.step (.start iters howner)

/-- The histories behind the runs, and the summary of their logs. -/
theorem histories_ready (quotient : Nat → Nat → F)
    (hreach : (workers checks encode workload connections).Reachable P)
    (howner : P.owner = .ready) :
    ∃ (histories : Fin n → History) (logs : Fin n → List (List (Nat × Reply))),
      (∀ i, P.threads i = .idle (histories i).worker) ∧
      (∀ i, (histories i).Genuine checks encode workload (i + 1) (connections i)) ∧
      (summary quotient P).Samples (combined histories) ∧
      ∀ i : Fin n, Worked checks encode (Worker.start workload (i + 1) (connections i))
        (histories i).worker (P.rounds.map fun iters => share iters n i)
        (ScatterGather.entriesOf i P.received) (histories i).trips (histories i).ips
        (histories i).results (logs i) := by
  choose w trips ips results logs hidle hworked using worked_ready hreach howner
  refine ⟨fun i => ⟨w i, trips i, ips i, results i, (logs i).flatten⟩, logs, hidle, ?_,
    samples_combined quotient fun i => (hworked i).described, hworked⟩
  intro i
  exact ⟨(hworked i).drawn, (hworked i).issued, (hworked i).calls, (hworked i).answers⟩

/-- The acknowledgements behind the requests of one connection. -/
theorem Worked.distinct {hello : Bytes} {stream : TcpStream} {streamId : UInt64}
    (h : Worked checks encode (Worker.start workload n c) w cmds reports trips ips results logs)
    (hopened : Connection.connect hello stream streamId = .ok c) (hbound : 1 + cmds.sum < 2 ^ 64) :
    ∃ acks, Distinct checks c w.connection (arrivals (List.zipWith Trip.turn trips ips) c) acks ∧
      acks.length = (reports.map (·.count)).sum ∧
      acks.countP (·.2) = (reports.map (·.blocked)).sum := by
  have hone : c.nextFrameId.toNat = 1 := (connect_ok hopened).next
  have hasked := asked_zipWith h.issued.symm.le
  have hframes := frames_checks hasked
  have hlength : (List.zipWith Trip.turn trips ips).length = ips.length := by
    simpa using congrArg List.length hasked
  have hrequests := h.requests
  have hsum := (reported_sum h.reported).1
  obtain ⟨acks, hdistinct, hanswered, hblocked⟩ := distinct_converse checks encode
    (c := c) (valid_of_checks hasked) (by omega)
  have hcalls : converse checks encode (List.zipWith Trip.turn trips ips) c =
      (results, w.connection) := h.calls
  rw [hcalls] at hdistinct hanswered hblocked
  exact ⟨acks, hdistinct, hanswered.trans h.count, hblocked.trans h.blocked⟩

/-- One connection, and a batch of two requests: one is answered, one is not. -/
theorem timeout_reached :
    ∃ (c : Connection) (P : Pool 1 Nat Worker Nat WorkerReport) (r : WorkerReport),
      Connection.connect [] { incoming := wire [[FRAME_AGENT_HELLO, 0, 0, 0, 1, 0, 0]] } 1 = .ok c ∧
      (workers false (fun _ => []) (.fixed [.v4 0xC0000201]) fun _ => c).Reachable P ∧
      P.owner = .ready ∧ P.rounds = [2] ∧ P.received = [(0, r)] ∧ r.count = 1 := by
  obtain ⟨c, hconnect⟩ : ∃ c, Connection.connect []
      { incoming := wire [[FRAME_AGENT_HELLO, 0, 0, 0, 1, 0, 0]] } 1 = .ok c := ⟨_, rfl⟩
  obtain ⟨w, r, hwork, hcount⟩ : ∃ w r, Works false (fun _ => [])
      (Worker.start (.fixed [.v4 0xC0000201]) 1 c) 2 (some (w, r)) ∧ r.count = 1 := by
    obtain rfl := Except.ok.inj hconnect
    exact ⟨_, _, ⟨[⟨wire [encodedAck 1 1 true], true, 250000⟩, ⟨[], true, 5000000000⟩], rfl, rfl⟩,
      rfl⟩
  let P : Pool 1 Nat Worker Nat WorkerReport := ⟨.ready, fun _ => none,
    fun i => .idle (Worker.start (.fixed [.v4 0xC0000201]) (i + 1) c), [], [], []⟩
  obtain ⟨Q, hrun, hend⟩ : ∃ Q,
      (workers false (fun _ => []) (.fixed [.v4 0xC0000201]) fun _ => c).Run (batch 2 P)
        [.owner, .worker 0, .worker 0, .worker 0, .owner, .owner] Q ∧
      Q.owner = .ready ∧ Q.rounds = [2] ∧ Q.received = [(0, r)] :=
    ⟨_, .head (Step.send rfl rfl (by simp [batch, P])) <| .head (Step.take rfl rfl) <|
      .head (Step.finish rfl hwork) <| .head (Step.report rfl) <| .head (Step.receive rfl rfl) <|
      .head (Step.done rfl) .refl, rfl, rfl, rfl⟩
  have hreach := (batch_reachable (P := P) (.initial rfl) rfl 2).run hrun
  exact ⟨c, Q, r, hconnect, hreach, hend.1, hend.2.1, hend.2.2, hcount⟩

end IpReputation.Bench
