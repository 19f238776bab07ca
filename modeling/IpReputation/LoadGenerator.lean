import IpReputation.Exchange
import IpReputation.Workload

/-! `benches/spoe/main.rs`: a worker of the load generator and the report of its run. -/
namespace IpReputation.Bench

open Client

/-- Latency samples kept per worker. -/
def RESERVOIR : Nat := 100000

/-- What reports and their summary count alike; durations are in nanoseconds. -/
structure Tally where
  count : Nat := 0
  blocked : Nat := 0
  errors : Nat := 0
  /-- The text shows the error and the number of the request. -/
  firstError : Option (Client.Error × Nat) := none
  tx : Nat := 0
  rx : Nat := 0
  totalLatency : Nat := 0
  minLatency : Option Nat := none
  maxLatency : Nat := 0

/-- Per-worker statistics for one `run`. -/
structure WorkerReport extends Tally where
  /-- Uniform reservoir of individual request latencies. -/
  samples : List Nat := []

structure Worker where
  connection : Connection
  workload : Workload
  rng : SplitMix64
  reservoirRng : SplitMix64
  sequence : Nat := 0
  report : WorkerReport := {}

/-- Everything of a report but its samples, after one more request. -/
def Tally.record (latency : Nat) (reply : Reply) (t : Tally) : Tally :=
  { t with
    count := t.count + 1
    blocked := t.blocked + reply.blocked.toNat
    tx := t.tx + reply.tx
    rx := t.rx + reply.rx
    totalLatency := t.totalLatency + latency
    minLatency := some (t.minLatency.elim latency fun m => min m latency)
    maxLatency := max t.maxLatency latency }

def Worker.record (latency : Nat) (reply : Reply) (w : Worker) : Worker :=
  let report := { w.report with toTally := w.report.toTally.record latency reply }
  if report.samples.length < RESERVOIR then
    { w with report := { report with samples := report.samples ++ [latency] } }
  else
    let (index, reservoirRng) := w.reservoirRng.below report.count
    { w with
      reservoirRng
      report :=
        if index < RESERVOIR then { report with samples := report.samples.set index latency }
        else report }

/-- What happens while one request is out: what arrives, whether the write works, how long it
takes. -/
structure Trip where
  arriving : Bytes
  writable : Bool := true
  latency : Nat

/-- A request that fails is the last one of its run. -/
def Worker.failed (e : Client.Error) (w : Worker) : Worker :=
  { w with
    report := { w.report with
      errors := w.report.errors + 1
      firstError := w.report.firstError <|> some (e, w.sequence) } }

def Trip.turn (trip : Trip) (ip : IpAddr) : Turn := ⟨.check ip, trip.arriving, trip.writable⟩

/-- `run`, for as many requests as there are trips; `none` when the thread panics. -/
def Worker.run (checks : Bool) (encode : IpAddr → Bytes) : List Trip → Worker → Option Worker
  | [], w => some w
  | trip :: trips, w =>
    let w := { w with sequence := w.sequence + 1 }
    match w.workload.nextIp w.rng w.sequence with
    | none => none
    | some (ip, rng) =>
      let w := { w with rng }
      match (w.connection.before (trip.turn ip)).check checks encode ip with
      | (.ok reply, connection) =>
        Worker.run checks encode trips ({ w with connection }.record trip.latency reply)
      | (.error (.err e), connection) => some ({ w with connection }.failed e)
      | (.error (.panic _), _) => none

/-- The least of these, if any. -/
def Least (lats : List Nat) : Option Nat → Prop
  | none => lats = []
  | some m => IsLeast {x | x ∈ lats} m

/-- The tally of the requests that were answered, with their latencies. -/
structure Tally.Describes (log : List (Nat × Reply)) (t : Tally) : Prop where
  count : t.count = log.length
  blocked : t.blocked = log.countP (·.2.blocked)
  tx : t.tx = (log.map (·.2.tx)).sum
  rx : t.rx = (log.map (·.2.rx)).sum
  totalLatency : t.totalLatency = (log.map (·.1)).sum
  minLatency : Least (log.map (·.1)) t.minLatency
  maxLatency : IsGreatest {x | x = 0 ∨ x ∈ log.map (·.1)} t.maxLatency

/-- The samples are the latencies of different requests, as many as the reservoir holds. -/
structure WorkerReport.Describes (log : List (Nat × Reply)) (r : WorkerReport) : Prop where
  tally : r.toTally.Describes log
  samples : r.samples.Subperm (log.map (·.1))
  full : r.samples.length = min log.length RESERVOIR

variable {checks : Bool} {encode : IpAddr → Bytes} {log log' : List (Nat × Reply)} {t t' : Tally}
  {r : WorkerReport} {w w' : Worker} {latency : Nat} {reply : Reply} {trips : List Trip}
  {lats lats' : List Nat} {m m' : Option Nat} {e : Client.Error}

/-- The least of two lists together. -/
def minOption : Option Nat → Option Nat → Option Nat
  | none, m' => m'
  | some m, none => some m
  | some m, some m' => some (min m m')

theorem Least.append (h : Least lats m) (h' : Least lats' m') :
    Least (lats ++ lats') (minOption m m') := by
  have hunion : {x | x ∈ lats ++ lats'} = {x | x ∈ lats} ∪ {x | x ∈ lats'} := by
    ext x
    simp
  cases m with
  | none =>
    obtain rfl : lats = [] := h
    exact h'
  | some m =>
    cases m' with
    | none =>
      obtain rfl : lats' = [] := h'
      rw [List.append_nil]
      exact h
    | some m' =>
      have hboth : IsLeast {x | x ∈ lats ++ lats'} (min m m') := by
        rw [hunion]
        exact IsLeast.union h h'
      exact hboth

theorem describes_nil : Tally.Describes [] {} :=
  ⟨rfl, rfl, rfl, rfl, rfl, rfl, by simp [IsGreatest, upperBounds]⟩

/-- The empty report is that of no requests. -/
theorem describes_fresh : ({} : WorkerReport).Describes [] :=
  ⟨describes_nil, List.Subperm.refl _, rfl⟩

theorem Tally.Describes.record (h : t.Describes log) (latency : Nat) (reply : Reply) :
    (t.record latency reply).Describes (log ++ [(latency, reply)]) := by
  have hleast : Least (log.map (·.1) ++ [latency]) (minOption t.minLatency (some latency)) := by
    apply h.minLatency.append
    simp [Least, IsLeast, lowerBounds]
  have hgreatest : {x | x = 0 ∨ x ∈ (log ++ [(latency, reply)]).map (·.1)} =
      {x | x = 0 ∨ x ∈ log.map (·.1)} ∪ {latency} := by
    ext x
    simp only [List.map_append, List.map_cons, List.map_nil, List.mem_append,
      List.mem_singleton, Set.mem_ofPred_eq, Set.mem_union, Set.mem_singleton_iff]
    tauto
  refine ⟨?_, ?_, ?_, ?_, ?_, ?_, ?_⟩
  · simp [Tally.record, h.count]
  · simp [Tally.record, h.blocked, List.countP_append, List.countP_cons, Bool.toNat, cond_eq_ite]
  · simp [Tally.record, h.tx]
  · simp [Tally.record, h.rx]
  · simp [Tally.record, h.totalLatency]
  · rw [List.map_append]
    cases hm : t.minLatency <;> simpa [Tally.record, hm, minOption] using hleast
  · rw [hgreatest]
    exact h.maxLatency.union isGreatest_singleton

/-- A sample gives way to the newest latency. -/
theorem subperm_set {samples : List Nat} {index : Nat} (h : samples.Subperm lats) (latency : Nat) :
    (samples.set index latency).Subperm (lats ++ [latency]) := by
  by_cases hindex : index < samples.length
  · have hset : (samples.set index latency).Perm (latency :: samples.eraseIdx index) :=
      List.set_perm_cons_eraseIdx hindex latency
    have herased : (samples.eraseIdx index).Subperm lats :=
      (List.eraseIdx_sublist ..).subperm.trans h
    have hcons : (latency :: samples.eraseIdx index).Subperm (latency :: lats) :=
      (List.subperm_cons latency).mpr herased
    exact (hset.subperm.trans hcons).trans (List.perm_append_singleton latency lats).symm.subperm
  · rw [List.set_eq_of_length_le (by omega)]
    exact h.trans (List.sublist_append_left ..).subperm

theorem WorkerReport.Describes.record (h : w.report.Describes log) (latency : Nat)
    (reply : Reply) : (w.record latency reply).report.Describes (log ++ [(latency, reply)]) := by
  have htally := h.tally.record latency reply
  have hfull := h.full
  simp only [Worker.record]
  split
  · rename_i hroom
    refine ⟨htally, ?_, ?_⟩
    · rw [List.map_append]
      exact (List.subperm_append_right _).mpr h.samples
    · simp only [List.length_append, List.length_singleton]
      omega
  · rename_i hroom
    split
    · refine ⟨htally, ?_, ?_⟩
      · rw [List.map_append]
        exact subperm_set h.samples latency
      · simp only [List.length_set, List.length_append, List.length_singleton]
        omega
    · refine ⟨htally, ?_, ?_⟩
      · rw [List.map_append]
        exact h.samples.trans (List.sublist_append_left ..).subperm
      · simp only [List.length_append, List.length_singleton]
        omega

/-- A failure leaves the answered requests as they are. -/
theorem WorkerReport.Describes.failed (h : w.report.Describes log) (e : Client.Error) :
    (w.failed e).report.Describes log := by
  obtain ⟨htally, hsamples, hfull⟩ := h
  exact ⟨⟨htally.count, htally.blocked, htally.tx, htally.rx, htally.totalLatency,
    htally.minLatency, htally.maxLatency⟩, hsamples, hfull⟩

/-- The addresses of the next requests, whatever is answered. -/
def draw (workload : Workload) :
    (n : Nat) → SplitMix64 → (sequence : Nat) → Option (List IpAddr × SplitMix64)
  | 0, rng, _ => some ([], rng)
  | n + 1, rng, sequence =>
    match workload.nextIp rng (sequence + 1) with
    | none => none
    | some (ip, rng) => (draw workload n rng (sequence + 1)).map (·.map (ip :: ·) id)

/-- A run as calls of its connection: those that were answered, then at most one that was not. The
log has the latency and the reply of each answered one. -/
structure Ran (checks : Bool) (encode : IpAddr → Bytes) (trips : List Trip) (w w' : Worker)
    (ips : List IpAddr) (log : List (Nat × Reply)) (stop : Option Client.Error) : Prop where
  requests : ips.length = log.length + stop.toList.length
  drawn : draw w.workload ips.length w.rng w.sequence = some (ips, w'.rng)
  calls : converse checks encode (List.zipWith Trip.turn trips ips) w.connection =
    (log.map (fun x => .ok x.2.counted) ++ stop.toList.map (.error ∘ .err), w'.connection)
  latencies : log.map (·.1) = (trips.take log.length).map Trip.latency
  sequence : w'.sequence = w.sequence + ips.length
  workload : w'.workload = w.workload
  errors : w'.report.errors = w.report.errors + stop.toList.length
  firstError : w'.report.firstError = (w.report.firstError <|> stop.map (·, w'.sequence))
  length : log.length + stop.toList.length ≤ trips.length
  ended : stop = none → log.length = trips.length

@[simp] theorem record_connection : (w.record latency reply).connection = w.connection := by
  simp only [Worker.record]
  split <;> rfl

@[simp] theorem record_workload : (w.record latency reply).workload = w.workload := by
  simp only [Worker.record]
  split <;> rfl

@[simp] theorem record_rng : (w.record latency reply).rng = w.rng := by
  simp only [Worker.record]
  split <;> rfl

@[simp] theorem record_sequence : (w.record latency reply).sequence = w.sequence := by
  simp only [Worker.record]
  split <;> rfl

@[simp] theorem record_errors : (w.record latency reply).report.errors = w.report.errors := by
  simp only [Worker.record]
  split
  · rfl
  · split <;> rfl

@[simp] theorem record_firstError :
    (w.record latency reply).report.firstError = w.report.firstError := by
  simp only [Worker.record]
  split
  · rfl
  · split <;> rfl

/-- The first request of a run and what follows from its outcome. -/
theorem run_cons {trip : Trip} (h : Worker.run checks encode (trip :: trips) w = some w') :
    ∃ ip rng connection, w.workload.nextIp w.rng (w.sequence + 1) = some (ip, rng) ∧
      ((∃ reply, (w.connection.before (trip.turn ip)).check checks encode ip =
          (.ok reply, connection) ∧
        Worker.run checks encode trips ({ w with
          sequence := w.sequence + 1, rng, connection }.record trip.latency reply) = some w') ∨
      ∃ e, (w.connection.before (trip.turn ip)).check checks encode ip =
          (.error (.err e), connection) ∧
        w' = { w with sequence := w.sequence + 1, rng, connection }.failed e) := by
  cases hnext : w.workload.nextIp w.rng (w.sequence + 1) with
  | none => simp [Worker.run, hnext] at h
  | some drawn =>
    obtain ⟨ip, rng⟩ := drawn
    simp only [Worker.run, hnext] at h
    rcases hcheck : (w.connection.before (trip.turn ip)).check checks encode ip with
      ⟨(p | e) | reply, connection⟩
    · simp [hcheck] at h
    · simp only [hcheck, Option.some.injEq] at h
      exact ⟨ip, rng, connection, rfl, .inr ⟨e, hcheck, h.symm⟩⟩
    · simp only [hcheck] at h
      exact ⟨ip, rng, connection, rfl, .inl ⟨reply, hcheck, h⟩⟩

theorem converse_answered {c c' : Connection} {t : Turn} {ip : IpAddr} (turns : List Turn)
    (ht : t.request = .check ip) (h : (c.before t).check checks encode ip = (.ok reply, c')) :
    converse checks encode (t :: turns) c =
      (.ok reply.counted :: (converse checks encode turns c').1,
        (converse checks encode turns c').2) := by
  simp only [converse, Connection.call, ht, h]

theorem converse_failed {c c' : Connection} {t : Turn} {ip : IpAddr}
    (ht : t.request = .check ip) (h : (c.before t).check checks encode ip = (.error (.err e), c')) :
    converse checks encode [t] c = ([.error (.err e)], c') := by
  simp only [converse, Connection.call, ht, h]

/-- What a run does, request by request, and what it adds to its report. -/
theorem run_ran (h : Worker.run checks encode trips w = some w') :
    ∃ ips new stop, Ran checks encode trips w w' ips new stop ∧
      ∀ log, w.report.Describes log → w'.report.Describes (log ++ new) := by
  induction trips generalizing w with
  | nil =>
    obtain rfl := Option.some.inj h
    refine ⟨[], [], none, ⟨rfl, rfl, rfl, rfl, rfl, rfl, rfl, by simp, le_rfl, by simp⟩, ?_⟩
    intro log hlog
    rwa [List.append_nil]
  | cons trip trips ih =>
    obtain ⟨ip, rng, connection, hnext, ⟨reply, hcheck, hrest⟩ | ⟨e, hcheck, rfl⟩⟩ := run_cons h
    · obtain ⟨ips, new, stop, hran, hdescribes⟩ := ih hrest
      refine ⟨ip :: ips, (trip.latency, reply) :: new, stop, ?_, ?_⟩
      · have hcalls := hran.calls
        have hdrawn := hran.drawn
        have hsequence := hran.sequence
        have herrors := hran.errors
        have hfirst := hran.firstError
        have hlength := hran.length
        simp only [record_connection, record_workload, record_rng, record_sequence, record_errors,
          record_firstError] at hcalls hdrawn hsequence herrors hfirst
        refine ⟨?_, ?_, ?_, ?_, ?_, ?_, herrors, hfirst, ?_, ?_⟩
        · simp only [List.length_cons, hran.requests]
          omega
        · simp only [List.length_cons, draw, hnext, hdrawn]
          rfl
        · rw [List.zipWith_cons_cons, converse_answered _ rfl hcheck, hcalls]
          rfl
        · simp only [List.map_cons, List.length_cons, List.take_succ_cons, hran.latencies]
        · simp only [hsequence, List.length_cons]
          omega
        · rw [hran.workload, record_workload]
        · simp only [List.length_cons]
          omega
        · intro hstop
          simp [hran.ended hstop]
      · intro log hlog
        have hnow : WorkerReport.Describes log
            { w with sequence := w.sequence + 1, rng, connection }.report := hlog
        have hnew := hdescribes _ (hnow.record trip.latency reply)
        rwa [List.append_assoc] at hnew
    · refine ⟨[ip], [], some e, ?_, ?_⟩
      · refine ⟨rfl, ?_, ?_, rfl, rfl, rfl, rfl, rfl, by simp, by simp⟩
        · simp only [List.length_singleton, draw, hnext]
          rfl
        · rw [List.zipWith_cons_cons, List.zipWith_nil_right]
          exact converse_failed rfl hcheck
      · intro log hlog
        rw [List.append_nil]
        have hnow : WorkerReport.Describes log
            { w with sequence := w.sequence + 1, rng, connection }.report := hlog
        exact hnow.failed e

variable {turns : List Turn} {ips : List IpAddr} {stop : Option Client.Error}

theorem asked_zipWith (h : ips.length ≤ trips.length) :
    (List.zipWith Trip.turn trips ips).map Turn.request = ips.map .check := by
  induction trips generalizing ips with
  | nil =>
    obtain rfl := List.length_eq_zero_iff.mp (Nat.le_zero.mp h)
    rfl
  | cons trip trips ih =>
    cases ips with
    | nil => rfl
    | cons ip ips =>
      rw [List.zipWith_cons_cons, List.map_cons, List.map_cons, ih (Nat.le_of_succ_le_succ h)]
      rfl

theorem Ran.asked (h : Ran checks encode trips w w' ips log stop) :
    (List.zipWith Trip.turn trips ips).map Turn.request = ips.map .check :=
  asked_zipWith (by rw [h.requests]; exact h.length)

theorem valid_of_checks (h : turns.map Turn.request = ips.map .check) :
    ∀ t ∈ turns, t.request.Valid := by
  intro t ht
  have hrequest := List.mem_map_of_mem (f := Turn.request) ht
  rw [h] at hrequest
  obtain ⟨ip, -, hip⟩ := List.mem_map.mp hrequest
  rw [← hip]
  exact ⟨by simp [Request.ips], by simp [Request.ips]⟩

theorem frames_checks (h : turns.map Turn.request = ips.map .check) :
    frames turns = turns.length := by
  induction turns generalizing ips with
  | nil => rfl
  | cons t turns ih =>
    cases ips with
    | nil => cases h
    | cons ip ips =>
      obtain ⟨hhead, htail⟩ := List.cons.inj h
      rw [frames_cons, hhead, ih htail]
      simp only [Request.ips, List.length_cons, List.length_nil]
      omega

theorem answered_checks (h : turns.map Turn.request = ips.map .check)
    (hlength : log.length ≤ turns.length) :
    answered turns (log.map (fun x => .ok x.2.counted) ++ stop.toList.map (.error ∘ .err)) =
      log.length := by
  induction turns generalizing ips log with
  | nil =>
    rw [List.length_eq_zero_iff.mp (Nat.le_zero.mp hlength)]
    rfl
  | cons t turns ih =>
    cases ips with
    | nil => cases h
    | cons ip ips =>
      obtain ⟨hhead, htail⟩ := List.cons.inj h
      cases log with
      | nil => cases stop <;> simp [answered]
      | cons x log =>
        have hrest : answered turns (log.map (fun x => .ok x.2.counted) ++
            stop.toList.map (.error ∘ .err)) = log.length := ih htail (by simpa using hlength)
        simp only [List.map_cons, List.cons_append, answered, hrest, hhead, Request.ips,
          List.length_cons, List.length_nil]
        omega

theorem blocked_results (log : List (Nat × Reply)) (stop : Option Client.Error) :
    Client.blocked (log.map (fun x => .ok x.2.counted) ++ stop.toList.map (.error ∘ .err)) =
      log.countP (·.2.blocked) := by
  induction log with
  | nil => cases stop <;> rfl
  | cons x log ih =>
    rw [List.map_cons, List.cons_append, Client.blocked, ih, List.countP_cons]
    cases hblocked : x.2.blocked <;> simp [Reply.counted, hblocked, Nat.add_comm]

/-- What the report of a run stands for: `log` has the latency and the reply of each request that
was answered, `stop` is the error of the one that was not. -/
structure Accounts (checks : Bool) (encode : IpAddr → Bytes) (trips : List Trip) (w w' : Worker)
    (ips : List IpAddr) (log : List (Nat × Reply)) (stop : Option Client.Error)
    (acks : List (UInt64 × Bool)) : Prop where
  describes : w'.report.Describes log
  /-- The addresses are those of the workload, in order, whatever was answered. -/
  drawn : draw w.workload ips.length w.rng w.sequence = some (ips, w'.rng)
  /-- The replies of the log are what the calls returned, one by one, before the error. -/
  calls : converse checks encode (List.zipWith Trip.turn trips ips) w.connection =
    (log.map (fun x => .ok x.2.counted) ++ stop.toList.map (.error ∘ .err), w'.connection)
  latencies : log.map (·.1) = (trips.take log.length).map Trip.latency
  /-- All requests were answered, or the one after the answered ones failed and was the last. -/
  ended : stop = none ∧ log.length = trips.length ∧ ips.length = log.length ∨
    stop.isSome ∧ log.length < trips.length ∧ ips.length = log.length + 1
  errors : w'.report.errors = stop.toList.length
  /-- The error is named with the number of the request that it ended. -/
  firstError : w'.report.firstError = stop.map (·, w.sequence + ips.length)
  distinct : Distinct checks w.connection w'.connection
    (arrivals (List.zipWith Trip.turn trips ips) w.connection) acks
  count : acks.length = w'.report.count
  blocked : acks.countP (·.2) = w'.report.blocked

/-- The report of a run describes the answered requests one by one, stops at the first error, and
has an acknowledgement of its own behind every request it counts and every one it counts as
blocked. -/
theorem run_accounts (h : Worker.run checks encode trips w = some w') (hfresh : w.report = {})
    (hcounter : w.connection.nextFrameId.toNat + trips.length < 2 ^ 64) :
    ∃ ips log stop acks, Accounts checks encode trips w w' ips log stop acks := by
  obtain ⟨ips, log, stop, hran, hdescribes⟩ := run_ran h
  have hlog : w'.report.Describes log := hdescribes [] (hfresh ▸ describes_fresh)
  have hcount := hlog.tally.count
  have hlength := hran.length
  have hrequests := hran.requests
  have hturns : (List.zipWith Trip.turn trips ips).length = ips.length := by
    simpa using congrArg List.length hran.asked
  have hframes := frames_checks hran.asked
  obtain ⟨acks, hdistinct, hanswered, hblocked⟩ := distinct_converse checks encode
    (c := w.connection) (valid_of_checks hran.asked) (by omega)
  rw [hran.calls] at hdistinct hanswered hblocked
  rw [answered_checks hran.asked (by omega)] at hanswered
  rw [blocked_results] at hblocked
  refine ⟨ips, log, stop, acks, hlog, hran.drawn, hran.calls, hran.latencies, ?_, ?_, ?_,
    hdistinct, ?_, ?_⟩
  · cases hstop : stop with
    | none =>
      rw [hstop] at hrequests
      exact .inl ⟨rfl, hran.ended hstop, hrequests⟩
    | some e =>
      rw [hstop] at hrequests hlength
      exact .inr ⟨rfl, hlength, hrequests⟩
  · rw [hran.errors, hfresh, Nat.zero_add]
  · rw [hran.firstError, hfresh, hran.sequence]
    rfl
  · rw [hanswered, hcount]
  · rw [hblocked, hlog.tally.blocked]

/-- A worker that asks about `192.0.2.1` only. -/
def oneAddress : Worker where
  connection := { stream := { incoming := [] }, streamId := 1 }
  workload := .fixed [.v4 0xC0000201]
  rng := .new 0x1001
  reservoirRng := .new 0x2001

/-- Two requests of three get out: one is answered, one times out. -/
def threeTrips : List Trip :=
  [⟨wire [encodedAck 1 1 true], true, 250000⟩, ⟨[], true, 5000000000⟩, ⟨[], true, 1⟩]

theorem run_accounts_timeout : ∃ w',
    Worker.run false (fun _ => []) threeTrips oneAddress = some w' ∧
    w'.report.count = 1 ∧ w'.report.errors = 1 ∧
    ∃ ips log stop acks,
      Accounts false (fun _ => []) threeTrips oneAddress w' ips log stop acks := by
  obtain ⟨w', hrun⟩ : ∃ w', Worker.run false (fun _ => []) threeTrips oneAddress = some w' :=
    ⟨_, rfl⟩
  refine ⟨w', hrun, ?_, ?_, run_accounts hrun rfl (by decide)⟩ <;>
    · obtain rfl := Option.some.inj hrun
      rfl

end IpReputation.Bench
