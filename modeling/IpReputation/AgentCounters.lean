import IpReputation.AckBoundaries
import IpReputation.HotReload
import IpReputation.RequestAccounting

/-! `spoe_concurrent`: what the clients of an agent count against what the agent has counted. -/
namespace IpReputation

open Transition

variable {β : Type} {G : Geoip2 β} {filter : IpFilter} {parseIp : String → Option IpAddr}
  {s t u : Agent G} {c c' : Handling G} {xs ys : List (Handling G)} {labels : List Unit} {v : Bool}

/-- The handler is done with the request. -/
def Handling.Finished (c : Handling G) : Prop :=
  match c.progress with
  | .rejected | .answered .. => True
  | _ => False

/-- A counter has been incremented for the request, that of `v`. -/
def Handling.counts (filter : IpFilter) (v : Bool) (c : Handling G) : Bool :=
  (c.countedAs filter).map Option.isSome == some v

/-- What becomes of a request: it stays counted as it was, and is left alone once it is finished. -/
structure Handling.Later (filter : IpFilter) (c c' : Handling G) : Prop where
  counted : ∀ verdict, c.countedAs filter = some verdict → c'.countedAs filter = some verdict
  finished : c.Finished → c' = c

/-- The requests of `s` are the first ones of `t`. -/
def Agent.Grown (filter : IpFilter) (s t : Agent G) : Prop :=
  List.Forall₂ (Handling.Later filter) s.calls (t.calls.take s.calls.length)

theorem Handling.Later.refl (filter : IpFilter) (c : Handling G) : Later filter c c :=
  ⟨fun _ h => h, fun _ => rfl⟩

theorem Handling.Later.trans {c'' : Handling G} (h : Later filter c c') (k : Later filter c' c'') :
    Later filter c c'' where
  counted verdict hc := k.counted verdict (h.counted verdict hc)
  finished hc := by
    obtain rfl := h.finished hc
    exact k.finished hc

theorem later_handleStep {snapshot : Option (Snapshot G)} {m m' : Metrics}
    (h : HandleStep filter parseIp snapshot c m c' m') (hc : c.Sound filter parseIp) :
    c.Later filter c' := by
  obtain ⟨-, hcounts⟩ := handleStep_counts h hc
  constructor
  · intro verdict hverdict
    rcases hcounts with ⟨-, hsame⟩ | ⟨_, -, hnone, -⟩
    · rw [hsame, hverdict]
    · rw [hnone] at hverdict
      cases hverdict
  · intro hfinished
    cases h <;> cases hfinished

theorem grown_step {label : Unit} (h : AgentStep filter parseIp s label t)
    (hs : Tallied filter parseIp s) : s.Grown filter t := by
  have hsame : ∀ calls : List (Handling G), List.Forall₂ (Handling.Later filter) calls calls :=
    fun calls => List.forall₂_same.mpr fun c _ => .refl filter c
  cases h with
  | receive req =>
    simp only [Agent.Grown, List.take_left]
    exact hsame s.calls
  | @handle snapshot m m' before after c c' h =>
    have hlength : (before ++ c :: after).length = (before ++ c' :: after).length := by simp
    simp only [Agent.Grown, hlength, List.take_length]
    exact List.rel_append (hsame before)
      (.cons (later_handleStep h (hs.sound c (by simp))) (hsame after))
  | publish lossy path reader modified =>
    simp only [Agent.Grown, List.take_length]
    exact hsame s.calls

theorem Agent.Grown.trans (h : s.Grown filter t) (k : t.Grown filter u) : s.Grown filter u := by
  have hlength : s.calls.length ≤ t.calls.length := by
    have htake := h.length_eq
    rw [List.length_take] at htake
    omega
  have hfirst := List.forall₂_take s.calls.length k
  rw [List.take_take, Nat.min_eq_left hlength] at hfirst
  refine List.forall₂_iff_get.mpr ⟨h.length_eq.trans hfirst.length_eq, ?_⟩
  intro i hi hi'
  have hmid : i < (t.calls.take s.calls.length).length := h.length_eq ▸ hi
  have hlater := (List.forall₂_iff_get.mp h).2 i hi hmid
  exact hlater.trans ((List.forall₂_iff_get.mp hfirst).2 i hmid hi')

theorem grown_run (hs : Tallied filter parseIp s) (h : (agent G filter parseIp).Run s labels t) :
    s.Grown filter t ∧ Tallied filter parseIp t := by
  have hstable : (agent G filter parseIp).Stable fun t =>
      s.Grown filter t ∧ Tallied filter parseIp t :=
    fun _ _ _ hst ⟨hgrown, htallied⟩ =>
      ⟨hgrown.trans (grown_step hst htallied), tallied_step hst htallied⟩
  refine hstable.run h ⟨?_, hs⟩
  simp only [Agent.Grown, List.take_length]
  exact List.forall₂_same.mpr fun c _ => .refl filter c

/-- The counters that the benchmark reads are those of the requests counted. -/
theorem Tallied.snapshot (hs : Tallied filter parseIp s) :
    (Counters.snapshot s.served.metrics).allowed = s.calls.countP (Handling.counts filter false) ∧
      (Counters.snapshot s.served.metrics).blocked =
        s.calls.countP (Handling.counts filter true) := by
  have hcount : ∀ v, (s.calls.filterMap (Handling.countedAs filter)).countP (·.isSome == v) =
      s.calls.countP (Handling.counts filter v) := by
    intro v
    rw [List.countP_filterMap]
    refine List.countP_congr fun c _ => ?_
    cases hc : c.countedAs filter <;> simp [Handling.counts, hc]
  constructor
  · rw [← hcount false]
    refine hs.tally.allowed.trans ?_
    rw [List.count_eq_countP]
    refine List.countP_congr fun x _ => ?_
    cases x <;> simp
  · rw [← hcount true]
    refine hs.tally.blocked.trans (List.countP_congr fun x _ => ?_)
    cases x <;> simp

theorem countP_later (h : List.Forall₂ (Handling.Later filter) xs ys) (v : Bool) :
    xs.countP (Handling.counts filter v) ≤ ys.countP (Handling.counts filter v) := by
  induction h with
  | nil => exact Nat.le_refl _
  | @cons c c' xs ys hc _ ih =>
    have hkept : c.counts filter v = true → c'.counts filter v = true := by
      intro hcounts
      cases hverdict : c.countedAs filter with
      | none => simp [Handling.counts, hverdict] at hcounts
      | some verdict => simpa [Handling.counts, hverdict, hc.counted verdict hverdict] using hcounts
    rw [List.countP_cons, List.countP_cons]
    by_cases hcounts : c.counts filter v = true
    · rw [if_pos hcounts, if_pos (hkept hcounts)]
      omega
    · rw [if_neg hcounts]
      omega

theorem eq_of_finished (h : List.Forall₂ (Handling.Later filter) xs ys)
    (hfinished : ∀ c ∈ xs, c.Finished) : ys = xs := by
  induction h with
  | nil => rfl
  | @cons c c' xs ys hc _ ih =>
    rw [hc.finished (hfinished c (by simp)), ih fun c hc => hfinished c (by simp [hc])]

/-- A request is counted once at most. -/
theorem countP_counts_le (filter : IpFilter) (xs : List (Handling G)) :
    xs.countP (Handling.counts filter true) + xs.countP (Handling.counts filter false) ≤
      xs.length := by
  rw [List.length_eq_countP_add_countP (Handling.counts filter true)]
  refine Nat.add_le_add_left (List.countP_mono_left ?_) _
  intro c _ hfalse
  have hnot : c.countedAs filter = some none := by
    cases hc : c.countedAs filter with
    | none => simp [Handling.counts, hc] at hfalse
    | some verdict => cases verdict <;> simp [Handling.counts, hc] at hfalse ⊢
  simp [Handling.counts, hnot]

/-- What the counters of `t` are above those of `s`. -/
def Agent.since (t s : Agent G) : Counters :=
  (Counters.snapshot t.served.metrics).since (.snapshot s.served.metrics)

/-- The requests that have come in after `s`. -/
def Agent.new (s t : Agent G) : List (Handling G) := t.calls.drop s.calls.length

theorem countP_grown (h : s.Grown filter t) (v : Bool) :
    s.calls.countP (Handling.counts filter v) + (s.new t).countP (Handling.counts filter v) ≤
        t.calls.countP (Handling.counts filter v) ∧
      ((∀ c ∈ s.calls, c.Finished) → t.calls.countP (Handling.counts filter v) =
        s.calls.countP (Handling.counts filter v) +
          (s.new t).countP (Handling.counts filter v)) := by
  have hsplit := congrArg (List.countP (Handling.counts filter v))
    (List.take_append_drop s.calls.length t.calls)
  rw [List.countP_append] at hsplit
  rw [← hsplit, Agent.new]
  refine ⟨Nat.add_le_add_right (countP_later h v) _, fun hfinished => ?_⟩
  rw [eq_of_finished h hfinished]

theorem answers_le_counts (ht : Tallied filter parseIp t) (v : Bool) :
    (s.new t).countP (Handling.answers v) ≤ (s.new t).countP (Handling.counts filter v) := by
  refine List.countP_mono_left fun c hc hanswers => ?_
  have hsound := ht.sound c (List.mem_of_mem_drop hc)
  exact beq_iff_eq.mpr ((hsound.counts v).1.mpr (.inl hanswers))

/-- The counters grow by one for each request answered since, and from a moment on at which no
request was in hand by no more than one for each request. -/
theorem since_answers (hs : Tallied filter parseIp s) (ht : Tallied filter parseIp t)
    (h : s.Grown filter t) :
    (s.new t).countP (Handling.answers true) ≤ (t.since s).blocked ∧
      (s.new t).countP (Handling.answers false) ≤ (t.since s).allowed ∧
      ((∀ c ∈ s.calls, c.Finished) →
        (t.since s).blocked + (t.since s).allowed ≤ (s.new t).length) := by
  obtain ⟨hblocked, hexactBlocked⟩ := countP_grown h true
  obtain ⟨hallowed, hexactAllowed⟩ := countP_grown h false
  have hanswersTrue := answers_le_counts (s := s) ht true
  have hanswersFalse := answers_le_counts (s := s) ht false
  simp only [Agent.since, Counters.since, hs.snapshot, ht.snapshot]
  refine ⟨by omega, by omega, fun hfinished => ?_⟩
  have hbound := countP_counts_le filter (s.new t)
  rw [hexactBlocked hfinished, hexactAllowed hfinished]
  omega

namespace Client

variable {checks : Bool} {encode : IpAddr → Bytes}

/-- An acknowledgement as the agent sends it: of a request that came without variables, and with
the one that the handler has set. -/
structure Acked (G : Geoip2 β) where
  handling : Handling G
  frameId : UInt64
  blocked : Bool
  fresh : handling.received.vars = []
  vars : handling.request.vars = [(.session, RESULT_VARIABLE, .boolean blocked)]

def Acked.ack (a : Acked G) : UInt64 × Bool := (a.frameId, a.blocked)

/-- A connection from its opening on: its calls, the acknowledgements that the agent sends, and
that nothing else arrives after the greeting. -/
structure Dialogue (G : Geoip2 β) where
  hello : Bytes
  stream : TcpStream
  streamId : UInt64
  connection : Connection
  connected : Connection.connect hello stream streamId = .ok connection
  turns : List Turn
  valid : ∀ t ∈ turns, t.request.Valid
  bounded : 1 + frames turns < 2 ^ 64
  acked : List (Acked G)
  arrives : arrivals turns connection <:+: ackWire streamId (acked.map Acked.ack)

namespace Dialogue

def answered (checks : Bool) (encode : IpAddr → Bytes) (d : Dialogue G) : Nat :=
  Client.answered d.turns (converse checks encode d.turns d.connection).1

def blocked (checks : Bool) (encode : IpAddr → Bytes) (d : Dialogue G) : Nat :=
  Client.blocked (converse checks encode d.turns d.connection).1

/-- The client counts acknowledgements that were sent, each once. -/
theorem told (checks : Bool) (encode : IpAddr → Bytes) (d : Dialogue G) :
    ∃ acks : List (UInt64 × Bool), acks.Subperm (d.acked.map Acked.ack) ∧
      acks.length = d.answered checks encode ∧ acks.countP (·.2) = d.blocked checks encode := by
  have hcalled := connect_ok d.connected
  have hone : d.connection.nextFrameId.toNat = 1 := hcalled.next
  have hbound : d.connection.nextFrameId.toNat + frames d.turns < 2 ^ 64 := by
    rw [hone]
    exact d.bounded
  obtain ⟨acks, hdistinct, hanswered, hblocked⟩ := distinct_converse checks encode d.valid hbound
  have hstream : d.connection.streamId = d.streamId := hcalled.streamId
  have harrives := d.arrives
  rw [← hstream] at harrives
  refine ⟨acks, List.subperm_of_subset hdistinct.nodup.of_map ?_, hanswered, hblocked⟩
  intro ack hack
  exact (hdistinct.arrived ack hack).sent harrives hcalled.expectedAction

theorem told_le (checks : Bool) (encode : IpAddr → Bytes) (d : Dialogue G) :
    d.blocked checks encode ≤ d.acked.countP (·.blocked) ∧
      d.answered checks encode ≤ d.blocked checks encode + d.acked.countP (!·.blocked) := by
  obtain ⟨acks, hsub, hanswered, hblocked⟩ := d.told checks encode
  have htrue := hsub.countP_le (·.2)
  have hfalse := hsub.countP_le (!·.2)
  rw [List.countP_map] at htrue hfalse
  have hlength := List.length_eq_countP_add_countP (·.2) (l := acks)
  simp only [Bool.not_eq_true, Bool.decide_eq_false] at hlength
  rw [← hanswered, ← hblocked, hlength]
  exact ⟨htrue, Nat.add_le_add_left hfalse _⟩

end Dialogue

/-- All that the agent acknowledges. -/
def acknowledged (ds : List (Dialogue G)) : List (Acked G) := ds.flatMap Dialogue.acked

theorem sum_told_le (checks : Bool) (encode : IpAddr → Bytes) (ds : List (Dialogue G)) :
    (ds.map (Dialogue.blocked checks encode)).sum ≤ (acknowledged ds).countP (·.blocked) ∧
      (ds.map (Dialogue.answered checks encode)).sum ≤
        (ds.map (Dialogue.blocked checks encode)).sum +
          (acknowledged ds).countP (!·.blocked) := by
  induction ds with
  | nil => exact ⟨Nat.le_refl _, Nat.le_refl _⟩
  | cons d ds ih =>
    obtain ⟨hblocked, hanswered⟩ := d.told_le checks encode
    simp only [acknowledged, List.map_cons, List.sum_cons, List.flatMap_cons, List.countP_append]
      at ih ⊢
    omega

theorem Acked.answers (a : Acked G) (v : Bool) : a.handling.answers v = (v == a.blocked) := by
  rw [Handling.answers, a.fresh, a.vars]
  cases v <;> cases a.blocked <;> decide

theorem countP_acknowledged (as : List (Acked G)) :
    (as.map Acked.handling).countP (Handling.answers true) = as.countP (·.blocked) ∧
      (as.map Acked.handling).countP (Handling.answers false) = as.countP (!·.blocked) := by
  constructor <;>
  · rw [List.countP_map]
    refine List.countP_congr fun a _ => ?_
    simp only [Function.comp, a.answers]
    cases a.blocked <;> simp

/-- Every acknowledgement is that of a request of its own, one that came in after `s`. -/
def Delivered (s t : Agent G) (ds : List (Dialogue G)) : Prop :=
  ((acknowledged ds).map Acked.handling).Subperm (s.new t)

/-- What the clients count together, against the counters since `s`. -/
structure CountersCover (s t : Agent G) (answered blocked : Nat) : Prop where
  blocked_le : blocked ≤ (t.since s).blocked
  answered_le : answered ≤ blocked + (t.since s).allowed
  /-- When none was in hand before and all that came in are answered, the counts are the same. -/
  exact : (∀ c ∈ s.calls, c.Finished) → answered = (s.new t).length →
    (t.since s).blocked = blocked ∧ blocked + (t.since s).allowed = answered

/-- However the requests of all connections interleave with one another and with swapped
snapshots, and whatever is lost or late on the way to the clients: these together count no more
blocked and no more allowed requests than the agent has counted since, and as many when every
request has been answered. -/
theorem clients_counted {ds : List (Dialogue G)} (checks : Bool) (encode : IpAddr → Bytes)
    (hs : (agent G filter parseIp).Reachable s) (hrun : (agent G filter parseIp).Run s labels t)
    (h : Delivered s t ds) :
    CountersCover s t (ds.map (Dialogue.answered checks encode)).sum
      (ds.map (Dialogue.blocked checks encode)).sum := by
  have htallied := tallied_reachable hs
  obtain ⟨hgrown, hlast⟩ := grown_run htallied hrun
  obtain ⟨hsinceBlocked, hsinceAllowed, hsince⟩ := since_answers htallied hlast hgrown
  obtain ⟨hblocked, hanswered⟩ := sum_told_le checks encode ds
  obtain ⟨hackTrue, hackFalse⟩ := countP_acknowledged (acknowledged ds)
  have htrue := h.countP_le (Handling.answers true)
  have hfalse := h.countP_le (Handling.answers false)
  rw [hackTrue] at htrue
  rw [hackFalse] at hfalse
  refine ⟨by omega, by omega, fun hfinished hall => ?_⟩
  have hbound := hsince hfinished
  omega

/-- One check for `10.1.2.3`, which is answered `ip_bad = 1`. -/
def spamDialogue (c : Handling Reference.geoip2) (hfresh : c.received.vars = [])
    (hvars : c.request.vars = [(.session, RESULT_VARIABLE, .boolean true)]) :
    Dialogue Reference.geoip2 where
  hello := []
  stream := { incoming := wire [[FRAME_AGENT_HELLO, 0, 0, 0, 1, 0, 0]] }
  streamId := 1
  connection := _
  connected := rfl
  turns := [⟨.check (.v4 0x0A010203), wire [encodedAck 1 1 true], true⟩]
  valid := by simp [Request.Valid, Request.ips]
  bounded := by decide
  acked := [⟨c, 1, true, hfresh, hvars⟩]
  arrives := List.infix_refl _

theorem clients_counted_spam : ∃ (s t : Agent Reference.geoip2) (d : Dialogue Reference.geoip2),
    d.answered false (fun _ => []) = 1 ∧ d.blocked false (fun _ => []) = 1 ∧
      CountersCover s t ([d].map (Dialogue.answered false fun _ => [])).sum
        ([d].map (Dialogue.blocked false fun _ => [])).sum := by
  obtain ⟨labels, c, hrun, hreceived, hrequest⟩ := handle_alone ⟨{"spam"}, ∅⟩ (fun _ => none)
    multiServed.snapshot {} spamRequest [] []
  have hstart : (agent Reference.geoip2 ⟨{"spam"}, ∅⟩ fun _ => none).Reachable
      ⟨⟨multiServed.snapshot, {}⟩, []⟩ := .initial ⟨rfl, rfl, rfl⟩
  have hip : spamRequest.clientIp (fun _ => none) = some (.v4 0x0A010203#32) := by decide
  rw [handle_some _ hip, verdict_multi] at hrequest
  have hvars := congrArg Request.vars hrequest
  refine ⟨_, _, spamDialogue c (congrArg Request.vars hreceived) hvars, ?_, ?_,
    clients_counted false (fun _ => []) hstart (.head (.receive spamRequest) hrun) ?_⟩
  · rfl
  · rfl
  · exact .refl _

end Client

end IpReputation
