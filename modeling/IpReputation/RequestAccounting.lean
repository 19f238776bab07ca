import IpReputation.Library.Transition
import IpReputation.Verdict

/-! Requests handled at once while snapshots are swapped: what the counters add up to. -/
namespace IpReputation

open Transition

variable {β : Type} {G : Geoip2 β} {filter : IpFilter} {parseIp : String → Option IpAddr}

/-- How far the handler has got with a request. -/
inductive Progress (G : Geoip2 β)
  | received
  /-- Nothing to look up. -/
  | rejected
  /-- The lookup holds this snapshot. -/
  | loaded (ip : IpAddr) (snapshot : Option (Snapshot G))
  /-- `should_drop` returned: a block is counted, an allowed request is not yet. -/
  | judged (ip : IpAddr) (snapshot : Option (Snapshot G)) (shouldDrop : Bool)
  | counted (ip : IpAddr) (snapshot : Option (Snapshot G)) (shouldDrop : Bool)
  | answered (ip : IpAddr) (snapshot : Option (Snapshot G)) (shouldDrop : Bool)

/-- A request as it came and as the handler leaves it. -/
structure Handling (G : Geoip2 β) where
  received : Request
  request : Request
  progress : Progress G

/-- What is served, and every request so far. -/
structure Agent (G : Geoip2 β) where
  served : Served G
  calls : List (Handling G)

/-- One step of the handler on one request, with the counters it touches. -/
inductive HandleStep (filter : IpFilter) (parseIp : String → Option IpAddr)
    (snapshot : Option (Snapshot G)) : Handling G → Metrics → Handling G → Metrics → Prop
  | reject {req req' : Request} {m : Metrics} (h : req'.clientIp parseIp = none) :
      HandleStep filter parseIp snapshot ⟨req, req', .received⟩ m ⟨req, req', .rejected⟩ m
  | load {req req' : Request} {m : Metrics} {ip : IpAddr} (h : req'.clientIp parseIp = some ip) :
      HandleStep filter parseIp snapshot ⟨req, req', .received⟩ m
        ⟨req, req', .loaded ip snapshot⟩ m
  | judge {req req' : Request} {m : Metrics} {ip : IpAddr} {held : Option (Snapshot G)} :
      HandleStep filter parseIp snapshot ⟨req, req', .loaded ip held⟩ m
        ⟨req, req', .judged ip held (filter.shouldDrop held ip m).1⟩ (filter.shouldDrop held ip m).2
  | count {req req' : Request} {m : Metrics} {ip : IpAddr} {held : Option (Snapshot G)} {v : Bool} :
      HandleStep filter parseIp snapshot ⟨req, req', .judged ip held v⟩ m
        ⟨req, req', .counted ip held v⟩ (if v then m else m.countAllowed)
  | answer {req req' : Request} {m : Metrics} {ip : IpAddr} {held : Option (Snapshot G)}
      {v : Bool} :
      HandleStep filter parseIp snapshot ⟨req, req', .counted ip held v⟩ m
        ⟨req, req'.answer v, .answered ip held v⟩ m

/-- A request comes in, the handler goes on with one, or another snapshot is published. -/
inductive AgentStep (filter : IpFilter) (parseIp : String → Option IpAddr) :
    Agent G → Unit → Agent G → Prop
  | receive {s : Agent G} (req : Request) :
      AgentStep filter parseIp s () { s with calls := s.calls ++ [⟨req, req, .received⟩] }
  | handle {snapshot : Option (Snapshot G)} {m m' : Metrics} {before after : List (Handling G)}
      {c c' : Handling G} (h : HandleStep filter parseIp snapshot c m c' m') :
      AgentStep filter parseIp ⟨⟨snapshot, m⟩, before ++ c :: after⟩ ()
        ⟨⟨snapshot, m'⟩, before ++ c' :: after⟩
  | publish {s : Agent G} (lossy : Path → String) (path : Path) (reader : OwnedReader G)
      (modified : Option SystemTime) :
      AgentStep filter parseIp s ()
        { s with served := Mmdb.publish lossy path s.served reader modified }

/-- Requests from zero counters on, whatever is served first. -/
def agent (G : Geoip2 β) (filter : IpFilter) (parseIp : String → Option IpAddr) :
    System (Agent G) Unit where
  initial s := s.served.metrics.ipAllowedRequests = 0 ∧
    s.served.metrics.ipBlockedRequests = .empty ∧ s.calls = []
  step := AgentStep filter parseIp

namespace Handling

/-- The request has been given `ip_bad = v`. -/
def answers (v : Bool) (c : Handling G) : Bool :=
  c.request.vars == c.received.vars ++ [(.session, RESULT_VARIABLE, .boolean v)]

/-- A counter has been incremented for the request, which is still to be given its variable. -/
def pending (v : Bool) (c : Handling G) : Bool :=
  match c.progress with
  | .judged _ _ v' => v && v'
  | .counted _ _ v' => v == v'
  | _ => false

/-- The snapshot and the address a request was counted for. -/
def basis (c : Handling G) : Option (Option (Snapshot G) × IpAddr) :=
  match c.progress with
  | .judged ip snapshot true | .counted ip snapshot _ | .answered ip snapshot _ =>
    some (snapshot, ip)
  | _ => none

/-- The label a request was counted under: that of its own snapshot, `none` when allowed. -/
def countedAs (filter : IpFilter) (c : Handling G) :
    Option (Option (String × String × String)) :=
  c.basis.map fun basis => filter.verdict basis.1 basis.2

/-- What the handler has done to a request agrees with how far it got. -/
def Sound (filter : IpFilter) (parseIp : String → Option IpAddr) (c : Handling G) : Prop :=
  match c.progress with
  | .received => c.request = c.received
  | .rejected => c.request = c.received ∧ c.received.clientIp parseIp = none
  | .loaded ip _ => c.request = c.received ∧ c.received.clientIp parseIp = some ip
  | .judged ip snapshot v | .counted ip snapshot v =>
    c.request = c.received ∧ c.received.clientIp parseIp = some ip ∧
      v = (filter.verdict snapshot ip).isSome
  | .answered ip snapshot v =>
    c.request = c.received.answer v ∧ c.received.clientIp parseIp = some ip ∧
      v = (filter.verdict snapshot ip).isSome

end Handling

variable {snapshot : Option (Snapshot G)} {c c' : Handling G} {m m' : Metrics} {s t : Agent G}

/-- One step either leaves the counters alone, or counts the verdict of the request's snapshot,
which had not been counted before. -/
theorem handleStep_counts (h : HandleStep filter parseIp snapshot c m c' m')
    (hc : c.Sound filter parseIp) : c'.Sound filter parseIp ∧
      ((m' = m ∧ c'.countedAs filter = c.countedAs filter) ∨
        ∃ verdict, m' = m.countVerdict verdict ∧ c.countedAs filter = none ∧
          c'.countedAs filter = some verdict) := by
  cases h with
  | @reject req req' m h =>
    have hreq : req' = req := hc
    exact ⟨⟨hreq, hreq ▸ h⟩, .inl ⟨rfl, rfl⟩⟩
  | @load req req' m ip h =>
    have hreq : req' = req := hc
    exact ⟨⟨hreq, hreq ▸ h⟩, .inl ⟨rfl, rfl⟩⟩
  | @judge req req' m ip held =>
    obtain ⟨hreq, hip⟩ := hc
    rw [shouldDrop_eq]
    refine ⟨⟨hreq, hip, rfl⟩, ?_⟩
    cases hv : filter.verdict held ip with
    | none => exact .inl ⟨rfl, rfl⟩
    | some label => exact .inr ⟨some label, rfl, rfl, congrArg some hv⟩
  | @count req req' m ip held v =>
    obtain ⟨hreq, hip, hv⟩ := hc
    refine ⟨⟨hreq, hip, hv⟩, ?_⟩
    cases v with
    | true => exact .inl ⟨rfl, rfl⟩
    | false =>
      have hnone : filter.verdict held ip = none := by
        cases hverdict : filter.verdict held ip with
        | none => rfl
        | some label => simp [hverdict] at hv
      exact .inr ⟨none, rfl, rfl, congrArg some hnone⟩
  | @answer req req' m ip held v =>
    obtain ⟨hreq, hip, hv⟩ := hc
    exact ⟨⟨congrArg (Request.answer v) hreq, hip, hv⟩, .inl ⟨rfl, rfl⟩⟩

/-- The counters add up to these verdicts. -/
structure Tally (verdicts : List (Option (String × String × String))) (m : Metrics) : Prop where
  allowed : m.ipAllowedRequests = verdicts.count none
  labels : ∀ l, m.ipBlockedRequests.get l = verdicts.count (some l)
  blocked : m.ipBlockedRequests.total = verdicts.countP Option.isSome

variable {verdicts verdicts' : List (Option (String × String × String))}

theorem Tally.perm (h : Tally verdicts m) (hp : verdicts.Perm verdicts') : Tally verdicts' m where
  allowed := h.allowed.trans (hp.count_eq none)
  labels l := (h.labels l).trans (hp.count_eq (some l))
  blocked := h.blocked.trans (hp.countP_eq Option.isSome)

theorem Tally.countVerdict (h : Tally verdicts m) (verdict : Option (String × String × String)) :
    Tally (verdict :: verdicts) (m.countVerdict verdict) := by
  obtain ⟨hallowed, hlabels, hblocked⟩ := h
  cases verdict with
  | none =>
    refine ⟨?_, ?_, ?_⟩
    · simpa [Metrics.countVerdict, Metrics.countAllowed] using hallowed
    · simpa [Metrics.countVerdict, Metrics.countAllowed] using hlabels
    · simpa [Metrics.countVerdict, Metrics.countAllowed] using hblocked
  | some label =>
    refine ⟨?_, ?_, ?_⟩
    · simpa [Metrics.countVerdict, Metrics.countBlocked] using hallowed
    · intro l
      by_cases hl : l = label
      · simp [Metrics.countVerdict, Metrics.countBlocked, hlabels, hl]
      · simp [Metrics.countVerdict, Metrics.countBlocked, hlabels, hl, Ne.symm hl]
    · simpa [Metrics.countVerdict, Metrics.countBlocked] using hblocked

/-- Every request is sound, and the counters are the tally of the verdicts counted so far. -/
structure Tallied (filter : IpFilter) (parseIp : String → Option IpAddr) (s : Agent G) : Prop where
  sound : ∀ c ∈ s.calls, c.Sound filter parseIp
  tally : Tally (s.calls.filterMap (Handling.countedAs filter)) s.served.metrics

theorem tallied_handle {before after : List (Handling G)}
    (h : HandleStep filter parseIp snapshot c m c' m')
    (hs : Tallied filter parseIp ⟨⟨snapshot, m⟩, before ++ c :: after⟩) :
    Tallied filter parseIp ⟨⟨snapshot, m'⟩, before ++ c' :: after⟩ := by
  obtain ⟨hsound, hcount⟩ := handleStep_counts h (hs.sound c (by simp))
  have htally := hs.tally
  simp only [List.filterMap_append, List.filterMap_cons] at htally
  refine ⟨forall_mem_replace hsound hs.sound, ?_⟩
  · simp only [List.filterMap_append, List.filterMap_cons]
    rcases hcount with ⟨rfl, hsame⟩ | ⟨verdict, rfl, hnone, hsome⟩
    · rw [hsame]
      exact htally
    · rw [hnone] at htally
      rw [hsome]
      exact (htally.countVerdict verdict).perm List.perm_middle.symm

theorem tallied_step {label : Unit} (h : AgentStep filter parseIp s label t)
    (hs : Tallied filter parseIp s) : Tallied filter parseIp t := by
  cases h with
  | receive req =>
    refine ⟨?_, ?_⟩
    · intro c hc
      rcases List.mem_append.mp hc with hc | hc
      · exact hs.sound c hc
      · obtain rfl := List.mem_singleton.mp hc
        exact rfl
    · rw [List.filterMap_append]
      exact (List.append_nil _).symm ▸ hs.tally
  | handle h => exact tallied_handle h hs
  | publish lossy path reader modified =>
    obtain ⟨hallowed, hlabels, hblocked⟩ := hs.tally
    exact ⟨hs.sound, hallowed, hlabels, hblocked⟩

theorem tallied_reachable (h : (agent G filter parseIp).Reachable s) :
    Tallied filter parseIp s := by
  have hstable : (agent G filter parseIp).Stable (Tallied filter parseIp) :=
    fun _ _ _ hst hs => tallied_step hst hs
  refine hstable.reachable ?_ h
  rintro s ⟨hallowed, hblocked, hcalls⟩
  refine ⟨by simp [hcalls], ?_⟩
  rw [hcalls]
  exact ⟨hallowed, fun l => by rw [hblocked]; rfl, by rw [hblocked]; rfl⟩

theorem answers_of_unanswered (h : c.request = c.received) (v : Bool) : c.answers v = false := by
  simp [Handling.answers, h]

theorem answers_answer {v' : Bool} (h : c.request = c.received.answer v') (v : Bool) :
    c.answers v = (v == v') := by
  cases v <;> cases v' <;> simp [Handling.answers, h, Request.answer, Request.setVar]

/-- A request counts towards `v` once: while its variable is pending, or when it is set. -/
theorem Handling.Sound.counts (hc : c.Sound filter parseIp) (v : Bool) :
    ((c.countedAs filter).map Option.isSome = some v ↔ c.answers v = true ∨ c.pending v = true) ∧
      ¬ (c.answers v = true ∧ c.pending v = true) := by
  obtain ⟨req, req', progress⟩ := c
  cases progress with
  | received =>
    have ha := answers_of_unanswered (c := ⟨req, req', .received⟩) hc v
    simp [ha, Handling.pending, Handling.countedAs, Handling.basis]
  | rejected =>
    have ha := answers_of_unanswered (c := ⟨req, req', .rejected⟩) hc.1 v
    simp [ha, Handling.pending, Handling.countedAs, Handling.basis]
  | loaded ip snapshot =>
    have ha := answers_of_unanswered (c := ⟨req, req', .loaded ip snapshot⟩) hc.1 v
    simp [ha, Handling.pending, Handling.countedAs, Handling.basis]
  | judged ip snapshot v' =>
    have ha := answers_of_unanswered (c := ⟨req, req', .judged ip snapshot v'⟩) hc.1 v
    have hv : v' = (filter.verdict snapshot ip).isSome := hc.2.2
    cases v <;> cases v' <;>
      simp [ha, Handling.pending, Handling.countedAs, Handling.basis, ← hv]
  | counted ip snapshot v' =>
    have ha := answers_of_unanswered (c := ⟨req, req', .counted ip snapshot v'⟩) hc.1 v
    have hv : v' = (filter.verdict snapshot ip).isSome := hc.2.2
    cases v <;> cases v' <;>
      simp [ha, Handling.pending, Handling.countedAs, Handling.basis, ← hv]
  | answered ip snapshot v' =>
    have ha := answers_answer (c := ⟨req, req', .answered ip snapshot v'⟩) hc.1 v
    have hv : v' = (filter.verdict snapshot ip).isSome := hc.2.2
    cases v <;> cases v' <;>
      simp [ha, Handling.pending, Handling.countedAs, Handling.basis, ← hv]

/-- Counting by two ways that exclude each other. -/
theorem countP_split {α : Type} {p q r : α → Bool} {xs : List α}
    (h : ∀ x ∈ xs, (p x = true ↔ q x = true ∨ r x = true) ∧ ¬ (q x = true ∧ r x = true)) :
    xs.countP p = xs.countP q + xs.countP r := by
  induction xs with
  | nil => rfl
  | cons x xs ih =>
    obtain ⟨hiff, hnot⟩ := h x List.mem_cons_self
    have := ih fun y hy => h y (List.mem_cons_of_mem _ hy)
    simp only [List.countP_cons]
    by_cases hq : q x = true <;> by_cases hr : r x = true <;> simp_all <;> omega

/-- What the counters say about the requests, at any moment. -/
structure RequestsAccounted (filter : IpFilter) (parseIp : String → Option IpAddr) (s : Agent G) :
    Prop where
  allowed : s.served.metrics.ipAllowedRequests =
    s.calls.countP (Handling.answers false) + s.calls.countP (Handling.pending false)
  blocked : s.served.metrics.ipBlockedRequests.total =
    s.calls.countP (Handling.answers true) + s.calls.countP (Handling.pending true)
  /-- With no variable pending, the counters are the answers. -/
  settled : (∀ c ∈ s.calls, ∀ v, c.pending v = false) →
    s.served.metrics.ipAllowedRequests = s.calls.countP (Handling.answers false) ∧
      s.served.metrics.ipBlockedRequests.total = s.calls.countP (Handling.answers true)
  /-- Each counter is that of the requests whose own snapshot blocks under its label. -/
  labels : ∀ l, s.served.metrics.ipBlockedRequests.get l =
    s.calls.countP fun c => c.countedAs filter == some (some l)
  one_variable : ∀ c ∈ s.calls, c.request = c.received ∨ ∃ v, c.request = c.received.answer v
  /-- The variable is the verdict of the snapshot the request was counted for. -/
  same_snapshot : ∀ c ∈ s.calls, ∀ v, c.answers v = true → ∃ basis, c.basis = some basis ∧
    c.received.clientIp parseIp = some basis.2 ∧ v = (filter.verdict basis.1 basis.2).isSome
  /-- A request the handler rejects gets no variable and is counted nowhere. -/
  rejected : ∀ c ∈ s.calls, c.progress = .rejected → c.request = c.received ∧
    c.received.clientIp parseIp = none ∧ c.countedAs filter = none

theorem Handling.Sound.one_variable (hc : c.Sound filter parseIp) :
    c.request = c.received ∨ ∃ v, c.request = c.received.answer v := by
  obtain ⟨req, req', progress⟩ := c
  cases progress with
  | received => exact .inl hc
  | rejected | loaded | judged | counted => exact .inl hc.1
  | answered ip snapshot v => exact .inr ⟨v, hc.1⟩

theorem Handling.Sound.same_snapshot (hc : c.Sound filter parseIp) {v : Bool}
    (h : c.answers v = true) : ∃ basis, c.basis = some basis ∧
      c.received.clientIp parseIp = some basis.2 ∧
      v = (filter.verdict basis.1 basis.2).isSome := by
  have hset : c.request ≠ c.received := by
    intro he
    rw [answers_of_unanswered he] at h
    cases h
  obtain ⟨req, req', progress⟩ := c
  cases progress with
  | received => exact absurd hc hset
  | rejected | loaded | judged | counted => exact absurd hc.1 hset
  | answered ip snapshot v' =>
    rw [answers_answer (c := ⟨req, req', .answered ip snapshot v'⟩) hc.1] at h
    obtain rfl := beq_iff_eq.mp h
    exact ⟨(snapshot, ip), rfl, hc.2.1, hc.2.2⟩

theorem Handling.Sound.rejected (hc : c.Sound filter parseIp) (h : c.progress = .rejected) :
    c.request = c.received ∧ c.received.clientIp parseIp = none ∧ c.countedAs filter = none := by
  obtain ⟨req, req', progress⟩ := c
  obtain rfl : progress = .rejected := h
  exact ⟨hc.1, hc.2, rfl⟩

/-- The tally of one verdict, split by whether the variable is set yet. -/
theorem tallied_split (hs : Tallied filter parseIp s) (v : Bool) :
    (s.calls.filterMap (Handling.countedAs filter)).countP (fun x => x.isSome == v) =
      s.calls.countP (Handling.answers v) + s.calls.countP (Handling.pending v) := by
  rw [List.countP_filterMap]
  refine countP_split fun c hc => ?_
  have hcounts := (hs.sound c hc).counts v
  refine ⟨?_, hcounts.2⟩
  rw [← hcounts.1]
  cases c.countedAs filter <;> simp

theorem Tallied.accounts (hs : Tallied filter parseIp s) : RequestsAccounted filter parseIp s := by
  have hallowed : s.served.metrics.ipAllowedRequests =
      s.calls.countP (Handling.answers false) + s.calls.countP (Handling.pending false) := by
    rw [hs.tally.allowed, ← tallied_split hs, List.count_eq_countP]
    refine List.countP_congr fun x _ => ?_
    cases x <;> simp
  have hblocked : s.served.metrics.ipBlockedRequests.total =
      s.calls.countP (Handling.answers true) + s.calls.countP (Handling.pending true) := by
    rw [hs.tally.blocked, ← tallied_split hs]
    refine List.countP_congr fun x _ => ?_
    simp
  refine ⟨hallowed, hblocked, ?_, ?_, ?_, ?_, ?_⟩
  · intro hquiet
    have hnone (v : Bool) : s.calls.countP (Handling.pending v) = 0 :=
      List.countP_eq_zero.mpr fun c hc => by simp [hquiet c hc v]
    rw [hallowed, hblocked, hnone, hnone]
    exact ⟨rfl, rfl⟩
  · intro l
    rw [hs.tally.labels l, List.count_eq_countP, List.countP_filterMap]
    refine List.countP_congr fun c _ => ?_
    cases c.countedAs filter <;> simp
  · exact fun c hc => (hs.sound c hc).one_variable
  · exact fun c hc v hv => (hs.sound c hc).same_snapshot hv
  · exact fun c hc h => (hs.sound c hc).rejected h

/-- Undisturbed, the steps of one request amount to `handle`. -/
theorem handle_alone (filter : IpFilter) (parseIp : String → Option IpAddr)
    (snapshot : Option (Snapshot G)) (m : Metrics) (req : Request)
    (before after : List (Handling G)) : ∃ labels c',
      (agent G filter parseIp).Run ⟨⟨snapshot, m⟩, before ++ ⟨req, req, .received⟩ :: after⟩ labels
        ⟨⟨snapshot, (filter.handle parseIp snapshot req m).2⟩, before ++ c' :: after⟩ ∧
      c'.received = req ∧ c'.request = (filter.handle parseIp snapshot req m).1 := by
  cases hip : req.clientIp parseIp with
  | none =>
    rw [handle_none req hip]
    exact ⟨_, _, .single (.handle (.reject hip)), rfl, rfl⟩
  | some ip =>
    have hmetrics : (if (filter.shouldDrop snapshot ip m).1 then (filter.shouldDrop snapshot ip m).2
        else (filter.shouldDrop snapshot ip m).2.countAllowed) =
          m.countVerdict (filter.verdict snapshot ip) := by
      rw [shouldDrop_eq]
      cases filter.verdict snapshot ip <;> rfl
    rw [handle_some req hip, ← hmetrics]
    exact ⟨_, _, .head (.handle (.load hip)) (.head (.handle .judge)
      (.head (.handle .count) (.single (.handle .answer)))), rfl, by rw [shouldDrop_eq]⟩

/-- A publication after the lookup changes neither the verdict of the request nor what it is
counted for. -/
theorem handle_published {req : Request} {ip : IpAddr} (hip : req.clientIp parseIp = some ip)
    (served : Served G) (lossy : Path → String) (path : Path) (reader : OwnedReader G)
    (modified : Option SystemTime) (before after : List (Handling G)) : ∃ labels c',
      (agent G filter parseIp).Run ⟨served, before ++ ⟨req, req, .received⟩ :: after⟩ labels
        ⟨⟨some ⟨reader, modified⟩,
          (Mmdb.publish lossy path served reader modified).metrics.countVerdict
            (filter.verdict served.snapshot ip)⟩, before ++ c' :: after⟩ ∧
      c'.received = req ∧ c'.request = req.answer (filter.verdict served.snapshot ip).isSome := by
  let metrics := (Mmdb.publish lossy path served reader modified).metrics
  have hmetrics : (if (filter.shouldDrop served.snapshot ip metrics).1 then
      (filter.shouldDrop served.snapshot ip metrics).2
      else (filter.shouldDrop served.snapshot ip metrics).2.countAllowed) =
        metrics.countVerdict (filter.verdict served.snapshot ip) := by
    rw [shouldDrop_eq]
    cases filter.verdict served.snapshot ip <;> rfl
  rw [← hmetrics]
  exact ⟨_, _, .head (.handle (.load hip)) (.head (.publish lossy path reader modified)
    (.head (.handle .judge) (.head (.handle .count) (.single (.handle .answer))))), rfl,
    by rw [shouldDrop_eq]⟩

/-- Whatever comes in, and whenever snapshots are swapped, the counters account for exactly the
requests that were answered. -/
theorem accountsForRequests (h : (agent G filter parseIp).Reachable s) :
    RequestsAccounted filter parseIp s :=
  (tallied_reachable h).accounts

/-- A request for `10.1.2.3`. -/
def spamRequest : Request := askFor (.ipv4 0x0A010203#32)

/-- A request that is blocked by the database of its lookup, with an empty one published before
its verdict. -/
theorem accountsForRequests_spam : ∃ s : Agent Reference.geoip2,
    s.served.snapshot = some ⟨Reference.emptyReader, none⟩ ∧
      (∃ c ∈ s.calls, c.received = spamRequest ∧ c.answers true = true) ∧
        RequestsAccounted ⟨{"spam"}, ∅⟩ (fun _ => none) s := by
  have hip : spamRequest.clientIp (fun _ => none) = some (.v4 0x0A010203#32) := by decide
  obtain ⟨labels, c, hrun, hreceived, hrequest⟩ := handle_published hip
    ⟨multiServed.snapshot, {}⟩ (fun _ => "firehol.mmdb") fireholMmdb Reference.emptyReader none
    [] []
  have hstart : (agent Reference.geoip2 ⟨{"spam"}, ∅⟩ fun _ => none).Reachable
      ⟨⟨multiServed.snapshot, {}⟩, []⟩ := .initial ⟨rfl, rfl, rfl⟩
  refine ⟨_, rfl, ⟨c, by simp, hreceived, ?_⟩,
    accountsForRequests ((hstart.step (.receive spamRequest)).run hrun)⟩
  rw [verdict_multi] at hrequest
  exact answers_answer (hrequest.trans (by rw [hreceived])) true

end IpReputation
