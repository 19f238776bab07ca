import IpReputation.Library.Transition
import IpReputation.Net
import Mathlib.Logic.Function.Basic

/-! `haproxy.cfg`: the requests of `frontend http-in`, rule by rule. -/
namespace IpReputation

open Transition

/-- A client connection: its address, and `sess.iprep.ip_bad` once it is set. -/
structure Session where
  src : IpAddr
  ipBad : Option Bool := none

/-- The `http-request` rule a request has come to. -/
inductive Rule
  | trackSc0
  | sendSpoeGroup
  /-- The group is sent, and the agent has neither answered nor timed out. -/
  | waiting
  | setGpt0Good
  | setGpt0Bad
  | silentDrop
  | served
  | dropped
  deriving DecidableEq

structure HttpRequest where
  session : Nat
  src : IpAddr
  rule : Rule := .trackSc0
  /-- `gpt0` when `send-spoe-group` was evaluated. -/
  found : Option Nat := none
  /-- The agent's answer to this very request. -/
  answer : Option Bool := none
  deriving DecidableEq

/-- The stick table (`gpt0` by client address), the connections, and all requests so far. -/
structure Frontend where
  table : IpAddr → Option Nat
  sessions : Nat → Option Session
  requests : List HttpRequest

/-- `sc_get_gpt0(0)`: `0` unknown, `1` good, `2` bad. -/
def Frontend.gpt0 (s : Frontend) (ip : IpAddr) : Nat := (s.table ip).getD 0

/-- `var(sess.iprep.ip_bad)`. -/
def Frontend.ipBad (s : Frontend) (session : Nat) : Option Bool :=
  (s.sessions session).bind Session.ipBad

/-- Evaluates a request's rule: the request after it, and what it stores in the entry. -/
def evaluate (gpt0 : Nat) (ipBad : Option Bool) (r : HttpRequest) : HttpRequest × Option Nat :=
  match r.rule with
  | .trackSc0 => ({ r with rule := .sendSpoeGroup }, some gpt0)
  | .sendSpoeGroup =>
    ({ r with found := some gpt0, rule := if gpt0 = 0 then .waiting else .setGpt0Good }, none)
  | .setGpt0Good =>
    ({ r with rule := .setGpt0Bad }, if gpt0 = 0 ∧ ipBad = some false then some 1 else none)
  | .setGpt0Bad =>
    ({ r with rule := .silentDrop }, if gpt0 = 0 ∧ ipBad = some true then some 2 else none)
  | .silentDrop => ({ r with rule := if gpt0 = 2 then .dropped else .served }, none)
  | .waiting | .served | .dropped => (r, none)

/-- `sc-set-gpt0`, or nothing. -/
def store (table : IpAddr → Option Nat) (ip : IpAddr) (value : Option Nat) :
    IpAddr → Option Nat :=
  match value with
  | some v => Function.update table ip (some v)
  | none => table

/-- The table after a request has evaluated its rule, with the requests there are then. -/
def Frontend.evaluated (s : Frontend) (r : HttpRequest) (requests : List HttpRequest) : Frontend :=
  ⟨store s.table r.src (evaluate (s.gpt0 r.src) (s.ipBad r.session) r).2, s.sessions, requests⟩

/-- `set-var` in the scope of a session. -/
def setVar (sessions : Nat → Option Session) (sid : Nat) (v : Bool) : Nat → Option Session :=
  Function.update sessions sid ((sessions sid).map fun session => { session with ipBad := some v })

/-- The request holds a reference to its table entry. -/
def HttpRequest.tracked (r : HttpRequest) : Bool :=
  match r.rule with
  | .sendSpoeGroup | .waiting | .setGpt0Good | .setGpt0Bad | .silentDrop => true
  | .trackSc0 | .served | .dropped => false

def HttpRequest.ended (r : HttpRequest) : Bool := r.rule = .served ∨ r.rule = .dropped

/-- What a step is about. -/
inductive FrontendEvent
  | connect (session : Nat)
  | disconnect (session : Nat)
  | request (session : Nat)
  | rule (r : HttpRequest)
  | answered (r : HttpRequest) (ipBad : Bool)
  | unanswered (r : HttpRequest)
  | expire (ip : IpAddr)

/-- One step of the frontend, its clients, the agent or the clock. `answers` are the answers the
agent may give, `expirable` the entries that may go. -/
inductive FrontendStep (answers : IpAddr → Bool → Prop) (expirable : Frontend → IpAddr → Prop) :
    Frontend → FrontendEvent → Frontend → Prop
  | connect {s : Frontend} {sid : Nat} (src : IpAddr) (h : s.sessions sid = none) :
      FrontendStep answers expirable s (.connect sid)
        { s with sessions := Function.update s.sessions sid (some ⟨src, none⟩) }
  | disconnect {s : Frontend} {sid : Nat}
      (h : ∀ r ∈ s.requests, r.session = sid → r.ended = true) :
      FrontendStep answers expirable s (.disconnect sid)
        { s with sessions := Function.update s.sessions sid none }
  | request {s : Frontend} {sid : Nat} {session : Session} (h : s.sessions sid = some session) :
      FrontendStep answers expirable s (.request sid)
        { s with requests := s.requests ++ [{ session := sid, src := session.src }] }
  | rule {s : Frontend} {before after : List HttpRequest} {r : HttpRequest}
      (hs : s.requests = before ++ r :: after) (hr : r.rule ≠ .waiting) (he : r.ended = false) :
      FrontendStep answers expirable s (.rule r)
        (s.evaluated r
          (before ++ (evaluate (s.gpt0 r.src) (s.ipBad r.session) r).1 :: after))
  | answered {s : Frontend} {before after : List HttpRequest} {r : HttpRequest} {v : Bool}
      (hs : s.requests = before ++ r :: after) (hr : r.rule = .waiting) (hv : answers r.src v) :
      FrontendStep answers expirable s (.answered r v)
        ⟨s.table, setVar s.sessions r.session v,
          before ++ { r with rule := .setGpt0Good, answer := some v } :: after⟩
  | unanswered {s : Frontend} {before after : List HttpRequest} {r : HttpRequest}
      (hs : s.requests = before ++ r :: after) (hr : r.rule = .waiting) :
      FrontendStep answers expirable s (.unanswered r)
        ⟨s.table, s.sessions, before ++ { r with rule := .setGpt0Good } :: after⟩
  | expire {s : Frontend} {ip : IpAddr} (h : expirable s ip) :
      FrontendStep answers expirable s (.expire ip)
        { s with table := Function.update s.table ip none }

/-- The frontend, from an empty table and no connection on. -/
def frontend (answers : IpAddr → Bool → Prop) (expirable : Frontend → IpAddr → Prop) :
    System Frontend FrontendEvent where
  initial s := (∀ ip, s.table ip = none) ∧ (∀ sid, s.sessions sid = none) ∧ s.requests = []
  step := FrontendStep answers expirable

/-- No request holds the entry of `ip`. -/
def Idle (s : Frontend) (ip : IpAddr) : Prop :=
  ∀ r ∈ s.requests, r.src = ip → r.tracked = false

variable {s : Frontend} {r : HttpRequest} {before after : List HttpRequest}
  {table : IpAddr → Option Nat} {sessions : Nat → Option Session} {gpt0 sid : Nat}
  {ipBad : Option Bool} {value : Option Nat} {ip : IpAddr} {v : Bool}

@[simp] theorem store_self : (store table ip value ip).getD 0 = value.getD ((table ip).getD 0) := by
  cases value <;> simp [store]

theorem store_other {other : IpAddr} (h : other ≠ ip) :
    store table ip value other = table other := by
  cases value with
  | none => rfl
  | some u => simp [store, h]

@[simp] theorem evaluate_session : (evaluate gpt0 ipBad r).1.session = r.session := by
  unfold evaluate
  split <;> rfl

@[simp] theorem evaluate_src : (evaluate gpt0 ipBad r).1.src = r.src := by
  unfold evaluate
  split <;> rfl

/-- A rule stores what the entry holds anyway, or the session variable in an entry that is `0`. -/
theorem evaluate_stores {stored : Nat} (h : (evaluate gpt0 ipBad r).2 = some stored) :
    stored = gpt0 ∨ gpt0 = 0 ∧ (r.rule = .setGpt0Good ∧ ipBad = some false ∧ stored = 1 ∨
      r.rule = .setGpt0Bad ∧ ipBad = some true ∧ stored = 2) := by
  unfold evaluate at h
  split at h
  · exact .inl (Option.some.inj h).symm
  · cases h
  · rename_i hrule
    split at h
    · rename_i hc
      exact .inr ⟨hc.1, .inl ⟨hrule, hc.2, (Option.some.inj h).symm⟩⟩
    · cases h
  · rename_i hrule
    split at h
    · rename_i hc
      exact .inr ⟨hc.1, .inr ⟨hrule, hc.2, (Option.some.inj h).symm⟩⟩
    · cases h
  all_goals cases h

/-- What a rule does to `gpt0` of any address. -/
theorem gpt0_evaluated (s : Frontend) (r : HttpRequest) (requests : List HttpRequest)
    (ip : IpAddr) : (s.evaluated r requests).gpt0 ip = s.gpt0 ip ∨
      ip = r.src ∧ s.gpt0 ip = 0 ∧
        (r.rule = .setGpt0Good ∧ s.ipBad r.session = some false ∧
            (s.evaluated r requests).gpt0 ip = 1 ∨
          r.rule = .setGpt0Bad ∧ s.ipBad r.session = some true ∧
            (s.evaluated r requests).gpt0 ip = 2) := by
  by_cases hip : ip = r.src
  · subst hip
    have hself : (s.evaluated r requests).gpt0 r.src =
        (evaluate (s.gpt0 r.src) (s.ipBad r.session) r).2.getD (s.gpt0 r.src) := store_self
    rw [hself]
    cases hv : (evaluate (s.gpt0 r.src) (s.ipBad r.session) r).2 with
    | none => exact .inl rfl
    | some stored =>
      rcases evaluate_stores hv with rfl | ⟨hzero, hset⟩
      · exact .inl rfl
      · exact .inr ⟨rfl, hzero, hset⟩
  · exact .inl (congrArg (·.getD 0) (store_other hip))

variable {answers : IpAddr → Bool → Prop} {expirable : Frontend → IpAddr → Prop}
  {requests : List HttpRequest}

/-- The last request evaluates its rule. -/
theorem reachable_rule (r' : HttpRequest) (value : Option Nat) (table' : IpAddr → Option Nat)
    (h : (frontend answers expirable).Reachable ⟨table, sessions, requests ++ [r]⟩)
    (hw : r.rule ≠ .waiting) (he : r.ended = false)
    (hr : evaluate ((table r.src).getD 0) ((sessions r.session).bind Session.ipBad) r = (r', value))
    (ht : store table r.src value = table') :
    (frontend answers expirable).Reachable ⟨table', sessions, requests ++ [r']⟩ := by
  have hstep : FrontendStep answers expirable ⟨table, sessions, requests ++ [r]⟩ (.rule r) _ :=
    .rule rfl hw he
  have hnext := h.step hstep
  simp only [Frontend.evaluated, Frontend.gpt0, Frontend.ipBad, hr, ht] at hnext
  exact hnext

/-- A new request whose entry is `0` gets as far as the agent. -/
theorem reachable_waiting {ip : IpAddr}
    (h : (frontend answers expirable).Reachable ⟨table, sessions, requests⟩)
    (hsession : sessions sid = some ⟨ip, ipBad⟩) (hzero : (table ip).getD 0 = 0) :
    (frontend answers expirable).Reachable ⟨Function.update table ip (some 0), sessions,
      requests ++ [⟨sid, ip, .waiting, some 0, none⟩]⟩ := by
  have hrequest := h.step (.request hsession)
  have htrack := reachable_rule ⟨sid, ip, .sendSpoeGroup, none, none⟩ (some 0)
    (Function.update table ip (some 0)) hrequest nofun rfl (by simp [evaluate, hzero]) rfl
  exact reachable_rule ⟨sid, ip, .waiting, some 0, none⟩ none _ htrack nofun rfl
    (by simp [evaluate]) rfl

/-- The rules after the agent's part, in an entry that is `0`: the session variable decides. -/
theorem reachable_ended {ip : IpAddr} {answer : Option Bool}
    (h : (frontend answers expirable).Reachable
      ⟨table, sessions, requests ++ [⟨sid, ip, .setGpt0Good, some 0, answer⟩]⟩)
    (hsession : sessions sid = some ⟨ip, some v⟩) (hzero : (table ip).getD 0 = 0) :
    (frontend answers expirable).Reachable
      ⟨Function.update table ip (some (if v then 2 else 1)), sessions,
        requests ++ [⟨sid, ip, if v then .dropped else .served, some 0, answer⟩]⟩ := by
  cases v with
  | false =>
    have hgood := reachable_rule ⟨sid, ip, .setGpt0Bad, some 0, answer⟩ (some 1) _ h nofun rfl
      (by simp [evaluate, hzero, hsession]) rfl
    have hbad := reachable_rule ⟨sid, ip, .silentDrop, some 0, answer⟩ none _ hgood nofun rfl
      (by simp [evaluate, store]) rfl
    exact reachable_rule ⟨sid, ip, .served, some 0, answer⟩ none _ hbad nofun rfl
      (by simp [evaluate, store]) rfl
  | true =>
    have hgood := reachable_rule ⟨sid, ip, .setGpt0Bad, some 0, answer⟩ none _ h nofun rfl
      (by simp [evaluate, hsession]) rfl
    have hbad := reachable_rule ⟨sid, ip, .silentDrop, some 0, answer⟩ (some 2) _ hgood nofun rfl
      (by simp [evaluate, store, hzero, hsession]) rfl
    exact reachable_rule ⟨sid, ip, .dropped, some 0, answer⟩ none _ hbad nofun rfl
      (by simp [evaluate, store]) rfl

/-- The first request of a client, answered `v` and taken to its end. -/
theorem reachable_answered {ip : IpAddr} (hv : answers ip v) :
    (frontend answers expirable).Reachable
      ⟨Function.update (fun _ => none) ip (some (if v then 2 else 1)),
        Function.update (fun _ => none) 0 (some ⟨ip, some v⟩),
        [⟨0, ip, if v then .dropped else .served, some 0, some v⟩]⟩ := by
  have hnone : (frontend answers expirable).Reachable ⟨fun _ => none, fun _ => none, []⟩ :=
    .initial ⟨fun _ => rfl, fun _ => rfl, rfl⟩
  have hconnect : (frontend answers expirable).Reachable
      ⟨fun _ => none, Function.update (fun _ => none) 0 (some ⟨ip, none⟩), []⟩ :=
    hnone.step (.connect ip rfl)
  have hwaiting := reachable_waiting hconnect (Function.update_self ..) rfl
  have hsplit : [] ++ [(⟨0, ip, .waiting, some 0, none⟩ : HttpRequest)] =
      [] ++ ⟨0, ip, .waiting, some 0, none⟩ :: [] := rfl
  have hanswer := hwaiting.step (.answered hsplit rfl hv)
  have hset : setVar (Function.update (fun _ => none) 0 (some ⟨ip, none⟩)) 0 v =
      Function.update (fun _ => none) 0 (some ⟨ip, some v⟩) := by
    simp [setVar]
  simp only [hset] at hanswer
  have hend := reachable_ended hanswer (Function.update_self ..) (by simp)
  simpa using hend

end IpReputation
