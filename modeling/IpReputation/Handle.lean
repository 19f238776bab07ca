import IpReputation.Spoa

/-! `spoa.rs`: the handler of a `check-client-ip` message. -/
namespace IpReputation

variable {β : Type} {G : Geoip2 β} {filter : IpFilter} {parseIp : String → Option IpAddr}
  {snapshot : Option (Snapshot G)} {ip : IpAddr} {m : Metrics}

def MESSAGE_NAME : String := "check-client-ip"

def IP_ARGUMENT : String := "ip"

def RESULT_VARIABLE : String := "ip_bad"

/-- `haproxy_spoe::TypedData`. -/
inductive TypedData
  | null
  | boolean (value : Bool)
  | int32 (value : Int)
  | uint32 (value : Nat)
  | int64 (value : Int)
  | uint64 (value : Nat)
  | ipv4 (addr : Ipv4Addr)
  | ipv6 (addr : Ipv6Addr)
  | string (value : String)
  | binary (value : List UInt8)
  deriving DecidableEq

/-- `haproxy_spoe::Scope`. -/
inductive Scope
  | process
  | session
  | transaction
  | request
  | response
  deriving DecidableEq

/-- `haproxy_spoe::Request`: the arguments of its messages, and the variables set so far. -/
structure Request where
  getMessage : String → Option (String → Option TypedData)
  vars : List (Scope × String × TypedData) := []

def Request.setVar (scope : Scope) (name : String) (value : TypedData) (req : Request) : Request :=
  { req with vars := req.vars ++ [(scope, name, value)] }

/-- The address in the `ip` argument; `parseIp` is `str::parse::<IpAddr>`. -/
def ipArgument (parseIp : String → Option IpAddr) (value : Option TypedData) : Option IpAddr :=
  match value with
  | some (.ipv4 ip) => some (.v4 ip)
  | some (.ipv6 ip) => some (.v6 ip)
  | some (.string raw) => parseIp raw
  | _ => none

/-- `IP_ALLOWED_REQUESTS.inc()`. -/
def Metrics.countAllowed (m : Metrics) : Metrics :=
  { m with ipAllowedRequests := m.ipAllowedRequests + 1 }

/-- Reads the `ip` argument of `check-client-ip` and sets `ip_bad`. -/
def IpFilter.handle (filter : IpFilter) (parseIp : String → Option IpAddr)
    (snapshot : Option (Snapshot G)) (req : Request) (m : Metrics) : Request × Metrics :=
  match req.getMessage MESSAGE_NAME with
  | none => (req, m)
  | some msg =>
    match ipArgument parseIp (msg IP_ARGUMENT) with
    | none => (req, m)
    | some ip =>
      let (shouldDrop, m) := filter.shouldDrop snapshot ip m
      let m := if shouldDrop then m else m.countAllowed
      (req.setVar .session RESULT_VARIABLE (.boolean shouldDrop), m)

/-- The address a request asks about, when the handler finds one. -/
def Request.clientIp (parseIp : String → Option IpAddr) (req : Request) : Option IpAddr :=
  (req.getMessage MESSAGE_NAME).bind fun msg => ipArgument parseIp (msg IP_ARGUMENT)

/-- `ip_bad` set to `v`. -/
def Request.answer (v : Bool) (req : Request) : Request :=
  req.setVar .session RESULT_VARIABLE (.boolean v)

/-- The list a snapshot blocks `ip` for, by file name, maintainer and category. -/
def IpFilter.verdict (filter : IpFilter) (snapshot : Option (Snapshot G)) (ip : IpAddr) :
    Option (String × String × String) :=
  (Mmdb.lookup snapshot ip fun entry => (filter.findMatch entry).map fun hit =>
    (field entry.fileName hit.index, field entry.maintainer hit.index,
      field entry.category hit.index)).join

/-- The counter that goes with a verdict. -/
def Metrics.countVerdict (m : Metrics) (verdict : Option (String × String × String)) : Metrics :=
  verdict.elim m.countAllowed m.countBlocked

/-- `should_drop` is whether there is a verdict, and counts a block under it. -/
theorem shouldDrop_eq (filter : IpFilter) (snapshot : Option (Snapshot G)) (ip : IpAddr)
    (m : Metrics) : filter.shouldDrop snapshot ip m =
      ((filter.verdict snapshot ip).isSome,
        (filter.verdict snapshot ip).elim m m.countBlocked) := by
  cases snapshot with
  | none => rfl
  | some snapshot =>
    simp only [IpFilter.shouldDrop, IpFilter.verdict, Mmdb.lookup]
    cases hl : G.lookup snapshot.reader.dependent ip with
    | error e => cases e <;> rfl
    | ok entry => cases hf : filter.findMatch entry <;> simp [hf, recordBlock, Metrics.countBlocked]

theorem handle_none (req : Request) (h : req.clientIp parseIp = none) :
    filter.handle parseIp snapshot req m = (req, m) := by
  unfold Request.clientIp at h
  unfold IpFilter.handle
  cases hm : req.getMessage MESSAGE_NAME with
  | none => rfl
  | some msg =>
    simp only [hm, Option.bind_some] at h
    simp only [h]

/-- With an address, one variable and one counter follow from one verdict. -/
theorem handle_some (req : Request) (h : req.clientIp parseIp = some ip) :
    filter.handle parseIp snapshot req m =
      (req.answer (filter.verdict snapshot ip).isSome,
        m.countVerdict (filter.verdict snapshot ip)) := by
  unfold Request.clientIp at h
  unfold IpFilter.handle
  cases hm : req.getMessage MESSAGE_NAME with
  | none => simp [hm] at h
  | some msg =>
    simp only [hm, Option.bind_some] at h
    simp only [h, shouldDrop_eq]
    cases filter.verdict snapshot ip <;> rfl

theorem answer_inj {req : Request} {v v' : Bool} (h : req.answer v = req.answer v') : v = v' := by
  have hvars := congrArg Request.vars h
  simpa [Request.answer, Request.setVar] using hvars

/-- A request with one `ip` argument. -/
def askFor (value : TypedData) : Request where
  getMessage name := if name = MESSAGE_NAME then
    some fun argument => if argument = IP_ARGUMENT then some value else none
  else none

end IpReputation
