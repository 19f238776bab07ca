import IpReputation.Conversation
import IpReputation.AckCodec

/-! A connection over many calls: every acknowledgement is counted once, and for its own frame. -/
namespace IpReputation.Client

inductive Request
  | check (ip : IpAddr)
  | pipelined (ips : List IpAddr)

def Request.ips : Request → List IpAddr
  | .check ip => [ip]
  | .pipelined ips => ips

/-- Either call, with what it reports counted as for a batch. -/
def Connection.call (checks : Bool) (encode : IpAddr → Bytes) (request : Request)
    (c : Connection) : Except Stop BatchReply × Connection :=
  match request with
  | .check ip =>
    match c.check checks encode ip with
    | (.error e, c) => (.error e, c)
    | (.ok reply, c) => (.ok reply.counted, c)
  | .pipelined ips => c.checkPipelined checks encode ips

/-- A call, whether its write succeeds, and what arrives until its read times out. -/
structure Turn where
  request : Request
  arriving : Bytes
  writable : Bool := true

def Connection.before (t : Turn) (c : Connection) : Connection :=
  { c with
    stream := { c.stream with
      incoming := c.stream.incoming ++ t.arriving, writable := t.writable } }

/-- The results of the calls, up to a panic. -/
def converse (checks : Bool) (encode : IpAddr → Bytes) :
    List Turn → Connection → List (Except Stop BatchReply) × Connection
  | [], c => ([], c)
  | t :: ts, c =>
    match (c.before t).call checks encode t.request with
    | (.error (.panic p), c) => ([.error (.panic p)], c)
    | (result, c) =>
      let rest := converse checks encode ts c
      (result :: rest.1, rest.2)

/-- The requests of the calls that returned `Ok`. -/
def answered : List Turn → List (Except Stop BatchReply) → Nat
  | t :: ts, .ok _ :: results => t.request.ips.length + answered ts results
  | _ :: ts, .error _ :: results => answered ts results
  | _, _ => 0

/-- `ip_bad = 1`, over the calls that returned `Ok`. -/
def blocked : List (Except Stop BatchReply) → Nat
  | .ok reply :: results => reply.blocked + blocked results
  | .error _ :: results => blocked results
  | [] => 0

/-- Everything the client will have had to read. -/
def arrivals (turns : List Turn) (c : Connection) : Bytes :=
  c.stream.incoming ++ turns.flatMap Turn.arriving

/-- Every batch has one to 64 addresses. -/
def Request.Valid (request : Request) : Prop := request.ips ≠ [] ∧ request.ips.length ≤ 64

/-- How many frame ids these calls take. -/
def frames (turns : List Turn) : Nat := (turns.map fun t => t.request.ips.length).sum

variable {checks : Bool} {encode : IpAddr → Bytes} {ips : List IpAddr} {c c' : Connection}
  {request : Request} {reply : BatchReply} {t : Turn} {turns : List Turn} {n : Nat}
  {acks acks' : List (UInt64 × Bool)} {body incoming : Bytes} {bodies : List Bytes}

theorem call_eq_batch (checks : Bool) (encode : IpAddr → Bytes) (request : Request)
    (c : Connection) :
    SameResult (c.call checks encode request).1 (c.checkPipelined checks encode request.ips).1 ∧
      ((c.call checks encode request).2 = (c.checkPipelined checks encode request.ips).2 ∨
        Overflows checks c (c.call checks encode request)
          (c.checkPipelined checks encode request.ips)) := by
  cases request with
  | pipelined ips => exact ⟨.refl _, .inl rfl⟩
  | check ip =>
    obtain ⟨hresult, hend⟩ := check_eq_batch checks encode ip c
    simp only [Connection.call, Request.ips]
    rcases hcheck : c.check checks encode ip with ⟨e | r, c'⟩ <;>
      rw [hcheck] at hresult hend <;> exact ⟨hresult, hend⟩

/-- Below the last frame id the two leave the same connection. -/
theorem call_end (checks : Bool) (encode : IpAddr → Bytes) (request : Request)
    (hcounter : c.nextFrameId.toNat + request.ips.length < 2 ^ 64) (hne : request.ips ≠ []) :
    (c.call checks encode request).2 = (c.checkPipelined checks encode request.ips).2 := by
  rcases (call_eq_batch checks encode request c).2 with hsame | hover
  · exact hsame
  · have hpos := List.length_pos_iff.mpr hne
    have hlast := hover.last
    omega

theorem SameResult.ok_iff {result result' : Except Stop BatchReply}
    (h : SameResult result result') : result = .ok reply ↔ result' = .ok reply := by
  cases h with
  | refl => exact Iff.rfl
  | protocol msg msg' => simp

theorem called_call (checks : Bool) (encode : IpAddr → Bytes)
    (hvalid : request.Valid)
    (hcounter : c.nextFrameId.toNat + request.ips.length < 2 ^ 64) :
    Called request.ips.length c (c.call checks encode request).2 := by
  rw [call_end checks encode request hcounter hvalid.1]
  exact called_checkPipelined hvalid.1 hvalid.2 hcounter

/-- A frame with this body lies in what arrived, and acknowledges this. -/
def Arrived (checks : Bool) (c : Connection) (incoming : Bytes) (ack : UInt64 × Bool) : Prop :=
  ∃ body, Framed body ∧ decodeAck checks body c.streamId c.expectedAction = .ok ack ∧
    wire [body] <:+: incoming

/-- Acknowledgements of different frames between the counters of the two connections. -/
structure Distinct (checks : Bool) (c c' : Connection) (incoming : Bytes)
    (acks : List (UInt64 × Bool)) : Prop where
  nodup : (acks.map fun ack => ack.1.toNat).Nodup
  sent : ∀ ack ∈ acks, c.nextFrameId.toNat ≤ ack.1.toNat ∧ ack.1.toNat < c'.nextFrameId.toNat
  arrived : ∀ ack ∈ acks, Arrived checks c incoming ack

theorem Accepted.of_mem (h : Accepted checks c bodies acks) {ack : UInt64 × Bool}
    (hack : ack ∈ acks) :
    ∃ body ∈ bodies, decodeAck checks body c.streamId c.expectedAction = .ok ack := by
  obtain ⟨i, hi, rfl⟩ := List.getElem_of_mem hack
  have hbodies : i < bodies.length := h.length_eq ▸ hi
  exact ⟨bodies[i], List.getElem_mem hbodies, (List.forall₂_iff_get.mp h).2 i hbodies hi⟩

theorem wire_mem (h : body ∈ bodies) : wire [body] <:+: wire bodies := by
  obtain ⟨before, after, rfl⟩ := List.append_of_mem h
  exact ⟨wire before, wire after, by simp [wire]⟩

theorem Arrived.mono {ack : UInt64 × Bool} (h : Arrived checks c incoming ack) {incoming' : Bytes}
    (hsub : incoming <:+: incoming') : Arrived checks c incoming' ack := by
  obtain ⟨body, hframed, hdecode, hinfix⟩ := h
  exact ⟨body, hframed, hdecode, hinfix.trans hsub⟩

/-- The acknowledgements behind the reply of one call. -/
theorem distinct_call (hvalid : request.Valid)
    (hcounter : c.nextFrameId.toNat + request.ips.length < 2 ^ 64)
    (hok : (c.call checks encode request).1 = .ok reply) :
    ∃ acks, Distinct checks c (c.call checks encode request).2 c.stream.incoming acks ∧
      acks.length = request.ips.length ∧ acks.countP (·.2) = reply.blocked := by
  have hcalled := called_call checks encode hvalid hcounter
  have hbatch := (call_eq_batch checks encode request c).1.ok_iff.mp hok
  obtain ⟨-, bodies, acks, hanswer⟩ := (replies_iff hvalid.1 hvalid.2 hcounter).mp
    ⟨_, Prod.ext hbatch rfl⟩
  have hids := hanswer.ids
  have hmem : ∀ ack ∈ acks, ∃ i < request.ips.length, c.nextFrameId.toNat + i = ack.1.toNat := by
    intro ack hack
    exact (mem_sentIds hcounter).mp (hids.mem_iff.mp (List.mem_map_of_mem hack))
  refine ⟨acks, ⟨?_, ?_, ?_⟩, ?_, ?_⟩
  · have hmap := hids.map UInt64.toNat
    rw [List.map_map] at hmap
    refine hmap.nodup_iff.mpr ?_
    rw [sentIds, List.map_map]
    refine (List.nodup_map_iff_inj_on List.nodup_range).mpr ?_
    intro i hi j hj hsame
    have hi' := toNat_sent hcounter (List.mem_range.mp hi)
    have hj' := toNat_sent hcounter (List.mem_range.mp hj)
    simp only [Function.comp] at hsame
    omega
  · intro ack hack
    obtain ⟨i, hi, heq⟩ := hmem ack hack
    rw [hcalled.next]
    omega
  · intro ack hack
    obtain ⟨hframed, rest, hincoming⟩ := hanswer.arrive
    obtain ⟨body, hbody, hdecode⟩ := hanswer.accepted.of_mem hack
    refine ⟨body, hframed body hbody, hdecode, (wire_mem hbody).trans ?_⟩
    rw [hincoming]
    exact (List.prefix_append _ _).isInfix
  · have hlength := hids.length_eq
    simpa [sentIds] using hlength
  · rw [hanswer.reply]

/-- Acknowledgements of a call and of the calls after it are of different frames. -/
theorem Distinct.append {c₁ : Connection} {incoming' : Bytes}
    (h : Distinct checks c c₁ incoming acks) (k : Distinct checks c₁ c' incoming' acks')
    (hcalled : Called n c c₁) (hnext : c₁.nextFrameId.toNat ≤ c'.nextFrameId.toNat)
    {total : Bytes} (hsub : incoming <:+: total) (hsub' : incoming' <:+: total) :
    Distinct checks c c' total (acks ++ acks') := by
  have hle := hcalled.next
  refine ⟨?_, ?_, ?_⟩
  · rw [List.map_append]
    refine List.nodup_append.mpr ⟨h.nodup, k.nodup, ?_⟩
    intro id hid id' hid' heq
    obtain ⟨ack, hack, rfl⟩ := List.mem_map.mp hid
    obtain ⟨ack', hack', rfl⟩ := List.mem_map.mp hid'
    have hbefore := (h.sent ack hack).2
    have hafter := (k.sent ack' hack').1
    omega
  · intro ack hack
    rcases List.mem_append.mp hack with hack | hack
    · have hsent := h.sent ack hack
      omega
    · have hsent := k.sent ack hack
      omega
  · intro ack hack
    rcases List.mem_append.mp hack with hack | hack
    · exact (h.arrived ack hack).mono hsub
    · obtain ⟨body, hframed, hdecode, hinfix⟩ := k.arrived ack hack
      rw [hcalled.streamId, hcalled.expectedAction] at hdecode
      exact ⟨body, hframed, hdecode, hinfix.trans hsub'⟩

theorem distinct_nil : Distinct checks c c' incoming [] := ⟨.nil, by simp, by simp⟩

/-- What arrives changes neither the stream id nor the counter. -/
theorem Distinct.before (h : Distinct checks (c.before t) c' incoming acks) :
    Distinct checks c c' incoming acks := ⟨h.nodup, h.sent, h.arrived⟩

/-- What the later calls can read is the end of what has arrived. -/
theorem arrivals_suffix (h : Called n (c.before t) c') :
    arrivals turns c' <:+: arrivals (t :: turns) c := by
  obtain ⟨lost, hlost⟩ := h.rest
  have hincoming : c.stream.incoming ++ t.arriving = lost ++ c'.stream.incoming := hlost.symm
  refine ⟨lost, [], ?_⟩
  simp only [arrivals, List.flatMap_cons, List.append_nil]
  rw [← List.append_assoc c.stream.incoming, hincoming, List.append_assoc]

@[simp] theorem answered_nil : answered turns [] = 0 := by
  cases turns <;> rfl

theorem frames_cons : frames (t :: turns) = t.request.ips.length + frames turns := rfl

/-- Calls after a panic are not made. -/
theorem converse_cons (checks : Bool) (encode : IpAddr → Bytes) (t : Turn) (turns : List Turn)
    (c : Connection) :
    (∃ p, ((c.before t).call checks encode t.request).1 = .error (.panic p) ∧
      converse checks encode (t :: turns) c =
        ([.error (.panic p)], ((c.before t).call checks encode t.request).2)) ∨
    converse checks encode (t :: turns) c =
      (((c.before t).call checks encode t.request).1 ::
          (converse checks encode turns ((c.before t).call checks encode t.request).2).1,
        (converse checks encode turns ((c.before t).call checks encode t.request).2).2) := by
  rw [converse]
  rcases (c.before t).call checks encode t.request with ⟨(p | e) | reply, c'⟩
  · exact .inl ⟨p, rfl, rfl⟩
  · exact .inr rfl
  · exact .inr rfl

/-- The same call as a batch. -/
def Turn.batched (t : Turn) : Turn := { t with request := .pipelined t.request.ips }

/-- How two conversations with these results leave their connections: the same, or, when a checked
build has panicked on the last frame id, the same but for a buffer that only one has cleared. -/
def SameEnd (checks : Bool) (results : List (Except Stop BatchReply)) (c c' : Connection) : Prop :=
  c = c' ∨ checks = true ∧ c.nextFrameId.toNat = 2 ^ 64 - 1 ∧
    .error (.panic .frameCounter) ∈ results ∧ c' = { c with out := [] }

theorem SameEnd.cons {results : List (Except Stop BatchReply)} (result : Except Stop BatchReply)
    (h : SameEnd checks results c c') : SameEnd checks (result :: results) c c' := by
  rcases h with hsame | ⟨hchecks, hlast, hpanic, hout⟩
  · exact .inl hsame
  · exact .inr ⟨hchecks, hlast, List.mem_cons_of_mem _ hpanic, hout⟩

/-- A client that sends every single request as a batch of one has the same conversation: the same
replies, errors and panics in the same calls, up to the text of protocol errors, and the same
connection in the end, but for the buffer of frames after an overflow of the frame counter. -/
theorem converse_batched (checks : Bool) (encode : IpAddr → Bytes) (turns : List Turn)
    (c : Connection) :
    List.Forall₂ SameResult (converse checks encode turns c).1
        (converse checks encode (turns.map Turn.batched) c).1 ∧
      SameEnd checks (converse checks encode turns c).1 (converse checks encode turns c).2
        (converse checks encode (turns.map Turn.batched) c).2 := by
  induction turns generalizing c with
  | nil => exact ⟨.nil, .inl rfl⟩
  | cons t turns ih =>
    obtain ⟨hresult, hend⟩ := call_eq_batch checks encode t.request (c.before t)
    have hbatched : (c.before t.batched).call checks encode t.batched.request =
        (c.before t).checkPipelined checks encode t.request.ips := rfl
    rw [List.map_cons, converse, converse, hbatched]
    rcases hcall : (c.before t).call checks encode t.request with ⟨result, c'⟩
    rcases hbatch : (c.before t).checkPipelined checks encode t.request.ips with ⟨result', c''⟩
    rw [hcall, hbatch] at hresult hend
    rcases hend with hsame | hover
    · obtain rfl : c' = c'' := hsame
      obtain ⟨hrest, hlast⟩ := ih c'
      cases hresult with
      | refl =>
        rcases result with (p | e) | reply
        · exact ⟨.cons (.refl _) .nil, .inl rfl⟩
        · exact ⟨.cons (.refl _) hrest, hlast.cons _⟩
        · exact ⟨.cons (.refl _) hrest, hlast.cons _⟩
      | protocol msg msg' => exact ⟨.cons (.protocol msg msg') hrest, hlast.cons _⟩
    · obtain ⟨rfl, rfl⟩ := Prod.mk.inj hover.single
      obtain ⟨rfl, rfl⟩ := Prod.mk.inj hover.batch
      exact ⟨.cons (.refl _) .nil,
        .inr ⟨hover.checked, hover.last, List.mem_singleton_self _, rfl⟩⟩

theorem converse_next (checks : Bool) (encode : IpAddr → Bytes)
    (hvalid : ∀ t ∈ turns, t.request.Valid)
    (hcounter : c.nextFrameId.toNat + frames turns < 2 ^ 64) :
    c.nextFrameId.toNat ≤ (converse checks encode turns c).2.nextFrameId.toNat := by
  induction turns generalizing c with
  | nil => exact le_rfl
  | cons t turns ih =>
    rw [frames_cons] at hcounter
    have hcalled : Called t.request.ips.length (c.before t)
        ((c.before t).call checks encode t.request).2 :=
      called_call checks encode (hvalid t (List.mem_cons_self ..)) (by
        change c.nextFrameId.toNat + t.request.ips.length < 2 ^ 64
        omega)
    have hnext : ((c.before t).call checks encode t.request).2.nextFrameId.toNat =
        c.nextFrameId.toNat + t.request.ips.length := hcalled.next
    rcases converse_cons checks encode t turns c with ⟨p, -, hrun⟩ | hrun
    · simp only [hrun]
      omega
    · have hrest := ih (c := ((c.before t).call checks encode t.request).2)
        (fun t ht => hvalid t (List.mem_cons_of_mem _ ht)) (by omega)
      simp only [hrun]
      omega

/-- Acknowledgements behind all replies of a conversation, and no two of the same frame. -/
theorem distinct_converse (checks : Bool) (encode : IpAddr → Bytes)
    (hvalid : ∀ t ∈ turns, t.request.Valid)
    (hcounter : c.nextFrameId.toNat + frames turns < 2 ^ 64) :
    ∃ acks, Distinct checks c (converse checks encode turns c).2 (arrivals turns c) acks ∧
      acks.length = answered turns (converse checks encode turns c).1 ∧
      acks.countP (·.2) = blocked (converse checks encode turns c).1 := by
  induction turns generalizing c with
  | nil => exact ⟨[], distinct_nil, rfl, rfl⟩
  | cons t turns ih =>
    rw [frames_cons] at hcounter
    have hhead := hvalid t (List.mem_cons_self ..)
    have htail : ∀ t ∈ turns, t.request.Valid := fun t ht => hvalid t (List.mem_cons_of_mem _ ht)
    have hbound : (c.before t).nextFrameId.toNat + t.request.ips.length < 2 ^ 64 := by
      change c.nextFrameId.toNat + t.request.ips.length < 2 ^ 64
      omega
    have hcalled := called_call checks encode hhead hbound
    have hnext : ((c.before t).call checks encode t.request).2.nextFrameId.toNat =
        c.nextFrameId.toNat + t.request.ips.length := hcalled.next
    rcases converse_cons checks encode t turns c with ⟨p, -, hrun⟩ | hrun
    · exact ⟨[], distinct_nil, by simp [hrun, answered], by simp [hrun, blocked]⟩
    · have hrest : ((c.before t).call checks encode t.request).2.nextFrameId.toNat +
          frames turns < 2 ^ 64 := by omega
      obtain ⟨acks, hacks, hanswered, hblocked⟩ := ih htail hrest
      have hlater := converse_next checks encode htail hrest
      have hsub : arrivals turns ((c.before t).call checks encode t.request).2 <:+:
          arrivals (t :: turns) c := arrivals_suffix hcalled
      rw [hrun]
      cases hresult : ((c.before t).call checks encode t.request).1 with
      | error e =>
        refine ⟨acks, ?_, by simpa [answered] using hanswered, by simpa [blocked] using hblocked⟩
        exact Distinct.before (distinct_nil.append hacks hcalled hlater List.nil_infix hsub)
      | ok reply =>
        obtain ⟨acks₀, hacks₀, hlength, hcount⟩ := distinct_call hhead hbound hresult
        refine ⟨acks₀ ++ acks, ?_, ?_, ?_⟩
        · refine Distinct.before (hacks₀.append hacks hcalled hlater ?_ hsub)
          exact ⟨[], turns.flatMap Turn.arriving, by simp [arrivals, Connection.before]⟩
        · simp [answered, hlength, hanswered]
        · simp [blocked, hcount, hblocked]

theorem called_handshake (hello : Bytes) (c : Connection) : Called 0 c (c.handshake hello).2 := by
  have hwrote : Called 0 c { c with
      out := putFrame [] FRAME_HAPROXY_HELLO 0 0 hello
      stream := (c.stream.writeAll (putFrame [] FRAME_HAPROXY_HELLO 0 0 hello)).2 } := by
    refine ⟨rfl, rfl, rfl, rfl, ?_⟩
    rw [TcpStream.writeAll_incoming]
  simp only [Connection.handshake]
  rcases hwrite : c.stream.writeAll (putFrame [] FRAME_HAPROXY_HELLO 0 0 hello) with
    ⟨e | u, stream⟩ <;> rw [hwrite] at hwrote
  · exact hwrote
  · have hread := hwrote.trans (called_readFrame _)
    simp only
    split
    · rename_i hfailed
      rwa [hfailed] at hread
    · rename_i hframe
      rw [hframe] at hread
      split <;> exact hread

theorem connect_ok {hello : Bytes} {stream : TcpStream} {streamId : UInt64}
    (h : Connection.connect hello stream streamId = .ok c) :
    Called 0 { stream, streamId } c := by
  have hcalled := called_handshake hello { stream, streamId }
  simp only [Connection.connect] at h
  split at h
  · cases h
  · rename_i c' hgreeted
    obtain rfl := Except.ok.inj h
    rwa [hgreeted] at hcalled

/-- Over the life of a connection, whatever arrives and whatever calls fail on the way, each
request reported as answered and each one reported as blocked stands for an acknowledgement of its
own: one that arrived, for a frame of the very call that reported it, and that no other call has
counted. -/
theorem converse_distinct {hello : Bytes} {stream : TcpStream} {streamId : UInt64}
    (hconnect : Connection.connect hello stream streamId = .ok c)
    (hvalid : ∀ t ∈ turns, t.request.Valid) (hcounter : 1 + frames turns < 2 ^ 64) :
    ∃ acks, Distinct checks c (converse checks encode turns c).2 (arrivals turns c) acks ∧
      acks.length = answered turns (converse checks encode turns c).1 ∧
      acks.countP (·.2) = blocked (converse checks encode turns c).1 := by
  have hone : c.nextFrameId.toNat = 1 := (connect_ok hconnect).next
  exact distinct_converse checks encode hvalid (by rw [hone]; exact hcounter)

/-- The first check times out; its acknowledgement arrives late, before that of the second. -/
def lateTurns : List Turn :=
  [⟨.check (.v4 0xC0000201), [], true⟩,
    ⟨.check (.v4 0xC0000201), wire [ackBody 1 BOOLEAN_TRUE, ackBody 2 BOOLEAN_TRUE], true⟩,
    ⟨.check (.v4 0xC0000201), [], true⟩,
    ⟨.check (.v4 0xC0000201), wire [ackBody 4 BOOLEAN_TRUE], true⟩]

theorem converse_distinct_late : ∃ c : Connection,
    Connection.connect [] { incoming := wire [[FRAME_AGENT_HELLO, 0, 0, 0, 1, 0, 0]] } 1 = .ok c ∧
      answered lateTurns (converse false (fun _ => []) lateTurns c).1 = 1 ∧
      ∃ acks, Distinct false c (converse false (fun _ => []) lateTurns c).2 (arrivals lateTurns c)
          acks ∧
        acks.length = answered lateTurns (converse false (fun _ => []) lateTurns c).1 ∧
        acks.countP (·.2) = blocked (converse false (fun _ => []) lateTurns c).1 := by
  have hvalid : ∀ t ∈ lateTurns, t.request.Valid := by
    simp [lateTurns, Request.Valid, Request.ips]
  obtain ⟨c, hconnect⟩ : ∃ c, Connection.connect []
      { incoming := wire [[FRAME_AGENT_HELLO, 0, 0, 0, 1, 0, 0]] } 1 = .ok c := ⟨_, rfl⟩
  refine ⟨c, hconnect, ?_, converse_distinct hconnect hvalid (by decide)⟩
  obtain rfl := Except.ok.inj hconnect
  decide

end IpReputation.Client
