import IpReputation.Exchange

/-! With an agent that answers every NOTIFY once, every call gets its answers. -/
namespace IpReputation.Client

/-- The acknowledgements of a batch, when the agent says `drop` of an address. -/
def acksFor (drop : IpAddr → Bool) : UInt64 → List IpAddr → List (UInt64 × Bool)
  | _, [] => []
  | frameId, ip :: ips => (frameId, drop ip) :: acksFor drop (frameId + 1) ips

/-- The agent acknowledges every frame of the call once, in any order, and sends nothing else. -/
def Complies (drop : IpAddr → Bool) (c : Connection) (t : Turn) : Prop :=
  t.writable = true ∧ ∃ acks : List (UInt64 × Bool),
    acks.Perm (acksFor drop c.nextFrameId t.request.ips) ∧
    t.arriving = wire (acks.map fun ack => encodedAck c.streamId ack.1 ack.2)

/-- The agent complies in every call. -/
def Compliant (checks : Bool) (encode : IpAddr → Bytes) (drop : IpAddr → Bool) :
    List Turn → Connection → Prop
  | [], _ => True
  | t :: ts, c =>
    Complies drop c t ∧
      Compliant checks encode drop ts ((c.before t).call checks encode t.request).2

variable {checks : Bool} {encode : IpAddr → Bytes} {drop : IpAddr → Bool} {ips : List IpAddr}
  {c c' : Connection} {request : Request} {reply reply' : BatchReply} {t : Turn}
  {turns : List Turn} {firstFrame : UInt64} {count n : Nat} {pending : BitVec 64}

/-- The loop leaves what follows the frames it has read. -/
theorem readAcks_rest
    (h : Connection.readAcks checks firstFrame count n pending reply c = (.ok reply', c')) :
    ∃ bodies : List Bytes, bodies.length = n ∧ (∀ body ∈ bodies, Framed body) ∧
      c.stream.incoming = wire bodies ++ c'.stream.incoming := by
  induction n generalizing pending reply c with
  | zero =>
    obtain ⟨-, rfl⟩ := Prod.mk.inj h
    exact ⟨[], rfl, by simp, rfl⟩
  | succ n ih =>
    rw [Connection.readAcks] at h
    rcases readFrame_cases c with ⟨e, c₁, hread, -⟩ | ⟨body, rest, hframed, hincoming, hread⟩
    · simp [hread] at h
    · simp only [hread] at h
      split at h
      · simp at h
      · split at h
        · simp at h
        · simp [protocol] at h
        · obtain ⟨bodies, hlength, hbodies, hrest⟩ := ih h
          refine ⟨body :: bodies, by rw [List.length_cons, hlength], ?_, ?_⟩
          · intro b hb
            rcases List.mem_cons.mp hb with rfl | hb
            · exact hframed
            · exact hbodies b hb
          · have hrest : rest = wire bodies ++ c'.stream.incoming := hrest
            rw [hincoming, hrest, wire_cons, List.append_assoc _ (wire bodies)]

theorem checkPipelined_rest (hne : ips ≠ []) (hdepth : ips.length ≤ 64)
    (hcounter : c.nextFrameId.toNat + ips.length < 2 ^ 64)
    (h : (c.checkPipelined checks encode ips).1 = .ok reply) :
    ∃ bodies : List Bytes, bodies.length = ips.length ∧ (∀ body ∈ bodies, Framed body) ∧
      c.stream.incoming =
        wire bodies ++ (c.checkPipelined checks encode ips).2.stream.incoming := by
  rcases checkPipelined_cases checks encode hne hdepth hcounter with
    ⟨-, c', hrun⟩ | ⟨-, sent, next, out, hrun⟩
  · simp [hrun] at h
  · rw [hrun] at h ⊢
    obtain ⟨bodies, hlength, hframed, hincoming⟩ := readAcks_rest (Prod.ext h rfl)
    exact ⟨bodies, hlength, hframed, hincoming⟩

theorem acksFor_ids (drop : IpAddr → Bool) (firstFrame : UInt64) (ips : List IpAddr) :
    (acksFor drop firstFrame ips).map Prod.fst = sentIds firstFrame ips.length := by
  induction ips generalizing firstFrame with
  | nil => rfl
  | cons ip ips ih =>
    simp only [acksFor, List.map_cons, ih, sentIds, List.length_cons, List.range_succ_eq_map,
      List.map_map]
    refine List.cons_eq_cons.mpr ⟨by simp, List.map_congr_left ?_⟩
    intro i _
    simp only [Function.comp, UInt64.add_assoc]
    congr 1
    rw [Nat.succ_eq_add_one, UInt64.ofNat_add, UInt64.add_comm]
    rfl

theorem acksFor_countP (drop : IpAddr → Bool) (firstFrame : UInt64) (ips : List IpAddr) :
    (acksFor drop firstFrame ips).countP (·.2) = ips.countP drop := by
  induction ips generalizing firstFrame with
  | nil => rfl
  | cons ip ips ih => simp [acksFor, List.countP_cons, ih]

/-- An acknowledgement has a size that frames may have. -/
theorem framed_encodedAck (streamId frameId : UInt64) (blocked : Bool) :
    Framed (encodedAck streamId frameId blocked) := by
  have hstream := putVarint_length streamId
  have hframe := putVarint_length frameId
  simp only [Framed, encodedAck_eq, List.length_append, ackHead_length, ackPayload_length,
    MIN_FRAME_SIZE, MAX_FRAME_SIZE]
  omega

/-- A call with a compliant agent gets all its answers, and leaves nothing on the stream. -/
theorem call_complies (checks : Bool) (encode : IpAddr → Bytes)
    (hvalid : t.request.Valid)
    (hcounter : c.nextFrameId.toNat + t.request.ips.length < 2 ^ 64)
    (hempty : c.stream.incoming = []) (haction : c.expectedAction = expectedAction)
    (h : Complies drop c t) :
    (∃ reply, ((c.before t).call checks encode t.request).1 = .ok reply ∧
      reply.blocked = t.request.ips.countP drop) ∧
    ((c.before t).call checks encode t.request).2.stream.incoming = [] := by
  obtain ⟨hwritable, acks, hperm, harriving⟩ := h
  have hincoming : (c.before t).stream.incoming =
      wire (acks.map fun ack => encodedAck c.streamId ack.1 ack.2) := by
    simp [Connection.before, hempty, harriving]
  have hframed : ∀ body ∈ acks.map fun ack => encodedAck c.streamId ack.1 ack.2, Framed body := by
    intro body hbody
    obtain ⟨ack, -, rfl⟩ := List.mem_map.mp hbody
    exact framed_encodedAck _ _ _
  have hlength : (acks.map fun ack => encodedAck c.streamId ack.1 ack.2).length =
      t.request.ips.length := by
    have hids := congrArg List.length (acksFor_ids drop c.nextFrameId t.request.ips)
    simp only [List.length_map, sentIds, List.length_range] at hids
    rw [List.length_map, hperm.length_eq, hids]
  have hanswer : Answer checks encode t.request.ips (c.before t)
      (acks.map fun ack => encodedAck c.streamId ack.1 ack.2) acks _ :=
    { length := hlength
      arrive := ⟨hframed, [], by rw [hincoming, List.append_nil]⟩
      accepted := by
        rw [Accepted, List.forall₂_map_left_iff, List.forall₂_same]
        intro ack _
        change decodeAck checks _ c.streamId c.expectedAction = _
        rw [haction]
        exact decodeAck_encodedAck checks c.streamId ack.1 ack.2
      ids := by
        change (acks.map Prod.fst).Perm (sentIds c.nextFrameId t.request.ips.length)
        rw [← acksFor_ids drop]
        exact hperm.map _
      reply := rfl }
  obtain ⟨c', hbatch⟩ := (replies_iff (c := c.before t) hvalid.1 hvalid.2 hcounter).mpr
    ⟨hwritable, _, acks, hanswer⟩
  have hresult := (call_eq_batch checks encode t.request (c.before t)).1
  have hend := call_end (c := c.before t) checks encode t.request hcounter hvalid.1
  have hok := congrArg Prod.fst hbatch
  refine ⟨⟨_, hresult.ok_iff.mpr hok, ?_⟩, ?_⟩
  · change acks.countP (·.2) = _
    rw [hperm.countP_eq, acksFor_countP]
  · obtain ⟨bodies, hbodies, hframes, hrest⟩ :=
      checkPipelined_rest (c := c.before t) hvalid.1 hvalid.2 hcounter hok
    have hsame : bodies = acks.map fun ack => encodedAck c.streamId ack.1 ack.2 :=
      Arrive.unique ⟨hframes, _, hrest⟩ ⟨hframed, [], by rw [hincoming, List.append_nil]⟩
        (hbodies.trans hlength.symm)
    rw [hend]
    rw [hincoming, hsame] at hrest
    exact List.self_eq_append_right.mp hrest

/-- With a compliant agent every call of a conversation returns `Ok`, single or pipelined, in
whatever order the agent answers, and reports as blocked just those of its addresses that the
agent blocks. -/
theorem converse_complies (hvalid : ∀ t ∈ turns, t.request.Valid)
    (hcounter : c.nextFrameId.toNat + frames turns < 2 ^ 64)
    (hempty : c.stream.incoming = []) (haction : c.expectedAction = expectedAction)
    (h : Compliant checks encode drop turns c) :
    List.Forall₂ (fun (t : Turn) result => ∃ reply : BatchReply, result = .ok reply ∧
      reply.blocked = t.request.ips.countP drop) turns (converse checks encode turns c).1 := by
  induction turns generalizing c with
  | nil => exact .nil
  | cons t turns ih =>
    rw [frames_cons] at hcounter
    have hhead := hvalid t (List.mem_cons_self ..)
    have hbound : (c.before t).nextFrameId.toNat + t.request.ips.length < 2 ^ 64 := by
      change c.nextFrameId.toNat + t.request.ips.length < 2 ^ 64
      omega
    have hcalled := called_call checks encode hhead hbound
    have hnext : ((c.before t).call checks encode t.request).2.nextFrameId.toNat =
        c.nextFrameId.toNat + t.request.ips.length := hcalled.next
    obtain ⟨⟨reply, hok, hblocked⟩, hrest⟩ := call_complies checks encode hhead
      (by omega) hempty haction h.1
    rcases converse_cons checks encode t turns c with ⟨p, hpanic, -⟩ | hrun
    · rw [hok] at hpanic
      cases hpanic
    · rw [hrun]
      refine .cons ⟨reply, hok, hblocked⟩ (ih (fun t ht => hvalid t (List.mem_cons_of_mem _ ht))
        (by omega) hrest (hcalled.expectedAction.trans haction) h.2)

/-- The handshake with an agent that greets as the protocol says. -/
theorem handshake_greeted (hello : Bytes) {greeting : Bytes} (hwritable : c.stream.writable = true)
    (hframed : Framed greeting) (hgreeting : [FRAME_AGENT_HELLO, 0, 0, 0, 1, 0, 0] <+: greeting)
    (hincoming : c.stream.incoming = wire [greeting]) :
    ∃ c', c.handshake hello = (.ok (), c') ∧ c'.nextFrameId = c.nextFrameId ∧
      c'.expectedAction = c.expectedAction ∧ c'.stream.incoming = [] := by
  have hprefix : [FRAME_AGENT_HELLO, 0, 0, 0, 1, 0, 0].isPrefixOf greeting = true :=
    List.isPrefixOf_iff_prefix.mpr hgreeting
  let written : Connection := { c with
    out := putFrame [] FRAME_HAPROXY_HELLO 0 0 hello
    stream := { c.stream with sent := c.stream.sent ++ putFrame [] FRAME_HAPROXY_HELLO 0 0 hello } }
  rcases readFrame_cases written with
    ⟨e, c', -, hnone⟩ | ⟨body, rest, hbody, hfirst, hread⟩
  · exact absurd ⟨by simpa using hframed, [], by
      rw [List.append_nil]
      exact hincoming⟩ (hnone greeting [])
  · have hframe : wire [greeting] = toBeBytes greeting.length ++ greeting ++ [] := rfl
    have hfirst : c.stream.incoming = toBeBytes body.length ++ body ++ rest := hfirst
    rw [hincoming, hframe] at hfirst
    obtain ⟨rfl, rfl⟩ := frame_inj hframed hbody hfirst
    simp only [written, hwritable] at hread
    simp only [Connection.handshake, TcpStream.writeAll, hwritable, if_true, hread, hprefix]
    exact ⟨_, rfl, rfl, rfl, rfl⟩

/-- From the greeting on: with an agent that greets and then answers every NOTIFY once, in any
order within a call, all calls of the connection return `Ok`, single or pipelined, and each
reports as blocked just those of its addresses that the agent blocks. -/
theorem session_complies (hello : Bytes) {greeting : Bytes} (stream : TcpStream)
    (streamId : UInt64) (hwritable : stream.writable = true) (hframed : Framed greeting)
    (hgreeting : [FRAME_AGENT_HELLO, 0, 0, 0, 1, 0, 0] <+: greeting)
    (hincoming : stream.incoming = wire [greeting]) :
    ∃ c, Connection.connect hello stream streamId = .ok c ∧
      ∀ (checks : Bool) (encode : IpAddr → Bytes) (drop : IpAddr → Bool) (turns : List Turn),
        (∀ t ∈ turns, t.request.Valid) → 1 + frames turns < 2 ^ 64 →
        Compliant checks encode drop turns c →
        List.Forall₂ (fun (t : Turn) result => ∃ reply : BatchReply, result = .ok reply ∧
          reply.blocked = t.request.ips.countP drop) turns (converse checks encode turns c).1 := by
  obtain ⟨c, hgreeted, hnext, haction, hempty⟩ := handshake_greeted hello
    (c := { stream, streamId }) hwritable hframed hgreeting hincoming
  refine ⟨c, by simp only [Connection.connect, hgreeted], ?_⟩
  intro checks encode drop turns hvalid hcounter hcomplies
  have hone : c.nextFrameId.toNat = 1 := by
    rw [hnext]
    rfl
  exact converse_complies hvalid (by rw [hone]; exact hcounter) hempty haction hcomplies

/-- The greeting of an agent, without capabilities. -/
def greeting : Bytes := [FRAME_AGENT_HELLO, 0, 0, 0, 1, 0, 0]

/-- One check, and then a batch of two that is answered in reverse. -/
def twoTurns : List Turn :=
  [⟨.check (.v4 0xC0000201), wire [encodedAck 7 1 true], true⟩,
    ⟨.pipelined [.v4 0xC0000201, .v4 0xC0000202],
      wire [encodedAck 7 3 false, encodedAck 7 2 true], true⟩]

theorem session_complies_twice : ∃ c, Connection.connect (helloPayload (fun _ => []) fun _ => [])
    { incoming := wire [greeting] } 7 = .ok c ∧
      List.Forall₂ (fun (t : Turn) result => ∃ reply : BatchReply, result = .ok reply ∧
        reply.blocked = t.request.ips.countP (· = .v4 0xC0000201)) twoTurns
        (converse false (fun _ => []) twoTurns c).1 := by
  obtain ⟨c, hconnect, hall⟩ := session_complies (helloPayload (fun _ => []) fun _ => [])
    { incoming := wire [greeting] } 7 rfl (⟨by decide, by decide⟩ : Framed greeting)
    (List.prefix_refl _) rfl
  refine ⟨c, hconnect, hall false _ _ twoTurns ?_ (by decide) ?_⟩
  · simp [twoTurns, Request.Valid, Request.ips]
  · obtain rfl := Except.ok.inj (hconnect.symm.trans rfl)
    exact ⟨⟨rfl, [(1, true)], by decide, rfl⟩,
      ⟨rfl, [(3, false), (2, true)], by decide, rfl⟩, trivial⟩

end IpReputation.Client
