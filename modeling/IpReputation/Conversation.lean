import IpReputation.AckMatching

/-! `client.rs`: the handshake, single checks, and what every call leaves of its connection. -/
namespace IpReputation.Client

def FRAME_HAPROXY_HELLO : UInt8 := 0x01
def FRAME_AGENT_HELLO : UInt8 := 0x65

/-- HAPROXY-HELLO payload; `text` and `number` are `TypedData::encode` of a string and a `u32`. -/
def helloPayload (text : String → Bytes) (number : UInt32 → Bytes) : Bytes :=
  putString "supported-versions" ++ text "2.0" ++
    putString "max-frame-size" ++ number (UInt32.ofNat MAX_FRAME_SIZE) ++
    putString "capabilities" ++ text ""

/-- Outcome of one request. -/
structure Reply where
  /-- Value of `ip_bad` returned by the agent. -/
  blocked : Bool
  tx : Nat
  rx : Nat
  deriving DecidableEq

namespace Connection

def handshake (hello : Bytes) (c : Connection) : Except Stop Unit × Connection :=
  let c := { c with out := putFrame [] FRAME_HAPROXY_HELLO 0 0 hello }
  match c.stream.writeAll c.out with
  | (.error e, stream) => (.error e, { c with stream })
  | (.ok (), stream) =>
    match { c with stream }.readFrame with
    | (.error e, c) => (.error e, c)
    | (.ok (), c) =>
      -- AGENT-HELLO, flags = FIN, stream 0, frame 0.
      if [FRAME_AGENT_HELLO, 0, 0, 0, 1, 0, 0].isPrefixOf c.inbuf then (.ok (), c)
      else (protocol s!"expected AGENT-HELLO, received {hex c.inbuf}", c)

/-- `connect` over an opened socket whose options are set. -/
def connect (hello : Bytes) (stream : TcpStream) (streamId : UInt64) : Except Stop Connection :=
  match handshake hello { stream, streamId } with
  | (.error e, _) => .error e
  | (.ok (), c) => .ok c

/-- Sends one NOTIFY for `ip` and waits for its ACK (one outstanding request). -/
def check (checks : Bool) (encode : IpAddr → Bytes) (ip : IpAddr) (c : Connection) :
    Except Stop Reply × Connection :=
  match add checks .frameCounter c.nextFrameId 1 with
  | .error p => (.error (.panic p), c)
  | .ok next =>
    let written := { c with nextFrameId := next, out := [] }.writeNotify encode c.nextFrameId ip
    match written.stream.writeAll written.out with
    | (.error e, stream) => (.error e, { written with stream })
    | (.ok (), stream) =>
      match { written with stream }.readFrame with
      | (.error e, c) => (.error e, c)
      | (.ok (), answered) =>
        match decodeAck checks answered.inbuf answered.streamId answered.expectedAction with
        | .error e => (.error e, answered)
        | .ok (acked, blocked) =>
          if acked ≠ c.nextFrameId then
            (protocol s!"ACK for frame {acked} while waiting for frame {c.nextFrameId}", answered)
          else (.ok ⟨blocked, written.out.length, 4 + answered.inbuf.length⟩, answered)

end Connection

variable {checks : Bool} {encode : IpAddr → Bytes} {ip : IpAddr} {ips : List IpAddr}
  {c c' c₁ : Connection} {firstFrame acked : UInt64} {n : Nat} {hello : Bytes}

/-- A batch of one waits for its own frame only. -/
theorem pendingIndex_one (firstFrame acked : UInt64) : pendingIndex firstFrame acked 1 1#64 =
    .ok (if acked = firstFrame then some (0, 1#64) else none) := by
  rcases pendingIndex_cases (by decide : 1 ≤ 64) firstFrame acked 1#64 with
    ⟨hindex, hforeign⟩ | ⟨index, hlt, hoffset, -, hindex⟩
  · have hne : acked ≠ firstFrame := by
      rintro rfl
      exact hforeign 0 (by decide) (by decide) rfl
    rw [hindex, if_neg hne]
  · obtain rfl : index = 0 := UInt64.toNat_inj.mp (Nat.lt_one_iff.mp hlt)
    have hsame : acked = firstFrame := UInt64.toNat_inj.mp hoffset.symm
    rw [hindex, if_pos hsame]
    rfl

/-- The loop for one acknowledgement. -/
theorem readAcks_one (checks : Bool) (firstFrame : UInt64) (reply : BatchReply) (c : Connection) :
    Connection.readAcks checks firstFrame 1 1 1#64 reply c =
      match c.readFrame with
      | (.error e, c) => (.error e, c)
      | (.ok (), c) =>
        match decodeAck checks c.inbuf c.streamId c.expectedAction with
        | .error e => (.error e, c)
        | .ok (acked, blocked) =>
          if acked = firstFrame then
            (.ok { reply with
              rx := reply.rx + (4 + c.inbuf.length), blocked := reply.blocked + blocked.toNat }, c)
          else (protocol s!"unexpected ACK for frame {acked}", c) := by
  rw [Connection.readAcks]
  rcases c.readFrame with ⟨e | u, c'⟩
  · rfl
  · simp only
    rcases decodeAck checks c'.inbuf c'.streamId c'.expectedAction with e | ⟨acked, blocked⟩
    · rfl
    · simp only [pendingIndex_one]
      by_cases hsame : acked = firstFrame <;> simp [hsame, Connection.readAcks]

/-- What a batch would report. -/
def Reply.counted (r : Reply) : BatchReply := ⟨r.blocked.toNat, r.tx, r.rx⟩

/-- The same result, up to the text of a protocol error. -/
inductive SameResult : Except Stop BatchReply → Except Stop BatchReply → Prop
  | refl (result : Except Stop BatchReply) : SameResult result result
  | protocol (msg msg' : String) :
      SameResult (.error (.err (.protocol msg))) (.error (.err (.protocol msg')))

/-- In a checked build a single check that takes the last frame id panics before it clears the
buffer, a batch of one afterwards. -/
structure Overflows (checks : Bool) (c : Connection)
    (single batch : Except Stop BatchReply × Connection) : Prop where
  checked : checks = true
  last : c.nextFrameId.toNat = 2 ^ 64 - 1
  single : single = (.error (.panic .frameCounter), c)
  batch : batch = (.error (.panic .frameCounter), { c with out := [] })

/-- One outstanding request is a pipeline of depth one. -/
theorem check_eq_batch (checks : Bool) (encode : IpAddr → Bytes) (ip : IpAddr) (c : Connection) :
    SameResult ((c.check checks encode ip).1.map Reply.counted)
        (c.checkPipelined checks encode [ip]).1 ∧
      ((c.check checks encode ip).2 = (c.checkPipelined checks encode [ip]).2 ∨
        Overflows checks c ((c.check checks encode ip).1.map Reply.counted,
          (c.check checks encode ip).2) (c.checkPipelined checks encode [ip])) := by
  have hguard : ¬ ([ip].isEmpty = true ∨ 64 < [ip].length) := by simp
  have hpending : allPending 1 = .ok 1#64 := rfl
  simp only [Connection.check, Connection.checkPipelined, if_neg hguard, Connection.writeNotifies]
  cases hadd : add checks .frameCounter c.nextFrameId 1 with
  | error p =>
    obtain ⟨hchecks, hlast, rfl⟩ := add_error hadd
    have hmax : c.nextFrameId.toNat = 2 ^ 64 - 1 := by
      have hlt := c.nextFrameId.toNat_lt
      have hone : (1 : UInt64).toNat = 1 := rfl
      omega
    exact ⟨.refl _, .inr ⟨hchecks, hmax, rfl, rfl⟩⟩
  | ok next =>
    simp only
    generalize Connection.writeNotify encode c.nextFrameId ip
      { c with nextFrameId := next, out := [] } = written
    rcases written.stream.writeAll written.out with ⟨e | u, stream⟩
    · exact ⟨.refl _, .inl rfl⟩
    · simp only [List.length_singleton, hpending, readAcks_one]
      rcases Connection.readFrame { written with stream } with ⟨e | u, answered⟩
      · exact ⟨.refl _, .inl rfl⟩
      · simp only
        rcases decodeAck checks answered.inbuf answered.streamId answered.expectedAction with
          e | ⟨acked, blocked⟩
        · exact ⟨.refl _, .inl rfl⟩
        · by_cases hsame : acked = c.nextFrameId
          · simp only [hsame, ne_eq, not_true_eq_false, if_false, if_true, Nat.zero_add]
            exact ⟨.refl _, .inl trivial⟩
          · simp only [hsame, ne_eq, not_false_eq_true, if_false, if_true]
            exact ⟨.protocol _ _, .inl trivial⟩

/-- A call of `n` requests has used `n` frame ids, and read some bytes of the stream or lost
them. -/
structure Called (n : Nat) (c c' : Connection) : Prop where
  streamId : c'.streamId = c.streamId
  messagePrefix : c'.messagePrefix = c.messagePrefix
  expectedAction : c'.expectedAction = c.expectedAction
  next : c'.nextFrameId.toNat = c.nextFrameId.toNat + n
  rest : c'.stream.incoming <:+ c.stream.incoming

theorem Called.refl : Called 0 c c := ⟨rfl, rfl, rfl, rfl, List.suffix_refl _⟩

theorem Called.trans {m : Nat} (h : Called m c c₁) (k : Called n c₁ c') : Called (m + n) c c' where
  streamId := k.streamId.trans h.streamId
  messagePrefix := k.messagePrefix.trans h.messagePrefix
  expectedAction := k.expectedAction.trans h.expectedAction
  next := by rw [k.next, h.next, Nat.add_assoc]
  rest := k.rest.trans h.rest

theorem TcpStream.readExact_suffix (n : Nat) (s : TcpStream) :
    (s.readExact n).2.incoming <:+ s.incoming := by
  unfold TcpStream.readExact
  split
  · exact List.nil_suffix
  · exact List.drop_suffix n s.incoming

theorem called_readFrame (c : Connection) : Called 0 c c.readFrame.2 := by
  have hheader := TcpStream.readExact_suffix 4 c.stream
  unfold Connection.readFrame
  rcases hfirst : c.stream.readExact 4 with ⟨e | header, stream⟩
  · rw [hfirst] at hheader
    exact ⟨rfl, rfl, rfl, rfl, hheader⟩
  · rw [hfirst] at hheader
    simp only
    split
    · exact ⟨rfl, rfl, rfl, rfl, hheader⟩
    · have hbody := TcpStream.readExact_suffix (fromBeBytes header) stream
      rcases hsecond : stream.readExact (fromBeBytes header) with ⟨e | body, stream'⟩ <;>
        · rw [hsecond] at hbody
          exact ⟨rfl, rfl, rfl, rfl, hbody.trans hheader⟩

theorem called_readAcks (checks : Bool) (firstFrame : UInt64) (count n : Nat)
    (pending : BitVec 64) (reply : BatchReply) (c : Connection) :
    Called 0 c (Connection.readAcks checks firstFrame count n pending reply c).2 := by
  induction n generalizing pending reply c with
  | zero => exact .refl
  | succ n ih =>
    have hframe := called_readFrame c
    rw [Connection.readAcks]
    rcases hread : c.readFrame with ⟨e | u, c'⟩
    · rw [hread] at hframe
      exact hframe
    · rw [hread] at hframe
      simp only
      split
      · exact hframe
      · split
        · exact hframe
        · exact hframe
        · exact hframe.trans (ih ..)

/-- Below the bound of the counter each address takes one frame id. -/
theorem called_writeNotifies (checks : Bool) (encode : IpAddr → Bytes) (ips : List IpAddr)
    (c : Connection) (h : c.nextFrameId.toNat + ips.length < 2 ^ 64) :
    ∃ written, Connection.writeNotifies checks encode ips c = (.ok (), written) ∧
      Called ips.length c written := by
  induction ips generalizing c with
  | nil => exact ⟨c, rfl, .refl⟩
  | cons ip ips ih =>
    rw [List.length_cons] at h
    have hone : (1 : UInt64).toNat = 1 := rfl
    have hadd : add checks .frameCounter c.nextFrameId 1 = .ok (c.nextFrameId + 1) :=
      add_ok (by omega)
    have hnext : (c.nextFrameId + 1).toNat = c.nextFrameId.toNat + 1 := by
      rw [UInt64.toNat_add, hone, Nat.mod_eq_of_lt (by omega)]
    have hfirst : Called 1 c (Connection.writeNotify encode c.nextFrameId ip
        { c with nextFrameId := c.nextFrameId + 1 }) := ⟨rfl, rfl, rfl, hnext, List.suffix_refl _⟩
    obtain ⟨written, hwritten, hcalled⟩ := ih (c := Connection.writeNotify encode c.nextFrameId ip
      { c with nextFrameId := c.nextFrameId + 1 }) (by rw [hfirst.next]; omega)
    refine ⟨written, by rw [Connection.writeNotifies, hadd]; exact hwritten, ?_⟩
    rw [List.length_cons, Nat.add_comm]
    exact hfirst.trans hcalled

theorem TcpStream.writeAll_incoming (bytes : Bytes) (s : TcpStream) :
    (s.writeAll bytes).2.incoming = s.incoming := by
  unfold TcpStream.writeAll
  split <;> rfl

/-- Whether it succeeds or not, a batch uses up its ids. -/
theorem called_checkPipelined (hne : ips ≠ []) (hdepth : ips.length ≤ 64)
    (hcounter : c.nextFrameId.toNat + ips.length < 2 ^ 64) :
    Called ips.length c (c.checkPipelined checks encode ips).2 := by
  have hguard : ¬ (ips.isEmpty = true ∨ 64 < ips.length) := by
    rintro (hempty | hlong)
    · exact hne (List.isEmpty_iff.mp hempty)
    · omega
  obtain ⟨written, hwritten, hcalled⟩ :=
    called_writeNotifies checks encode ips { c with out := [] } hcounter
  have hstart : Called 0 c { c with out := [] } := ⟨rfl, rfl, rfl, rfl, List.suffix_refl _⟩
  have hbefore : Called ips.length c written := by
    rw [← Nat.zero_add ips.length]
    exact hstart.trans hcalled
  have hwrote : Called 0 written
      { written with stream := (written.stream.writeAll written.out).2 } := by
    refine ⟨rfl, rfl, rfl, rfl, ?_⟩
    rw [TcpStream.writeAll_incoming]
  simp only [Connection.checkPipelined, if_neg hguard, hwritten]
  rcases hwrite : written.stream.writeAll written.out with ⟨e | u, stream⟩
  · rw [hwrite] at hwrote
    exact hbefore.trans hwrote
  · rw [hwrite] at hwrote
    simp only [allPending_eq hdepth]
    exact hbefore.trans (hwrote.trans (called_readAcks ..))

end IpReputation.Client
