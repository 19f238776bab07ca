import IpReputation.Pipeline

/-! A batch succeeds exactly when each of its frames is acknowledged once, in any order. -/
namespace IpReputation.Client

variable {checks : Bool} {encode : IpAddr → Bytes} {ips : List IpAddr} {c c' : Connection}
  {rest rest' : Bytes} {bodies bodies' : List Bytes} {acks acks' : List (UInt64 × Bool)}
  {indices : List Nat} {firstFrame : UInt64} {count n : Nat} {pending : BitVec 64}
  {reply : BatchReply} {p : Panic}

/-- The NOTIFY frames of a batch. -/
def notifies (streamId : UInt64) (payload : IpAddr → Bytes) : UInt64 → List IpAddr → Bytes
  | _, [] => []
  | frameId, ip :: ips =>
    putFrame [] FRAME_NOTIFY streamId frameId (payload ip) ++
      notifies streamId payload (frameId + 1) ips

/-- The frame ids of a batch. -/
def sentIds (firstFrame : UInt64) (count : Nat) : List UInt64 :=
  (List.range count).map fun i => firstFrame + UInt64.ofNat i

/-- Below the bound of the counter every address gets its frame. -/
theorem writeNotifies_ok (checks : Bool) (encode : IpAddr → Bytes)
    (h : c.nextFrameId.toNat + ips.length < 2 ^ 64) :
    ∃ next, Connection.writeNotifies checks encode ips c = (.ok (), { c with
      nextFrameId := next
      out := c.out ++ notifies c.streamId (fun ip => c.messagePrefix ++ encode ip)
        c.nextFrameId ips }) := by
  induction ips generalizing c with
  | nil => exact ⟨c.nextFrameId, by simp [Connection.writeNotifies, notifies]⟩
  | cons ip ips ih =>
    rw [List.length_cons] at h
    have hone : (1 : UInt64).toNat = 1 := rfl
    have hadd : add checks .frameCounter c.nextFrameId 1 = .ok (c.nextFrameId + 1) :=
      add_ok (by omega)
    have hnext : (c.nextFrameId + 1).toNat = c.nextFrameId.toNat + 1 := by
      rw [UInt64.toNat_add, hone, Nat.mod_eq_of_lt (by omega)]
    obtain ⟨next, hwritten⟩ := ih (c := Connection.writeNotify encode c.nextFrameId ip
      { c with nextFrameId := c.nextFrameId + 1 }) (by
        change (c.nextFrameId + 1).toNat + ips.length < 2 ^ 64
        omega)
    refine ⟨next, ?_⟩
    rw [Connection.writeNotifies, hadd]
    simp only [hwritten]
    simp [Connection.writeNotify, notifies, putFrame]

theorem toNat_sent {i : Nat} (h : firstFrame.toNat + count < 2 ^ 64) (hi : i < count) :
    (firstFrame + UInt64.ofNat i).toNat = firstFrame.toNat + i := by
  rw [UInt64.toNat_add, UInt64.toNat_ofNat_of_lt' (by rw [UInt64.size]; omega),
    Nat.mod_eq_of_lt (by omega)]

/-- An id stands at one place of the batch. -/
theorem mem_sentIds (h : firstFrame.toNat + count < 2 ^ 64) {id : UInt64} :
    id ∈ sentIds firstFrame count ↔ ∃ i < count, firstFrame.toNat + i = id.toNat := by
  simp only [sentIds, List.mem_map, List.mem_range]
  constructor
  · rintro ⟨i, hi, rfl⟩
    exact ⟨i, hi, (toNat_sent h hi).symm⟩
  · rintro ⟨i, hi, heq⟩
    exact ⟨i, hi, UInt64.toNat_inj.mp ((toNat_sent h hi).trans heq)⟩

/-- The ids acknowledged are those of the batch, in some order, exactly when the offsets are. -/
theorem perm_sentIds_iff (h : firstFrame.toNat + count < 2 ^ 64) :
    (acks.map Prod.fst).Perm (sentIds firstFrame count) ↔ ∃ indices : List Nat,
      acks.map (fun ack => ack.1.toNat) = indices.map (firstFrame.toNat + ·) ∧
      (∀ i ∈ indices, i < count) ∧ indices.Perm (List.range count) := by
  have hid : ∀ i < count, (firstFrame + UInt64.ofNat i).toNat = firstFrame.toNat + i :=
    fun i hi => toNat_sent h hi
  constructor
  · intro hperm
    have hsent : ∀ ack ∈ acks, ∃ i < count, firstFrame.toNat + i = ack.1.toNat := by
      intro ack hack
      exact (mem_sentIds h).mp (hperm.mem_iff.mp (List.mem_map_of_mem hack))
    refine ⟨acks.map fun ack => ack.1.toNat - firstFrame.toNat, ?_, ?_, ?_⟩
    · rw [List.map_map]
      apply List.map_congr_left
      intro ack hack
      obtain ⟨i, -, heq⟩ := hsent ack hack
      change ack.1.toNat = firstFrame.toNat + (ack.1.toNat - firstFrame.toNat)
      omega
    · intro j hj
      obtain ⟨ack, hack, rfl⟩ := List.mem_map.mp hj
      obtain ⟨i, hi, heq⟩ := hsent ack hack
      omega
    · have hmap := hperm.map fun id => id.toNat - firstFrame.toNat
      rw [sentIds, List.map_map, List.map_map] at hmap
      refine hmap.trans (.of_eq ?_)
      conv_rhs => rw [← List.map_id (List.range count)]
      apply List.map_congr_left
      intro i hi
      change (firstFrame + UInt64.ofNat i).toNat - firstFrame.toNat = i
      rw [hid i (List.mem_range.mp hi)]
      omega
  · rintro ⟨indices, hoffsets, hsmall, hperm⟩
    have hids : acks.map Prod.fst = indices.map fun i => firstFrame + UInt64.ofNat i := by
      apply List.map_injective_iff.mpr fun a b hab => UInt64.toNat_inj.mp hab
      rw [List.map_map, List.map_map]
      refine hoffsets.trans (List.map_congr_left ?_)
      intro i hi
      exact (hid i (hsmall i hi)).symm
    rw [hids]
    exact hperm.map _

/-- The batch returns `Ok` with this reply. -/
def Replies (checks : Bool) (encode : IpAddr → Bytes) (ips : List IpAddr) (c : Connection)
    (reply : BatchReply) : Prop :=
  ∃ c', c.checkPipelined checks encode ips = (.ok reply, c')

/-- The frames with these bodies come first on the stream, `decode_ack` accepts them, and they
acknowledge each frame of the batch once. -/
structure Answer (checks : Bool) (encode : IpAddr → Bytes) (ips : List IpAddr) (c : Connection)
    (bodies : List Bytes) (acks : List (UInt64 × Bool)) (reply : BatchReply) : Prop where
  length : bodies.length = ips.length
  arrive : Arrive c.stream.incoming bodies
  accepted : Accepted checks c bodies acks
  ids : (acks.map Prod.fst).Perm (sentIds c.nextFrameId ips.length)
  reply : reply =
    { blocked := acks.countP (·.2)
      tx := (notifies c.streamId (fun ip => c.messagePrefix ++ encode ip) c.nextFrameId ips).length
      rx := (wire bodies).length }

/-- The guard, the frame counter and the first mask let every batch through to its write and, when
that succeeds, to its acknowledgements. -/
theorem checkPipelined_cases (checks : Bool) (encode : IpAddr → Bytes) (hne : ips ≠ [])
    (hdepth : ips.length ≤ 64) (hcounter : c.nextFrameId.toNat + ips.length < 2 ^ 64) :
    (c.stream.writable = false ∧
      ∃ c', c.checkPipelined checks encode ips = (.error (.err .io), c')) ∨
    c.stream.writable = true ∧ ∃ sent nextFrameId out,
      c.checkPipelined checks encode ips =
        Connection.readAcks checks c.nextFrameId ips.length ips.length
          (BitMask.full 64 ips.length)
          { tx := (notifies c.streamId (fun ip => c.messagePrefix ++ encode ip)
              c.nextFrameId ips).length }
          { c with stream := { c.stream with sent }, nextFrameId, out } := by
  have hguard : ¬ (ips.isEmpty = true ∨ 64 < ips.length) := by
    rintro (hempty | hlong)
    · exact hne (List.isEmpty_iff.mp hempty)
    · omega
  obtain ⟨next, hwritten⟩ := writeNotifies_ok checks encode (c := { c with out := [] }) hcounter
  simp only [List.nil_append] at hwritten
  generalize notifies c.streamId (fun ip => c.messagePrefix ++ encode ip) c.nextFrameId ips = out
    at hwritten ⊢
  cases hwritable : c.stream.writable with
  | false =>
    refine .inl ⟨rfl, { c with nextFrameId := next, out }, ?_⟩
    simp only [Connection.checkPipelined, if_neg hguard, hwritten, TcpStream.writeAll, hwritable,
      Bool.false_eq_true, if_false]
  | true =>
    refine .inr ⟨rfl, c.stream.sent ++ out, next, out, ?_⟩
    simp only [Connection.checkPipelined, if_neg hguard, hwritten, TcpStream.writeAll, hwritable,
      if_true, allPending_eq hdepth]

theorem replies_iff (hne : ips ≠ []) (hdepth : ips.length ≤ 64)
    (hcounter : c.nextFrameId.toNat + ips.length < 2 ^ 64) :
    Replies checks encode ips c reply ↔
      c.stream.writable = true ∧ ∃ bodies acks, Answer checks encode ips c bodies acks reply := by
  unfold Replies
  rcases checkPipelined_cases checks encode hne hdepth hcounter with
    ⟨hwritable, c', hrun⟩ | ⟨hwritable, sent, next, out, hrun⟩
  · simp [hrun, hwritable]
  · simp only [hrun, hwritable, true_and, readAcks_ok_iff hdepth]
    constructor
    · rintro ⟨bodies, acks, indices, hlength, ⟨harrive, haccepted, hoffsets, hsmall, hclaims⟩, rfl⟩
      have hcount : indices.length = ips.length := by
        have hsame := congrArg List.length hoffsets
        rw [List.length_map, List.length_map] at hsame
        rw [← hsame, ← haccepted.length_eq, hlength]
      have hperm := (BitMask.claims_full_iff_perm hdepth hcount).mp hclaims
      have hids := (perm_sentIds_iff hcounter).mpr ⟨indices, hoffsets, hsmall, hperm⟩
      exact ⟨bodies, acks, hlength, harrive, haccepted, hids, by simp [BatchReply.after]⟩
    · rintro ⟨bodies, acks, hlength, harrive, haccepted, hids, rfl⟩
      obtain ⟨indices, hoffsets, hsmall, hperm⟩ := (perm_sentIds_iff hcounter).mp hids
      have hcount : indices.length = ips.length := by rw [hperm.length_eq, List.length_range]
      have hclaims := (BitMask.claims_full_iff_perm hdepth hcount).mpr hperm
      exact ⟨bodies, acks, indices, hlength, ⟨harrive, haccepted, hoffsets, hsmall, hclaims⟩,
        by simp [BatchReply.after]⟩

/-- Frames that arrive in another order carry the same acknowledgements. -/
theorem Accepted.perm (h : Accepted checks c bodies acks) (hperm : bodies.Perm bodies') :
    ∃ acks', Accepted checks c bodies' acks' ∧ acks.Perm acks' := by
  obtain ⟨acks', haccepted, hacks⟩ := List.perm_comp_forall₂ hperm.symm h
  exact ⟨acks', haccepted, hacks.symm⟩

/-- The bodies of as many frames are determined by the stream. -/
theorem Arrive.unique {incoming : Bytes} (h : Arrive incoming bodies) (h' : Arrive incoming bodies')
    (hlength : bodies.length = bodies'.length) : bodies = bodies' := by
  induction bodies generalizing incoming bodies' with
  | nil => exact (List.length_eq_zero_iff.mp hlength.symm).symm
  | cons body bodies ih =>
    cases bodies' with
    | nil => simp at hlength
    | cons body' bodies' =>
      obtain ⟨hframed, tail, htail⟩ := h
      have hincoming : incoming = toBeBytes body.length ++ body ++ (wire bodies ++ tail) := by
        rw [htail, wire_cons, List.append_assoc _ (wire bodies)]
      have hbody := hframed body (List.mem_cons_self ..)
      obtain ⟨rfl, hrest'⟩ := (arrive_cons hbody hincoming).mp h'
      have hrest : Arrive (wire bodies ++ tail) bodies :=
        ⟨fun b hb => hframed b (List.mem_cons_of_mem _ hb), tail, rfl⟩
      rw [ih hrest hrest' (by simpa using hlength)]

theorem wire_perm (h : bodies.Perm bodies') : (wire bodies).length = (wire bodies').length :=
  (h.flatMap_right _).length_eq

/-- The connection when the stream goes on with these bytes. -/
def Connection.receiving (c : Connection) (incoming : Bytes) : Connection :=
  { c with stream := { c.stream with incoming } }

/-- Another order of the same frames is answered by the same reply. -/
theorem Replies.perm (hne : ips ≠ []) (hdepth : ips.length ≤ 64)
    (hcounter : c.nextFrameId.toNat + ips.length < 2 ^ 64) (hperm : bodies.Perm bodies')
    (hlength : bodies.length = ips.length) (hframed : ∀ body ∈ bodies, Framed body)
    (h : Replies checks encode ips (c.receiving (wire bodies ++ rest)) reply) :
    Replies checks encode ips (c.receiving (wire bodies' ++ rest')) reply := by
  obtain ⟨hwritable, bodies₁, acks, hanswer⟩ :=
    (replies_iff (c := c.receiving (wire bodies ++ rest)) hne hdepth hcounter).mp h
  obtain rfl : bodies₁ = bodies :=
    hanswer.arrive.unique ⟨hframed, rest, rfl⟩ (hanswer.length.trans hlength.symm)
  obtain ⟨acks', haccepted, hacks⟩ := Accepted.perm hanswer.accepted hperm
  refine (replies_iff (c := c.receiving (wire bodies' ++ rest')) hne hdepth hcounter).mpr
    ⟨hwritable, bodies', acks', ?_⟩
  refine ⟨hperm.length_eq.symm.trans hlength, ⟨?_, rest', rfl⟩, haccepted, ?_, ?_⟩
  · intro body hbody
    exact hframed body (hperm.mem_iff.mpr hbody)
  · exact (hacks.map Prod.fst).symm.trans hanswer.ids
  · rw [hanswer.reply, wire_perm hperm, hacks.countP_eq]
    rfl

/-- Only checked arithmetic in `decode_ack` can make the loop panic. -/
theorem readAcks_panic (hcount : count ≤ 64)
    (h : (Connection.readAcks checks firstFrame count n pending reply c).1 = .error (.panic p)) :
    checks = true ∧ p = .varint := by
  induction n generalizing pending reply c with
  | zero => cases h
  | succ n ih =>
    rcases readFrame_cases c with ⟨e, c', hread, -⟩ | ⟨body, rest, -, -, hread⟩
    · simp [Connection.readAcks, hread] at h
    · cases hdecode : decodeAck checks body c.streamId c.expectedAction with
      | error e =>
        simp only [Connection.readAcks, hread, hdecode] at h
        obtain rfl := Except.error.inj h
        exact decodeAck_panic hdecode
      | ok ack =>
        obtain ⟨frameId, blocked⟩ := ack
        rcases pendingIndex_cases hcount firstFrame frameId pending with
          ⟨hindex, -⟩ | ⟨index, -, -, -, hindex⟩
        · simp [Connection.readAcks, hread, hdecode, hindex, protocol] at h
        · simp only [Connection.readAcks, hread, hdecode, hindex] at h
          exact ih h

/-- Neither the depth, nor the frame counter, nor a shift of the mask stops a batch. -/
theorem checkPipelined_panic (hne : ips ≠ []) (hdepth : ips.length ≤ 64)
    (hcounter : c.nextFrameId.toNat + ips.length < 2 ^ 64)
    (h : (c.checkPipelined checks encode ips).1 = .error (.panic p)) :
    checks = true ∧ p = .varint := by
  rcases checkPipelined_cases checks encode hne hdepth hcounter with
    ⟨-, c', hrun⟩ | ⟨-, sent, next, out, hrun⟩
  · rw [hrun] at h
    cases h
  · rw [hrun] at h
    exact readAcks_panic hdepth h

/-- What a pipelined batch returns: `Ok` exactly when the first frames on the stream acknowledge
each of its ids once, with the same reply in whatever order they arrive; no shift of the pending
mask reaches its width, and no offset of an id wraps around. -/
structure MatchesAcks (checks : Bool) (encode : IpAddr → Bytes) (ips : List IpAddr)
    (c : Connection) : Prop where
  ok_iff : ∀ reply, Replies checks encode ips c reply ↔
    c.stream.writable = true ∧ ∃ bodies acks, Answer checks encode ips c bodies acks reply
  anyOrder : ∀ bodies bodies' rest rest' reply, bodies.Perm bodies' →
    bodies.length = ips.length → (∀ body ∈ bodies, Framed body) →
    (Replies checks encode ips (c.receiving (wire bodies ++ rest)) reply ↔
      Replies checks encode ips (c.receiving (wire bodies' ++ rest')) reply)
  panics : ∀ p, (c.checkPipelined checks encode ips).1 = .error (.panic p) →
    checks = true ∧ p = .varint
  offset : ∀ frameId index, checkedSub frameId c.nextFrameId = some index →
    c.nextFrameId.toNat + index.toNat = frameId.toNat

/-- Pipelined ACKs are matched to their frames, whatever the agent sends. -/
theorem matchesAcks (checks : Bool) (encode : IpAddr → Bytes) (ips : List IpAddr) (c : Connection)
    (hne : ips ≠ []) (hdepth : ips.length ≤ 64)
    (hcounter : c.nextFrameId.toNat + ips.length < 2 ^ 64) :
    MatchesAcks checks encode ips c := by
  refine ⟨fun reply => replies_iff hne hdepth hcounter, ?_,
    fun p => checkPipelined_panic hne hdepth hcounter, fun _ _ => checkedSub_eq_some_iff.mp⟩
  intro bodies bodies' rest rest' reply hperm hlength hframed
  constructor
  · exact Replies.perm hne hdepth hcounter hperm hlength hframed
  · refine Replies.perm hne hdepth hcounter hperm.symm (hperm.length_eq.symm.trans hlength) ?_
    intro body hbody
    exact hframed body (hperm.mem_iff.mpr hbody)

/-- The acknowledgement of a frame of stream 1. -/
def ackBody (frameId : UInt8) (value : UInt8) : Bytes :=
  [FRAME_AGENT_ACK, 0, 0, 0, 1, 1, frameId] ++ expectedAction ++ [value]

/-- Two requests for 192.0.2.1, acknowledged in reverse. -/
theorem matchesAcks_reversed :
    let encode : IpAddr → Bytes := fun _ => [0x06, 192, 0, 2, 1]
    let c : Connection :=
      { stream := { incoming := wire [ackBody 2 BOOLEAN_TRUE, ackBody 1 BOOLEAN_FALSE] }
        streamId := 1 }
    (c.checkPipelined false encode [.v4 0xC0000201, .v4 0xC0000201]).1.toOption = some ⟨1, 72, 44⟩ ∧
      MatchesAcks false encode [.v4 0xC0000201, .v4 0xC0000201] c :=
  ⟨by decide, matchesAcks _ _ _ _ (by simp) (by simp) (by decide)⟩

end IpReputation.Client
