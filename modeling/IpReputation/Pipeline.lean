import IpReputation.Client
import Mathlib.Data.List.Forall2

/-! Pipelined acknowledgements: each frame of a batch is acknowledged exactly once. -/
namespace IpReputation.Client

variable {checks : Bool} {encode : IpAddr → Bytes} {ips : List IpAddr} {c c' : Connection}
  {incoming rest rest' body body' : Bytes} {bodies bodies' : List Bytes} {n : Nat}

/-- What the frames with these bodies look like on the stream. -/
def wire (bodies : List Bytes) : Bytes := bodies.flatMap fun body => toBeBytes body.length ++ body

/-- A body of a size that frames may have. -/
def Framed (body : Bytes) : Prop := MIN_FRAME_SIZE ≤ body.length ∧ body.length ≤ MAX_FRAME_SIZE

/-- The frames with these bodies come first on the stream. -/
def Arrive (incoming : Bytes) (bodies : List Bytes) : Prop :=
  (∀ body ∈ bodies, Framed body) ∧ ∃ rest, incoming = wire bodies ++ rest

theorem length_toBeBytes (n : Nat) : (toBeBytes n).length = 4 := rfl

theorem fromBeBytes_toBeBytes (h : n < 2 ^ 32) : fromBeBytes (toBeBytes n) = n := by
  simp only [fromBeBytes, toBeBytes, List.foldl_cons, List.foldl_nil, UInt8.toNat_ofNat']
  omega

/-- Four bytes are the length they stand for. -/
theorem toBeBytes_fromBeBytes {bytes : Bytes} (h : bytes.length = 4) :
    toBeBytes (fromBeBytes bytes) = bytes := by
  match bytes, h with
  | [a, b, c, d], _ =>
    have ha := a.toNat_lt
    have hb := b.toNat_lt
    have hc := c.toNat_lt
    have hd := d.toNat_lt
    simp only [fromBeBytes, toBeBytes, List.foldl_cons, List.foldl_nil, List.cons.injEq,
      ← UInt8.toNat_inj, UInt8.toNat_ofNat', and_true]
    refine ⟨?_, ?_, ?_, ?_⟩ <;> omega

theorem Framed.length_lt (h : Framed body) : body.length < 2 ^ 32 :=
  Nat.lt_of_le_of_lt h.2 (by decide)

/-- The first frame and what follows it are determined by the stream. -/
theorem frame_inj (h : Framed body) (h' : Framed body')
    (heq : toBeBytes body.length ++ body ++ rest = toBeBytes body'.length ++ body' ++ rest') :
    body = body' ∧ rest = rest' := by
  simp only [List.append_assoc] at heq
  obtain ⟨hheader, htail⟩ := List.append_inj heq rfl
  have hlength : body.length = body'.length := by
    rw [← fromBeBytes_toBeBytes h.length_lt, hheader, fromBeBytes_toBeBytes h'.length_lt]
  exact List.append_inj htail hlength

theorem wire_cons : wire (body :: bodies) = toBeBytes body.length ++ body ++ wire bodies := rfl

theorem arrive_cons (h : Framed body)
    (hincoming : incoming = toBeBytes body.length ++ body ++ rest) :
    Arrive incoming (body' :: bodies) ↔ body' = body ∧ Arrive rest bodies := by
  constructor
  · rintro ⟨hframed, tail, htail⟩
    rw [hincoming, wire_cons, List.append_assoc _ (wire bodies)] at htail
    obtain ⟨rfl, hrest⟩ := frame_inj h (hframed body' (List.mem_cons_self ..)) htail
    exact ⟨rfl, fun b hb => hframed b (List.mem_cons_of_mem _ hb), tail, hrest⟩
  · rintro ⟨rfl, hframed, tail, hrest⟩
    refine ⟨?_, tail, by rw [hincoming, hrest, wire_cons, List.append_assoc _ (wire bodies)]⟩
    intro b hb
    rcases List.mem_cons.mp hb with rfl | hb
    · exact h
    · exact hframed b hb

theorem readExact_append {s : TcpStream} {bytes tail : Bytes} (h : s.incoming = bytes ++ tail)
    (hlength : bytes.length = n) :
    s.readExact n = (.ok bytes, { s with incoming := tail }) := by
  have hlong : ¬ s.incoming.length < n := by
    rw [h, List.length_append]
    omega
  rw [TcpStream.readExact, if_neg hlong, h, List.take_left' hlength, List.drop_left' hlength]

theorem readExact_short {s : TcpStream} (h : s.incoming.length < n) :
    s.readExact n = (.error (.err .io), { s with incoming := [] }) := by
  rw [TcpStream.readExact, if_pos h]

/-- Without a header of a frame and as many bytes as it says no frame comes first. -/
theorem not_arrive {header tail : Bytes} (hincoming : incoming = header ++ tail)
    (hheader : header.length = 4)
    (hbad : ¬ (MIN_FRAME_SIZE ≤ fromBeBytes header ∧ fromBeBytes header ≤ MAX_FRAME_SIZE) ∨
      tail.length < fromBeBytes header) : ¬ Arrive incoming (body :: bodies) := by
  rintro ⟨hframed, rest, hrest⟩
  have hbody := hframed body (List.mem_cons_self ..)
  rw [wire_cons, List.append_assoc, List.append_assoc, hincoming] at hrest
  obtain ⟨rfl, rfl⟩ := List.append_inj hrest hheader
  rw [fromBeBytes_toBeBytes hbody.length_lt] at hbad
  rcases hbad with hsize | hshort
  · exact hsize hbody
  · rw [List.length_append] at hshort
    omega

/-- `read_frame` delivers the first frame of the stream, or there is none. -/
theorem readFrame_cases (c : Connection) :
    (∃ e c', c.readFrame = (.error (.err e), c') ∧
      ∀ body bodies, ¬ Arrive c.stream.incoming (body :: bodies)) ∨
    ∃ body rest, Framed body ∧ c.stream.incoming = toBeBytes body.length ++ body ++ rest ∧
      c.readFrame =
        (.ok (), { c with stream := { c.stream with incoming := rest }, inbuf := body }) := by
  by_cases hfour : c.stream.incoming.length < 4
  · refine .inl ⟨.io, { c with stream := { c.stream with incoming := [] } }, ?_, ?_⟩
    · simp only [Connection.readFrame, readExact_short hfour]
    · rintro body bodies ⟨hframed, rest, hrest⟩
      rw [hrest, wire_cons] at hfour
      simp only [List.length_append, length_toBeBytes] at hfour
      omega
  · obtain ⟨header, tail, hincoming, hheader⟩ : ∃ header tail,
        c.stream.incoming = header ++ tail ∧ header.length = 4 :=
      ⟨_, _, (List.take_append_drop 4 _).symm, by rw [List.length_take]; omega⟩
    have hfirst := readExact_append hincoming hheader
    by_cases hsize : MIN_FRAME_SIZE ≤ fromBeBytes header ∧ fromBeBytes header ≤ MAX_FRAME_SIZE
    · by_cases hshort : tail.length < fromBeBytes header
      · refine .inl ⟨.io, { c with
            stream := { c.stream with incoming := [] }
            inbuf := tail ++ (resize (fromBeBytes header) c.inbuf).drop tail.length }, ?_,
          fun body bodies => not_arrive hincoming hheader (.inr hshort)⟩
        have hsecond := readExact_short (s := { c.stream with incoming := tail }) hshort
        simp only [Connection.readFrame, hfirst, hsize, and_self, not_true_eq_false, if_false,
          hsecond]
      · obtain ⟨body, rest, htail, hbody⟩ : ∃ body rest,
            tail = body ++ rest ∧ body.length = fromBeBytes header :=
          ⟨_, _, (List.take_append_drop (fromBeBytes header) _).symm,
            by rw [List.length_take]; omega⟩
        have hsecond :=
          readExact_append (s := { c.stream with incoming := tail }) htail hbody
        refine .inr ⟨body, rest, ?_, ?_, ?_⟩
        · rw [Framed, hbody]
          exact hsize
        · rw [hbody, toBeBytes_fromBeBytes hheader, hincoming, htail, List.append_assoc]
        · simp only [Connection.readFrame, hfirst, hsize, and_self, not_true_eq_false, if_false,
          hsecond]
    · refine .inl ⟨.protocol s!"invalid response frame size: {fromBeBytes header}",
        { c with stream := { c.stream with incoming := tail } }, ?_,
        fun body bodies => not_arrive hincoming hheader (.inl hsize)⟩
      simp only [Connection.readFrame, hfirst, hsize, not_false_eq_true, if_true, protocol]

/-- The offset of an id in the batch never wraps around: an id below the first has none. -/
theorem checkedSub_eq_some_iff {x y d : UInt64} :
    checkedSub x y = some d ↔ y.toNat + d.toNat = x.toNat := by
  unfold checkedSub
  constructor
  · intro h
    split at h
    · rename_i hle
      obtain rfl := Option.some.inj h
      have hnat : y.toNat ≤ x.toNat := hle
      rw [UInt64.toNat_sub_of_le _ _ hle]
      omega
    · cases h
  · intro h
    have hle : y ≤ x := UInt64.le_iff_toNat_le.mpr (by omega)
    rw [if_pos hle, Option.some.injEq, ← UInt64.toNat_inj, UInt64.toNat_sub_of_le _ _ hle]
    omega

variable {firstFrame frameId : UInt64} {count : Nat} {pending : BitVec 64}

/-- Every shift of the mask stays below its width, and an id is found exactly when it belongs to a
frame of the batch that is still pending. -/
theorem pendingIndex_cases (hcount : count ≤ 64) (firstFrame frameId : UInt64)
    (pending : BitVec 64) :
    (pendingIndex firstFrame frameId count pending = .ok none ∧
      ∀ i < count, pending.getLsbD i = true → firstFrame.toNat + i ≠ frameId.toNat) ∨
    ∃ index : UInt64, index.toNat < count ∧ firstFrame.toNat + index.toNat = frameId.toNat ∧
      pending.getLsbD index.toNat = true ∧ pendingIndex firstFrame frameId count pending =
        .ok (some (index, 1#64 <<< index.toNat)) := by
  have hsize : (UInt64.ofNat count).toNat = count :=
    UInt64.toNat_ofNat_of_lt' (Nat.lt_of_le_of_lt hcount (by decide))
  cases hsub : checkedSub frameId firstFrame with
  | none =>
    refine .inl ⟨by simp [pendingIndex, hsub], ?_⟩
    intro i hi _ heq
    have hnat : (UInt64.ofNat i).toNat = i :=
      UInt64.toNat_ofNat_of_lt' (Nat.lt_of_lt_of_le (hi.trans_le hcount) (by decide))
    have hsome : checkedSub frameId firstFrame = some (UInt64.ofNat i) :=
      checkedSub_eq_some_iff.mpr (by rw [hnat, heq])
    rw [hsub] at hsome
    cases hsome
  | some index =>
    have hoffset := checkedSub_eq_some_iff.mp hsub
    by_cases hlt : index < UInt64.ofNat count
    · have hnat : index.toNat < count := hsize ▸ UInt64.lt_iff_toNat_lt.mp hlt
      have hbit : bit index.toNat = .ok (1#64 <<< index.toNat) := by
        rw [bit, if_pos (by omega)]
      by_cases hset : pending.getLsbD index.toNat = true
      · have hne := BitMask.and_bit_ne_zero_iff.mpr hset
        refine .inr ⟨index, hnat, hoffset, hset, ?_⟩
        simp [pendingIndex, hsub, hlt, hbit, hne, Except.map, Option.filter]
      · have hzero : ¬ pending &&& 1#64 <<< index.toNat ≠ 0#64 :=
          fun hne => hset (BitMask.and_bit_ne_zero_iff.mp hne)
        refine .inl ⟨?_, ?_⟩
        · simp only [pendingIndex, hsub, Option.filter, hlt, decide_true, if_true, hbit, Except.map,
            if_neg hzero]
        · intro i hi hbit' heq
          obtain rfl : i = index.toNat := by omega
          exact hset hbit'
    · refine .inl ⟨by simp [pendingIndex, hsub, hlt, Option.filter], ?_⟩
      intro i hi _ heq
      have hge : ¬ index.toNat < count := fun h =>
        hlt (UInt64.lt_iff_toNat_lt.mpr (hsize.symm ▸ h))
      omega

theorem allPending_eq (hcount : count ≤ 64) :
    allPending count = .ok (BitMask.full 64 count) := by
  by_cases hfull : count = 64
  · simp [allPending, BitMask.full, hfull]
  · have hlt : count < 64 := by omega
    simp [allPending, BitMask.full, hfull, bit, hlt, Except.map]

/-- `decode_ack` accepts the bodies for this stream, each with its id and its boolean. -/
def Accepted (checks : Bool) (c : Connection) (bodies : List Bytes) (acks : List (UInt64 × Bool)) :
    Prop :=
  List.Forall₂ (fun body ack => decodeAck checks body c.streamId c.expectedAction = .ok ack)
    bodies acks

/-- The reply once these frames have been counted, too. -/
def BatchReply.after (reply : BatchReply) (bodies : List Bytes) (acks : List (UInt64 × Bool)) :
    BatchReply :=
  { reply with
    blocked := reply.blocked + acks.countP (·.2)
    rx := reply.rx + (wire bodies).length }

theorem BatchReply.after_cons (reply : BatchReply) (body : Bytes) (bodies : List Bytes)
    (ack : UInt64 × Bool) (acks : List (UInt64 × Bool)) :
    reply.after (body :: bodies) (ack :: acks) =
      BatchReply.after { reply with
        blocked := reply.blocked + ack.2.toNat
        rx := reply.rx + (4 + body.length) } bodies acks := by
  have hlength : (wire (body :: bodies)).length = 4 + body.length + (wire bodies).length := by
    rw [wire_cons, List.length_append, List.length_append, length_toBeBytes]
  cases hblocked : ack.2 <;>
    simp [BatchReply.after, hlength, hblocked] <;> omega

/-- The frames that come next acknowledge these indices of the batch, all of them pending. -/
structure Acknowledge (checks : Bool) (c : Connection) (firstFrame : UInt64) (count : Nat)
    (pending : BitVec 64) (bodies : List Bytes) (acks : List (UInt64 × Bool)) (indices : List Nat) :
    Prop where
  arrive : Arrive c.stream.incoming bodies
  accepted : Accepted checks c bodies acks
  offsets : acks.map (fun ack => ack.1.toNat) = indices.map (firstFrame.toNat + ·)
  small : ∀ i ∈ indices, i < count
  claims : BitMask.Claims pending indices

variable {acks : List (UInt64 × Bool)} {ack : UInt64 × Bool} {indices : List Nat} {i : Nat}
  {reply reply' : BatchReply}

/-- One frame more. -/
theorem acknowledge_cons (hframed : Framed body)
    (hincoming : c.stream.incoming = toBeBytes body.length ++ body ++ rest)
    (hack : decodeAck checks body c.streamId c.expectedAction = .ok ack)
    (hi : i < count) (hoffset : firstFrame.toNat + i = ack.1.toNat)
    (hset : pending.getLsbD i = true) :
    (∃ indices', Acknowledge checks c firstFrame count pending (body' :: bodies) acks indices') ↔
      body' = body ∧ ∃ acks' indices', acks = ack :: acks' ∧
        Acknowledge checks { c with stream := { c.stream with incoming := rest }, inbuf := body }
          firstFrame count (BitMask.clear pending i) bodies acks' indices' := by
  constructor
  · rintro ⟨indices', h⟩
    obtain ⟨rfl, hrest⟩ := (arrive_cons hframed hincoming).mp h.arrive
    obtain ⟨harrive, haccepted, hoffsets, hsmall, hclaims⟩ := h
    cases haccepted with
    | @cons _ ack' _ acks' hack' haccepted =>
      obtain rfl : ack' = ack := Except.ok.inj (hack'.symm.trans hack)
      cases indices' with
      | nil => simp at hoffsets
      | cons j indices' =>
        simp only [List.map_cons, List.cons.injEq] at hoffsets
        obtain ⟨hhead, htail⟩ := hoffsets
        obtain rfl : j = i := by omega
        exact ⟨rfl, acks', indices', rfl, hrest, haccepted, htail,
          fun k hk => hsmall k (List.mem_cons_of_mem _ hk), (BitMask.claims_cons.mp hclaims).2⟩
  · rintro ⟨rfl, acks', indices', rfl, h⟩
    refine ⟨i :: indices', (arrive_cons hframed hincoming).mpr ⟨rfl, h.arrive⟩,
      .cons hack h.accepted, ?_, ?_, BitMask.claims_cons.mpr ⟨hset, h.claims⟩⟩
    · simp only [List.map_cons, List.cons.injEq]
      exact ⟨hoffset.symm, h.offsets⟩
    · intro k hk
      rcases List.mem_cons.mp hk with rfl | hk
      · exact hi
      · exact h.small k hk

/-- The first frame acknowledges a pending index. -/
theorem Acknowledge.head
    (h : Acknowledge checks c firstFrame count pending (body :: bodies) acks indices) :
    ∃ ack i, decodeAck checks body c.streamId c.expectedAction = .ok ack ∧ i < count ∧
      firstFrame.toNat + i = ack.1.toNat ∧ pending.getLsbD i = true := by
  obtain ⟨-, haccepted, hoffsets, hsmall, hclaims⟩ := h
  cases haccepted with
  | @cons _ ack _ acks hack haccepted =>
    cases indices with
    | nil => simp at hoffsets
    | cons i indices =>
      simp only [List.map_cons, List.cons.injEq] at hoffsets
      exact ⟨ack, i, hack, hsmall i (List.mem_cons_self ..), hoffsets.1.symm,
        (BitMask.claims_cons.mp hclaims).1⟩

theorem acknowledge_nil (c : Connection) (firstFrame : UInt64) (count : Nat)
    (pending : BitVec 64) : Acknowledge checks c firstFrame count pending [] [] [] where
  arrive := ⟨by simp, c.stream.incoming, rfl⟩
  accepted := .nil
  offsets := rfl
  small := by simp
  claims := BitMask.claims_nil

/-- The loop returns `Ok` exactly when the frames that come next acknowledge pending ids. -/
theorem readAcks_ok_iff (hcount : count ≤ 64) :
    (∃ c', Connection.readAcks checks firstFrame count n pending reply c = (.ok reply', c')) ↔
      ∃ bodies acks indices, bodies.length = n ∧
        Acknowledge checks c firstFrame count pending bodies acks indices ∧
        reply' = reply.after bodies acks := by
  induction n generalizing pending reply c with
  | zero =>
    constructor
    · rintro ⟨c', h⟩
      obtain ⟨hreply, -⟩ := Prod.mk.inj h
      obtain rfl := Except.ok.inj hreply
      exact ⟨[], [], [], rfl, acknowledge_nil .., rfl⟩
    · rintro ⟨bodies, acks, indices, hlength, hack, rfl⟩
      obtain rfl := List.length_eq_zero_iff.mp hlength
      cases hack.accepted
      exact ⟨c, rfl⟩
  | succ n ih =>
    rcases readFrame_cases c with ⟨e, c', hread, hnone⟩ | ⟨body, rest, hframed, hincoming, hread⟩
    · simp only [Connection.readAcks, hread, Prod.mk.injEq, reduceCtorEq, false_and, exists_false,
        false_iff]
      rintro ⟨bodies, acks, indices, hlength, hack, -⟩
      cases bodies with
      | nil => simp at hlength
      | cons body bodies => exact hnone body bodies hack.arrive
    · cases hdecode : decodeAck checks body c.streamId c.expectedAction with
      | error e =>
        simp only [Connection.readAcks, hread, hdecode, Prod.mk.injEq, reduceCtorEq, false_and,
          exists_false, false_iff]
        rintro ⟨bodies, acks, indices, hlength, hack, -⟩
        cases bodies with
        | nil => simp at hlength
        | cons body' bodies =>
          obtain ⟨rfl, -⟩ := (arrive_cons hframed hincoming).mp hack.arrive
          obtain ⟨ack, i, hok, -⟩ := hack.head
          rw [hdecode] at hok
          cases hok
      | ok ack =>
        obtain ⟨frameId, blocked⟩ := ack
        rcases pendingIndex_cases hcount firstFrame frameId pending with
          ⟨hindex, hforeign⟩ | ⟨index, hlt, hoffset, hset, hindex⟩
        · simp only [Connection.readAcks, hread, hdecode, hindex, protocol, Prod.mk.injEq,
            reduceCtorEq, false_and, exists_false, false_iff]
          rintro ⟨bodies, acks, indices, hlength, hack, -⟩
          cases bodies with
          | nil => simp at hlength
          | cons body' bodies =>
            obtain ⟨rfl, -⟩ := (arrive_cons hframed hincoming).mp hack.arrive
            obtain ⟨ack, i, hok, hi, hid, hset⟩ := hack.head
            obtain rfl := Except.ok.inj (hdecode.symm.trans hok)
            exact hforeign i hi hset hid
        · simp only [Connection.readAcks, hread, hdecode, hindex]
          rw [show pending &&& ~~~(1#64 <<< index.toNat) = BitMask.clear pending index.toNat
            from rfl, ih]
          constructor
          · rintro ⟨bodies, acks, indices, hlength, hack, rfl⟩
            obtain ⟨indices', hack'⟩ := (acknowledge_cons hframed hincoming hdecode hlt hoffset
              hset).mpr ⟨rfl, acks, indices, rfl, hack⟩
            exact ⟨body :: bodies, _, indices', by rw [List.length_cons, hlength], hack',
              (BatchReply.after_cons reply body bodies (frameId, blocked) acks).symm⟩
          · rintro ⟨bodies, acks, indices, hlength, hack, rfl⟩
            cases bodies with
            | nil => simp at hlength
            | cons body' bodies =>
              obtain ⟨rfl, acks', indices', rfl, hack'⟩ := (acknowledge_cons hframed hincoming
                hdecode hlt hoffset hset).mp ⟨indices, hack⟩
              exact ⟨bodies, acks', indices', by simpa using hlength, hack',
                BatchReply.after_cons reply body' bodies (frameId, blocked) acks'⟩

end IpReputation.Client
