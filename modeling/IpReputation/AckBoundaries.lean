import IpReputation.Exchange
import IpReputation.Library.Marker

/-! The bytes of acknowledgements contain no others: where one is read, one was sent. -/
namespace IpReputation.Client

open OffsetNumeral Marker

variable {checks : Bool} {body rest ys : Bytes} {n streamId : UInt64}
  {ack : UInt64 × Bool} {acks : List (UInt64 × Bool)} {c : Connection} {incoming : Bytes}

/-- All bytes of an integer but the last have their high bit set. -/
theorem putVarint_continues {before after : Bytes} {byte : UInt8}
    (h : putVarint n = before ++ byte :: after) (hne : after ≠ []) : 128 ≤ byte.toNat := by
  have hvarint := varint_putVarint n
  rw [h] at hvarint
  cases before with
  | nil =>
    cases hvarint with
    | short hfirst => exact absurd rfl hne
    | long hfirst hgroups => exact le_trans (by decide) (UInt8.le_iff_toNat_le.mp hfirst)
  | cons first before =>
    generalize hbytes : first :: before ++ byte :: after = bytes at hvarint
    cases hvarint with
    | short hfirst => simp at hbytes
    | long hfirst hgroups =>
      obtain ⟨-, rfl⟩ := List.cons.inj hbytes
      have hdigits : Numeral 128
          (before.map UInt8.toNat ++ byte.toNat :: after.map UInt8.toNat) := by
        simpa using hgroups
      exact hdigits.continues (by simpa using hne)

/-- The head of an acknowledgement begins nowhere in an integer, unless zeros follow. -/
theorem clear_putVarint (h : ¬ [0, 0, 0, 1] <+: rest) : Clear ackHead (putVarint n) rest := by
  rintro before byte after heq ⟨tail, htail⟩
  obtain ⟨rfl, hflags⟩ := List.cons.inj htail
  cases after with
  | nil => exact h ⟨tail, hflags⟩
  | cons next after =>
    have hhigh := putVarint_continues heq (by simp)
    exact absurd hhigh (by decide)

/-- No integer but a single zero begins with a zero. -/
theorem not_zeros_putVarint (hrest : ¬ [0, 0, 1] <+: rest) :
    ¬ [0, 0, 0, 1] <+: putVarint n ++ rest := by
  rintro ⟨tail, htail⟩
  cases hbytes : putVarint n with
  | nil => exact absurd (hbytes ▸ varint_putVarint n) (by rintro ⟨⟩)
  | cons first groups =>
    rw [hbytes] at htail
    obtain ⟨rfl, hflags⟩ := List.cons.inj htail
    cases groups with
    | nil => exact hrest ⟨tail, hflags⟩
    | cons next groups =>
      have hsplit : putVarint n = [] ++ 0 :: next :: groups := hbytes
      exact absurd (putVarint_continues hsplit (by simp)) (by decide)

/-- The head of an acknowledgement begins nowhere but at its start. -/
theorem clear_ack (frameId : UInt64) (blocked : Bool) (rest : Bytes) :
    Clear ackHead (toBeBytes FLAG_FIN ++ putVarint streamId ++ putVarint frameId ++
      ackPayload blocked) rest := by
  have hpayload : Clear ackHead (ackPayload blocked) rest :=
    clear_of_not_mem (by cases blocked <;> decide)
  have hone : ¬ [0, 0, 1] <+: ackPayload blocked ++ rest := by
    rintro ⟨tail, htail⟩
    cases (List.cons.inj htail).1
  have hzeros : ¬ [0, 0, 0, 1] <+: ackPayload blocked ++ rest := by
    rintro ⟨tail, htail⟩
    cases (List.cons.inj htail).1
  have hflags : Clear ackHead (toBeBytes FLAG_FIN)
      (putVarint streamId ++ (putVarint frameId ++ (ackPayload blocked ++ rest))) :=
    clear_of_not_mem (by decide)
  have hhead := hflags.append (clear_putVarint (not_zeros_putVarint hone))
  exact (Clear.append hhead (clear_putVarint hzeros)).append hpayload

/-- The bytes of these acknowledgements. -/
def ackWire (streamId : UInt64) (acks : List (UInt64 × Bool)) : Bytes :=
  wire (acks.map fun ack => encodedAck streamId ack.1 ack.2)

theorem length_encodedAck (streamId frameId : UInt64) (blocked : Bool) :
    (encodedAck streamId frameId blocked).length ≤ 36 := by
  have hstream := putVarint_length streamId
  have hframe := putVarint_length frameId
  simp only [encodedAck_eq, List.length_append, ackHead_length, ackPayload_length]
  omega

theorem clear_length (frameId : UInt64) (blocked : Bool) (rest : Bytes) :
    Clear ackHead (toBeBytes (encodedAck streamId frameId blocked).length) rest := by
  apply clear_of_not_mem
  have hlength := length_encodedAck streamId frameId blocked
  have hall : ∀ k : Fin 37, FRAME_AGENT_ACK ∉ toBeBytes k.val := by decide
  exact hall ⟨_, Nat.lt_succ_of_le hlength⟩

/-- In a stream of acknowledgements a tail that begins like one is the tail from one of them on. -/
theorem ackWire_suffix (hs : ys <:+ ackWire streamId acks) (hm : ackHead <+: ys) :
    ∃ before ack after, acks = before ++ ack :: after ∧
      ys = encodedAck streamId ack.1 ack.2 ++ ackWire streamId after := by
  induction acks with
  | nil =>
    obtain rfl := List.suffix_nil.mp hs
    exact absurd (List.prefix_nil.mp hm) (by decide)
  | cons ack acks ih =>
    rw [ackWire, List.map_cons, wire_cons, List.append_assoc] at hs
    have hbody := (clear_length ack.1 ack.2 _).suffix hs hm
    rcases List.suffix_cons_iff.mp hbody with rfl | htail
    · exact ⟨[], ack, acks, rfl, rfl⟩
    · obtain ⟨before, sent, after, rfl, hys⟩ := ih ((clear_ack ack.1 ack.2 _).suffix htail hm)
      exact ⟨ack :: before, sent, after, rfl, hys⟩

theorem ackWire_append (streamId : UInt64) (acks acks' : List (UInt64 × Bool)) :
    ackWire streamId (acks ++ acks') = ackWire streamId acks ++ ackWire streamId acks' := by
  simp [ackWire, wire]

theorem ackWire_cons : ackWire streamId (ack :: acks) =
    toBeBytes (encodedAck streamId ack.1 ack.2).length ++
      (encodedAck streamId ack.1 ack.2 ++ ackWire streamId acks) := by
  rw [ackWire, List.map_cons, wire_cons, List.append_assoc]
  rfl

/-- Wherever in a stream of acknowledgements a frame is read that is accepted as one, it is one of
them, whole. -/
theorem mem_of_wire_infix (hframed : Framed body) (hkind : decodeKind body = .ok ())
    (hsub : wire [body] <:+: ackWire streamId acks) :
    ∃ ack ∈ acks, body = encodedAck streamId ack.1 ack.2 := by
  have hseven : 7 ≤ body.length := hframed.1
  obtain ⟨rest, hbody⟩ := (decodeKind_ok_iff (by omega)).mp hkind
  obtain ⟨pre, post, heq⟩ := hsub
  have hwire : pre ++ toBeBytes body.length ++ (body ++ post) = ackWire streamId acks := by
    rw [← heq, wire_cons]
    simp [wire]
  have hhead : ackHead <+: body ++ post := ⟨rest ++ post, by rw [← List.append_assoc, hbody]; rfl⟩
  obtain ⟨before, ack, after, rfl, hys⟩ := ackWire_suffix ⟨_, hwire⟩ hhead
  rw [ackWire_append, ackWire_cons, ← hys, ← List.append_assoc (ackWire streamId before)] at hwire
  obtain ⟨-, hlength⟩ := List.append_inj' (List.append_cancel_right hwire) rfl
  have hsame := congrArg fromBeBytes hlength
  rw [fromBeBytes_toBeBytes hframed.length_lt,
    fromBeBytes_toBeBytes ((length_encodedAck streamId ack.1 ack.2).trans_lt (by decide))] at hsame
  exact ⟨ack, by simp, (List.append_inj hys hsame).1⟩

/-- On a connection that carries nothing but acknowledgements, what is counted was sent, also after
reads that have failed in the middle of a frame. -/
theorem Arrived.sent (h : Arrived checks c incoming ack)
    (hsub : incoming <:+: ackWire c.streamId acks) (haction : c.expectedAction = expectedAction) :
    ack ∈ acks := by
  obtain ⟨body, hframed, hdecode, hwire⟩ := h
  obtain ⟨-, hkind, -⟩ := decodeAck_ok_iff.mp hdecode
  obtain ⟨sent, hsent, rfl⟩ := mem_of_wire_infix hframed hkind (hwire.trans hsub)
  rw [haction, decodeAck_encodedAck] at hdecode
  obtain rfl := Except.ok.inj hdecode
  exact hsent

end IpReputation.Client
