import IpReputation.Pipeline
import IpReputation.VarintRoundTrip

/-! Acknowledgements: `decode_ack` accepts the bytes of one and no others. -/
namespace IpReputation.Client

variable {checks : Bool} {body actions expected rest : Bytes} {streamId frameId : UInt64}
  {blocked : Bool} {value : UInt8} {pos pos' : Nat}

/-- The byte of `ip_bad`. -/
def booleanByte (blocked : Bool) : UInt8 := if blocked then BOOLEAN_TRUE else BOOLEAN_FALSE

/-- The one action of an acknowledgement. -/
def ackPayload (blocked : Bool) : Bytes := expectedAction ++ [booleanByte blocked]

/-- The body of the frame that acknowledges a frame. -/
def encodedAck (streamId frameId : UInt64) (blocked : Bool) : Bytes :=
  frameBody FRAME_AGENT_ACK streamId frameId (ackPayload blocked)

/-- The two integers of a header denote numbers of 64 bits. -/
def HeaderInRange (body : Bytes) : Prop :=
  denoted (varintBytes (body.drop 5)) < 2 ^ 64 ∧
    denoted (varintBytes (body.drop (5 + (varintBytes (body.drop 5)).length))) < 2 ^ 64

/-- The actions are the expected one, up to the byte of the boolean. -/
theorem decodeActions_ok_iff {id : UInt64} :
    decodeActions actions expected id = .ok (frameId, blocked) ↔
      frameId = id ∧ actions = expected ++ [booleanByte blocked] := by
  constructor
  · intro h
    unfold decodeActions at h
    split at h
    · simp [protocol] at h
    · rename_i value hlast
      have hactions := List.dropLast_append_getLast? value hlast
      split at h
      · simp [protocol] at h
      · rename_i haction
        rw [ne_eq, not_not] at haction
        rw [← hactions, haction]
        split at h
        · rename_i hvalue
          obtain ⟨rfl, rfl⟩ := Prod.mk.inj (Except.ok.inj h)
          exact ⟨rfl, by rw [hvalue]; rfl⟩
        · split at h
          · rename_i hvalue
            obtain ⟨rfl, rfl⟩ := Prod.mk.inj (Except.ok.inj h)
            exact ⟨rfl, by rw [hvalue]; rfl⟩
          · simp [protocol] at h
  · rintro ⟨rfl, rfl⟩
    cases blocked <;> simp [decodeActions, booleanByte, BOOLEAN_FALSE, BOOLEAN_TRUE]

/-- An acknowledgement starts with its type and its flags. -/
theorem decodeKind_ok_iff (hlength : 5 ≤ body.length) :
    decodeKind body = .ok () ↔ ∃ rest, body = FRAME_AGENT_ACK :: toBeBytes FLAG_FIN ++ rest := by
  match body, hlength with
  | kind :: a :: b :: c :: d :: rest, _ =>
    constructor
    · intro h
      simp only [decodeKind, index, List.getElem?_cons_zero, List.getElem?_cons_succ, bind,
        Except.bind] at h
      split at h
      · simp [protocol] at h
      · rename_i hkind
        split at h
        · simp [protocol] at h
        · rename_i hflags
          rw [ne_eq, not_not] at hkind hflags
          have hfour : [a, b, c, d].length = 4 := rfl
          have hbytes := toBeBytes_fromBeBytes hfour
          rw [hflags] at hbytes
          exact ⟨rest, by rw [hkind, hbytes]; rfl⟩
    · rintro ⟨rest', h⟩
      obtain ⟨rfl, rfl, rfl, rfl, rfl, -⟩ : kind = FRAME_AGENT_ACK ∧ a = 0 ∧ b = 0 ∧ c = 0 ∧
          d = 1 ∧ rest = rest' := by simpa [toBeBytes, FLAG_FIN] using h
      rfl

/-- The header is read from two integers of 64 bits, the first of which names the stream. -/
theorem decodeHeader_ok_iff : decodeHeader checks body streamId = .ok (frameId, pos') ↔
    ∃ pos, getVarint checks body 5 = .ok (some streamId, pos) ∧
      getVarint checks body pos = .ok (some frameId, pos') := by
  cases hstream : getVarint checks body 5 with
  | error p => simp [decodeHeader, hstream, orPanic, Except.mapError, bind, Except.bind]
  | ok stream =>
    obtain ⟨acked, pos⟩ := stream
    cases hframe : getVarint checks body pos with
    | error p =>
      simp only [decodeHeader, hstream, hframe, orPanic, Except.mapError, bind, Except.bind]
      constructor
      · intro h
        cases h
      · rintro ⟨pos₁, h, hread⟩
        obtain ⟨-, rfl⟩ := Prod.mk.inj (Except.ok.inj h)
        rw [hframe] at hread
        cases hread
    | ok frame =>
      obtain ⟨frameId₁, pos₁⟩ := frame
      simp only [decodeHeader, hstream, hframe, orPanic, Except.mapError, bind, Except.bind]
      constructor
      · intro h
        split at h
        · rename_i acked₁ frameId₂
          split at h
          · simp [protocol] at h
          · rename_i hsame
            rw [ne_eq, not_not] at hsame
            obtain ⟨rfl, rfl⟩ := Prod.mk.inj (Except.ok.inj h)
            exact ⟨pos, by rw [hsame], hframe⟩
        · simp [protocol] at h
      · rintro ⟨pos₂, h, hread⟩
        obtain ⟨rfl, rfl⟩ := Prod.mk.inj (Except.ok.inj h)
        rw [hframe] at hread
        obtain ⟨rfl, rfl⟩ := Prod.mk.inj (Except.ok.inj hread)
        simp

/-- Nothing is checked but the size, the type and the flags, the header and the actions. -/
theorem decodeAck_ok_iff : decodeAck checks body streamId expected = .ok (frameId, blocked) ↔
    MIN_FRAME_SIZE ≤ body.length ∧ decodeKind body = .ok () ∧
      ∃ pos, decodeHeader checks body streamId = .ok (frameId, pos) ∧
        body.drop pos = expected ++ [booleanByte blocked] := by
  unfold decodeAck
  split
  · rename_i hshort
    simp [protocol, Nat.not_le.mpr hshort]
  · rename_i hlong
    have hlength := Nat.not_lt.mp hlong
    rw [and_iff_right hlength]
    cases hkind : decodeKind body with
    | error e => simp [bind, Except.bind]
    | ok u =>
      cases hheader : decodeHeader checks body streamId with
      | error e => simp [bind, Except.bind]
      | ok header =>
        obtain ⟨id, pos⟩ := header
        have hslice := sliceFrom_eq (decodeHeader_pos hlength hheader)
        simp only [hslice, bind, Except.bind, decodeActions_ok_iff, true_and]
        constructor
        · rintro ⟨rfl, hactions⟩
          exact ⟨pos, rfl, hactions⟩
        · rintro ⟨pos₁, h, hactions⟩
          obtain ⟨rfl, rfl⟩ := Prod.mk.inj (Except.ok.inj h)
          exact ⟨rfl, hactions⟩

/-- What comes before the integers of an acknowledgement. -/
def ackHead : Bytes := FRAME_AGENT_ACK :: toBeBytes FLAG_FIN

theorem encodedAck_eq (streamId frameId : UInt64) (blocked : Bool) :
    encodedAck streamId frameId blocked =
      ackHead ++ putVarint streamId ++ putVarint frameId ++ ackPayload blocked := rfl

theorem ackHead_length : ackHead.length = 5 := rfl

theorem ackPayload_length (blocked : Bool) : (ackPayload blocked).length = 11 := by
  cases blocked <;> decide

/-- The acknowledgement of a frame is accepted, with its boolean. -/
theorem decodeAck_encodedAck (checks : Bool) (streamId frameId : UInt64) (blocked : Bool) :
    decodeAck checks (encodedAck streamId frameId blocked) streamId expectedAction =
      .ok (frameId, blocked) := by
  have hstream := getVarint_putVarint checks streamId ackHead
    (putVarint frameId ++ ackPayload blocked)
  have hframe := getVarint_putVarint checks frameId (ackHead ++ putVarint streamId)
    (ackPayload blocked)
  rw [← List.append_assoc] at hstream
  have hlength : 7 ≤ (ackHead ++ putVarint streamId ++ putVarint frameId ++
      ackPayload blocked).length := by
    simp only [List.length_append, ackHead_length, ackPayload_length]
    omega
  rw [encodedAck_eq]
  refine decodeAck_ok_iff.mpr ⟨hlength, ?_, _, decodeHeader_ok_iff.mpr ⟨_, hstream, hframe⟩, ?_⟩
  · refine (decodeKind_ok_iff (by omega)).mpr
      ⟨putVarint streamId ++ putVarint frameId ++ ackPayload blocked, ?_⟩
    simp only [List.append_assoc]
    rfl
  · exact List.drop_left

/-- The bytes before the body are its length. -/
theorem putFrame_ack (out : Bytes) (streamId frameId : UInt64) (blocked : Bool) :
    ∃ header, putFrame out FRAME_AGENT_ACK streamId frameId (ackPayload blocked) =
        out ++ header ++ encodedAck streamId frameId blocked ∧
      header.length = 4 ∧ fromBeBytes header = (encodedAck streamId frameId blocked).length := by
  refine ⟨toBeBytes (encodedAck streamId frameId blocked).length, rfl, rfl, ?_⟩
  apply fromBeBytes_toBeBytes
  have hstream := putVarint_length streamId
  have hframe := putVarint_length frameId
  simp only [encodedAck_eq, List.length_append, ackHead_length, ackPayload_length]
  omega

/-- What is accepted is the acknowledgement of a frame, byte for byte. -/
theorem eq_encodedAck_of_decodeAck (hrange : HeaderInRange body)
    (h : decodeAck checks body streamId expectedAction = .ok (frameId, blocked)) :
    body = encodedAck streamId frameId blocked := by
  obtain ⟨hlength, hkind, pos', hheader, hactions⟩ := decodeAck_ok_iff.mp h
  obtain ⟨pos, hstream, hframe⟩ := decodeHeader_ok_iff.mp hheader
  have hseven : 7 ≤ body.length := hlength
  obtain ⟨rest, hbody⟩ := (decodeKind_ok_iff (by omega)).mp hkind
  have hpos : pos = 5 + (varintBytes (body.drop 5)).length := (getVarint_shape hstream).1
  obtain ⟨-, hstreamBytes⟩ := getVarint_canonical hstream hrange.1
  obtain ⟨-, hframeBytes⟩ := getVarint_canonical hframe (hpos ▸ hrange.2)
  have hrest : body.drop 5 = rest := by
    rw [hbody]
    rfl
  rw [encodedAck_eq, hbody, ← hrest, hstreamBytes, hframeBytes, hactions]
  simp only [ackHead, ackPayload, List.append_assoc]

/-- `decode_ack` accepts the acknowledgement that `put_frame` builds for a frame and a boolean,
and no other body with integers of 64 bits. No body makes an index go out of range. -/
structure DecodesAcks (checks : Bool) : Prop where
  framed : ∀ out streamId frameId blocked, ∃ header,
    putFrame out FRAME_AGENT_ACK streamId frameId (ackPayload blocked) =
        out ++ header ++ encodedAck streamId frameId blocked ∧
      header.length = 4 ∧ fromBeBytes header = (encodedAck streamId frameId blocked).length
  accepts : ∀ streamId frameId blocked,
    decodeAck checks (encodedAck streamId frameId blocked) streamId expectedAction =
      .ok (frameId, blocked)
  only : ∀ body streamId frameId blocked, HeaderInRange body →
    decodeAck checks body streamId expectedAction = .ok (frameId, blocked) →
    body = encodedAck streamId frameId blocked
  inRange : ∀ body streamId expected,
    decodeAck checks body streamId expected ≠ .error (.panic .slice)

/-- In every build the accepted acknowledgements are the encoded ones. -/
theorem decodesAcks (checks : Bool) : DecodesAcks checks where
  framed := putFrame_ack
  accepts := decodeAck_encodedAck checks
  only _ _ _ _ hrange h := eq_encodedAck_of_decodeAck hrange h
  inRange body streamId expected h := by
    have hvarint := (decodeAck_panic h).2
    cases hvarint

end IpReputation.Client
