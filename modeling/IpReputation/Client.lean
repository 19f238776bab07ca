import IpReputation.Net
import IpReputation.Varint
import IpReputation.Library.BitMask

/-! `client.rs` of the benchmark: frames, acknowledgements and the connection to the agent. -/
namespace IpReputation.Client

abbrev Bytes := List UInt8

def MESSAGE : String := "check-client-ip"
def ARGUMENT : String := "ip"
def VARIABLE : String := "ip_bad"

def FRAME_NOTIFY : UInt8 := 0x03
def FRAME_AGENT_ACK : UInt8 := 0x67
def FLAG_FIN : Nat := 1
def MAX_FRAME_SIZE : Nat := 16384

/-- Smallest valid frame body: type, flags and two one-byte varints. -/
def MIN_FRAME_SIZE : Nat := 7

def ACTION_SET_VAR : UInt8 := 0x01
def SCOPE_SESSION : UInt8 := 0x01
def BOOLEAN_FALSE : UInt8 := 0x01
def BOOLEAN_TRUE : UInt8 := 0x11

inductive Error
  | io
  | protocol (msg : String)

/-- How a run ends that does not return `Ok`. -/
inductive Stop
  | panic (p : Panic)
  | err (e : Error)

def protocol {α : Type} (msg : String) : Except Stop α := .error (.err (.protocol msg))

def orPanic {α : Type} (x : Except Panic α) : Except Stop α := x.mapError .panic

/-- The bytes in hexadecimal digits. -/
def hex (bytes : Bytes) : String :=
  String.ofList (bytes.flatMap fun b =>
    [Nat.digitChar (b.toNat / 16), Nat.digitChar (b.toNat % 16)])

/-- `u32::to_be_bytes`; what does not fit in 32 bits is cut off. -/
def toBeBytes (n : Nat) : Bytes :=
  [UInt8.ofNat (n / 2 ^ 24), UInt8.ofNat (n / 2 ^ 16), UInt8.ofNat (n / 2 ^ 8), UInt8.ofNat n]

/-- `u32::from_be_bytes`. -/
def fromBeBytes (bytes : Bytes) : Nat := bytes.foldl (fun n b => 256 * n + b.toNat) 0

/-- What follows the length in a frame. -/
def frameBody (kind : UInt8) (streamId frameId : UInt64) (payload : Bytes) : Bytes :=
  kind :: toBeBytes FLAG_FIN ++ putVarint streamId ++ putVarint frameId ++ payload

/-- Appends `[length][type][flags][stream-id][frame-id][payload]` to `out`. -/
def putFrame (out : Bytes) (kind : UInt8) (streamId frameId : UInt64) (payload : Bytes) : Bytes :=
  let body := frameBody kind streamId frameId payload
  out ++ toBeBytes body.length ++ body

def putString (text : String) : Bytes :=
  putVarint (UInt64.ofNat text.utf8ByteSize) ++ text.toUTF8.data.toList

/-- NOTIFY payload up to its one argument, whose typed value follows. -/
def messagePrefix : Bytes := putString MESSAGE ++ 1 :: putString ARGUMENT

/-- Expected ACK action without its final boolean byte. -/
def expectedAction : Bytes := [ACTION_SET_VAR, 3, SCOPE_SESSION] ++ putString VARIABLE

/-- `body[i]`. -/
def index (body : Bytes) (i : Nat) : Except Stop UInt8 :=
  match body[i]? with
  | none => .error (.panic .slice)
  | some byte => .ok byte

/-- `&body[pos..]`. -/
def sliceFrom (body : Bytes) (pos : Nat) : Except Stop Bytes :=
  if body.length < pos then .error (.panic .slice) else .ok (body.drop pos)

/-- The checks of `decode_ack` on what follows the header. -/
def decodeActions (actions expectedAction : Bytes) (frameId : UInt64) :
    Except Stop (UInt64 × Bool) :=
  match actions.getLast? with
  | none => protocol "ACK without action"
  | some value =>
    if actions.dropLast ≠ expectedAction then protocol s!"unexpected ACK actions {hex actions}"
    else if value = BOOLEAN_FALSE then .ok (frameId, false)
    else if value = BOOLEAN_TRUE then .ok (frameId, true)
    else protocol s!"ip_bad is not a boolean: 0x{hex [value]}"

/-- The type and the flags of an acknowledgement. -/
def decodeKind (body : Bytes) : Except Stop Unit := do
  let kind ← index body 0
  if kind ≠ FRAME_AGENT_ACK then protocol s!"expected AGENT-ACK, received type 0x{hex [kind]}"
  else
    let flags := [← index body 1, ← index body 2, ← index body 3, ← index body 4]
    if fromBeBytes flags ≠ FLAG_FIN then protocol s!"unexpected ACK flags 0x{hex flags}"
    else .ok ()

/-- The frame id, and where the actions start. -/
def decodeHeader (checks : Bool) (body : Bytes) (streamId : UInt64) :
    Except Stop (UInt64 × Nat) := do
  let (ackedStream, pos) ← orPanic (getVarint checks body 5)
  let (frameId, pos) ← orPanic (getVarint checks body pos)
  match ackedStream, frameId with
  | some ackedStream, some frameId =>
    if ackedStream ≠ streamId then protocol s!"ACK for stream {ackedStream}, expected {streamId}"
    else .ok (frameId, pos)
  | _, _ => protocol s!"truncated ACK header {hex body}"

/-- Validates an AGENT-ACK body and returns `(frame_id, ip_bad)`. -/
def decodeAck (checks : Bool) (body : Bytes) (streamId : UInt64) (expectedAction : Bytes) :
    Except Stop (UInt64 × Bool) :=
  if body.length < MIN_FRAME_SIZE then protocol s!"truncated frame {hex body}"
  else do
    decodeKind body
    let (frameId, pos) ← decodeHeader checks body streamId
    let actions ← sliceFrom body pos
    decodeActions actions expectedAction frameId

variable {checks : Bool} {body actions expected : Bytes} {streamId frameId : UInt64} {pos : Nat}
  {p : Panic}

theorem index_eq {i : Nat} (h : i < body.length) : index body i = .ok body[i] := by
  rw [index, List.getElem?_eq_getElem h]

theorem sliceFrom_eq (h : pos ≤ body.length) : sliceFrom body pos = .ok (body.drop pos) := by
  rw [sliceFrom, if_neg (Nat.not_lt.mpr h)]

theorem decodeActions_panic : decodeActions actions expected frameId ≠ .error (.panic p) := by
  unfold decodeActions
  split
  · simp [protocol]
  · split
    · simp [protocol]
    · split
      · simp
      · split <;> simp [protocol]

/-- The five bytes before the header are there. -/
theorem decodeKind_panic (hlength : MIN_FRAME_SIZE ≤ body.length) :
    decodeKind body ≠ .error (.panic p) := by
  have h : 7 ≤ body.length := hlength
  simp only [decodeKind, index_eq (show 0 < body.length by omega),
    index_eq (show 1 < body.length by omega), index_eq (show 2 < body.length by omega),
    index_eq (show 3 < body.length by omega), index_eq (show 4 < body.length by omega), bind,
    Except.bind]
  split
  · simp [protocol]
  · split <;> simp [protocol]

theorem decodeHeader_panic (h : decodeHeader checks body streamId = .error (.panic p)) :
    checks = true ∧ p = .varint := by
  cases hstream : getVarint checks body 5 with
  | error q =>
    simp only [decodeHeader, hstream, orPanic, Except.mapError, bind, Except.bind,
      Except.error.injEq, Stop.panic.injEq] at h
    exact h ▸ getVarint_panic hstream
  | ok stream =>
    obtain ⟨ackedStream, pos⟩ := stream
    cases hframe : getVarint checks body pos with
    | error q =>
      simp only [decodeHeader, hstream, hframe, orPanic, Except.mapError, bind, Except.bind,
        Except.error.injEq, Stop.panic.injEq] at h
      exact h ▸ getVarint_panic hframe
    | ok frame =>
      simp only [decodeHeader, hstream, hframe, orPanic, Except.mapError, bind, Except.bind] at h
      split at h
      · split at h <;> simp [protocol] at h
      · simp [protocol] at h

/-- The header is read from the body. -/
theorem decodeHeader_pos (hlength : MIN_FRAME_SIZE ≤ body.length)
    (h : decodeHeader checks body streamId = .ok (frameId, pos)) : pos ≤ body.length := by
  have hseven : 7 ≤ body.length := hlength
  cases hstream : getVarint checks body 5 with
  | error q => simp [decodeHeader, hstream, orPanic, Except.mapError, bind, Except.bind] at h
  | ok stream =>
    obtain ⟨ackedStream, pos₁⟩ := stream
    have hpos : pos₁ ≤ body.length := getVarint_pos hstream (by omega)
    cases hframe : getVarint checks body pos₁ with
    | error q =>
      simp [decodeHeader, hstream, hframe, orPanic, Except.mapError, bind, Except.bind] at h
    | ok frame =>
      have hpos' := getVarint_pos hframe hpos
      simp only [decodeHeader, hstream, hframe, orPanic, Except.mapError, bind, Except.bind] at h
      split at h
      · split at h
        · simp [protocol] at h
        · obtain ⟨-, rfl⟩ := Prod.mk.inj (Except.ok.inj h)
          exact hpos'
      · simp [protocol] at h

/-- No index is out of range: only checked arithmetic can make `decode_ack` panic. -/
theorem decodeAck_panic (h : decodeAck checks body streamId expected = .error (.panic p)) :
    checks = true ∧ p = .varint := by
  unfold decodeAck at h
  split at h
  · simp [protocol] at h
  · rename_i hlong
    have hlength : MIN_FRAME_SIZE ≤ body.length := Nat.not_lt.mp hlong
    cases hkind : decodeKind body with
    | error e =>
      simp only [hkind, bind, Except.bind] at h
      obtain rfl := Except.error.inj h
      exact absurd hkind (decodeKind_panic hlength)
    | ok u =>
      cases hheader : decodeHeader checks body streamId with
      | error e =>
        simp only [hkind, hheader, bind, Except.bind] at h
        obtain rfl := Except.error.inj h
        exact decodeHeader_panic hheader
      | ok header =>
        obtain ⟨frameId, pos⟩ := header
        have hpos := decodeHeader_pos hlength hheader
        simp only [hkind, hheader, sliceFrom_eq hpos, bind, Except.bind] at h
        exact absurd h decodeActions_panic

/-- The socket, as far as the client sees it. -/
structure TcpStream where
  /-- The bytes that will be there to read before the read times out. -/
  incoming : Bytes
  sent : Bytes := []
  writable : Bool := true

namespace TcpStream

/-- `write_all`. -/
def writeAll (bytes : Bytes) (s : TcpStream) : Except Stop Unit × TcpStream :=
  if s.writable then (.ok (), { s with sent := s.sent ++ bytes }) else (.error (.err .io), s)

/-- `read_exact` of `n` bytes; what a failed read has taken is lost. -/
def readExact (n : Nat) (s : TcpStream) : Except Stop Bytes × TcpStream :=
  if s.incoming.length < n then (.error (.err .io), { s with incoming := [] })
  else (.ok (s.incoming.take n), { s with incoming := s.incoming.drop n })

end TcpStream

structure Connection where
  stream : TcpStream
  streamId : UInt64
  nextFrameId : UInt64 := 1
  messagePrefix : Bytes := messagePrefix
  expectedAction : Bytes := expectedAction
  out : Bytes := []
  inbuf : Bytes := []

/-- Outcome of one pipelined batch. -/
structure BatchReply where
  blocked : Nat := 0
  tx : Nat := 0
  rx : Nat := 0
  deriving DecidableEq

/-- `u64::checked_sub`. -/
def checkedSub (x y : UInt64) : Option UInt64 := if y ≤ x then some (x - y) else none

/-- `1u64 << n` for the pending mask; a shift by the width or more is no value in any profile. -/
def bit (n : Nat) : Except Panic (BitVec 64) :=
  if n < 64 then .ok (1#64 <<< n) else .error .pendingShift

/-- The frames of a batch, none of them acknowledged yet. -/
def allPending (count : Nat) : Except Panic (BitVec 64) :=
  if count = 64 then .ok (BitVec.allOnes 64) else (bit count).map (· - 1#64)

/-- The place of `frameId` in the batch, when it is still pending, and its bit. -/
def pendingIndex (firstFrame frameId : UInt64) (count : Nat) (pending : BitVec 64) :
    Except Panic (Option (UInt64 × BitVec 64)) :=
  match (checkedSub frameId firstFrame).filter (· < UInt64.ofNat count) with
  | none => .ok none
  | some index =>
    (bit index.toNat).map fun b => if pending &&& b ≠ 0#64 then some (index, b) else none

/-- `Vec::resize` with zeros. -/
def resize (n : Nat) (bytes : Bytes) : Bytes := bytes.take n ++ List.replicate (n - bytes.length) 0

namespace Connection

/-- Reads one frame into `inbuf` (type byte first, length prefix stripped). -/
def readFrame (c : Connection) : Except Stop Unit × Connection :=
  match c.stream.readExact 4 with
  | (.error e, stream) => (.error e, { c with stream })
  | (.ok header, stream) =>
    let length := fromBeBytes header
    if ¬ (MIN_FRAME_SIZE ≤ length ∧ length ≤ MAX_FRAME_SIZE) then
      (protocol s!"invalid response frame size: {length}", { c with stream })
    else
      match stream.readExact length with
      | (.error e, rest) =>
        -- The bytes that came before the read failed are in the resized buffer.
        let inbuf := stream.incoming ++ (resize length c.inbuf).drop stream.incoming.length
        (.error e, { c with stream := rest, inbuf })
      | (.ok body, stream) => (.ok (), { c with stream, inbuf := body })

/-- `encode` is `TypedData::encode` of an address. -/
def writeNotify (encode : IpAddr → Bytes) (frameId : UInt64) (ip : IpAddr) (c : Connection) :
    Connection :=
  { c with
    out := putFrame c.out FRAME_NOTIFY c.streamId frameId (c.messagePrefix ++ encode ip) }

/-- One NOTIFY per address, back to back. -/
def writeNotifies (checks : Bool) (encode : IpAddr → Bytes) :
    List IpAddr → Connection → Except Stop Unit × Connection
  | [], c => (.ok (), c)
  | ip :: ips, c =>
    match add checks .frameCounter c.nextFrameId 1 with
    | .error p => (.error (.panic p), c)
    | .ok next =>
      writeNotifies checks encode ips ({ c with nextFrameId := next }.writeNotify encode
        c.nextFrameId ip)

/-- The acknowledgements still to come, `count` being the size of the batch. -/
def readAcks (checks : Bool) (firstFrame : UInt64) (count : Nat) :
    Nat → BitVec 64 → BatchReply → Connection → Except Stop BatchReply × Connection
  | 0, _, reply, c => (.ok reply, c)
  | n + 1, pending, reply, c =>
    match c.readFrame with
    | (.error e, c) => (.error e, c)
    | (.ok (), c) =>
      let reply := { reply with rx := reply.rx + (4 + c.inbuf.length) }
      match decodeAck checks c.inbuf c.streamId c.expectedAction with
      | .error e => (.error e, c)
      | .ok (frameId, blocked) =>
        match pendingIndex firstFrame frameId count pending with
        | .error p => (.error (.panic p), c)
        | .ok none => (protocol s!"unexpected ACK for frame {frameId}", c)
        | .ok (some (_, b)) =>
          readAcks checks firstFrame count n (pending &&& ~~~b)
            { reply with blocked := reply.blocked + blocked.toNat } c

/-- Sends one NOTIFY per address back to back, then reads every ACK (pipelining). ACKs may
arrive in any order; each must belong to the batch exactly once. -/
def checkPipelined (checks : Bool) (encode : IpAddr → Bytes) (ips : List IpAddr)
    (c : Connection) : Except Stop BatchReply × Connection :=
  -- "pipeline depth must be 1..=64"
  if ips.isEmpty ∨ 64 < ips.length then (.error (.panic .pipelineDepth), c)
  else
    match writeNotifies checks encode ips { c with out := [] } with
    | (.error e, c) => (.error e, c)
    | (.ok (), written) =>
      match written.stream.writeAll written.out with
      | (.error e, stream) => (.error e, { written with stream })
      | (.ok (), stream) =>
        match allPending ips.length with
        | .error p => (.error (.panic p), { written with stream })
        | .ok pending =>
          readAcks checks c.nextFrameId ips.length ips.length pending { tx := written.out.length }
            { written with stream }

end Connection

end IpReputation.Client
