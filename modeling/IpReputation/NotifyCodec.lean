import IpReputation.AckCodec
import IpReputation.AckMatching

/-! The bytes of a batch tell its stream, its frame ids and its addresses. -/
namespace IpReputation.Client

variable {kind : UInt8} {m n streamId streamId' frameId frameId' : UInt64} {body body' : Bytes}
  {payload payload' rest rest' : Bytes} {ip ip' : IpAddr} {ips ips' : List IpAddr}
  {encode : IpAddr → Bytes}

/-- Where an integer ends can be told from its bytes. -/
theorem putVarint_append_inj (h : putVarint m ++ rest = putVarint n ++ rest') :
    m = n ∧ rest = rest' := by
  have hbytes := (varintBytes_written m rest).1
  rw [h, (varintBytes_written n rest').1] at hbytes
  obtain rfl := putVarint_injective hbytes
  exact ⟨rfl, List.append_cancel_left h⟩

theorem frameBody_inj
    (h : frameBody kind streamId frameId payload = frameBody kind streamId' frameId' payload') :
    streamId = streamId' ∧ frameId = frameId' ∧ payload = payload' := by
  simp only [frameBody, List.append_assoc, List.cons_append, List.cons.injEq, true_and] at h
  obtain ⟨hstream, h⟩ := putVarint_append_inj (List.append_cancel_left h)
  exact ⟨hstream, putVarint_append_inj h⟩

/-- As long as its length fits in 32 bits, a frame can be told from what follows it. -/
theorem putFrame_inj (hbody : (frameBody kind streamId frameId payload).length < 2 ^ 32)
    (hbody' : (frameBody kind streamId' frameId' payload').length < 2 ^ 32)
    (h : putFrame [] kind streamId frameId payload ++ rest =
      putFrame [] kind streamId' frameId' payload' ++ rest') :
    (streamId = streamId' ∧ frameId = frameId' ∧ payload = payload') ∧ rest = rest' := by
  simp only [putFrame, List.nil_append, List.append_assoc] at h
  obtain ⟨hlength, htail⟩ := List.append_inj h rfl
  have hsame := congrArg fromBeBytes hlength
  rw [fromBeBytes_toBeBytes hbody, fromBeBytes_toBeBytes hbody'] at hsame
  obtain ⟨hbytes, hrest⟩ := List.append_inj htail hsame
  exact ⟨frameBody_inj hbytes, hrest⟩

/-- The payload of a NOTIFY is short. -/
theorem notify_length (streamId frameId : UInt64) (h : (encode ip).length ≤ 17) :
    (frameBody FRAME_NOTIFY streamId frameId (messagePrefix ++ encode ip)).length < 2 ^ 32 := by
  have hstream := putVarint_length streamId
  have hframe := putVarint_length frameId
  have hprefix : messagePrefix.length = 20 := by decide
  simp only [frameBody, List.length_append, List.length_cons, length_toBeBytes, hprefix]
  omega

theorem putFrame_ne_nil : putFrame [] kind streamId frameId payload ≠ [] := by
  intro h
  have hlength := congrArg List.length h
  simp [putFrame, length_toBeBytes] at hlength

/-- No two batches are the same bytes: an agent that reads a batch knows whom to answer, and about
which addresses. -/
theorem notifies_inj (hencode : Function.Injective encode)
    (hshort : ∀ ip, (encode ip).length ≤ 17)
    (h : notifies streamId (fun ip => messagePrefix ++ encode ip) frameId ips =
      notifies streamId' (fun ip => messagePrefix ++ encode ip) frameId' ips') :
    ips = ips' ∧ (ips ≠ [] → streamId = streamId' ∧ frameId = frameId') := by
  induction ips generalizing frameId frameId' ips' with
  | nil =>
    cases ips' with
    | nil => exact ⟨rfl, by simp⟩
    | cons ip' ips' =>
      exact absurd (List.append_eq_nil_iff.mp h.symm).1 putFrame_ne_nil
  | cons ip ips ih =>
    cases ips' with
    | nil => exact absurd (List.append_eq_nil_iff.mp h).1 putFrame_ne_nil
    | cons ip' ips' =>
      obtain ⟨⟨hstream, hframe, hpayload⟩, hrest⟩ := putFrame_inj
        (notify_length streamId frameId (hshort ip))
        (notify_length streamId' frameId' (hshort ip')) h
      obtain rfl := hencode (List.append_cancel_left hpayload)
      obtain rfl := (ih hrest).1
      exact ⟨rfl, fun _ => ⟨hstream, hframe⟩⟩

/-- An address as SPOE has it: the type byte and the octets. -/
def octets : IpAddr → Bytes
  | .v4 addr => 0x06 :: toBeBytes addr.toNat
  | .v6 addr => 0x07 :: [96, 64, 32, 0].flatMap fun i => toBeBytes (addr.toNat / 2 ^ i)

theorem toBeBytes_inj {x y : Nat} (h : toBeBytes x = toBeBytes y) : x % 2 ^ 32 = y % 2 ^ 32 := by
  simp only [toBeBytes, List.cons.injEq, ← UInt8.toNat_inj, UInt8.toNat_ofNat', and_true] at h
  obtain ⟨ha, hb, hc, hd⟩ := h
  omega

theorem octets_injective : Function.Injective octets := by
  intro x y h
  cases x with
  | v4 a =>
    cases y with
    | v4 b =>
      have hsame := toBeBytes_inj (List.cons.inj h).2
      rw [Nat.mod_eq_of_lt a.isLt, Nat.mod_eq_of_lt b.isLt] at hsame
      rw [BitVec.eq_of_toNat_eq hsame]
    | v6 b => simp [octets] at h
  | v6 a =>
    cases y with
    | v4 b => simp [octets] at h
    | v6 b =>
      have ha := a.isLt
      have hb := b.isLt
      simp only [octets, List.flatMap_cons, List.flatMap_nil, List.cons.injEq, true_and] at h
      obtain ⟨h₁, h⟩ := List.append_inj h rfl
      obtain ⟨h₂, h⟩ := List.append_inj h rfl
      obtain ⟨h₃, h⟩ := List.append_inj h rfl
      obtain ⟨h₄, -⟩ := List.append_inj h rfl
      have h₁ := toBeBytes_inj h₁
      have h₂ := toBeBytes_inj h₂
      have h₃ := toBeBytes_inj h₃
      have h₄ := toBeBytes_inj h₄
      rw [BitVec.eq_of_toNat_eq (x := a) (y := b) (by omega)]

theorem octets_length (ip : IpAddr) : (octets ip).length ≤ 17 := by
  cases ip <;> simp [octets, length_toBeBytes]

/-- A batch for an IPv4 and an IPv6 address differs from the one with the next frame ids. -/
theorem notifies_inj_octets :
    notifies 1 (fun ip => messagePrefix ++ octets ip) 5 [.v4 0xC0000201, .v6 1] ≠
      notifies 1 (fun ip => messagePrefix ++ octets ip) 6 [.v4 0xC0000201, .v6 1] ∧
    ([IpAddr.v4 0xC0000201, .v6 1] = [.v4 0xC0000201, .v6 1] ∧
      ([IpAddr.v4 0xC0000201, .v6 1] ≠ [] → (1 : UInt64) = 1 ∧ (5 : UInt64) = 5)) :=
  ⟨by decide, notifies_inj octets_injective octets_length rfl⟩

end IpReputation.Client
