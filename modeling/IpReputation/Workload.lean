import IpReputation.DropSets
import IpReputation.IpText
import IpReputation.Library.WordMixing

/-! `workload.rs`: the addresses the load generator asks about. -/
namespace IpReputation

/-- `SplitMix64(u64)`. -/
structure SplitMix64 where
  state : BitVec 64
  deriving DecidableEq

namespace SplitMix64

def golden : BitVec 64 := 0x9E3779B97F4A7C15#64

def new (seed : BitVec 64) : SplitMix64 := ⟨seed ^^^ golden⟩

/-- What `next_u64` returns for its new state. -/
def mix (z : BitVec 64) : BitVec 64 :=
  let z := (z ^^^ (z >>> 30)) * 0xBF58476D1CE4E5B9#64
  let z := (z ^^^ (z >>> 27)) * 0x94D049BB133111EB#64
  z ^^^ (z >>> 31)

def nextU64 (rng : SplitMix64) : BitVec 64 × SplitMix64 :=
  let state := rng.state + golden
  (mix state, ⟨state⟩)

/-- Value in `0..bound`; the code calls it with positive bounds only. -/
def below (bound : Nat) (rng : SplitMix64) : Nat × SplitMix64 :=
  (rng.nextU64.1.toNat % bound, rng.nextU64.2)

/-- The generator after `k` calls. -/
def skip (k : Nat) (rng : SplitMix64) : SplitMix64 := (fun rng => rng.nextU64.2)^[k] rng

end SplitMix64

def randomIpv4 (rng : SplitMix64) : Ipv4Addr × SplitMix64 :=
  (rng.nextU64.1.setWidth 32, rng.nextU64.2)

/-- The first word drawn is the upper half. -/
def randomIpv6 (rng : SplitMix64) : Ipv6Addr × SplitMix64 :=
  (rng.nextU64.1 ++ rng.nextU64.2.nextU64.1, rng.nextU64.2.nextU64.2)

def randomIp (rng : SplitMix64) : IpAddr × SplitMix64 :=
  if rng.nextU64.1 &&& 1#64 = 1#64 then
    ((randomIpv6 rng.nextU64.2).map .v6 id)
  else ((randomIpv4 rng.nextU64.2).map .v4 id)

inductive Workload
  | random
  | fixed (ips : List IpAddr)
  deriving DecidableEq

namespace Workload

/-- Addresses of `BENCH_IPS`; `error` is the panic about the first item that is none. -/
def parseItems : List String → Except String (List IpAddr)
  | [] => .ok []
  | item :: rest =>
    match parseIpAddr item with
    | none => .error item
    | some ip => (parseItems rest).map (ip :: ·)

/-- `from_env`, with the value of `BENCH_IPS`; one that is not Unicode counts as absent. -/
def fromEnv (given : Option String) : Except String Workload :=
  match given with
  | none => .ok .random
  | some list =>
    if trim list = "" then .ok .random
    else (parseItems (commaItems list)).map .fixed

/-- Address for request number `sequence` of a worker; a list without addresses panics. -/
def nextIp (workload : Workload) (rng : SplitMix64) (sequence : Nat) :
    Option (IpAddr × SplitMix64) :=
  match workload with
  | random => some (randomIp rng)
  | fixed ips => ips[sequence % ips.length]?.map (·, rng)

end Workload

variable {rng : SplitMix64} {ips : List IpAddr} {k sequence : Nat} {given : Option String}

namespace SplitMix64

theorem mix_injective : Function.Injective mix := by
  have hfirst : Function.Injective (· * 0xBF58476D1CE4E5B9#64) :=
    WordMixing.mul_injective (by decide : _ * 0x96DE1B173F119089#64 = 1#64)
  have hsecond : Function.Injective (· * 0x94D049BB133111EB#64) :=
    WordMixing.mul_injective (by decide : _ * 0x319642B2D24D8EC3#64 = 1#64)
  have h30 : Function.Injective (WordMixing.xorShift 30 : BitVec 64 → _) :=
    WordMixing.xorShift_injective (by decide)
  have h27 : Function.Injective (WordMixing.xorShift 27 : BitVec 64 → _) :=
    WordMixing.xorShift_injective (by decide)
  have h31 : Function.Injective (WordMixing.xorShift 31 : BitVec 64 → _) :=
    WordMixing.xorShift_injective (by decide)
  exact h31.comp (hsecond.comp (h27.comp (hfirst.comp h30)))

theorem skip_succ (k : Nat) (rng : SplitMix64) : skip (k + 1) rng = skip k rng.nextU64.2 :=
  Function.iterate_succ_apply ..

theorem skip_state (k : Nat) (rng : SplitMix64) :
    (skip k rng).state = rng.state + BitVec.ofNat 64 k * golden := by
  induction k generalizing rng with
  | zero => simp [skip]
  | succ k ih =>
    have hsucc : BitVec.ofNat 64 (k + 1) = BitVec.ofNat 64 k + 1#64 := by
      rw [BitVec.ofNat_add]
    rw [skip_succ, ih, hsucc, BitVec.add_mul, BitVec.one_mul,
      BitVec.add_comm (BitVec.ofNat 64 k * _)]
    exact BitVec.add_assoc ..

theorem golden_invertible : golden * 0xF1DE83E19937733D#64 = 1#64 := by decide

/-- The word of call `k`, counted from zero. -/
theorem nextU64_skip (k : Nat) (rng : SplitMix64) : (skip k rng).nextU64.1 =
    mix (rng.state + golden + BitVec.ofNat 64 k * golden) := by
  rw [nextU64, skip_state, BitVec.add_assoc, BitVec.add_comm (_ * _), ← BitVec.add_assoc]

/-- From any state, 2⁶⁴ calls of `next_u64` return every word, each of them once. -/
theorem nextU64_period (rng : SplitMix64) (z : BitVec 64) :
    ∃! k, k < 2 ^ 64 ∧ (skip k rng).nextU64.1 = z := by
  simp only [nextU64_skip]
  exact WordMixing.existsUnique_visit mix_injective golden_invertible _ z

end SplitMix64

end IpReputation
