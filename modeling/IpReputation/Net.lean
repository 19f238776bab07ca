import Mathlib.Logic.Basic

/-! IPv4 and IPv6 addresses and IPv4 networks in CIDR notation. -/
namespace IpReputation

abbrev Ipv4Addr := BitVec 32

abbrev Ipv6Addr := BitVec 128

inductive IpAddr
  | v4 (addr : Ipv4Addr)
  | v6 (addr : Ipv6Addr)
  deriving DecidableEq

/-- `ipnet::Ipv4Net`: `addr` may have host bits set, as in `10.1.2.3/8`. -/
structure Ipv4Net where
  addr : Ipv4Addr
  prefixLen : Nat
  prefixLen_le : prefixLen ≤ 32
  deriving DecidableEq

/-- `Ipv4Net::from(Ipv4Addr)`. -/
def Ipv4Net.ofAddr (addr : Ipv4Addr) : Ipv4Net := ⟨addr, 32, Nat.le_refl 32⟩

/-- The address shares the network's first `prefixLen` bits. -/
def Ipv4Net.contains (network : Ipv4Net) (a : Ipv4Addr) : Bool :=
  a >>> (32 - network.prefixLen) == network.addr >>> (32 - network.prefixLen)

example : (⟨0x0A010203#32, 8, by decide⟩ : Ipv4Net).contains 0x0AFFFFFF#32 = true := by decide

end IpReputation
