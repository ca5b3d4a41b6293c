import TrafficMap.Lib.BigEndian

/-!
# Network addresses

`std::net::IpAddr` by the numeric value of its octets in network byte order.
-/

namespace TrafficMap

open Wire

structure Ipv4Addr where
  toBits : UInt32
deriving DecidableEq, Repr

structure Ipv6Addr where
  toBits : BitVec 128
deriving DecidableEq, Repr

inductive IpAddr where
  | v4 (a : Ipv4Addr)
  | v6 (a : Ipv6Addr)
deriving DecidableEq, Repr

namespace Ipv4Addr

def ofOctets (b : Bytes) : Ipv4Addr := ⟨u32FromBe b⟩

def octets (a : Ipv4Addr) : Bytes := u32ToBe a.toBits

@[simp] theorem length_octets (a : Ipv4Addr) : a.octets.length = 4 := length_u32ToBe _

@[simp] theorem ofOctets_octets (a : Ipv4Addr) : ofOctets a.octets = a := by
  simp [ofOctets, octets]

end Ipv4Addr

namespace Ipv6Addr

def ofOctets (b : Bytes) : Ipv6Addr := ⟨BitVec.ofNat 128 (ofBe b)⟩

def octets (a : Ipv6Addr) : Bytes := toBe 16 a.toBits.toNat

@[simp] theorem length_octets (a : Ipv6Addr) : a.octets.length = 16 := length_toBe _ _

@[simp] theorem ofOctets_octets (a : Ipv6Addr) : ofOctets a.octets = a := by
  have hlt : a.toBits.toNat < 256 ^ 16 := by simpa using a.toBits.isLt
  simp [ofOctets, octets, ofBe_toBe_of_lt hlt]

end Ipv6Addr

end TrafficMap
