import TrafficMap.Ingestor.Row
import TrafficMap.LocalRanges

/-!
# The `inet` type

Containment of PostgreSQL's `inet` values.  An address that the ingestor stores
has the whole address as its network part, so it lies within a network exactly
when the leading bits agree.
-/

namespace TrafficMap

open Ingestor

namespace Ingestor.IpNetwork

def v4Net (o₀ o₁ o₂ o₃ len : ℕ) : IpNetwork :=
  ⟨.v4 ⟨UInt32.ofNat (o₀ * 2 ^ 24 + o₁ * 2 ^ 16 + o₂ * 2 ^ 8 + o₃)⟩, len⟩

/-- A network whose bits after the first segment are zero. -/
def v6Net (segment len : ℕ) : IpNetwork := ⟨.v6 ⟨BitVec.ofNat 128 (segment * 2 ^ 112)⟩, len⟩

/-- The operator `<<=`: contained in the network, or equal to it. -/
def within (a net : IpNetwork) : Bool :=
  decide (net.prefixLen ≤ a.prefixLen) &&
    match a.ip, net.ip with
    | .v4 x, .v4 y =>
        x.toBits.toNat / 2 ^ (32 - net.prefixLen) == y.toBits.toNat / 2 ^ (32 - net.prefixLen)
    | .v6 x, .v6 y =>
        x.toBits.toNat / 2 ^ (128 - net.prefixLen) == y.toBits.toNat / 2 ^ (128 - net.prefixLen)
    | _, _ => false

end Ingestor.IpNetwork

open IpNetwork

section Within

theorem within_v4Net (x : Ipv4Addr) {o₀ o₁ o₂ o₃ len : ℕ} (hlen : len ≤ 32) :
    within (toNet (.v4 x)) (v4Net o₀ o₁ o₂ o₃ len) = true ↔
      x.toBits.toNat / 2 ^ (32 - len) =
        (o₀ * 2 ^ 24 + o₁ * 2 ^ 16 + o₂ * 2 ^ 8 + o₃) % 2 ^ 32 / 2 ^ (32 - len) := by
  simp [within, toNet, v4Net, hlen]

theorem within_v6Net (x : Ipv6Addr) {segment len : ℕ} (hlen : len ≤ 128) :
    within (toNet (.v6 x)) (v6Net segment len) = true ↔
      x.toBits.toNat / 2 ^ (128 - len) = segment * 2 ^ 112 % 2 ^ 128 / 2 ^ (128 - len) := by
  simp [within, toNet, v6Net, hlen]

@[simp] theorem within_v4_v6Net (x : Ipv4Addr) (segment len : ℕ) :
    within (toNet (.v4 x)) (v6Net segment len) = false := by
  simp [within, toNet, v6Net]

@[simp] theorem within_v6_v4Net (x : Ipv6Addr) (o₀ o₁ o₂ o₃ len : ℕ) :
    within (toNet (.v6 x)) (v4Net o₀ o₁ o₂ o₃ len) = false := by
  simp [within, toNet, v4Net]

end Within

end TrafficMap
