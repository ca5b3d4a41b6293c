import TrafficMap.Geo
import Mathlib.Tactic.NormNum

/-!
# Local addresses as ranges

The octet tests of `is_local`, restated on the numeric value of the address:
each of them asks for the leading bits of some network.
-/

namespace TrafficMap.Geo

open Wire

/-! ## IPv4 -/

section V4

variable (a : Ipv4Addr)

theorem octets_v4 : a.octets =
    [UInt8.ofNat (a.toBits.toNat / 2 ^ 24), UInt8.ofNat (a.toBits.toNat / 2 ^ 16),
      UInt8.ofNat (a.toBits.toNat / 2 ^ 8), UInt8.ofNat (a.toBits.toNat / 1)] := rfl

theorem firstOctet_iff (o : UInt8) : a.octets.headD 0 = o ↔ a.toBits.toNat / 2 ^ 24 = o.toNat := by
  have hlt := a.toBits.toNat_lt
  rw [octets_v4, List.headD_cons, ← UInt8.toNat_inj, UInt8.toNat_ofNat']
  omega

theorem isPrivate_iff : isPrivate a = true ↔ a.toBits.toNat / 2 ^ 24 = 10 ∨
    a.toBits.toNat / 2 ^ 20 = 2753 ∨ a.toBits.toNat / 2 ^ 16 = 49320 := by
  have hlt := a.toBits.toNat_lt
  simp only [isPrivate, octets_v4, Bool.or_eq_true, Bool.and_eq_true, decide_eq_true_eq, beq_iff_eq,
    UInt8.le_iff_toNat_le, ← UInt8.toNat_inj, UInt8.toNat_ofNat', UInt8.toNat_ofNat, Nat.reducePow,
    Nat.reduceMod]
  omega

theorem isLinkLocal_iff : isLinkLocal a = true ↔ a.toBits.toNat / 2 ^ 16 = 43518 := by
  have hlt := a.toBits.toNat_lt
  simp only [isLinkLocal, octets_v4, List.take_succ_cons, List.take_zero, beq_iff_eq,
    List.cons.injEq, and_true, ← UInt8.toNat_inj, UInt8.toNat_ofNat', UInt8.toNat_ofNat,
    Nat.reducePow, Nat.reduceMod]
  omega

theorem isMulticastV4_iff : isMulticastV4 a = true ↔ a.toBits.toNat / 2 ^ 28 = 14 := by
  have hlt := a.toBits.toNat_lt
  simp only [isMulticastV4, octets_v4, List.headD_cons, Bool.and_eq_true, decide_eq_true_eq,
    UInt8.le_iff_toNat_le, UInt8.toNat_ofNat', UInt8.toNat_ofNat, Nat.reducePow, Nat.reduceMod]
  omega

theorem isCgnatV4_iff : isCgnatV4 a = true ↔ a.toBits.toNat / 2 ^ 22 = 401 := by
  have hlt := a.toBits.toNat_lt
  simp only [isCgnatV4, octets_v4, Bool.and_eq_true, decide_eq_true_eq, beq_iff_eq,
    UInt8.le_iff_toNat_le, ← UInt8.toNat_inj, UInt8.toNat_ofNat', UInt8.toNat_ofNat, Nat.reducePow,
    Nat.reduceMod]
  omega

theorem isBroadcast_iff : a.octets = [255, 255, 255, 255] ↔ a.toBits.toNat = 2 ^ 32 - 1 := by
  have hlt := a.toBits.toNat_lt
  simp only [octets_v4, List.cons.injEq, and_true, ← UInt8.toNat_inj, UInt8.toNat_ofNat',
    UInt8.toNat_ofNat, Nat.reducePow, Nat.reduceMod]
  omega

theorem isUnspecified_iff : a.octets = [0, 0, 0, 0] ↔ a.toBits.toNat = 0 := by
  have hlt := a.toBits.toNat_lt
  simp only [octets_v4, List.cons.injEq, and_true, ← UInt8.toNat_inj, UInt8.toNat_ofNat',
    UInt8.toNat_ofNat, Nat.reducePow, Nat.reduceMod]
  omega

/-- The networks of `is_local`, the whole of 0/8 among them. -/
def LocalV4 (n : ℕ) : Prop :=
  n / 2 ^ 24 = 10 ∨ n / 2 ^ 20 = 2753 ∨ n / 2 ^ 16 = 49320 ∨ n / 2 ^ 24 = 127 ∨
    n / 2 ^ 16 = 43518 ∨ n / 2 ^ 22 = 401 ∨ n / 2 ^ 28 = 14 ∨ n = 2 ^ 32 - 1 ∨ n / 2 ^ 24 = 0

theorem isLocalV4_iff : isLocalV4 a = true ↔ LocalV4 a.toBits.toNat := by
  have hzero : a.toBits.toNat = 0 → a.toBits.toNat / 2 ^ 24 = 0 := by omega
  simp only [isLocalV4, Bool.or_eq_true, beq_iff_eq, isPrivate_iff, firstOctet_iff, isLinkLocal_iff,
    isBroadcast_iff, isUnspecified_iff, isMulticastV4_iff, isCgnatV4_iff, LocalV4]
  tauto

end V4

/-! ## IPv6 -/

theorem and_highBits {x w k : ℕ} (hx : x < 2 ^ w) (hk : k ≤ w) :
    x &&& ((2 ^ (w - k) - 1) <<< k) = x / 2 ^ k * 2 ^ k := by
  apply Nat.eq_of_testBit_eq
  intro i
  rw [Nat.testBit_and, Nat.testBit_shiftLeft, Nat.testBit_two_pow_sub_one, Nat.testBit_mul_two_pow,
    Nat.testBit_div_two_pow]
  by_cases hik : k ≤ i
  · by_cases hiw : i < w
    · simp [hik, show i - k < w - k by omega, Nat.sub_add_cancel hik]
    · have hbit : x.testBit i = false :=
        Nat.testBit_lt_two_pow (hx.trans_le (Nat.pow_le_pow_right (by omega) (by omega)))
      simp [hik, hbit, Nat.sub_add_cancel hik]
  · simp [hik]

section V6

variable (a : Ipv6Addr)

theorem firstByte_v6 : (a.octets.headD 0).toNat = a.toBits.toNat / 2 ^ 120 := by
  have hlt : a.toBits.toNat < 2 ^ 128 := a.toBits.isLt
  change (UInt8.ofNat (a.toBits.toNat / 256 ^ 15)).toNat = _
  have hpow : 256 ^ 15 = 2 ^ 120 := by norm_num
  rw [UInt8.toNat_ofNat', hpow]
  omega

theorem firstSegment_v6 : a.segments.headD 0 = a.toBits.toNat / 2 ^ 112 := by
  have hlt : a.toBits.toNat < 2 ^ 128 := a.toBits.isLt
  change ofBe [UInt8.ofNat (a.toBits.toNat / 256 ^ 15), UInt8.ofNat (a.toBits.toNat / 256 ^ 14)] = _
  have hhigh : 256 ^ 15 = 2 ^ 120 := by norm_num
  have hlow : 256 ^ 14 = 2 ^ 112 := by norm_num
  simp only [ofBe, List.length_cons, List.length_nil, UInt8.toNat_ofNat', hhigh, hlow]
  omega

theorem isUlaV6_iff : isUlaV6 a = true ↔ a.toBits.toNat / 2 ^ 121 = 126 := by
  have hmask : (a.octets.headD 0).toNat &&& 254 = a.toBits.toNat / 2 ^ 120 / 2 ^ 1 * 2 ^ 1 := by
    rw [← firstByte_v6]
    exact and_highBits (w := 8) (k := 1) (a.octets.headD 0).toNat_lt (by omega)
  rw [isUlaV6, beq_iff_eq, ← UInt8.toNat_inj, UInt8.toNat_and]
  change (a.octets.headD 0).toNat &&& 254 = 252 ↔ _
  rw [hmask]
  omega

theorem isLinkLocalV6_iff : isLinkLocalV6 a = true ↔ a.toBits.toNat / 2 ^ 118 = 1018 := by
  have hlt : a.segments.headD 0 < 2 ^ 16 := by
    have := a.toBits.isLt
    rw [firstSegment_v6]
    omega
  have hmask : a.segments.headD 0 &&& 65472 = a.toBits.toNat / 2 ^ 112 / 2 ^ 6 * 2 ^ 6 := by
    rw [← firstSegment_v6]
    exact and_highBits (w := 16) (k := 6) hlt (by omega)
  rw [isLinkLocalV6, beq_iff_eq, ← UInt16.toNat_inj, UInt16.toNat_and, UInt16.toNat_ofNat',
    Nat.mod_eq_of_lt hlt]
  change a.segments.headD 0 &&& 65472 = 65152 ↔ _
  rw [hmask]
  omega

def LocalV6 (n : ℕ) : Prop :=
  n / 2 ^ 121 = 126 ∨ n / 2 ^ 118 = 1018 ∨ n / 2 ^ 120 = 255 ∨ n = 1 ∨ n = 0

theorem isLocalV6_iff : isLocalV6 a = true ↔ LocalV6 a.toBits.toNat := by
  have hone : a.toBits = 1 ↔ a.toBits.toNat = 1 := by
    rw [← BitVec.toNat_inj]
    rfl
  have hzero : a.toBits = 0 ↔ a.toBits.toNat = 0 := by
    rw [← BitVec.toNat_inj]
    rfl
  have hmulticast : a.octets.headD 0 = 0xff ↔ a.toBits.toNat / 2 ^ 120 = 255 := by
    rw [← UInt8.toNat_inj, firstByte_v6]
    rfl
  simp only [isLocalV6, Bool.or_eq_true, beq_iff_eq, hone, hzero, hmulticast, isUlaV6_iff,
    isLinkLocalV6_iff, LocalV6]
  tauto

end V6

end TrafficMap.Geo
