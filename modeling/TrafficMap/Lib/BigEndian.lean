import Mathlib.Tactic.Positivity
import Mathlib.Tactic.Ring
import Mathlib.Data.Nat.ModEq

/-!
# Big-endian byte strings

Network byte order for naturals of a fixed width, and the four unsigned machine
words read from and written to it.  Writing drops the bits above the width;
reading back what was written is the identity on every machine word.
-/

namespace Wire

abbrev Bytes := List UInt8

/-- The natural number whose big-endian bytes are given. -/
def ofBe : Bytes → ℕ
  | [] => 0
  | b :: bs => b.toNat * 256 ^ bs.length + ofBe bs

/-- The `w` big-endian bytes of `n`; bits above `8 * w` are dropped. -/
def toBe : ℕ → ℕ → Bytes
  | 0, _ => []
  | w + 1, n => UInt8.ofNat (n / 256 ^ w) :: toBe w n

@[simp] theorem length_toBe (w n : ℕ) : (toBe w n).length = w := by
  induction w with
  | zero => rfl
  | succ w ih => simp [toBe, ih]

theorem ofBe_toBe (w n : ℕ) : ofBe (toBe w n) = n % 256 ^ w := by
  induction w with
  | zero => simp [toBe, ofBe, Nat.mod_one]
  | succ w ih =>
      have hbyte : (UInt8.ofNat (n / 256 ^ w)).toNat = n / 256 ^ w % 256 := by simp
      rw [toBe, ofBe, ih, length_toBe, hbyte, Nat.mod_pow_succ]
      ring

theorem ofBe_toBe_of_lt {w n : ℕ} (h : n < 256 ^ w) : ofBe (toBe w n) = n := by
  rw [ofBe_toBe, Nat.mod_eq_of_lt h]

theorem ofBe_lt (bs : Bytes) : ofBe bs < 256 ^ bs.length := by
  induction bs with
  | nil => simp [ofBe]
  | cons b bs ih =>
      have hb : b.toNat + 1 ≤ 256 := b.toNat_lt
      calc
        ofBe (b :: bs) < b.toNat * 256 ^ bs.length + 256 ^ bs.length :=
          Nat.add_lt_add_left ih _
        _ = (b.toNat + 1) * 256 ^ bs.length := by ring
        _ ≤ 256 * 256 ^ bs.length := Nat.mul_le_mul_right _ hb
        _ = 256 ^ (b :: bs).length := by rw [List.length_cons, pow_succ]; ring

theorem toBe_mod (w n : ℕ) : toBe w (n % 256 ^ w) = toBe w n := by
  induction w generalizing n with
  | zero => rfl
  | succ w ih =>
      have hbyte : UInt8.ofNat (n / 256 ^ w % 256) = UInt8.ofNat (n / 256 ^ w) := by
        apply UInt8.toNat_inj.mp
        simp
      rw [toBe, toBe, ← ih (n % 256 ^ (w + 1)), ← ih n,
        Nat.mod_mod_of_dvd _ (pow_dvd_pow 256 (Nat.le_succ w)), pow_succ,
        Nat.mod_mul_right_div_self, hbyte]

theorem toBe_ofBe (bs : Bytes) : toBe bs.length (ofBe bs) = bs := by
  induction bs with
  | nil => rfl
  | cons b bs ih =>
      have hlt := ofBe_lt bs
      have hhead : (b.toNat * 256 ^ bs.length + ofBe bs) / 256 ^ bs.length = b.toNat := by
        rw [Nat.mul_comm, Nat.mul_add_div (by positivity), Nat.div_eq_of_lt hlt, Nat.add_zero]
      have htail : (b.toNat * 256 ^ bs.length + ofBe bs) % 256 ^ bs.length = ofBe bs := by
        rw [Nat.mul_comm, Nat.mul_add_mod, Nat.mod_eq_of_lt hlt]
      rw [List.length_cons, toBe, ofBe, hhead, UInt8.ofNat_toNat, ← toBe_mod, htail, ih]

/-! ## Machine words -/

def u16FromBe (bs : Bytes) : UInt16 := UInt16.ofNat (ofBe bs)

theorem toNat_u16FromBe {bs : Bytes} (h : bs.length ≤ 2) : (u16FromBe bs).toNat = ofBe bs := by
  have hlt : ofBe bs < 256 ^ 2 := (ofBe_lt bs).trans_le (Nat.pow_le_pow_right (by decide) h)
  rw [u16FromBe, UInt16.toNat_ofNat']
  exact Nat.mod_eq_of_lt (by simpa using hlt)

def u32FromBe (bs : Bytes) : UInt32 := UInt32.ofNat (ofBe bs)

def u64FromBe (bs : Bytes) : UInt64 := UInt64.ofNat (ofBe bs)

def u16ToBe (n : UInt16) : Bytes := toBe 2 n.toNat

def u32ToBe (n : UInt32) : Bytes := toBe 4 n.toNat

def u64ToBe (n : UInt64) : Bytes := toBe 8 n.toNat

@[simp] theorem length_u16ToBe (n : UInt16) : (u16ToBe n).length = 2 := length_toBe _ _

@[simp] theorem length_u32ToBe (n : UInt32) : (u32ToBe n).length = 4 := length_toBe _ _

@[simp] theorem length_u64ToBe (n : UInt64) : (u64ToBe n).length = 8 := length_toBe _ _

@[simp] theorem u16FromBe_u16ToBe (n : UInt16) : u16FromBe (u16ToBe n) = n := by
  rw [u16FromBe, u16ToBe, ofBe_toBe_of_lt (by simpa using n.toNat_lt), UInt16.ofNat_toNat]

@[simp] theorem u32FromBe_u32ToBe (n : UInt32) : u32FromBe (u32ToBe n) = n := by
  rw [u32FromBe, u32ToBe, ofBe_toBe_of_lt (by simpa using n.toNat_lt), UInt32.ofNat_toNat]

@[simp] theorem u64FromBe_u64ToBe (n : UInt64) : u64FromBe (u64ToBe n) = n := by
  rw [u64FromBe, u64ToBe, ofBe_toBe_of_lt (by simpa using n.toNat_lt), UInt64.ofNat_toNat]

end Wire
