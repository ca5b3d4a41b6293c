import TrafficMap.Lib.Int32
import TrafficMap.Web.Landmass

/-!
# Hosts at home

`hashOffset` of `flowStream.ts`: hosts of the home network all lie at the home
coordinate, and each is moved away from it by a hash of its address.  The hash is
kept unsigned, but the shift that the radius is taken from reads it as signed.
The radius and the angle are in exact arithmetic.
-/

namespace TrafficMap.Web

open Real Int32Bits

/-- What `charCodeAt` reads, in UTF-16. -/
def codeUnits (s : String) : List UInt16 :=
  s.toList.flatMap fun c ↦
    if c.toNat < 65536 then [c.toNat.toUInt16]
    else
      let v := c.toNat - 65536
      [(55296 + v / 1024).toUInt16, (56320 + v % 1024).toUInt16]

/-- `h` after the loop of `hashOffset`; no sum in it reaches `2 ^ 53`. -/
def hashOf (ip : List UInt16) : ℕ := ip.foldl (fun h c ↦ toUint32 (h * 31 + c.toNat)) 0

/-- `(h >> 9) % 100`, the remainder with the sign of the shift. -/
def hashShare (ip : List UInt16) : ℤ := (shiftRight (hashOf ip) 9).tmod 100

/-- `r`, in degrees. -/
def radius (ip : List UInt16) : ℚ := 2 / 100 + hashShare ip / 100 * (7 / 100)

noncomputable section

/-- What `hashOffset` reads of the page. -/
structure HomeView where
  landmassReady : Bool
  polys : List Poly
  /-- `HOME_REF`. -/
  home : LngLat ℝ

/-- The angle of the try `k`. -/
def tryAngle (base k : ℕ) : ℝ :=
  jsMod ((base : ℝ) + k * ((275 : ℕ) / (2 : ℕ))) (360 : ℕ) * π / (180 : ℕ)

def hashOffset (view : HomeView) (ip : List UInt16) : LngLat ℝ :=
  let h := hashOf ip
  let r : ℝ := radius ip
  let base := h % 360
  let tries := if view.landmassReady then (List.range 24).map (tryAngle base) else []
  let ashore := tries.find? fun ang ↦
    onLand view.polys (view.home.1 + cos ang * r, view.home.2 + sin ang * r)
  let ang := ashore.getD (base * π / (180 : ℕ))
  (cos ang * r, sin ang * r)

/-- An end of a flow at home, as `toLive` draws it. -/
def homePoint (view : HomeView) (ip : List UInt16) : LngLat ℝ :=
  (view.home.1 + (hashOffset view ip).1, view.home.2 + (hashOffset view ip).2)

/-- How far from home the host is drawn, in degrees. -/
def distanceHome (view : HomeView) (ip : List UInt16) : ℝ :=
  hypot ((homePoint view ip).1 - view.home.1) ((homePoint view ip).2 - view.home.2)

end

/-! ## The hash as a number -/

/-- The address as digits of the base 31, the last of them lowest. -/
def polynomial (ip : List UInt16) : ℕ := Nat.ofDigits 31 (ip.map UInt16.toNat).reverse

section Hash

variable (ip : List UInt16)

theorem hashOf_eq : hashOf ip = polynomial ip % 2 ^ 32 := by
  rw [polynomial, ← foldl_mod, List.foldl_map]
  rfl

theorem hashOf_lt : hashOf ip < 2 ^ 32 := by
  rw [hashOf_eq]
  exact toUint32_lt _

/-- Above the sign bit the shift is negative, and so is every remainder but zero. -/
theorem hashShare_nonneg_iff :
    0 ≤ hashShare ip ↔ hashOf ip < 2 ^ 31 ∨ hashOf ip / 2 ^ 9 % 100 = 8 := by
  have hlt := hashOf_lt ip
  rw [hashShare]
  generalize hashOf ip = h at hlt
  rcases Nat.lt_or_ge h (2 ^ 31) with hsmall | hlarge
  · rw [shiftRight_of_lt hsmall]
    exact iff_of_true (Int.tmod_nonneg _ (Int.natCast_nonneg _)) (Or.inl hsmall)
  · rw [shiftRight_of_le hlarge hlt, Int.tmod_eq_emod]
    have hquotient : ((h : ℤ) - 2 ^ 32) / (2 ^ 9 : ℕ) = (h / 2 ^ 9 : ℕ) - 2 ^ 23 := by omega
    rw [hquotient]
    split
    · omega
    · omega

theorem hashShare_lt : hashShare ip < 100 := Int.tmod_lt_of_pos _ (by norm_num)

theorem neg_lt_hashShare : -100 < hashShare ip := Int.lt_tmod_of_pos _ (by norm_num)

end Hash

/-! ## The ring -/

section Ring

theorem hypot_polar (ang r : ℝ) : hypot (cos ang * r) (sin ang * r) = |r| := by
  rw [hypot, mul_pow, mul_pow, ← add_mul, cos_sq_add_sin_sq, one_mul, sqrt_sq_eq_abs]

variable (ip : List UInt16)

theorem radius_lt : radius ip < 9 / 100 := by
  have hshare : (hashShare ip : ℚ) < 100 := by exact_mod_cast hashShare_lt ip
  rw [radius]
  linarith

theorem le_radius_iff : 2 / 100 ≤ radius ip ↔ 0 ≤ hashShare ip := by
  have hcast : 0 ≤ (hashShare ip : ℚ) ↔ 0 ≤ hashShare ip := Int.cast_nonneg_iff
  rw [radius, ← hcast]
  constructor
  · intro h
    linarith
  · intro h
    linarith

/-- Whichever angle is taken. -/
theorem distanceHome_eq (view : HomeView) : distanceHome view ip = |(radius ip : ℝ)| := by
  rw [distanceHome, homePoint, add_sub_cancel_left, add_sub_cancel_left]
  exact hypot_polar _ _

/-- In steps of 0.0007 degrees the radius passes zero by. -/
theorem le_abs_radius : 3 / 10000 ≤ |radius ip| := by
  have hradius : radius ip = ((200 + 7 * hashShare ip : ℤ) : ℚ) / 10000 := by
    rw [radius]
    push_cast
    ring
  have hne : 3 ≤ |200 + 7 * hashShare ip| := by
    rw [le_abs]
    omega
  have hcast : (3 : ℚ) ≤ |((200 + 7 * hashShare ip : ℤ) : ℚ)| := by exact_mod_cast hne
  rw [hradius, abs_div, abs_of_pos (show (0 : ℚ) < 10000 by norm_num)]
  gcongr

/-- No host is drawn at home itself, and none beyond the ring. -/
theorem distanceHome_bounds (view : HomeView) :
    3 / 10000 ≤ distanceHome view ip ∧ distanceHome view ip < 9 / 100 := by
  have hlow : ((3 / 10000 : ℚ) : ℝ) ≤ |(radius ip : ℝ)| := by exact_mod_cast le_abs_radius ip
  have hhigh : |(radius ip : ℝ)| < ((9 / 100 : ℚ) : ℝ) := by
    have hshare : (-100 : ℚ) < hashShare ip := by exact_mod_cast neg_lt_hashShare ip
    have hneg : -(9 / 100) < radius ip := by
      rw [radius]
      linarith
    exact_mod_cast abs_lt.mpr ⟨hneg, radius_lt ip⟩
  rw [distanceHome_eq]
  push_cast at hlow hhigh
  exact ⟨hlow, hhigh⟩

/-- The radius is within the ring, and the host is drawn at no smaller distance. -/
structure InRing (ip : List UInt16) : Prop where
  le_radius : 2 / 100 ≤ radius ip
  radius_lt : radius ip < 9 / 100
  far : ∀ view, 2 / 100 ≤ distanceHome view ip

/-- A host is in the ring exactly if the shift of its hash is not negative, or
divides by 100: then the bits above the ninth leave the remainder of `2 ^ 23`. -/
theorem inRing_iff : InRing ip ↔
    polynomial ip % 2 ^ 32 < 2 ^ 31 ∨ polynomial ip % 2 ^ 32 / 2 ^ 9 % 100 = 8 := by
  rw [← hashOf_eq, ← hashShare_nonneg_iff, ← le_radius_iff]
  constructor
  · exact InRing.le_radius
  · intro h
    refine ⟨h, radius_lt ip, ?_⟩
    intro view
    have hle : ((2 / 100 : ℚ) : ℝ) ≤ (radius ip : ℝ) := Rat.cast_le.mpr h
    push_cast at hle
    rw [distanceHome_eq]
    exact hle.trans (le_abs_self _)

/-- An address of a home network with the smallest distance that there is, on
the other side of home. -/
theorem inside_ring : radius (codeUnits "192.168.26.80") = -(3 / 10000) ∧
    (∀ view, distanceHome view (codeUnits "192.168.26.80") = 3 / 10000) ∧
    ¬ InRing (codeUnits "192.168.26.80") := by
  have hradius : radius (codeUnits "192.168.26.80") = -(3 / 10000) := by decide +kernel
  refine ⟨hradius, ?_, ?_⟩
  · intro view
    rw [distanceHome_eq, hradius]
    norm_num
  · intro hring
    have hle := hring.le_radius
    rw [hradius] at hle
    norm_num at hle

end Ring

end TrafficMap.Web
