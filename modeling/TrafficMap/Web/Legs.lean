import TrafficMap.Web.Winding

/-!
# Along a leg

The points of a great circle as points of the unit sphere, by their products with its
ends: none but the start can lie opposite to where the leg ends.
-/

namespace TrafficMap.Web

open Real

/-! ## The unit sphere -/

namespace XYZ

def dot (a b : XYZ) : ℝ := a.x * b.x + a.y * b.y + a.z * b.z

def OnSphere (v : XYZ) : Prop := v.dot v = 1

variable {a b c : XYZ}

theorem OnSphere.abs_dot_le (ha : a.OnSphere) (hb : b.OnSphere) : |a.dot b| ≤ 1 := by
  rw [OnSphere, dot] at ha hb
  rw [abs_le, dot]
  constructor
  · nlinarith [sq_nonneg (a.x + b.x), sq_nonneg (a.y + b.y), sq_nonneg (a.z + b.z)]
  · nlinarith [sq_nonneg (a.x - b.x), sq_nonneg (a.y - b.y), sq_nonneg (a.z - b.z)]

/-- Points with the product -1 are negatives of each other. -/
theorem OnSphere.dot_eq_neg (ha : a.OnSphere) (hb : b.OnSphere) (h : a.dot b ≤ -1) (c : XYZ) :
    b.dot c = -a.dot c := by
  rw [OnSphere, dot] at ha hb
  rw [dot] at h
  have hx := sq_nonneg (a.x + b.x)
  have hy := sq_nonneg (a.y + b.y)
  have hz := sq_nonneg (a.z + b.z)
  have hzero : a.x + b.x = 0 ∧ a.y + b.y = 0 ∧ a.z + b.z = 0 := by
    refine ⟨?_, ?_, ?_⟩ <;> refine pow_eq_zero_iff two_ne_zero |>.mp ?_ <;> nlinarith
  obtain ⟨hx, hy, hz⟩ := hzero
  rw [dot, dot]
  linear_combination c.x * hx + c.y * hy + c.z * hz

end XYZ

theorem onSphere_toXYZ (p : LngLat ℝ) : (toXYZ p).OnSphere := by
  rw [XYZ.OnSphere, XYZ.dot, toXYZ]
  linear_combination cos (p.2 * D2R) ^ 2 * cos_sq_add_sin_sq (p.1 * D2R) +
    cos_sq_add_sin_sq (p.2 * D2R)

theorem R2D_mul_D2R (x : ℝ) : x * R2D * D2R = x := by
  rw [mul_assoc, mul_comm R2D, D2R_mul_R2D, mul_one]

/-- The way to the map and back, the poles among the points. -/
theorem toXYZ_toLngLat {v : XYZ} (h : v.OnSphere) : toXYZ (toLngLat v) = v := by
  rw [XYZ.OnSphere, XYZ.dot] at h
  have hsq : 0 ≤ v.x ^ 2 + v.y ^ 2 := by positivity
  have hhyp : hypot v.x v.y ^ 2 = v.x ^ 2 + v.y ^ 2 := sq_sqrt hsq
  have hnorm : ‖(⟨hypot v.x v.y, v.z⟩ : ℂ)‖ = 1 := by
    rw [Complex.norm_eq_sqrt_sq_add_sq, hhyp]
    have hone : v.x ^ 2 + v.y ^ 2 + v.z ^ 2 = 1 := by linarith
    rw [hone, sqrt_one]
  have hne : (⟨hypot v.x v.y, v.z⟩ : ℂ) ≠ 0 := by
    rw [← norm_ne_zero_iff, hnorm]
    exact one_ne_zero
  have hcoslat : cos (atan2 v.z (hypot v.x v.y)) = hypot v.x v.y := by
    rw [atan2, Complex.cos_arg hne, hnorm, div_one]
  have hsinlat : sin (atan2 v.z (hypot v.x v.y)) = v.z := by
    rw [atan2, Complex.sin_arg, hnorm, div_one]
  have hxy : ‖(⟨v.x, v.y⟩ : ℂ)‖ = hypot v.x v.y := Complex.norm_eq_sqrt_sq_add_sq _
  have hcoslon : hypot v.x v.y * cos (atan2 v.y v.x) = v.x := by
    rw [atan2, ← hxy]
    exact Complex.norm_mul_cos_arg _
  have hsinlon : hypot v.x v.y * sin (atan2 v.y v.x) = v.y := by
    rw [atan2, ← hxy]
    exact Complex.norm_mul_sin_arg _
  rw [toXYZ, toLngLat, R2D_mul_D2R, R2D_mul_D2R, hcoslat, hsinlat, hcoslon, hsinlon]

section Angle

variable {a b : XYZ}

theorem cos_omegaOf (ha : a.OnSphere) (hb : b.OnSphere) : cos (omegaOf a b) = a.dot b := by
  obtain ⟨hlo, hhi⟩ := abs_le.mp (ha.abs_dot_le hb)
  have hclamp : max (-1) (min 1 (a.x * b.x + a.y * b.y + a.z * b.z)) = a.dot b := by
    change max (-1) (min 1 (a.dot b)) = a.dot b
    rw [min_eq_right hhi, max_eq_right hlo]
  rw [omegaOf, hclamp, cos_arccos hlo hhi]

theorem opposite_iff {p q : LngLat ℝ} : Opposite p q ↔ (toXYZ p).dot (toXYZ q) ≤ -1 := by
  rw [Opposite, omegaOf, arccos_eq_pi]
  change max (-1) (min 1 ((toXYZ p).dot (toXYZ q))) ≤ -1 ↔ _
  constructor
  · intro h
    have hmin := (le_max_right _ _).trans h
    rcases min_le_iff.mp hmin with hone | hdot
    · norm_num at hone
    · exact hdot
  · intro h
    exact max_le le_rfl ((min_le_right _ _).trans h)

/-! ## Points of a great circle -/

variable (ha : a.OnSphere) (hb : b.OnSphere) (hsin : sin (omegaOf a b) ≠ 0) (t : ℝ)
include ha hb hsin

theorem dot_slerp_start :
    (slerp a b (omegaOf a b) (sin (omegaOf a b)) t).dot a = cos (t * omegaOf a b) := by
  have hcos := cos_omegaOf ha hb
  set om := omegaOf a b
  have hdot : (slerp a b om (sin om) t).dot a =
      (sin ((1 - t) * om) * a.dot a + sin (t * om) * a.dot b) / sin om := by
    simp only [slerp, XYZ.dot]
    field_simp
    ring
  have hrest : sin ((1 - t) * om) = sin om * cos (t * om) - cos om * sin (t * om) := by
    rw [← sin_sub]
    congr 1
    ring
  rw [hdot, ha, ← hcos, hrest, div_eq_iff hsin]
  ring

theorem dot_slerp_end :
    (slerp a b (omegaOf a b) (sin (omegaOf a b)) t).dot b = cos ((1 - t) * omegaOf a b) := by
  have hcos := cos_omegaOf ha hb
  set om := omegaOf a b
  have hdot : (slerp a b om (sin om) t).dot b =
      (sin ((1 - t) * om) * a.dot b + sin (t * om) * b.dot b) / sin om := by
    simp only [slerp, XYZ.dot]
    field_simp
    ring
  have hrest : sin (t * om) = sin om * cos ((1 - t) * om) - cos om * sin ((1 - t) * om) := by
    rw [← sin_sub]
    congr 1
    ring
  rw [hdot, hb, ← hcos, hrest, div_eq_iff hsin]
  ring

theorem onSphere_slerp : (slerp a b (omegaOf a b) (sin (omegaOf a b)) t).OnSphere := by
  have hstart := dot_slerp_start ha hb hsin t
  have hend := dot_slerp_end ha hb hsin t
  set om := omegaOf a b
  have hdot : ∀ v : XYZ, v.dot (slerp a b om (sin om) t) =
      (v.dot a * sin ((1 - t) * om) + v.dot b * sin (t * om)) / sin om := by
    intro v
    simp only [slerp, XYZ.dot]
    field_simp
    ring
  rw [XYZ.OnSphere, hdot, hstart, hend, div_eq_one_iff_eq hsin]
  have hsum : sin om = sin ((1 - t) * om + t * om) := by
    congr 1
    ring
  rw [hsum, sin_add]
  ring

end Angle

/-! ## Points of a leg -/

section Leg

variable {a b : LngLat ℝ} {t : ℝ}

/-- The point at the share `t` of the way. -/
noncomputable def arcPoint (a b : LngLat ℝ) (t : ℝ) : LngLat ℝ :=
  toLngLat (slerp (toXYZ a) (toXYZ b) (omegaOf (toXYZ a) (toXYZ b))
    (sin (omegaOf (toXYZ a) (toXYZ b))) t)

section Arc

variable (hnear : ¬ Near a b) (hopp : ¬ Opposite a b)
include hnear hopp

theorem toXYZ_arcPoint (t : ℝ) : toXYZ (arcPoint a b t) =
    slerp (toXYZ a) (toXYZ b) (omegaOf (toXYZ a) (toXYZ b))
      (sin (omegaOf (toXYZ a) (toXYZ b))) t :=
  toXYZ_toLngLat (onSphere_slerp (onSphere_toXYZ a) (onSphere_toXYZ b)
    (sin_omegaOf_ne_zero hnear hopp) t)

/-- No point but the start can lie opposite to the end. -/
theorem not_opposite_arcPoint (hpos : 0 < t) (hle : t ≤ 1) : ¬ Opposite (arcPoint a b t) b := by
  have hnonneg : 0 ≤ omegaOf (toXYZ a) (toXYZ b) := arccos_nonneg _
  have hlt : omegaOf (toXYZ a) (toXYZ b) < π := (arccos_le_pi _).lt_of_ne hopp
  have hcos : cos π < cos ((1 - t) * omegaOf (toXYZ a) (toXYZ b)) := by
    apply cos_lt_cos_of_nonneg_of_le_pi
    · exact mul_nonneg (by linarith) hnonneg
    · exact le_rfl
    · nlinarith
  rw [opposite_iff, toXYZ_arcPoint hnear hopp, dot_slerp_end (onSphere_toXYZ a) (onSphere_toXYZ b)
    (sin_omegaOf_ne_zero hnear hopp), not_le, ← cos_pi]
  exact hcos

/-- The first half of the way is within a quarter turn of the start. -/
theorem dot_arcPoint_nonneg (hpos : 0 ≤ t) (hle : t ≤ 1 / 2) :
    0 ≤ (toXYZ (arcPoint a b t)).dot (toXYZ a) := by
  have hnonneg : 0 ≤ omegaOf (toXYZ a) (toXYZ b) := arccos_nonneg _
  have hturn : omegaOf (toXYZ a) (toXYZ b) ≤ π := arccos_le_pi _
  rw [toXYZ_arcPoint hnear hopp, dot_slerp_start (onSphere_toXYZ a) (onSphere_toXYZ b)
    (sin_omegaOf_ne_zero hnear hopp)]
  apply cos_nonneg_of_neg_pi_div_two_le_of_le
  · have hmul := mul_nonneg hpos hnonneg
    linarith [pi_pos]
  · calc t * omegaOf (toXYZ a) (toXYZ b) ≤ 1 / 2 * π := by gcongr
      _ = π / 2 := by ring

end Arc

theorem legPoint_of_near (hnear : Near a b) (s : ℕ) : legPoint a b s = b := if_pos hnear

theorem legSteps_of_near (hnear : Near a b) : legSteps a b = 1 := if_pos hnear

theorem legPoint_eq_arcPoint (hnear : ¬ Near a b) (s : ℕ) :
    legPoint a b s = arcPoint a b (s / legSteps a b) := if_neg hnear

/-- What comes before the end of a leg, after its start. -/
theorem not_opposite_legPoint (hopp : ¬ Opposite a b) {s : ℕ} (hpos : 0 < s)
    (hle : s ≤ legSteps a b) : ¬ Opposite (legPoint a b s) b := by
  by_cases hnear : Near a b
  · rw [legPoint_of_near hnear, opposite_iff, onSphere_toXYZ b]
    norm_num
  · rw [legPoint_eq_arcPoint hnear]
    have hsteps : (0 : ℝ) < legSteps a b := Nat.cast_pos.mpr (legSteps_pos a b)
    apply not_opposite_arcPoint hnear hopp
    · exact div_pos (Nat.cast_pos.mpr hpos) hsteps
    · rw [div_le_one hsteps]
      exact_mod_cast hle

/-- The first step of several is less than half the way. -/
theorem dot_legPoint_one_nonneg (hopp : ¬ Opposite a b) (hsteps : 2 ≤ legSteps a b) :
    0 ≤ (toXYZ (legPoint a b 1)).dot (toXYZ a) := by
  have hnear : ¬ Near a b := by
    intro h
    rw [legSteps_of_near h] at hsteps
    omega
  have htwo : (2 : ℝ) ≤ legSteps a b := by exact_mod_cast hsteps
  rw [legPoint_eq_arcPoint hnear, Nat.cast_one]
  apply dot_arcPoint_nonneg hnear hopp
  · positivity
  · exact one_div_le_one_div_of_le two_pos htwo

end Leg

/-! ## Places that show the same -/

/-- Within a degree of each other. -/
theorem dot_pos_of_close {p q : LngLat ℝ} (hp : |p.2| < 90) (hq : |q.2| < 90)
    (hlon : |p.1 - q.1| < 1) (hlat : |p.2 - q.2| < 1) : 0 < (toXYZ p).dot (toXYZ q) := by
  have hhalf : ∀ x : ℝ, |x| < 1 → 1 / 2 < cos (x * D2R) := by
    intro x hx
    have habs : |x * D2R| < π / 3 := by
      rw [abs_mul, abs_of_pos D2R_pos, D2R_eq]
      have hpi := pi_pos
      nlinarith
    rw [← cos_pi_div_three, ← cos_abs (x * D2R)]
    exact cos_lt_cos_of_nonneg_of_le_pi (abs_nonneg _) (by linarith [pi_pos]) habs
  have hdot : (toXYZ p).dot (toXYZ q) = cos ((p.2 - q.2) * D2R) -
      cos (p.2 * D2R) * cos (q.2 * D2R) * (1 - cos ((p.1 - q.1) * D2R)) := by
    rw [sub_mul, sub_mul, cos_sub, cos_sub, XYZ.dot, toXYZ, toXYZ]
    ring
  have hcosp := cos_degrees_pos hp
  have hcosq := cos_degrees_pos hq
  have hprod : cos (p.2 * D2R) * cos (q.2 * D2R) ≤ 1 :=
    mul_le_one₀ (cos_le_one _) hcosq.le (cos_le_one _)
  have hshare : cos (p.2 * D2R) * cos (q.2 * D2R) * (1 - cos ((p.1 - q.1) * D2R)) ≤
      1 * (1 - cos ((p.1 - q.1) * D2R)) :=
    mul_le_mul_of_nonneg_right hprod (sub_nonneg.mpr (cos_le_one _))
  have hlonhalf := hhalf _ hlon
  have hlathalf := hhalf _ hlat
  rw [hdot]
  linarith

/-- What is within a quarter turn of a place is not opposite to a place close by. -/
theorem not_opposite_of_dot {p q r : LngLat ℝ} (hclose : 0 < (toXYZ p).dot (toXYZ q))
    (hr : 0 ≤ (toXYZ r).dot (toXYZ q)) : ¬ Opposite p r := by
  intro hopp
  have hneg := (onSphere_toXYZ p).dot_eq_neg (onSphere_toXYZ r) (opposite_iff.mp hopp) (toXYZ q)
  linarith

end TrafficMap.Web
