import TrafficMap.Web.Cables
import Mathlib.Analysis.SpecialFunctions.Complex.Arg
import Mathlib.Analysis.SpecialFunctions.Trigonometric.Inverse

/-!
# Paths on the sphere

`geo.ts` in exact arithmetic: points of the unit sphere, the great circle
between two of them, and lines made of great circles.
-/

namespace TrafficMap.Web

open Real

noncomputable section

def D2R : ℝ := π / (180 : ℕ)
def R2D : ℝ := (180 : ℕ) / π

/-- Coordinates in space. -/
structure XYZ where
  x : ℝ
  y : ℝ
  z : ℝ

def toXYZ (p : LngLat ℝ) : XYZ where
  x := cos (p.2 * D2R) * cos (p.1 * D2R)
  y := cos (p.2 * D2R) * sin (p.1 * D2R)
  z := sin (p.2 * D2R)

/-- `Math.atan2`. -/
def atan2 (y x : ℝ) : ℝ := Complex.arg ⟨x, y⟩

/-- `Math.hypot`. -/
def hypot (x y : ℝ) : ℝ := sqrt (x ^ 2 + y ^ 2)

def toLngLat (v : XYZ) : LngLat ℝ :=
  (atan2 v.y v.x * R2D, atan2 v.z (hypot v.x v.y) * R2D)

/-- The angle between two points, the product kept within the domain of `acos`. -/
def omegaOf (a b : XYZ) : ℝ := arccos (max (-1) (min 1 (a.x * b.x + a.y * b.y + a.z * b.z)))

/-- The point at the share `t` of the way, for the angle `om` with the sine `sinO`. -/
def slerp (a b : XYZ) (om sinO t : ℝ) : XYZ :=
  let s1 := sin ((1 - t) * om) / sinO
  let s2 := sin (t * om) / sinO
  ⟨a.x * s1 + b.x * s2, a.y * s1 + b.y * s2, a.z * s1 + b.z * s2⟩

/-- Points closer than this are one point. -/
def minOmega : ℝ := 1 / (1000000 : ℕ)

/-- The points after `prev`, whose longitude is final. -/
def unwrapFrom : LngLat ℝ → List (LngLat ℝ) → List (LngLat ℝ)
  | _, [] => []
  | prev, p :: ps =>
      let d := p.1 - prev.1
      let p :=
        if (180 : ℕ) < d then (p.1 - (360 : ℕ), p.2)
        else if d < -(180 : ℕ) then (p.1 + (360 : ℕ), p.2)
        else p
      p :: unwrapFrom p ps

/-- No step of more than half a turn. -/
def unwrap : List (LngLat ℝ) → List (LngLat ℝ)
  | [] => []
  | p :: ps => p :: unwrapFrom p ps

def densifyGreatCircle (a b : LngLat ℝ) : List (LngLat ℝ) :=
  let om := omegaOf (toXYZ a) (toXYZ b)
  if om < minOmega then [a, b]
  else unwrap ((List.range 25).map fun i : ℕ ↦
    toLngLat (slerp (toXYZ a) (toXYZ b) om (sin om) (i / (24 : ℕ))))

def haversineKm (a b : LngLat ℝ) : ℝ :=
  let dLat := (b.2 - a.2) * D2R
  let dLon := (b.1 - a.1) * D2R
  let h := sin (dLat / (2 : ℕ)) ^ 2 +
    cos (a.2 * D2R) * cos (b.2 * D2R) * sin (dLon / (2 : ℕ)) ^ 2
  (6371 : ℕ) * (2 : ℕ) * arcsin (min 1 (sqrt h))

/-- `Math.round`. -/
def jsRound (x : ℝ) : ℤ := ⌊x + 1 / (2 : ℕ)⌋

/-- The number of steps of a leg, 250 kilometres each. -/
def legSteps (a b : LngLat ℝ) : ℕ :=
  if omegaOf (toXYZ a) (toXYZ b) < minOmega then 1
  else (max 1 (min 48 (jsRound (haversineKm a b / (250 : ℕ))))).toNat

def legPoint (a b : LngLat ℝ) (s : ℕ) : LngLat ℝ :=
  let om := omegaOf (toXYZ a) (toXYZ b)
  if om < minOmega then b
  else toLngLat (slerp (toXYZ a) (toXYZ b) om (sin om) (s / legSteps a b))

/-- The points of a leg from the step `s₀` on. -/
def legPoints (a b : LngLat ℝ) (s₀ : ℕ) : List (LngLat ℝ) :=
  (List.range' s₀ (legSteps a b + 1 - s₀)).map (legPoint a b)

/-- The legs after the first, whose first points are there already. -/
def laterLegs : LngLat ℝ → List (LngLat ℝ) → List (LngLat ℝ)
  | _, [] => []
  | p, q :: qs => legPoints p q 1 ++ laterLegs q qs

def densifyPath : List (LngLat ℝ) → List (LngLat ℝ)
  | p :: q :: qs => unwrap (legPoints p q 0 ++ laterLegs q qs)
  | pts => pts

/-! ## Distances -/

theorem D2R_eq : D2R = π / 180 := by simp [D2R]

theorem haversineKm_eq (a b : LngLat ℝ) : haversineKm a b = 6371 * 2 * arcsin (min 1 (sqrt
    (sin ((b.2 - a.2) * D2R / 2) ^ 2 +
      cos (a.2 * D2R) * cos (b.2 * D2R) * sin ((b.1 - a.1) * D2R / 2) ^ 2))) := by
  simp [haversineKm]

theorem haversineKm_nonneg (p q : LngLat ℝ) : 0 ≤ haversineKm p q := by
  rw [haversineKm_eq]
  have hmin : (0 : ℝ) ≤ min 1 (sqrt (sin ((q.2 - p.2) * D2R / 2) ^ 2 +
      cos (p.2 * D2R) * cos (q.2 * D2R) * sin ((q.1 - p.1) * D2R / 2) ^ 2)) :=
    le_min zero_le_one (sqrt_nonneg _)
  have harc := arcsin_nonneg.mpr hmin
  positivity

@[simp] theorem haversineKm_self (p : LngLat ℝ) : haversineKm p p = 0 := by
  simp [haversineKm]

theorem D2R_pos : 0 < D2R := div_pos pi_pos (Nat.cast_pos.mpr (by norm_num))

/-- The radians of half the degrees, for less than `c` quarter turns. -/
theorem abs_half_degrees_lt {x c : ℝ} (h : |x| < c * 180) : |x * D2R / 2| < c * (π / 2) := by
  have hturn : c * (π / 2) = c * 180 * D2R / 2 := by
    rw [D2R_eq]
    ring
  rw [abs_div, abs_mul, abs_of_pos D2R_pos, abs_two, hturn]
  have hpos := D2R_pos
  gcongr

theorem cos_degrees_pos {lat : ℝ} (h : |lat| < 90) : 0 < cos (lat * D2R) := by
  have hturn : |2 * lat * D2R / 2| < 1 * (π / 2) := by
    apply abs_half_degrees_lt
    rw [abs_mul, abs_two]
    linarith
  have hlat : 2 * lat * D2R / 2 = lat * D2R := by ring
  rw [hlat, one_mul, abs_lt] at hturn
  exact cos_pos_of_mem_Ioo hturn

/-- A sine that vanishes short of half a turn. -/
theorem eq_zero_of_sin_half {x : ℝ} (hx : |x| < 360) (h : sin (x * D2R / 2) ^ 2 = 0) : x = 0 := by
  have hturn : |x * D2R / 2| < 2 * (π / 2) := by
    apply abs_half_degrees_lt
    linarith
  obtain ⟨hlo, hhi⟩ := abs_lt.mp hturn
  have hsin := pow_eq_zero_iff (two_ne_zero) |>.mp h
  have hzero := (sin_eq_zero_iff_of_lt_of_lt (by linarith) (by linarith)).mp hsin
  have hpos := D2R_pos.ne'
  simpa [hpos] using hzero

/-- Off the poles and with one longitude for each meridian, points at no distance
are the same. -/
theorem eq_of_haversineKm_eq_zero {p q : LngLat ℝ} (hp : |p.2| < 90) (hq : |q.2| < 90)
    (hlon : |q.1 - p.1| < 360) (h : haversineKm p q = 0) : p = q := by
  have hcosp := cos_degrees_pos hp
  have hcosq := cos_degrees_pos hq
  have hlat : |q.2 - p.2| < 360 := by
    have htriangle := abs_sub q.2 p.2
    linarith
  rw [haversineKm_eq, mul_eq_zero_iff_left (by norm_num), arcsin_eq_zero_iff] at h
  have hsqrt : sqrt (sin ((q.2 - p.2) * D2R / 2) ^ 2 +
      cos (p.2 * D2R) * cos (q.2 * D2R) * sin ((q.1 - p.1) * D2R / 2) ^ 2) = 0 := by
    rcases min_choice (1 : ℝ) (sqrt (sin ((q.2 - p.2) * D2R / 2) ^ 2 +
      cos (p.2 * D2R) * cos (q.2 * D2R) * sin ((q.1 - p.1) * D2R / 2) ^ 2)) with hone | hone
    · rw [hone] at h
      exact absurd h one_ne_zero
    · rwa [hone] at h
  have hfirst : 0 ≤ sin ((q.2 - p.2) * D2R / 2) ^ 2 := sq_nonneg _
  have hsecond : 0 ≤ cos (p.2 * D2R) * cos (q.2 * D2R) * sin ((q.1 - p.1) * D2R / 2) ^ 2 := by
    positivity
  rw [sqrt_eq_zero (add_nonneg hfirst hsecond),
    add_eq_zero_iff_of_nonneg hfirst hsecond] at hsqrt
  obtain ⟨hsinlat, hsinlon⟩ := hsqrt
  have hsinlon' : sin ((q.1 - p.1) * D2R / 2) ^ 2 = 0 :=
    (mul_eq_zero_iff_left (mul_pos hcosp hcosq).ne').mp hsinlon
  have heqlat := eq_zero_of_sin_half hlat hsinlat
  have heqlon := eq_zero_of_sin_half hlon hsinlon'
  exact Prod.ext (by linarith) (by linarith)

/-- On the equator, 6371 kilometres for a radian. -/
theorem haversineKm_equator {x y : ℝ} (h : |y - x| ≤ 180) :
    haversineKm (x, 0) (y, 0) = 6371 * (|y - x| * D2R) := by
  have hle : |y - x| * D2R / 2 ≤ π / 2 := by
    have hturn : 180 * D2R / 2 = π / 2 := by
      rw [D2R_eq]
      ring
    rw [← hturn]
    have hpos := D2R_pos
    gcongr
  have hnonneg : 0 ≤ |y - x| * D2R / 2 := by
    have hpos := D2R_pos
    positivity
  have hsq : sin ((y - x) * D2R / 2) ^ 2 = sin (|y - x| * D2R / 2) ^ 2 := by
    rcases abs_choice (y - x) with hsign | hsign
    · rw [hsign]
    · rw [hsign, neg_mul, neg_div, sin_neg, neg_sq]
  have hsin : 0 ≤ sin (|y - x| * D2R / 2) :=
    sin_nonneg_of_nonneg_of_le_pi hnonneg (by linarith [pi_pos])
  rw [haversineKm_eq]
  simp only [sub_self, zero_mul, zero_div, sin_zero, cos_zero, ne_eq, OfNat.ofNat_ne_zero,
    not_false_eq_true, zero_pow, mul_one, one_mul, zero_add]
  rw [hsq, sqrt_sq hsin, min_eq_right (sin_le_one _), arcsin_sin (by linarith) hle]
  ring

/-! ## Coordinates and points -/

theorem atan2_polar {r : ℝ} (hr : 0 < r) (θ : ℝ) :
    atan2 (r * sin θ) (r * cos θ) = toIocMod two_pi_pos (-π) θ := by
  have hpoint : (⟨r * cos θ, r * sin θ⟩ : ℂ) = r * (Complex.cos θ + Complex.sin θ * Complex.I) := by
    apply Complex.ext
    · simp [Complex.cos_ofReal_re]
    · simp [Complex.sin_ofReal_re]
  rw [atan2, hpoint, Complex.arg_mul_cos_add_sin_mul_I_eq_toIocMod hr]

theorem atan2_polar_of_mem {r θ : ℝ} (hr : 0 < r) (hθ : θ ∈ Set.Ioc (-π) π) :
    atan2 (r * sin θ) (r * cos θ) = θ := by
  rw [atan2_polar hr, toIocMod_eq_self]
  have hturn : -π + 2 * π = π := by ring
  rwa [hturn]

theorem D2R_mul_R2D : D2R * R2D = 1 := by
  rw [D2R, R2D, div_mul_div_comm, mul_comm, div_self]
  positivity

theorem lat_toLngLat_toXYZ {p : LngLat ℝ} (h : |p.2| < 90) : (toLngLat (toXYZ p)).2 = p.2 := by
  have hcos := cos_degrees_pos h
  have hhyp : hypot (toXYZ p).x (toXYZ p).y = cos (p.2 * D2R) := by
    rw [hypot, toXYZ, mul_pow, mul_pow, ← mul_add, cos_sq_add_sin_sq, mul_one, sqrt_sq hcos.le]
  have hmem : p.2 * D2R ∈ Set.Ioc (-π) π := by
    obtain ⟨hlo, hhi⟩ := abs_lt.mp h
    have hpi := pi_pos
    rw [D2R_eq]
    exact ⟨by nlinarith, by nlinarith⟩
  have hatan := atan2_polar_of_mem one_pos hmem
  rw [one_mul, one_mul] at hatan
  rw [toLngLat, hhyp, toXYZ, hatan, mul_assoc, D2R_mul_R2D, mul_one]

theorem lon_toLngLat_toXYZ {p : LngLat ℝ} (h : |p.2| < 90) :
    (toLngLat (toXYZ p)).1 = toIocMod two_pi_pos (-π) (p.1 * D2R) * R2D := by
  rw [toLngLat, toXYZ, atan2_polar (cos_degrees_pos h)]

/-- The way back from the sphere, off the poles. -/
theorem toLngLat_toXYZ {p : LngLat ℝ} (hlat : |p.2| < 90) (hwest : -180 < p.1) (heast : p.1 ≤ 180) :
    toLngLat (toXYZ p) = p := by
  refine Prod.ext ?_ (lat_toLngLat_toXYZ hlat)
  have hmem : p.1 * D2R ∈ Set.Ioc (-π) (-π + 2 * π) := by
    have hpi := pi_pos
    rw [D2R_eq]
    exact ⟨by nlinarith, by nlinarith⟩
  rw [lon_toLngLat_toXYZ hlat, (toIocMod_eq_self _).mpr hmem, mul_assoc, D2R_mul_R2D, mul_one]

theorem slerp_one {p q : XYZ} {om : ℝ} (h : sin om ≠ 0) : slerp p q om (sin om) 1 = q := by
  rw [slerp, sub_self, one_mul, zero_mul, sin_zero, div_self h, zero_div]
  simp only [mul_one, mul_zero, zero_add]

theorem slerp_zero {p q : XYZ} {om : ℝ} (h : sin om ≠ 0) : slerp p q om (sin om) 0 = p := by
  rw [slerp, sub_zero, one_mul, zero_mul, sin_zero, div_self h, zero_div]
  simp only [mul_one, mul_zero, add_zero]

/-- The angle between two points of the equator. -/
theorem omegaOf_equator {x y : ℝ} (h : |y - x| ≤ 180) :
    omegaOf (toXYZ (x, 0)) (toXYZ (y, 0)) = |y - x| * D2R := by
  have hturn : 180 * D2R = π := by
    rw [D2R_eq]
    ring
  have hle : |y - x| * D2R ≤ π := by
    rw [← hturn]
    have hpos := D2R_pos
    gcongr
  have hnonneg : 0 ≤ |y - x| * D2R := mul_nonneg (abs_nonneg _) D2R_pos.le
  have hcos : cos (x * D2R) * cos (y * D2R) + sin (x * D2R) * sin (y * D2R) =
      cos (|y - x| * D2R) := by
    rw [← cos_sub, ← abs_of_pos D2R_pos, ← abs_mul, cos_abs, ← cos_neg, abs_of_pos D2R_pos]
    congr 1
    ring
  rw [omegaOf, toXYZ, toXYZ]
  simp only [zero_mul, cos_zero, sin_zero, one_mul, mul_zero, add_zero]
  rw [hcos, min_eq_right (cos_le_one _), max_eq_right (neg_one_le_cos _),
    arccos_cos hnonneg hle]

end

end TrafficMap.Web
