import TrafficMap.Web.Landmass
import TrafficMap.Web.Winding
import Mathlib.Analysis.Real.Pi.Bounds

/-!
# The zones near an edge

`zonesBlock` of `landmass.ts` looks only at the zones whose box meets that of
the two ends, padded by half a degree, while its samples follow the sphere.
Against it, the test of every sample in every zone.
-/

namespace TrafficMap.Web

open Real

noncomputable section

/-- Without the choice of zones. -/
def sampledBlock (a b : LngLat ℝ) (zones : List (Zone ℝ)) : Bool :=
  (List.range (zoneSteps (omegaOf (toXYZ a) (toXYZ b)) + 1)).any fun i ↦
    zones.any (inZone (zoneSample a b i).1 (zoneSample a b i).2)

/-- The box of the ends `a` and `b`, with its padding. -/
structure InBox (a b p : LngLat ℝ) : Prop where
  west : min a.1 b.1 - 1 / (2 : ℕ) ≤ p.1
  east : p.1 ≤ max a.1 b.1 + 1 / (2 : ℕ)
  south : min a.2 b.2 - 1 / (2 : ℕ) ≤ p.2
  north : p.2 ≤ max a.2 b.2 + 1 / (2 : ℕ)

/-! ## Rectangles -/

def rect (west east south north : ℝ) : List (LngLat ℝ) :=
  [(west, south), (east, south), (east, north), (west, north)]

section Rect

variable {west east south north x y : ℝ}

theorem makeZone_rect (hx : west ≤ east) (hy : south ≤ north) (hwest : west ≤ 180)
    (heast : -180 ≤ east) (hsouth : south ≤ 90) (hnorth : -90 ≤ north) :
    makeZone (rect west east south north) =
      ⟨west, east, south, north, rect west east south north⟩ := by
  simp [makeZone, rect, hx, hy, hwest, heast, hsouth, hnorth]

theorem pip_rect (hwest : west ≤ x) (heast : x < east) (hsouth : south ≤ y) (hnorth : y < north) :
    pip x y (rect west east south north) = true := by
  simp [pip, rect, crossesSide, not_lt.mpr hwest, heast, not_lt.mpr hsouth, hnorth]

theorem inZone_rect (hx : west ≤ x) (hxe : x < east) (hy : south ≤ y) (hyn : y < north)
    (hwest : west ≤ 180) (heast : -180 ≤ east) (hsouth : south ≤ 90) (hnorth : -90 ≤ north) :
    inZone x y (makeZone (rect west east south north)) = true := by
  rw [makeZone_rect (hx.trans hxe.le) (hy.trans hyn.le) hwest heast hsouth hnorth]
  simp [inZone, hx, hxe.le, hy, hyn.le, pip_rect hx hxe hy hyn]

end Rect

/-! ## The choice of zones -/

section Filter

variable {a b : LngLat ℝ} {zones : List (Zone ℝ)}

theorem mem_nearZones_iff {z : Zone ℝ} : z ∈ nearZones a b zones ↔ z ∈ zones ∧
    z.xmin ≤ max a.1 b.1 + 1 / (2 : ℕ) ∧ min a.1 b.1 - 1 / (2 : ℕ) ≤ z.xmax ∧
    z.ymin ≤ max a.2 b.2 + 1 / (2 : ℕ) ∧ min a.2 b.2 - 1 / (2 : ℕ) ≤ z.ymax := by
  simp [nearZones, and_assoc]

theorem mem_nearZones_of_inBox {p : LngLat ℝ} {z : Zone ℝ} (hbox : InBox a b p) (hz : z ∈ zones)
    (hin : inZone p.1 p.2 z = true) : z ∈ nearZones a b zones := by
  simp only [inZone, Bool.and_eq_true, Bool.not_eq_true', Bool.or_eq_false_iff,
    decide_eq_false_iff_not, not_lt] at hin
  obtain ⟨⟨⟨⟨hxmin, hxmax⟩, hymin⟩, hymax⟩, -⟩ := hin
  exact mem_nearZones_iff.mpr ⟨hz, hxmin.trans hbox.east, hbox.west.trans hxmax,
    hymin.trans hbox.north, hbox.south.trans hymax⟩

theorem zonesBlock_iff : zonesBlock a b zones = true ↔
    ∃ i ≤ zoneSteps (omegaOf (toXYZ a) (toXYZ b)), ∃ z ∈ nearZones a b zones,
      inZone (zoneSample a b i).1 (zoneSample a b i).2 z = true := by
  simp [zonesBlock]

theorem sampledBlock_iff : sampledBlock a b zones = true ↔
    ∃ i ≤ zoneSteps (omegaOf (toXYZ a) (toXYZ b)), ∃ z ∈ zones,
      inZone (zoneSample a b i).1 (zoneSample a b i).2 z = true := by
  simp [sampledBlock]

/-- The choice only removes crossings. -/
theorem sampledBlock_of_zonesBlock (h : zonesBlock a b zones = true) :
    sampledBlock a b zones = true := by
  obtain ⟨i, hi, z, hz, hin⟩ := zonesBlock_iff.mp h
  exact sampledBlock_iff.mpr ⟨i, hi, z, (mem_nearZones_iff.mp hz).1, hin⟩

theorem toLngLat_mem (v : XYZ) : -180 ≤ (toLngLat v).1 ∧ (toLngLat v).1 ≤ 180 ∧
    -90 ≤ (toLngLat v).2 ∧ (toLngLat v).2 ≤ 90 := by
  obtain ⟨hwest, heast⟩ := wrapped_iff.mp (wrapped_toLngLat v)
  have harg : |atan2 v.z (hypot v.x v.y)| ≤ π / 2 :=
    Complex.abs_arg_le_pi_div_two_iff.mpr (sqrt_nonneg _)
  obtain ⟨hlo, hhi⟩ := abs_le.mp harg
  have hpos : 0 < R2D := by
    rw [R2D]
    positivity
  have hquarter : π / 2 * R2D = 90 := by
    rw [R2D, Nat.cast_ofNat]
    field_simp
    norm_num
  refine ⟨hwest, heast, ?_, ?_⟩
  · have hmul := mul_le_mul_of_nonneg_right hlo hpos.le
    rw [toLngLat]
    linarith
  · have hmul := mul_le_mul_of_nonneg_right hhi hpos.le
    rw [toLngLat]
    linarith

/-- A rectangle with its corner at the point, away from the box. -/
theorem exists_far_ring {p : LngLat ℝ} (hwest : -180 ≤ p.1) (heast : p.1 ≤ 180)
    (hsouth : -90 ≤ p.2) (hnorth : p.2 ≤ 90) (hout : ¬InBox a b p) :
    ∃ ring, inZone p.1 p.2 (makeZone ring) = true ∧ nearZones a b [makeZone ring] = [] := by
  obtain ⟨x, y, hx, hy, hfar⟩ : ∃ x y, p.1 < x ∧ p.2 < y ∧
      ¬(p.1 ≤ max a.1 b.1 + 1 / (2 : ℕ) ∧ min a.1 b.1 - 1 / (2 : ℕ) ≤ x ∧
        p.2 ≤ max a.2 b.2 + 1 / (2 : ℕ) ∧ min a.2 b.2 - 1 / (2 : ℕ) ≤ y) := by
    by_cases hw : min a.1 b.1 - 1 / (2 : ℕ) ≤ p.1
    · by_cases hs : min a.2 b.2 - 1 / (2 : ℕ) ≤ p.2
      · refine ⟨p.1 + 1, p.2 + 1, lt_add_one _, lt_add_one _, ?_⟩
        rintro ⟨he, -, hn, -⟩
        exact hout ⟨hw, he, hs, hn⟩
      · obtain ⟨y, hy, hlt⟩ := exists_between (not_le.mp hs)
        exact ⟨p.1 + 1, y, lt_add_one _, hy, fun h ↦ absurd h.2.2.2 (not_le.mpr hlt)⟩
    · obtain ⟨x, hx, hlt⟩ := exists_between (not_le.mp hw)
      exact ⟨x, p.2 + 1, hx, lt_add_one _, fun h ↦ absurd h.2.1 (not_le.mpr hlt)⟩
  have hx180 : -180 ≤ x := hwest.trans hx.le
  have hy90 : -90 ≤ y := hsouth.trans hy.le
  refine ⟨rect p.1 x p.2 y, ?_, ?_⟩
  · exact inZone_rect le_rfl hx le_rfl hy heast hx180 hnorth hy90
  · rw [makeZone_rect hx.le hy.le heast hx180 hnorth hy90, List.eq_nil_iff_forall_not_mem]
    intro z hz
    obtain ⟨hmem, hnear⟩ := mem_nearZones_iff.mp hz
    obtain rfl := List.mem_singleton.mp hmem
    exact hfar hnear

/-- For given zones, the choice hides nothing exactly if a sample in a zone that
it drops comes with a sample in a zone that it keeps.  For all zones, exactly if
every sample lies in the box. -/
theorem zonesBlock_eq_iff (a b : LngLat ℝ) :
    (∀ zones, zonesBlock a b zones = sampledBlock a b zones ↔
      ((∃ i ≤ zoneSteps (omegaOf (toXYZ a) (toXYZ b)), ∃ z ∈ zones, z ∉ nearZones a b zones ∧
          inZone (zoneSample a b i).1 (zoneSample a b i).2 z = true) →
        ∃ i ≤ zoneSteps (omegaOf (toXYZ a) (toXYZ b)), ∃ z ∈ nearZones a b zones,
          inZone (zoneSample a b i).1 (zoneSample a b i).2 z = true)) ∧
    ((∀ zones, zonesBlock a b zones = sampledBlock a b zones) ↔
      ∀ i ≤ zoneSteps (omegaOf (toXYZ a) (toXYZ b)), InBox a b (zoneSample a b i)) := by
  have hiff : ∀ zones, zonesBlock a b zones = sampledBlock a b zones ↔
      (sampledBlock a b zones = true → zonesBlock a b zones = true) := by
    intro zones
    constructor
    · exact fun heq hsampled ↦ heq.trans hsampled
    · exact fun h ↦ Bool.eq_iff_iff.mpr ⟨sampledBlock_of_zonesBlock, h⟩
  constructor
  · intro zones
    rw [hiff, ← zonesBlock_iff]
    constructor
    · rintro h ⟨i, hi, z, hz, -, hin⟩
      exact h (sampledBlock_iff.mpr ⟨i, hi, z, hz, hin⟩)
    · intro h hsampled
      obtain ⟨i, hi, z, hz, hin⟩ := sampledBlock_iff.mp hsampled
      by_cases hnear : z ∈ nearZones a b zones
      · exact zonesBlock_iff.mpr ⟨i, hi, z, hnear, hin⟩
      · exact h ⟨i, hi, z, hz, hnear, hin⟩
  · constructor
    · intro h i hi
      by_contra hout
      obtain ⟨hwest, heast, hsouth, hnorth⟩ : -180 ≤ (zoneSample a b i).1 ∧
          (zoneSample a b i).1 ≤ 180 ∧ -90 ≤ (zoneSample a b i).2 ∧ (zoneSample a b i).2 ≤ 90 :=
        toLngLat_mem _
      obtain ⟨ring, hin, hnear⟩ := exists_far_ring hwest heast hsouth hnorth hout
      have hsampled : sampledBlock a b [makeZone ring] = true :=
        sampledBlock_iff.mpr ⟨i, hi, makeZone ring, List.mem_singleton_self _, hin⟩
      rw [← h, zonesBlock_iff, hnear] at hsampled
      obtain ⟨-, -, z, hz, -⟩ := hsampled
      cases hz
    · intro hbox zones
      refine (hiff zones).mpr fun hsampled ↦ ?_
      obtain ⟨i, hi, z, hz, hin⟩ := sampledBlock_iff.mp hsampled
      exact zonesBlock_iff.mpr ⟨i, hi, z, mem_nearZones_of_inBox (hbox i hi) hz hin, hin⟩

end Filter

/-! ## Across the dateline -/

theorem cos_slerp {α om τ : ℝ} (h : sin om ≠ 0) :
    cos α * (sin (om - τ) / sin om) + cos (α + om) * (sin τ / sin om) = cos (α + τ) := by
  rw [sin_sub, cos_add, cos_add]
  field_simp
  ring

theorem sin_slerp {α om τ : ℝ} (h : sin om ≠ 0) :
    sin α * (sin (om - τ) / sin om) + sin (α + om) * (sin τ / sin om) = sin (α + τ) := by
  rw [sin_sub, sin_add, sin_add]
  field_simp
  ring

/-- The great circle between two points of the equator is the equator. -/
theorem slerp_equator (x d t : ℝ) (h : sin (d * D2R) ≠ 0) :
    slerp (toXYZ (x, 0)) (toXYZ (x + d, 0)) (d * D2R) (sin (d * D2R)) t = toXYZ (x + t * d, 0) := by
  have hend : (x + d) * D2R = x * D2R + d * D2R := by ring
  have hshare : (x + t * d) * D2R = x * D2R + t * (d * D2R) := by ring
  have hleft : (1 - t) * (d * D2R) = d * D2R - t * (d * D2R) := by ring
  simp only [slerp, toXYZ, zero_mul, cos_zero, sin_zero, one_mul, hend, hshare, hleft,
    cos_slerp h, sin_slerp h, add_zero]

theorem toXYZ_turn (x y : ℝ) : toXYZ (x, y) = toXYZ (x + 360, y) := by
  have hturn : (x + 360) * D2R = x * D2R + 2 * π := by
    rw [D2R_eq]
    ring
  simp only [toXYZ, hturn, cos_add_two_pi, sin_add_two_pi]

theorem toXYZ_pacific : toXYZ (-170, 0) = toXYZ (170 + 20, 0) := by
  rw [toXYZ_turn]
  norm_num

theorem omegaOf_pacific : omegaOf (toXYZ (170, 0)) (toXYZ (-170, 0)) = 20 * D2R := by
  rw [toXYZ_pacific, omegaOf_equator (by norm_num)]
  norm_num

theorem sin_pacific : sin (20 * D2R) ≠ 0 := by
  have hpi := pi_pos
  have hpos : 0 < 20 * D2R := by
    rw [D2R_eq]
    positivity
  have hlt : 20 * D2R < π := by
    rw [D2R_eq]
    linarith
  exact (sin_pos_of_pos_of_lt_pi hpos hlt).ne'

theorem zoneSteps_pacific : zoneSteps (20 * D2R) = 89 := by
  have hlo := pi_gt_d2
  have hhi := pi_lt_d4
  have hceil : ⌈20 * D2R * (6371 : ℕ) / (25 : ℕ)⌉ = 89 := by
    rw [Int.ceil_eq_iff, D2R_eq]
    norm_num
    constructor
    · linarith
    · linarith
  rw [zoneSteps, hceil]
  rfl

theorem zoneSample_pacific {i : ℕ} (hi : 2 * i ≤ 89) :
    zoneSample (170, 0) (-170, 0) i = (170 + (i : ℝ) / 89 * 20, 0) := by
  have hshare : (i : ℝ) / 89 * 20 ≤ 10 := by
    have hcast : (2 : ℝ) * i ≤ 89 := by exact_mod_cast hi
    linarith
  have hnonneg : (0 : ℝ) ≤ i / 89 * 20 := by positivity
  rw [zoneSample, omegaOf_pacific, if_neg sin_pacific, zoneSteps_pacific, toXYZ_pacific,
    slerp_equator _ _ _ sin_pacific, Nat.cast_ofNat]
  refine toLngLat_toXYZ (by norm_num) ?_ ?_
  · dsimp only
    linarith
  · dsimp only
    linarith

/-- A zone west of the dateline, on an edge across it. -/
def datelineZone : Zone ℝ := makeZone (rect 175 178 (-1) 1)

theorem dateline_hidden : sampledBlock (170, 0) (-170, 0) [datelineZone] = true ∧
    zonesBlock (170, 0) (-170, 0) [datelineZone] = false := by
  have hzone : datelineZone = ⟨175, 178, -1, 1, rect 175 178 (-1) 1⟩ :=
    makeZone_rect (by norm_num) (by norm_num) (by norm_num) (by norm_num) (by norm_num)
      (by norm_num)
  constructor
  · refine sampledBlock_iff.mpr ⟨30, ?_, datelineZone, List.mem_singleton_self _, ?_⟩
    · rw [omegaOf_pacific, zoneSteps_pacific]
      norm_num
    · rw [zoneSample_pacific (i := 30) (by norm_num)]
      apply inZone_rect <;> norm_num
  · rw [Bool.eq_false_iff, ne_eq, zonesBlock_iff]
    rintro ⟨-, -, z, hz, -⟩
    obtain ⟨hmem, heast, -⟩ := mem_nearZones_iff.mp hz
    obtain rfl := List.mem_singleton.mp hmem
    rw [hzone] at heast
    norm_num at heast

end

end TrafficMap.Web
