import TrafficMap.Web.Geo

/-!
# Land and zones

`landmass.ts`: the tests against the polygons of `world.geojson`, each by
samples of a great circle, and with `geo.ts` the earth of the graphs.
-/

namespace TrafficMap.Web

open Real

noncomputable section

/-! ## Polygons -/

/-- A feature of `world.geojson`, with the outer rings of its polygons. -/
structure Country where
  continent : String
  admin : String
  rings : List (List (LngLat ℝ))

structure Poly extends Zone ℝ where
  group : String
  admin : String

/-- `GROUP`. -/
def groupOf : String → String
  | "Asia" => "EURASIA"
  | "Europe" => "EURASIA"
  | "North America" => "AMERICAS"
  | "South America" => "AMERICAS"
  | "Africa" => "AFRICA"
  | "Oceania" => "OCEANIA"
  | "Antarctica" => "ANTARCTICA"
  | _ => "OTHER"

def loadLandmass (features : List Country) : List Poly :=
  features.flatMap fun f ↦ (f.rings.filter fun ring ↦ 4 ≤ ring.length).map fun ring ↦
    { toZone := makeZone ring, group := groupOf f.continent, admin := f.admin }

/-- Whether the ray from the point crosses the side from `c` to `c'`. -/
def crossesSide (x y : ℝ) (c c' : LngLat ℝ) : Bool :=
  (decide (y < c.2) != decide (y < c'.2)) &&
    decide (x < (c'.1 - c.1) * (y - c.2) / (c'.2 - c.2) + c.1)

def pip (x y : ℝ) (ring : List (LngLat ℝ)) : Bool :=
  (ring.zip (ring.getLastD (0, 0) :: ring)).foldl
    (fun inside side ↦ if crossesSide x y side.1 side.2 then !inside else inside) false

/-- The bounding box, then the ring. -/
def inZone (x y : ℝ) (zn : Zone ℝ) : Bool :=
  !(decide (x < zn.xmin) || decide (zn.xmax < x) || decide (y < zn.ymin) || decide (zn.ymax < y)) &&
    pip x y zn.ring

/-! ## Land -/

section Land

variable (polys : List Poly)

def wrapLon (x : ℝ) : ℝ :=
  jsMod (jsMod (x + (180 : ℕ)) (360 : ℕ) + (360 : ℕ)) (360 : ℕ) - (180 : ℕ)

def onLand (p : LngLat ℝ) : Bool :=
  polys.any fun pl ↦ inZone (wrapLon p.1) p.2 pl.toZone

def continentGroup (p : LngLat ℝ) : Option String :=
  (polys.find? fun pl ↦ inZone (wrapLon p.1) p.2 pl.toZone).map Poly.group

def countryRings (names : List String) : List (List (LngLat ℝ)) :=
  (polys.filter fun pl ↦ names.contains pl.admin).map fun pl ↦ pl.ring

def landFraction (a b : LngLat ℝ) : ℝ :=
  let om := omegaOf (toXYZ a) (toXYZ b)
  if om < minOmega then (if onLand polys a then 1 else 0)
  else
    let samples := (List.range 41).map fun i : ℕ ↦
      toLngLat (slerp (toXYZ a) (toXYZ b) om (sin om) (i / (40 : ℕ)))
    ((samples.filter (onLand polys)).length : ℝ) / (41 : ℕ)

end Land

/-! ## Barriers -/

/-- The zones whose box meets that of the two points. -/
def nearZones (a b : LngLat ℝ) (zones : List (Zone ℝ)) : List (Zone ℝ) :=
  zones.filter fun z ↦ decide (z.xmin ≤ max a.1 b.1 + 1 / (2 : ℕ)) &&
    decide (min a.1 b.1 - 1 / (2 : ℕ) ≤ z.xmax) &&
    decide (z.ymin ≤ max a.2 b.2 + 1 / (2 : ℕ)) &&
    decide (min a.2 b.2 - 1 / (2 : ℕ) ≤ z.ymax)

/-- About 25 kilometres apart. -/
def zoneSteps (om : ℝ) : ℕ := (min 256 (max 2 ⌈om * (6371 : ℕ) / (25 : ℕ)⌉)).toNat

def zoneSample (a b : LngLat ℝ) (i : ℕ) : LngLat ℝ :=
  let om := omegaOf (toXYZ a) (toXYZ b)
  toLngLat (slerp (toXYZ a) (toXYZ b) om (if sin om = 0 then 1 else sin om) (i / zoneSteps om))

def zonesBlock (a b : LngLat ℝ) (zones : List (Zone ℝ)) : Bool :=
  (List.range (zoneSteps (omegaOf (toXYZ a) (toXYZ b)) + 1)).any fun i ↦
    (nearZones a b zones).any (inZone (zoneSample a b i).1 (zoneSample a b i).2)

/-- `geo.ts` and `landmass.ts` with the polygons loaded. -/
def earth (polys : List Poly) : Earth ℝ where
  haversineKm := haversineKm
  continentGroup := continentGroup polys
  landFraction := landFraction polys
  zonesBlock := zonesBlock
  countryRings := countryRings polys

section Earth

variable (polys : List Poly) (a b : LngLat ℝ)

@[simp] theorem earth_haversineKm : (earth polys).haversineKm a b = haversineKm a b := rfl

@[simp] theorem earth_landFraction :
    (earth polys).landFraction a b = landFraction polys a b := rfl

@[simp] theorem earth_zonesBlock (zones : List (Zone ℝ)) :
    (earth polys).zonesBlock a b zones = zonesBlock a b zones := rfl

@[simp] theorem earth_countryRings (names : List String) :
    (earth polys).countryRings names = countryRings polys names := rfl

end Earth

@[simp] theorem zonesBlock_nil (a b : LngLat ℝ) : zonesBlock a b [] = false := by
  simp [zonesBlock, nearZones]

/-! ## Both ways -/

theorem omegaOf_comm (p q : XYZ) : omegaOf p q = omegaOf q p := by
  rw [omegaOf, omegaOf, mul_comm p.x, mul_comm p.y, mul_comm p.z]

theorem slerp_comm (a b : XYZ) (om sinO t : ℝ) :
    slerp a b om sinO t = slerp b a om sinO (1 - t) := by
  rw [slerp, slerp, sub_sub_cancel]
  congr 1
  · ring
  · ring
  · ring

theorem zoneSteps_pos (om : ℝ) : 0 < zoneSteps om := by
  rw [zoneSteps, Int.lt_toNat]
  omega

theorem nearZones_comm (a b : LngLat ℝ) (zones : List (Zone ℝ)) :
    nearZones a b zones = nearZones b a zones := by
  rw [nearZones, nearZones, max_comm a.1, min_comm a.1, max_comm a.2, min_comm a.2]

theorem zoneSample_comm (a b : LngLat ℝ) {i : ℕ}
    (hi : i ≤ zoneSteps (omegaOf (toXYZ a) (toXYZ b))) :
    zoneSample a b i = zoneSample b a (zoneSteps (omegaOf (toXYZ a) (toXYZ b)) - i) := by
  rw [zoneSample, zoneSample, omegaOf_comm (toXYZ b)]
  generalize omegaOf (toXYZ a) (toXYZ b) = om at hi ⊢
  have hpos : (zoneSteps om : ℝ) ≠ 0 := Nat.cast_ne_zero.mpr (zoneSteps_pos om).ne'
  rw [slerp_comm, Nat.cast_sub hi, sub_div, div_self hpos]

theorem zonesBlock_of_swap {a b : LngLat ℝ} {zones : List (Zone ℝ)}
    (h : zonesBlock a b zones = true) : zonesBlock b a zones = true := by
  rw [zonesBlock, List.any_eq_true] at h ⊢
  obtain ⟨i, hi, hhit⟩ := h
  have hle := Nat.lt_succ_iff.mp (List.mem_range.mp hi)
  refine ⟨zoneSteps (omegaOf (toXYZ a) (toXYZ b)) - i, ?_, ?_⟩
  · rw [List.mem_range, omegaOf_comm (toXYZ b)]
    omega
  · rwa [← zoneSample_comm a b hle, ← nearZones_comm]

/-- An edge is blocked in both directions or in none. -/
theorem zonesBlock_comm (a b : LngLat ℝ) (zones : List (Zone ℝ)) :
    zonesBlock a b zones = zonesBlock b a zones :=
  Bool.eq_iff_iff.mpr ⟨zonesBlock_of_swap, zonesBlock_of_swap⟩

/-! ## Ends -/

/-- A point within a zone meets the box of that zone. -/
theorem mem_nearZones {a : LngLat ℝ} (b : LngLat ℝ) {zones : List (Zone ℝ)} {z : Zone ℝ}
    (hz : z ∈ zones) (hin : inZone a.1 a.2 z = true) : z ∈ nearZones a b zones := by
  simp only [inZone, Bool.and_eq_true, Bool.not_eq_true', Bool.or_eq_false_iff,
    decide_eq_false_iff_not, not_lt] at hin
  obtain ⟨⟨⟨⟨hxmin, hxmax⟩, hymin⟩, hymax⟩, -⟩ := hin
  simp only [nearZones, List.mem_filter, Bool.and_eq_true, decide_eq_true_eq]
  have hhalf : (0 : ℝ) ≤ 1 / (2 : ℕ) := by positivity
  refine ⟨hz, ⟨⟨?_, ?_⟩, ?_⟩, ?_⟩
  · linarith [le_max_left a.1 b.1]
  · linarith [min_le_left a.1 b.1]
  · linarith [le_max_left a.2 b.2]
  · linarith [min_le_left a.2 b.2]

/-- An end within a zone is sampled. -/
theorem zonesBlock_of_inZone {a b : LngLat ℝ} (hlat : |a.2| < 90) (hwest : -180 < a.1)
    (heast : a.1 ≤ 180) (hom : sin (omegaOf (toXYZ a) (toXYZ b)) ≠ 0) {zones : List (Zone ℝ)}
    {z : Zone ℝ} (hz : z ∈ zones) (hin : inZone a.1 a.2 z = true) :
    zonesBlock a b zones = true := by
  have hsample : zoneSample a b 0 = a := by
    rw [zoneSample, if_neg hom, Nat.cast_zero, zero_div, slerp_zero hom,
      toLngLat_toXYZ hlat hwest heast]
  rw [zonesBlock, List.any_eq_true]
  refine ⟨0, List.mem_range.mpr (Nat.succ_pos _), ?_⟩
  rw [List.any_eq_true, hsample]
  exact ⟨z, mem_nearZones b hz hin, hin⟩

/-! ## On the equator -/

theorem toLngLat_lat_eq_zero {v : XYZ} (h : v.z = 0) : (toLngLat v).2 = 0 := by
  have harg : atan2 v.z (hypot v.x v.y) = 0 := by
    rw [h]
    exact Complex.arg_ofReal_of_nonneg (sqrt_nonneg _)
  rw [toLngLat, harg, zero_mul]

/-- The points of a line that are tested. -/
def landSamples (a b : LngLat ℝ) : List (LngLat ℝ) :=
  (List.range 41).map fun i : ℕ ↦ toLngLat (slerp (toXYZ a) (toXYZ b)
    (omegaOf (toXYZ a) (toXYZ b)) (sin (omegaOf (toXYZ a) (toXYZ b))) (i / (40 : ℕ)))

theorem landFraction_eq_samples (polys : List Poly) (a b : LngLat ℝ) : landFraction polys a b =
    if omegaOf (toXYZ a) (toXYZ b) < minOmega then (if onLand polys a then 1 else 0)
    else (((landSamples a b).filter (onLand polys)).length : ℝ) / (41 : ℕ) := rfl

theorem length_landSamples (a b : LngLat ℝ) : (landSamples a b).length = 41 := by
  rw [landSamples, List.length_map, List.length_range]

section Equator

variable {polys : List Poly} {a b : LngLat ℝ} (ha : a.2 = 0) (hb : b.2 = 0)
include ha hb

theorem landSamples_equator {p : LngLat ℝ} (hp : p ∈ landSamples a b) : p.2 = 0 := by
  have hz : ∀ c : LngLat ℝ, c.2 = 0 → (toXYZ c).z = 0 := by
    intro c hc
    rw [toXYZ, hc, zero_mul, sin_zero]
  obtain ⟨i, -, rfl⟩ := List.mem_map.mp hp
  apply toLngLat_lat_eq_zero
  rw [slerp, hz a ha, hz b hb, zero_mul, zero_mul, add_zero]

/-- Land that keeps off the equator. -/
theorem landFraction_equator (hpolys : ∀ pl ∈ polys, 0 < pl.ymin) :
    landFraction polys a b = 0 := by
  have hsea : ∀ p : LngLat ℝ, p.2 = 0 → onLand polys p = false := by
    intro p hp
    rw [onLand, List.any_eq_false]
    intro pl hpl
    simp [inZone, hp, hpolys pl hpl]
  have hnone : (landSamples a b).filter (onLand polys) = [] := by
    apply List.filter_eq_nil_iff.mpr
    intro p hp
    simp [hsea p (landSamples_equator ha hb hp)]
  rw [landFraction_eq_samples]
  split
  · simp [hsea a ha]
  · simp [hnone]

/-- Land all along the equator. -/
theorem landFraction_of_onLand (hland : ∀ p : LngLat ℝ, p.2 = 0 → onLand polys p = true) :
    landFraction polys a b = 1 := by
  have hall : (landSamples a b).filter (onLand polys) = landSamples a b := by
    apply List.filter_eq_self.mpr
    exact fun p hp ↦ hland p (landSamples_equator ha hb hp)
  rw [landFraction_eq_samples]
  split
  · simp [hland a ha]
  · rw [hall, length_landSamples]
    exact div_self (by norm_num)

end Equator

end

end TrafficMap.Web
