import TrafficMap.GeoDoctor.Schema
import Mathlib.Analysis.SpecialFunctions.Trigonometric.Inverse

/-!
# The distance function

`geo_haversine_km` of the migrations, in exact arithmetic, and the database
that computes with it and takes the first of equally good answers.
-/

namespace TrafficMap.GeoDoctor

open Sql Real

noncomputable section

def radians (degrees : ℝ) : ℝ := degrees * π / 180

def geoHaversineKm (lat₁ lon₁ lat₂ lon₂ : ℝ) : ℝ :=
  2 * 6371 * arcsin (sqrt (sin (radians (lat₂ - lat₁) / 2) ^ 2 +
    cos (radians lat₁) * cos (radians lat₂) * sin (radians (lon₂ - lon₁) / 2) ^ 2))

@[simp] theorem geoHaversineKm_self (lat lon : ℝ) : geoHaversineKm lat lon lat lon = 0 := by
  simp [geoHaversineKm, radians]

/-- Half way round the equator. -/
theorem geoHaversineKm_antipode : geoHaversineKm 0 0 0 180 = 6371 * π := by
  have hhalf : radians 180 / 2 = π / 2 := by
    rw [radians]
    ring
  rw [geoHaversineKm, sub_zero, sub_zero, hhalf, sin_pi_div_two]
  simp only [radians, zero_mul, zero_div, sin_zero, cos_zero]
  norm_num
  ring

def postgres : Engine ℝ where
  modeNum := Mode.first
  modeText := Mode.first
  deepest := Top.first
  real := id
  km := fun lat₁ lon₁ lat₂ lon₂ ↦ geoHaversineKm lat₁ lon₁ lat₂ lon₂

end

end TrafficMap.GeoDoctor
