import TrafficMap.Web.Polyline

/-!
# Lines that wind round the globe

The last pass of `densifyPath` moves a point by one turn at most, from where its
predecessor has been moved to.  It keeps a line together as long as the line has not
wound round the globe twice.
-/

namespace TrafficMap.Web

open Real

/-- A longitude as the slerp leaves it. -/
structure Wrapped (p : LngLat ℝ) : Prop where
  west : -(180 : ℕ) ≤ p.1
  east : p.1 ≤ (180 : ℕ)

/-- No step of more than half a turn. -/
def Seamless (line : List (LngLat ℝ)) : Prop := line.IsChain fun p q ↦ |q.1 - p.1| ≤ ((180 : ℕ) : ℝ)

/-! ## Turns -/

/-- The crossing of the dateline by a step of `d` degrees, eastwards.  Half a turn
leads back to the first sheet. -/
noncomputable def crossing (k : ℤ) (d : ℝ) : ℤ :=
  if d < -(180 : ℕ) ∨ d = -(180 : ℕ) ∧ k = -1 then 1
  else if (180 : ℕ) < d ∨ d = (180 : ℕ) ∧ k = 1 then -1
  else 0

/-- After `k` crossings, no further point is two turns away from the first one. -/
def WindsOnceFrom : ℤ → LngLat ℝ → List (LngLat ℝ) → Prop
  | _, _, [] => True
  | k, p, q :: qs => |k + crossing k (q.1 - p.1)| ≤ 1 ∧
      WindsOnceFrom (k + crossing k (q.1 - p.1)) q qs

def WindsOnce : List (LngLat ℝ) → Prop
  | [] => True
  | p :: ps => WindsOnceFrom 0 p ps

/-- The point `k` turns further east. -/
def shift (k : ℤ) (p : LngLat ℝ) : LngLat ℝ := (p.1 + (360 : ℕ) * k, p.2)

/-- The turn that the pass adds after a step of `d` degrees. -/
noncomputable def correction (d : ℝ) : ℤ :=
  if (180 : ℕ) < d then -1 else if d < -(180 : ℕ) then 1 else 0

theorem wrapped_iff {p : LngLat ℝ} : Wrapped p ↔ -180 ≤ p.1 ∧ p.1 ≤ 180 := by
  constructor
  · rintro ⟨hwest, heast⟩
    exact ⟨by simpa using hwest, by simpa using heast⟩
  · rintro ⟨hwest, heast⟩
    exact ⟨by simpa using hwest, by simpa using heast⟩

theorem shift_zero (p : LngLat ℝ) : shift 0 p = p := by simp [shift]

theorem sameSpot_shift (k : ℤ) (p : LngLat ℝ) : SameSpot (shift k p) p :=
  ⟨rfl, k, rfl⟩

theorem unwrapFrom_cons (prev p : LngLat ℝ) (ps : List (LngLat ℝ)) :
    unwrapFrom prev (p :: ps) = shift (correction (p.1 - prev.1)) p ::
      unwrapFrom (shift (correction (p.1 - prev.1)) p) ps := by
  have hmoved : (if (180 : ℕ) < p.1 - prev.1 then (p.1 - (360 : ℕ), p.2)
      else if p.1 - prev.1 < -(180 : ℕ) then (p.1 + (360 : ℕ), p.2) else p) =
        shift (correction (p.1 - prev.1)) p := by
    rw [correction, shift]
    split
    · simp [sub_eq_add_neg]
    · split
      · simp
      · simp
  rw [unwrapFrom, hmoved]

theorem abs_le_one_cases {k : ℤ} (h : |k| ≤ 1) : k = -1 ∨ k = 0 ∨ k = 1 := by
  rw [abs_le] at h
  omega

/-- One turn is enough within one and a half turns. -/
theorem correction_spec (x : ℝ) : |x + 360 * correction x| ≤ 180 ↔ |x| ≤ 540 := by
  rw [correction, abs_le, abs_le]
  split_ifs <;> push_cast <;> grind

section Step

variable {k : ℤ} {d : ℝ} (hk : |k| ≤ 1) (hlo : -360 ≤ d) (hhi : d ≤ 360)
include hk hlo hhi

theorem crossing_spec : |d - 360 * k| ≤ 540 ↔ |k + crossing k d| ≤ 1 := by
  rw [crossing, abs_le, abs_le]
  rcases abs_le_one_cases hk with rfl | rfl | rfl <;> split_ifs <;> push_cast <;> grind

/-- Within one and a half turns, the correction is the number of the crossings. -/
theorem correction_eq (h : |k + crossing k d| ≤ 1) :
    correction (d - 360 * k) = k + crossing k d := by
  rw [← crossing_spec hk hlo hhi, abs_le] at h
  rw [crossing, correction]
  rcases abs_le_one_cases hk with rfl | rfl | rfl <;> push_cast at * <;> split_ifs <;> grind

end Step

/-! ## The pass -/

theorem seamless_unwrapFrom_iff {k : ℤ} (hk : |k| ≤ 1) {p : LngLat ℝ} (hp : Wrapped p)
    {ps : List (LngLat ℝ)} (hps : ∀ q ∈ ps, Wrapped q) :
    Seamless (shift k p :: unwrapFrom (shift k p) ps) ↔ WindsOnceFrom k p ps := by
  induction ps generalizing k p with
  | nil => simp [Seamless, unwrapFrom, WindsOnceFrom]
  | cons q qs ih =>
      obtain ⟨hq, hqs⟩ := List.forall_mem_cons.mp hps
      obtain ⟨hpwest, hpeast⟩ := wrapped_iff.mp hp
      obtain ⟨hqwest, hqeast⟩ := wrapped_iff.mp hq
      have hlo : -360 ≤ q.1 - p.1 := by linarith
      have hhi : q.1 - p.1 ≤ 360 := by linarith
      have hmoved : q.1 - (shift k p).1 = q.1 - p.1 - 360 * k := by
        rw [shift, Nat.cast_ofNat]
        ring
      have hstep : (shift (correction (q.1 - p.1 - 360 * k)) q).1 - (shift k p).1 =
          q.1 - p.1 - 360 * k + 360 * correction (q.1 - p.1 - 360 * k) := by
        rw [shift, shift, Nat.cast_ofNat]
        ring
      rw [unwrapFrom_cons, hmoved, Seamless, List.isChain_cons_cons, hstep, Nat.cast_ofNat,
        correction_spec, crossing_spec hk hlo hhi, WindsOnceFrom]
      refine and_congr_right fun hwithin ↦ ?_
      rw [correction_eq hk hlo hhi hwithin]
      exact ih hwithin hq hqs

theorem sameSpot_unwrapFrom (prev : LngLat ℝ) (ps : List (LngLat ℝ)) :
    List.Forall₂ SameSpot (unwrapFrom prev ps) ps := by
  induction ps generalizing prev with
  | nil => exact List.Forall₂.nil
  | cons p ps ih =>
      rw [unwrapFrom_cons]
      exact List.Forall₂.cons (sameSpot_shift _ p) (ih _)

theorem sameSpot_unwrap (ps : List (LngLat ℝ)) : List.Forall₂ SameSpot (unwrap ps) ps := by
  cases ps with
  | nil => exact List.Forall₂.nil
  | cons p ps => exact List.Forall₂.cons (SameSpot.refl p) (sameSpot_unwrapFrom p ps)

/-- The pass leaves no seam if and only if no point is two turns away from the first one. -/
theorem unwrap_seamless_iff {raw : List (LngLat ℝ)} (hraw : ∀ p ∈ raw, Wrapped p) :
    (List.Forall₂ SameSpot (unwrap raw) raw ∧ Seamless (unwrap raw)) ↔ WindsOnce raw := by
  rw [and_iff_right (sameSpot_unwrap raw)]
  cases raw with
  | nil => simp [unwrap, Seamless, WindsOnce]
  | cons p ps =>
      obtain ⟨hp, hps⟩ := List.forall_mem_cons.mp hraw
      have hpass := seamless_unwrapFrom_iff (by norm_num) hp hps (k := 0)
      rwa [shift_zero] at hpass

/-- A line across the dateline. -/
theorem pacific_seamless : (List.Forall₂ SameSpot (unwrap [(170, 0), (-170, 0)])
    [(170, 0), (-170, 0)] ∧ Seamless (unwrap [(170, 0), (-170, 0)])) ↔
      WindsOnce [(170, 0), (-170, 0)] := by
  apply unwrap_seamless_iff
  intro p hp
  rw [wrapped_iff]
  rcases List.mem_pair.mp hp with rfl | rfl <;> norm_num

/-! ## Drawn lines -/

theorem wrapped_toLngLat (v : XYZ) : Wrapped (toLngLat v) := by
  have hturn : π * R2D = 180 := by
    rw [R2D, Nat.cast_ofNat, mul_div_cancel₀ _ pi_ne_zero]
  have hpos : 0 < R2D := by
    rw [R2D]
    positivity
  refine wrapped_iff.mpr ⟨?_, ?_⟩
  · have harg := (Complex.neg_pi_lt_arg ⟨v.x, v.y⟩).le
    have hmul := mul_le_mul_of_nonneg_right harg hpos.le
    rw [toLngLat, atan2]
    linarith
  · have harg := Complex.arg_le_pi ⟨v.x, v.y⟩
    have hmul := mul_le_mul_of_nonneg_right harg hpos.le
    rw [toLngLat, atan2]
    linarith

theorem wrapped_legPoint (a : LngLat ℝ) {b : LngLat ℝ} (hb : Wrapped b) (s : ℕ) :
    Wrapped (legPoint a b s) := by
  rw [legPoint]
  split
  · exact hb
  · exact wrapped_toLngLat _

theorem wrapped_legPoints (a : LngLat ℝ) {b : LngLat ℝ} (hb : Wrapped b) (s₀ : ℕ) :
    ∀ p ∈ legPoints a b s₀, Wrapped p := by
  intro p hp
  obtain ⟨s, _, rfl⟩ := List.mem_map.mp hp
  exact wrapped_legPoint a hb s

theorem wrapped_laterLegs (a : LngLat ℝ) {qs : List (LngLat ℝ)} (hqs : ∀ q ∈ qs, Wrapped q) :
    ∀ p ∈ laterLegs a qs, Wrapped p := by
  induction qs generalizing a with
  | nil => intro p hp; cases hp
  | cons q qs ih =>
      obtain ⟨hq, hqs⟩ := List.forall_mem_cons.mp hqs
      intro p hp
      rcases List.mem_append.mp hp with hleg | hlater
      · exact wrapped_legPoints a hq 1 p hleg
      · exact ih q hqs p hlater

/-- A drawn path through points of the map has no seam if and only if it does not wind
round twice. -/
theorem densifyPath_seamless_iff (p : LngLat ℝ) {q : LngLat ℝ} {qs : List (LngLat ℝ)}
    (hq : Wrapped q) (hqs : ∀ r ∈ qs, Wrapped r) :
    Seamless (densifyPath (p :: q :: qs)) ↔ WindsOnce (legPoints p q 0 ++ laterLegs q qs) := by
  have hraw : ∀ r ∈ legPoints p q 0 ++ laterLegs q qs, Wrapped r := by
    intro r hr
    rcases List.mem_append.mp hr with hleg | hlater
    · exact wrapped_legPoints p hq 0 r hleg
    · exact wrapped_laterLegs q hqs r hlater
  have hpass := unwrap_seamless_iff hraw
  rwa [and_iff_right (sameSpot_unwrap _)] at hpass

/-! ## Twice round the pole -/

/-- Points on a circle of latitude, off the equator. -/
theorem not_opposite_of_lat {x y lat : ℝ} (hpos : 0 < lat) (hlt : lat < 180) :
    ¬ Opposite (x, lat) (y, lat) := by
  have hturn : 180 * D2R = π := by
    rw [D2R_eq]
    ring
  have hrad := D2R_pos
  have hsin : 0 < sin (lat * D2R) := by
    apply sin_pos_of_pos_of_lt_pi
    · positivity
    · rw [← hturn]
      gcongr
  have hone := sin_sq_add_cos_sq (lat * D2R)
  have hcos : -1 ≤ cos (x * D2R) * cos (y * D2R) + sin (x * D2R) * sin (y * D2R) := by
    rw [← cos_sub]
    exact neg_one_le_cos _
  intro hopp
  rw [Opposite, omegaOf, arccos_eq_pi, toXYZ, toXYZ] at hopp
  rcases max_le_iff.mp hopp with ⟨-, hmin⟩
  rcases min_le_iff.mp hmin with habs | hdot
  · norm_num at habs
  · nlinarith [mul_self_nonneg (cos (lat * D2R))]

theorem legSteps_eq_one {a b : LngLat ℝ} (h : haversineKm a b < 375) : legSteps a b = 1 := by
  have hround : jsRound (haversineKm a b / (250 : ℕ)) ≤ 1 := by
    rw [jsRound, ← Int.lt_add_one_iff, Int.floor_lt]
    push_cast
    linarith
  rw [legSteps]
  split
  · rfl
  · rw [max_eq_left (min_le_of_right_le hround)]
    rfl

/-- A degree from the pole. -/
theorem haversineKm_polar (x y : ℝ) : haversineKm (x, 89) (y, 89) < 375 := by
  have hcos : cos (89 * D2R) = sin D2R := by
    have hrest : 89 * D2R = π / 2 - D2R := by
      rw [D2R_eq]
      ring
    rw [hrest, cos_pi_div_two_sub]
  have hpi : D2R ≤ π / 2 := by
    rw [D2R_eq]
    linarith [pi_pos]
  have hrad := D2R_pos
  have hsin : 0 ≤ sin D2R := sin_nonneg_of_nonneg_of_le_pi hrad.le (by linarith)
  have hhalf : sin ((y - x) * D2R / 2) ^ 2 ≤ 1 := sin_sq_le_one _
  have hroot : sqrt (sin ((89 - 89) * D2R / 2) ^ 2 +
      cos (89 * D2R) * cos (89 * D2R) * sin ((y - x) * D2R / 2) ^ 2) ≤ sin D2R := by
    rw [sub_self, zero_mul, zero_div, sin_zero, hcos]
    apply sqrt_le_iff.mpr ⟨hsin, ?_⟩
    nlinarith [mul_self_nonneg (sin D2R)]
  have harc : arcsin (min 1 (sqrt (sin ((89 - 89) * D2R / 2) ^ 2 +
      cos (89 * D2R) * cos (89 * D2R) * sin ((y - x) * D2R / 2) ^ 2))) ≤ D2R :=
    (arcsin_le_arcsin ((min_le_right _ _).trans hroot)).trans_eq
      (arcsin_sin (by linarith) hpi)
  rw [haversineKm_eq]
  dsimp only
  have hlt : 6371 * 2 * D2R < 375 := by
    rw [D2R_eq]
    linarith [pi_le_four]
  linarith

/-- The hops of a path, a degree from the pole. -/
def polarHop (k : ℤ) : LngLat ℝ := ((120 : ℕ) * k, (89 : ℕ))

def polarHops : List (LngLat ℝ) := [0, 1, -1, 0, 1, -1].map polarHop

theorem wrapped_polarHop {k : ℤ} (hk : |k| ≤ 1) : Wrapped (polarHop k) := by
  rw [wrapped_iff, polarHop]
  rcases abs_le_one_cases hk with rfl | rfl | rfl <;> norm_num

theorem polarHop_fst (k : ℤ) : (polarHop k).1 = 120 * k := by simp [polarHop]

theorem legSteps_polarHop (j k : ℤ) : legSteps (polarHop j) (polarHop k) = 1 := by
  rw [polarHop, polarHop, Nat.cast_ofNat, Nat.cast_ofNat]
  exact legSteps_eq_one (haversineKm_polar _ _)

theorem not_opposite_polarHop (j k : ℤ) : ¬ Opposite (polarHop j) (polarHop k) :=
  not_opposite_of_lat (by norm_num) (by norm_num)

theorem toLngLat_polarHop {k : ℤ} (hk : |k| ≤ 1) : toLngLat (toXYZ (polarHop k)) = polarHop k := by
  apply toLngLat_toXYZ
  · rw [polarHop]
    norm_num
  · rw [polarHop_fst]
    rcases abs_le_one_cases hk with rfl | rfl | rfl <;> norm_num
  · exact (wrapped_iff.mp (wrapped_polarHop hk)).2

theorem legPoint_polarHop_one (j : ℤ) {k : ℤ} (hk : |k| ≤ 1) :
    legPoint (polarHop j) (polarHop k) 1 = polarHop k := by
  rw [legPoint]
  split
  · rfl
  · rename_i hge
    rw [legSteps_polarHop, Nat.cast_one, div_one,
      slerp_one (sin_omegaOf_ne_zero hge (not_opposite_polarHop j k)), toLngLat_polarHop hk]

theorem legPoint_polarHop_zero {j : ℤ} (hj : |j| ≤ 1) (k : ℤ) :
    legPoint (polarHop j) (polarHop k) 0 = polarHop j ∨
      legPoint (polarHop j) (polarHop k) 0 = polarHop k := by
  rw [legPoint]
  split
  · exact Or.inr rfl
  · rename_i hge
    left
    rw [Nat.cast_zero, zero_div,
      slerp_zero (sin_omegaOf_ne_zero hge (not_opposite_polarHop j k)), toLngLat_polarHop hj]

theorem laterLegs_polarHop (j : ℤ) {ks : List ℤ} (hks : ∀ k ∈ ks, |k| ≤ 1) :
    laterLegs (polarHop j) (ks.map polarHop) = ks.map polarHop := by
  induction ks generalizing j with
  | nil => rfl
  | cons k ks ih =>
      obtain ⟨hk, hks⟩ := List.forall_mem_cons.mp hks
      have hleg : legPoints (polarHop j) (polarHop k) 1 = [polarHop k] := by
        rw [legPoints, legSteps_polarHop]
        exact congrArg (fun p ↦ [p]) (legPoint_polarHop_one j hk)
      rw [List.map_cons, laterLegs, hleg, ih k hks, List.singleton_append]

theorem not_windsOnce_polar {p : LngLat ℝ} (hp : p = polarHop 0 ∨ p = polarHop 1) :
    ¬ WindsOnce (p :: [1, -1, 0, 1, -1].map polarHop) := by
  have hfirst : p.1 = 0 ∨ p.1 = 120 := by
    rcases hp with rfl | rfl
    · left
      simp [polarHop]
    · right
      simp [polarHop]
  rcases hfirst with hp | hp
  · norm_num [WindsOnce, WindsOnceFrom, crossing, polarHop_fst, hp]
  · norm_num [WindsOnce, WindsOnceFrom, crossing, polarHop_fst, hp]

/-- Eastwards round the pole, and on. -/
theorem polar_seam : (∀ p ∈ polarHops, Wrapped p) ∧ ¬ Seamless (densifyPath polarHops) := by
  have hall : ∀ k ∈ [(0 : ℤ), 1, -1, 0, 1, -1], |k| ≤ 1 := by decide
  have hwrapped : ∀ p ∈ polarHops, Wrapped p := by
    intro p hp
    obtain ⟨k, hk, rfl⟩ := List.mem_map.mp hp
    exact wrapped_polarHop (hall k hk)
  have hlater : laterLegs (polarHop 1) ([-1, 0, 1, -1].map polarHop) =
      [-1, 0, 1, -1].map polarHop := laterLegs_polarHop 1 (by decide)
  have hfirst : legPoints (polarHop 0) (polarHop 1) 0 =
      [legPoint (polarHop 0) (polarHop 1) 0, polarHop 1] := by
    have hone := legPoint_polarHop_one 0 (k := 1) (by decide)
    rw [legPoints, legSteps_polarHop]
    change [_, legPoint (polarHop 0) (polarHop 1) 1] = _
    rw [hone]
  refine ⟨hwrapped, fun hseamless ↦ ?_⟩
  have hrest : ∀ q ∈ [-1, 0, 1, -1].map polarHop, Wrapped q :=
    fun q hq ↦ hwrapped q (List.mem_cons_of_mem _ (List.mem_cons_of_mem _ hq))
  have hwinds := (densifyPath_seamless_iff (polarHop 0) (wrapped_polarHop (by decide))
    hrest).mp hseamless
  rw [hfirst, hlater] at hwinds
  exact not_windsOnce_polar (legPoint_polarHop_zero (by decide) 1) hwinds

end TrafficMap.Web
