import TrafficMap.Web.Geo

/-!
# Where drawn lines start and end

The lines of `densifyPath` and `densifyGreatCircle` run from the first of their
points to the last, up to whole turns, unless the first leg is shorter than a few
metres or a leg has no great circle of its own.
-/

namespace TrafficMap.Web

open Real

/-! ## The same place -/

/-- Longitudes that differ by whole turns. -/
structure SameSpot (p q : LngLat ℝ) : Prop where
  lat : p.2 = q.2
  lon : ∃ k : ℤ, p.1 = q.1 + (360 : ℕ) * k

/-- A line from `a` to `b`. -/
structure Joins (a b : LngLat ℝ) (path : List (LngLat ℝ)) : Prop where
  head : ∃ p, path.head? = some p ∧ SameSpot p a
  last : ∃ p, path.getLast? = some p ∧ SameSpot p b

/-- Diametrically opposite points. -/
def Opposite (p q : LngLat ℝ) : Prop := omegaOf (toXYZ p) (toXYZ q) = π

/-- Points that are not told apart. -/
def Near (p q : LngLat ℝ) : Prop := omegaOf (toXYZ p) (toXYZ q) < minOmega

section Spot

variable {p q r : LngLat ℝ}

theorem SameSpot.refl (p : LngLat ℝ) : SameSpot p p := ⟨rfl, 0, by simp⟩

theorem SameSpot.symm (h : SameSpot p q) : SameSpot q p := by
  obtain ⟨hlat, k, hk⟩ := h
  refine ⟨hlat.symm, -k, ?_⟩
  rw [hk]
  push_cast
  ring

theorem SameSpot.trans (h : SameSpot p q) (h' : SameSpot q r) : SameSpot p r := by
  obtain ⟨hlat, k, hk⟩ := h
  obtain ⟨hlat', k', hk'⟩ := h'
  refine ⟨hlat.trans hlat', k + k', ?_⟩
  rw [hk, hk']
  push_cast
  ring

theorem SameSpot.toXYZ_eq (h : SameSpot p q) : toXYZ p = toXYZ q := by
  obtain ⟨hlat, k, hk⟩ := h
  have hturn : p.1 * D2R = q.1 * D2R + k * (2 * π) := by
    rw [hk, D2R_eq]
    push_cast
    ring
  rw [toXYZ, toXYZ, hlat, hturn, cos_add_int_mul_two_pi, sin_add_int_mul_two_pi]

theorem SameSpot.opposite_iff (h : SameSpot p q) (r : LngLat ℝ) :
    (Opposite r p ↔ Opposite r q) ∧ (Opposite p r ↔ Opposite q r) := by
  rw [Opposite, Opposite, Opposite, Opposite, h.toXYZ_eq]
  exact ⟨Iff.rfl, Iff.rfl⟩

theorem SameSpot.near_iff (h : SameSpot p q) (r : LngLat ℝ) : Near r p ↔ Near r q := by
  rw [Near, Near, h.toXYZ_eq]

theorem sameSpot_toLngLat_toXYZ (h : |p.2| < 90) : SameSpot (toLngLat (toXYZ p)) p where
  lat := lat_toLngLat_toXYZ h
  lon := by
    refine ⟨-toIocDiv two_pi_pos (-π) (p.1 * D2R), ?_⟩
    have hmod := toIocMod_add_toIocDiv_zsmul two_pi_pos (-π) (p.1 * D2R)
    have hsub : toIocMod two_pi_pos (-π) (p.1 * D2R) =
        p.1 * D2R - toIocDiv two_pi_pos (-π) (p.1 * D2R) * (2 * π) := by
      rw [zsmul_eq_mul] at hmod
      linarith
    have hfull : 2 * π * R2D = 360 := by
      rw [R2D]
      field_simp
      norm_num
    rw [lon_toLngLat_toXYZ h, hsub, sub_mul, mul_assoc p.1, D2R_mul_R2D, mul_one, mul_assoc, hfull]
    push_cast
    ring

/-- The ends of a line are the only ones. -/
theorem Joins.unique {a b a' b' : LngLat ℝ} {path : List (LngLat ℝ)} (h : Joins a b path)
    (h' : Joins a' b' path) : SameSpot a a' ∧ SameSpot b b' := by
  obtain ⟨⟨p, hp, hpa⟩, q, hq, hqb⟩ := h
  obtain ⟨⟨p', hp', hpa'⟩, q', hq', hqb'⟩ := h'
  obtain rfl := Option.some.inj (hp.symm.trans hp')
  obtain rfl := Option.some.inj (hq.symm.trans hq')
  exact ⟨hpa.symm.trans hpa', hqb.symm.trans hqb'⟩

end Spot

/-! ## One leg -/

section Leg

variable {a b : LngLat ℝ}

theorem sin_omegaOf_ne_zero (hnear : ¬ Near a b) (hopp : ¬ Opposite a b) :
    sin (omegaOf (toXYZ a) (toXYZ b)) ≠ 0 := by
  have hmin : 0 < minOmega := by
    rw [minOmega]
    positivity
  have hpos : 0 < omegaOf (toXYZ a) (toXYZ b) := hmin.trans_le (not_lt.mp hnear)
  have hlt : omegaOf (toXYZ a) (toXYZ b) < π := (arccos_le_pi _).lt_of_ne hopp
  exact (sin_pos_of_pos_of_lt_pi hpos hlt).ne'

theorem legSteps_pos (a b : LngLat ℝ) : 0 < legSteps a b := by
  rw [legSteps]
  split
  · exact Nat.one_pos
  · rw [Int.lt_toNat]
    exact lt_of_lt_of_le one_pos (le_max_left _ _)

/-- A leg starts where it should, if points that are not told apart are the same. -/
theorem sameSpot_legPoint_zero (hlat : |a.2| < 90) (hopp : ¬ Opposite a b)
    (hnear : Near a b → SameSpot b a) : SameSpot (legPoint a b 0) a := by
  rw [legPoint]
  split
  · rename_i hlt
    exact hnear hlt
  · rename_i hge
    rw [Nat.cast_zero, zero_div, slerp_zero (sin_omegaOf_ne_zero hge hopp)]
    exact sameSpot_toLngLat_toXYZ hlat

theorem sameSpot_legPoint_last (hlat : |b.2| < 90) (hopp : ¬ Opposite a b) :
    SameSpot (legPoint a b (legSteps a b)) b := by
  have hsteps : (legSteps a b : ℝ) ≠ 0 := Nat.cast_ne_zero.mpr (legSteps_pos a b).ne'
  rw [legPoint]
  split
  · exact SameSpot.refl b
  · rename_i hge
    rw [div_self hsteps, slerp_one (sin_omegaOf_ne_zero hge hopp)]
    exact sameSpot_toLngLat_toXYZ hlat

theorem head?_legPoints (a b : LngLat ℝ) : (legPoints a b 0).head? = some (legPoint a b 0) := by
  rw [legPoints, List.head?_map, Nat.sub_zero, List.range'_succ]
  rfl

theorem getLast?_legPoints {s₀ : ℕ} (hs : s₀ ≤ legSteps a b) :
    (legPoints a b s₀).getLast? = some (legPoint a b (legSteps a b)) := by
  rw [legPoints, List.getLast?_map, Nat.succ_sub hs, List.range'_concat, List.getLast?_append,
    List.getLast?_singleton]
  simp [hs]

end Leg

/-! ## The whole line -/

theorem getLast?_unwrapFrom (prev : LngLat ℝ) (ps : List (LngLat ℝ)) {q : LngLat ℝ}
    (h : ps.getLast? = some q) :
    ∃ q', (unwrapFrom prev ps).getLast? = some q' ∧ SameSpot q' q := by
  induction ps generalizing prev with
  | nil => cases h
  | cons p ps ih =>
      rw [unwrapFrom]
      generalize hshift : (if (180 : ℕ) < p.1 - prev.1 then (p.1 - (360 : ℕ), p.2)
        else if p.1 - prev.1 < -(180 : ℕ) then (p.1 + (360 : ℕ), p.2) else p) = p'
      cases ps with
      | nil =>
          rw [List.getLast?_singleton] at h
          obtain rfl := Option.some.inj h
          refine ⟨p', rfl, ?_⟩
          rw [← hshift]
          split
          · exact ⟨rfl, -1, by push_cast; ring⟩
          · split
            · exact ⟨rfl, 1, by push_cast; ring⟩
            · exact SameSpot.refl _
      | cons p₂ ps =>
          rw [List.getLast?_cons_cons] at h
          obtain ⟨q', hq', hsame⟩ := ih p' h
          refine ⟨q', ?_, hsame⟩
          rw [List.getLast?_cons, hq']
          rfl

theorem joins_unwrap {a b : LngLat ℝ} {path : List (LngLat ℝ)} (h : Joins a b path) :
    Joins a b (unwrap path) := by
  obtain ⟨⟨p, hp, hpa⟩, ⟨q, hq, hqb⟩⟩ := h
  cases path with
  | nil => cases hp
  | cons p' ps =>
      obtain rfl := Option.some.inj hp
      refine ⟨⟨p', rfl, hpa⟩, ?_⟩
      cases ps with
      | nil =>
          obtain rfl := Option.some.inj hq
          exact ⟨p', rfl, hqb⟩
      | cons p₂ ps =>
          rw [List.getLast?_cons_cons] at hq
          obtain ⟨q', hq', hsame⟩ := getLast?_unwrapFrom p' (p₂ :: ps) hq
          refine ⟨q', ?_, hsame.trans hqb⟩
          rw [unwrap, List.getLast?_cons, hq']
          rfl

section Line

variable {a b : LngLat ℝ} (ha : |a.2| < 90) (hb : |b.2| < 90)
include ha hb

theorem joins_densifyGreatCircle (hopp : ¬ Opposite a b) : Joins a b (densifyGreatCircle a b) := by
  rw [densifyGreatCircle]
  split
  · exact ⟨⟨a, rfl, SameSpot.refl a⟩, b, rfl, SameSpot.refl b⟩
  · rename_i hge
    have hsin := sin_omegaOf_ne_zero hge hopp
    have hends : ∀ f : ℕ → LngLat ℝ, ((List.range 25).map f).head? = some (f 0) ∧
        ((List.range 25).map f).getLast? = some (f 24) := fun f ↦ ⟨rfl, rfl⟩
    refine joins_unwrap ⟨⟨_, (hends _).1, ?_⟩, _, (hends _).2, ?_⟩
    · rw [Nat.cast_zero, zero_div, slerp_zero hsin]
      exact sameSpot_toLngLat_toXYZ ha
    · rw [div_self (by norm_num), slerp_one hsin]
      exact sameSpot_toLngLat_toXYZ hb

omit ha hb in
theorem getLast?_laterLegs (p b : LngLat ℝ) (qs : List (LngLat ℝ)) :
    (laterLegs p (qs ++ [b])).getLast? = some
      (legPoint ((p :: qs).getLast (List.cons_ne_nil p qs)) b
        (legSteps ((p :: qs).getLast (List.cons_ne_nil p qs)) b)) := by
  induction qs generalizing p with
  | nil =>
      rw [List.nil_append, laterLegs, laterLegs, List.append_nil, List.getLast_singleton,
        getLast?_legPoints (legSteps_pos p b)]
  | cons q qs ih =>
      rw [List.cons_append, laterLegs, List.getLast?_append, ih, Option.some_or,
        List.getLast_cons (List.cons_ne_nil q qs)]

/-- A line with points between its ends. -/
theorem joins_densifyPath {mid : List (LngLat ℝ)} (hmid : mid ≠ [])
    (hfirst : ∀ p, mid.head? = some p → ¬ Opposite a p ∧ (Near a p → SameSpot p a))
    (hlast : ∀ p, mid.getLast? = some p → ¬ Opposite p b) :
    Joins a b (densifyPath (a :: (mid ++ [b]))) := by
  cases mid with
  | nil => exact absurd rfl hmid
  | cons q qs =>
      obtain ⟨hopp, hnear⟩ := hfirst q rfl
      rw [List.cons_append, densifyPath]
      apply joins_unwrap
      constructor
      · refine ⟨legPoint a q 0, ?_, sameSpot_legPoint_zero ha hopp hnear⟩
        rw [List.head?_append, head?_legPoints, Option.some_or]
      · refine ⟨_, ?_, sameSpot_legPoint_last hb (hlast _ (List.getLast?_eq_some_getLast hmid))⟩
        rw [List.getLast?_append, getLast?_laterLegs, Option.some_or]

end Line

end TrafficMap.Web
