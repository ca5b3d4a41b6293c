import TrafficMap.Web.Branches
import TrafficMap.Web.Connected

/-!
# Landings and their clusters

The end of a cable joins the nearest node within `CLUSTER_KM`.  The search looks at the
nodes that are filed under the nine cells around, of a degree each way: fewer kilometres
in the north, and none behind the dateline.
-/

namespace TrafficMap.Web

variable {K : Type} [Field K] [LinearOrder K] [FloorRing K]

section Defs

variable (E : Earth K)

/-- The nodes after a sequence of ends. -/
def feed (ps : List (LngLat K)) : List (LngLat K) :=
  ps.foldl (fun nodes p ↦ (findOrAdd E nodes p).2) []

/-- A node within reach of the point, none of the others nearer. -/
structure NearestNode (nodes : List (LngLat K)) (p : LngLat K) (id : ℕ) : Prop where
  lt : id < nodes.length
  near : E.haversineKm (nodeAt nodes id) p < (CLUSTER_KM : K)
  nearest : ∀ j < nodes.length,
    E.haversineKm (nodeAt nodes id) p ≤ E.haversineKm (nodeAt nodes j) p

/-- Where some node is within reach, a nearest one is returned and none is created. -/
def Clusters (nodes : List (LngLat K)) (p : LngLat K) : Prop :=
  (∃ j < nodes.length, E.haversineKm (nodeAt nodes j) p < (CLUSTER_KM : K)) →
    (findOrAdd E nodes p).2 = nodes ∧ NearestNode E nodes p (findOrAdd E nodes p).1

/-- Where some node is within reach, a nearest one is filed under one of the nine cells. -/
def NearestFiled (nodes : List (LngLat K)) (p : LngLat K) : Prop :=
  (∃ j < nodes.length, E.haversineKm (nodeAt nodes j) p < (CLUSTER_KM : K)) →
    ∃ j ∈ nodesAround nodes (normLon p.1, p.2), NearestNode E nodes p j

/-- Longitudes that differ by whole turns are the same. -/
def Periodic : Prop := ∀ (p q : LngLat K) (k : ℤ),
  E.haversineKm p (q.1 + (360 : ℕ) * k, q.2) = E.haversineKm p q

end Defs

section Feed

variable {E : Earth K} {nodes : List (LngLat K)} {p : LngLat K}

theorem exists_normLon_eq (x : K) : ∃ k : ℤ, normLon x = x + (360 : ℕ) * k := by
  rw [normLon, jsMod]
  split
  · refine ⟨1 - ⌊(x + (540 : ℕ)) / (360 : ℕ)⌋, ?_⟩
    push_cast
    ring
  · refine ⟨1 - ⌈(x + (540 : ℕ)) / (360 : ℕ)⌉, ?_⟩
    push_cast
    ring

theorem Periodic.normLon (hE : Periodic E) (q p : LngLat K) :
    E.haversineKm q (Web.normLon p.1, p.2) = E.haversineKm q p := by
  obtain ⟨k, hk⟩ := exists_normLon_eq p.1
  rw [hk]
  exact hE q p k

theorem Periodic.clusterNode_eq (hE : Periodic E) (nodes : List (LngLat K)) (p : LngLat K) :
    clusterNode E nodes (Web.normLon p.1, p.2) =
      ((nodesAround nodes (Web.normLon p.1, p.2)).filter fun id ↦
        E.haversineKm (nodeAt nodes id) p < (CLUSTER_KM : K)).argmin fun id ↦
          E.haversineKm (nodeAt nodes id) p := by
  simp only [clusterNode, hE.normLon]

/-- A search that fails has no node within reach in its cells. -/
theorem far_of_clusterNode_none (hE : Periodic E)
    (h : clusterNode E nodes (normLon p.1, p.2) = none) {j : ℕ}
    (hj : j ∈ nodesAround nodes (normLon p.1, p.2)) :
    ¬ E.haversineKm (nodeAt nodes j) p < (CLUSTER_KM : K) := by
  intro hnear
  rw [hE.clusterNode_eq, List.argmin_eq_none, List.filter_eq_nil_iff] at h
  exact h j hj (decide_eq_true hnear)

theorem clusters_iff (hE : Periodic E) (nodes : List (LngLat K)) (p : LngLat K) :
    Clusters E nodes p ↔ NearestFiled E nodes p := by
  refine imp_congr_right fun _ ↦ ?_
  rw [findOrAdd]
  cases hfound : clusterNode E nodes (normLon p.1, p.2) with
  | none =>
      constructor
      · rintro ⟨hsame, -⟩
        have hlength := congrArg List.length hsame
        rw [List.length_append, List.length_singleton] at hlength
        omega
      · rintro ⟨j, hj, hnearest⟩
        exact absurd hnearest.near (far_of_clusterNode_none hE hfound hj)
  | some id =>
      rw [hE.clusterNode_eq] at hfound
      obtain ⟨hmem, hnear⟩ := List.mem_filter.mp (List.argmin_mem hfound)
      constructor
      · rintro ⟨-, hnearest⟩
        exact ⟨id, hmem, hnearest⟩
      · rintro ⟨j, hj, hnearest⟩
        have hle : E.haversineKm (nodeAt nodes id) p ≤ E.haversineKm (nodeAt nodes j) p := by
          refine List.le_of_mem_argmin ?_ hfound
          exact List.mem_filter.mpr ⟨hj, decide_eq_true hnearest.near⟩
        exact ⟨rfl, lt_of_mem_nodesAround hmem, of_decide_eq_true hnear,
          fun k hk ↦ hle.trans (hnearest.nearest k hk)⟩

/-- No two nodes are within reach of each other. -/
def NodesApart (E : Earth K) (nodes : List (LngLat K)) : Prop :=
  nodes.Pairwise fun a b ↦ (CLUSTER_KM : K) ≤ E.haversineKm a b

theorem NodesApart.findOrAdd (hE : Periodic E) (h : NodesApart E nodes)
    (hfiled : NearestFiled E nodes p) : NodesApart E (Web.findOrAdd E nodes p).2 := by
  rw [Web.findOrAdd]
  cases hfound : clusterNode E nodes (normLon p.1, p.2) with
  | some id => exact h
  | none =>
      refine List.pairwise_append.mpr ⟨h, List.pairwise_singleton _ _, ?_⟩
      intro a ha b hb
      rw [List.mem_singleton.mp hb, hE.normLon]
      by_contra hnear
      rw [not_le] at hnear
      obtain ⟨i, hi, rfl⟩ := List.mem_iff_getElem.mp ha
      rw [← nodeAt_eq_getElem hi] at hnear
      obtain ⟨j, hj, hnearest⟩ := hfiled ⟨i, hi, hnear⟩
      exact far_of_clusterNode_none hE hfound hj hnearest.near

/-- The ends of a sequence are clustered, and the nodes are apart, if and only if at each
end a nearest node within reach is filed under the nine cells around it. -/
theorem clustered_iff (hE : Periodic E) (ps : List (LngLat K)) :
    ((∀ pre p, pre ++ [p] <+: ps → Clusters E (feed E pre) p) ∧ NodesApart E (feed E ps)) ↔
      ∀ pre p, pre ++ [p] <+: ps → NearestFiled E (feed E pre) p := by
  constructor
  · rintro ⟨hclusters, -⟩ pre p hpre
    exact (clusters_iff hE _ p).mp (hclusters pre p hpre)
  · intro hfiled
    refine ⟨fun pre p hpre ↦ (clusters_iff hE _ p).mpr (hfiled pre p hpre), ?_⟩
    induction ps using List.reverseRecOn with
    | nil => exact List.Pairwise.nil
    | append_singleton ps p ih =>
        have hold := ih fun pre q hpre ↦ hfiled pre q (hpre.trans (List.prefix_append _ _))
        have hnew := hold.findOrAdd hE (hfiled ps p (List.prefix_refl _))
        rw [feed, List.foldl_append]
        exact hnew

end Feed

/-! ## At the dateline -/

/-- The distance of `geo.ts` does not see whole turns. -/
theorem periodic_earth (polys : List Poly) : Periodic (earth polys) := by
  intro p q k
  have hturn : ((q.1 + ((360 : ℕ) : ℝ) * k) - p.1) * D2R / 2 =
      (q.1 - p.1) * D2R / 2 + k * Real.pi := by
    rw [D2R_eq]
    push_cast
    ring
  have hsign : ((-1 : ℝ) ^ k) ^ 2 = 1 := by
    rcases Int.even_or_odd k with hk | hk
    · rw [hk.neg_one_zpow, one_pow]
    · rw [hk.neg_one_zpow, neg_one_sq]
  change haversineKm p (q.1 + (360 : ℕ) * k, q.2) = haversineKm p q
  rw [haversineKm_eq, haversineKm_eq, hturn, Real.sin_add_int_mul_pi, mul_pow, hsign, one_mul]

/-- Two ends a tenth of a degree apart, and one far away. -/
noncomputable def greenwichEnds : List (LngLat ℝ) :=
  [(0, 0), ((1 : ℕ) / (10 : ℕ), 0), ((50 : ℕ), 0)]

theorem greenwichEnds_eq : greenwichEnds = [(0, 0), (1 / 10, 0), (50, 0)] := by
  norm_num [greenwichEnds]

theorem nearestFiled_greenwich : NearestFiled (earth farPolys) [(0, 0)] (1 / 10, 0) := by
  intro hnear
  have hnorm : normLon (1 / 10 : ℝ) = 1 / 10 := normLon_of_mem (by norm_num) (by norm_num)
  have hzero : normLon (0 : ℝ) = 0 := normLon_of_mem (by norm_num) (by norm_num)
  refine ⟨0, mem_nodesAround_of_cell Nat.one_pos ?_, Nat.one_pos, ?_, ?_⟩
  · change (⌊normLon (0 : ℝ)⌋, ⌊(0 : ℝ)⌋) = (⌊normLon (1 / 10 : ℝ)⌋, ⌊(0 : ℝ)⌋)
    rw [hnorm, hzero]
    norm_num
  · obtain ⟨j, hj, hnear⟩ := hnear
    rwa [Nat.lt_one_iff.mp hj] at hnear
  · intro j hj
    rw [Nat.lt_one_iff.mp hj]

theorem near_greenwich : haversineKm (0, 0) (1 / 10, 0) < 60 := by
  rw [haversineKm_equator (by norm_num [abs_le]), sub_zero, abs_of_pos (by norm_num), D2R_eq]
  have hpi := Real.pi_le_four
  linarith

theorem far_greenwich : ¬ haversineKm (0, 0) (50, 0) < 60 := by
  rw [haversineKm_equator (by norm_num), sub_zero, abs_of_pos (by norm_num), D2R_eq]
  have hpi := Real.two_le_pi
  linarith

theorem feed_greenwich :
    feed (earth farPolys) [(0, 0)] = [(0, 0)] ∧
      feed (earth farPolys) [(0, 0), (1 / 10, 0)] = [(0, 0)] ∧
      feed (earth farPolys) greenwichEnds = [(0, 0), (50, 0)] := by
  have hfirst : findOrAdd (earth farPolys) [] ((0 : ℝ), (0 : ℝ)) = (0, [(0, 0)]) := by
    rw [findOrAdd_far (fun c hc ↦ absurd hc List.not_mem_nil),
      normLon_of_mem (by norm_num) (by norm_num)]
    rfl
  have hsecond : (findOrAdd (earth farPolys) [(0, 0)] (1 / 10, 0)).2 = [(0, 0)] :=
    ((clusters_iff (periodic_earth farPolys) _ _).mpr nearestFiled_greenwich
      ⟨0, Nat.one_pos, near_greenwich⟩).1
  have hthird : findOrAdd (earth farPolys) [(0, 0)] (50, 0) = (1, [(0, 0), (50, 0)]) := by
    have hnorm : normLon (50 : ℝ) = 50 := normLon_of_mem (by norm_num) (by norm_num)
    have hzero : normLon (0 : ℝ) = 0 := normLon_of_mem (by norm_num) (by norm_num)
    rw [findOrAdd_far, hnorm]
    · rfl
    · intro c hc
      rw [List.mem_singleton.mp hc, hnorm, hzero]
      norm_num
  refine ⟨?_, ?_, ?_⟩
  · rw [feed, List.foldl_cons, hfirst]
    rfl
  · rw [feed, List.foldl_cons, hfirst, List.foldl_cons, hsecond]
    rfl
  · rw [feed, greenwichEnds_eq, List.foldl_cons, hfirst, List.foldl_cons, hsecond, List.foldl_cons,
      hthird]
    rfl

/-- The second end joins the first, the third becomes a node of its own. -/
theorem clustered_greenwich : feed (earth farPolys) greenwichEnds = [(0, 0), (50, 0)] ∧
    (∀ pre p, pre ++ [p] <+: greenwichEnds →
      Clusters (earth farPolys) (feed (earth farPolys) pre) p) ∧
    NodesApart (earth farPolys) (feed (earth farPolys) greenwichEnds) := by
  refine ⟨feed_greenwich.2.2, (clustered_iff (periodic_earth farPolys) greenwichEnds).mpr ?_⟩
  intro pre p hpre
  rw [greenwichEnds_eq] at hpre
  rcases pre with _ | ⟨a, _ | ⟨b, _ | ⟨c, pre⟩⟩⟩
  · rintro ⟨j, hj, -⟩
    exact absurd hj (Nat.not_lt_zero j)
  · simp only [List.cons_append, List.nil_append, List.cons_prefix_cons, List.nil_prefix,
      and_true] at hpre
    obtain ⟨rfl, rfl⟩ := hpre
    rw [feed_greenwich.1]
    exact nearestFiled_greenwich
  · simp only [List.cons_append, List.nil_append, List.cons_prefix_cons, List.nil_prefix,
      and_true] at hpre
    obtain ⟨rfl, rfl, rfl⟩ := hpre
    rw [feed_greenwich.2.1]
    rintro ⟨j, hj, hnear⟩
    rw [Nat.lt_one_iff.mp hj] at hnear
    exact absurd hnear far_greenwich
  · have hlength := hpre.length_le
    simp at hlength
    omega

/-- Ends on the equator, a fifth of a degree apart, on either side of 180. -/
noncomputable def eastEnd : LngLat ℝ := ((1799 : ℕ) / (10 : ℕ), 0)

noncomputable def westEnd : LngLat ℝ := (-((1799 : ℕ) / (10 : ℕ)), 0)

theorem normLon_ends : normLon eastEnd.1 = eastEnd.1 ∧ normLon westEnd.1 = westEnd.1 := by
  constructor
  · exact normLon_of_mem (by norm_num [eastEnd]) (by norm_num [eastEnd])
  · exact normLon_of_mem (by norm_num [westEnd]) (by norm_num [westEnd])

theorem feed_eastEnd (E : Earth ℝ) : feed E [eastEnd] = [eastEnd] := by
  have hnone : clusterNode E [] (normLon eastEnd.1, eastEnd.2) = none := by
    simp [clusterNode, nodesAround]
  rw [feed, List.foldl_cons, List.foldl_nil, findOrAdd, hnone, normLon_ends.1]
  rfl

theorem ends_near (polys : List Poly) :
    (earth polys).haversineKm eastEnd westEnd < ((CLUSTER_KM : ℕ) : ℝ) := by
  have hturn := periodic_earth polys eastEnd westEnd 1
  have hgap : westEnd.1 + ((360 : ℕ) : ℝ) * (1 : ℤ) - eastEnd.1 = 1 / 5 := by
    norm_num [eastEnd, westEnd]
  rw [← hturn]
  change haversineKm (eastEnd.1, 0) (westEnd.1 + (360 : ℕ) * (1 : ℤ), 0) < _
  rw [haversineKm_equator (by rw [hgap]; norm_num), hgap, D2R_eq]
  have hpi := Real.pi_le_four
  norm_num
  linarith

/-- The node on the other side of 180 is in none of the nine cells. -/
theorem not_mem_nodesAround_west {j : ℕ} :
    j ∉ nodesAround [eastEnd] (normLon westEnd.1, westEnd.2) := by
  intro hj
  have hlt := lt_of_mem_nodesAround hj
  obtain ⟨dx, hdx, hj⟩ := List.mem_flatMap.mp hj
  obtain ⟨dy, -, hj⟩ := List.mem_flatMap.mp hj
  have hcell := congrArg Prod.fst (of_decide_eq_true (List.mem_filter.mp hj).2)
  have hj0 : j = 0 := by simpa using hlt
  have heast : ⌊eastEnd.1⌋ = 179 := by norm_num [eastEnd]
  have hwest : ⌊westEnd.1⌋ = -180 := by norm_num [westEnd]
  rw [hj0, normLon_ends.2] at hcell
  change ⌊normLon eastEnd.1⌋ = ⌊westEnd.1⌋ + dx at hcell
  rw [normLon_ends.1, heast, hwest] at hcell
  have hoffsets : ∀ x ∈ offsets 1, x ≤ 1 := by decide
  have hle := hoffsets dx hdx
  omega

theorem dateline_split : ¬ ((∀ pre p, pre ++ [p] <+: [eastEnd, westEnd] →
      Clusters (earth farPolys) (feed (earth farPolys) pre) p) ∧
    NodesApart (earth farPolys) (feed (earth farPolys) [eastEnd, westEnd])) := by
  rw [clustered_iff (periodic_earth farPolys)]
  intro h
  have hfiled := h [eastEnd] westEnd (List.prefix_refl _)
  rw [feed_eastEnd] at hfiled
  obtain ⟨j, hj, -⟩ := hfiled ⟨0, Nat.one_pos, ends_near farPolys⟩
  exact not_mem_nodesAround_west hj

end TrafficMap.Web
