import TrafficMap.Web.CableNet
import Mathlib.Data.Rat.Floor

/-!
# The build of the cable network

With longitudes from -540 on, every node reaches every other, and the loop over the
components marks no node as main that it has not joined.
-/

namespace TrafficMap.Web

variable {K : Type} [Field K] [LinearOrder K] [IsStrictOrderedRing K] [FloorRing K]

/-- Every entry has its mate at the other end, for the same segment in the other
direction. -/
def Mirrored (adj : ℕ → List (Link K Branch)) : Prop := ∀ u, ∀ e ∈ adj u,
  0 < e.w ∧ ⟨u, e.w, e.tag.branchIdx, !e.tag.reversed⟩ ∈ adj e.dest

section Loop

variable (E : Earth K) (systems : List (List (List (LngLat K))))

/-- The labels and the sizes of the components. -/
def systemComponents : CompOf × List ℕ :=
  components (addSystems E systems).nodeCoord.length (Links.rows (addSystems E systems).wires)

/-- The edges and the labels when the components below `c` have had their turn. -/
def bridged (c : ℕ) : List (Wire K Branch) × CompOf :=
  (List.range c).foldl
    (foldComponent E (addSystems E systems).nodeCoord (mainComp (systemComponents E systems).2))
    ((addSystems E systems).wires, (systemComponents E systems).1)

/-- The nodes marked as main are those of the main component and of the components below
`c`, and they reach each other. -/
structure MarksJoined (c : ℕ) : Prop where
  marked_iff : ∀ n < (addSystems E systems).nodeCoord.length,
    (bridged E systems c).2 n = some (mainComp (systemComponents E systems).2) ↔
      (systemComponents E systems).1 n = some (mainComp (systemComponents E systems).2) ∨
        ∃ i < c, (systemComponents E systems).1 n = some i
  reach : ∀ m < (addSystems E systems).nodeCoord.length,
    ∀ n < (addSystems E systems).nodeCoord.length,
    (bridged E systems c).2 m = some (mainComp (systemComponents E systems).2) →
    (bridged E systems c).2 n = some (mainComp (systemComponents E systems).2) →
      Links.Reach (Links.rows (bridged E systems c).1) m n

/-- The network as it is built. -/
structure FullyConnected : Prop where
  reach : ∀ u < (buildCableGraph E systems).nodeCoord.length,
    ∀ v < (buildCableGraph E systems).nodeCoord.length,
    Links.Reach (Links.rows (buildCableGraph E systems).wires) u v
  mirrored : Mirrored (Links.rows (buildCableGraph E systems).wires)
  marks : ∀ c ≤ (systemComponents E systems).2.length, MarksJoined E systems c

end Loop

section Mirror

/-- An edge of a segment, or a bridge. -/
def TwoWay (ws : List (Wire K Branch)) : Prop := ∀ x ∈ ws, 0 < x.w ∧
  x.out = ⟨x.out.branchIdx, false⟩ ∧ x.back = ⟨x.out.branchIdx, true⟩

omit [IsStrictOrderedRing K] [FloorRing K] in
theorem TwoWay.addEdge {ws : List (Wire K Branch)} (h : TwoWay ws) (a b : ℕ) (w : K)
    (bi : Option ℕ) : TwoWay (addEdge ws a b w bi) := by
  rw [Web.addEdge]
  split
  · exact h
  · rename_i hadd
    intro x hx
    rcases List.mem_append.mp hx with hold | hnew
    · exact h x hold
    · rw [List.mem_singleton.mp hnew]
      exact ⟨not_le.mp (not_or.mp hadd).2, rfl, rfl⟩

omit [IsStrictOrderedRing K] [FloorRing K] in
theorem TwoWay.mirrored {ws : List (Wire K Branch)} (h : TwoWay ws) :
    Mirrored (Links.rows ws) := by
  intro u e he
  obtain ⟨x, hx, ⟨ha, rfl⟩ | ⟨hb, rfl⟩⟩ := Links.mem_rows.mp he
  · obtain ⟨hpos, hout, hback⟩ := h x hx
    refine ⟨hpos, Links.mem_rows.mpr ⟨x, hx, Or.inr ⟨rfl, ?_⟩⟩⟩
    rw [ha, hback, hout]
    rfl
  · obtain ⟨hpos, hout, hback⟩ := h x hx
    refine ⟨hpos, Links.mem_rows.mpr ⟨x, hx, Or.inl ⟨rfl, ?_⟩⟩⟩
    rw [hb, hback, hout]
    rfl

omit [IsStrictOrderedRing K] in
theorem mirrored_buildCableGraph (E : Earth K) (systems : List (List (List (LngLat K)))) :
    Mirrored (Links.rows (buildCableGraph E systems).wires) := by
  apply TwoWay.mirrored
  apply buildCableGraph_wires
  · exact fun _ a b w bi h ↦ h.addEdge a b w bi
  · exact fun x hx ↦ absurd hx List.not_mem_nil

end Mirror

section Range

variable {E : Earth K}

omit [IsStrictOrderedRing K] in
/-- A distance that is zero exactly between equal points tells nodes apart that
`normLon` leaves alone. -/
theorem apart_of_eq_zero_iff (hnonneg : ∀ p q, 0 ≤ E.haversineKm p q)
    (hzero : ∀ p q, E.haversineKm p q = 0 ↔ p = q) : E.Apart fun c ↦ normLon c.1 = c.1 where
  nonneg := hnonneg
  self p := (hzero p p).mpr rfl
  normLon _ hp := hp
  eq_of_zero p q _ _ h := (hzero p q).mp h

theorem normLon_normLon {x : K} (hx : -540 ≤ x) : normLon (normLon x) = normLon x := by
  obtain ⟨hlo, hhi⟩ := normLon_mem hx
  exact normLon_of_mem hlo hhi

omit [IsStrictOrderedRing K] in
theorem marksJoined_of_folded {systems : List (List (List (LngLat K)))} {c : ℕ}
    (h : Folded (addSystems E systems).nodeCoord (addSystems E systems).wires
      (systemComponents E systems).1 (mainComp (systemComponents E systems).2) c
      (bridged E systems c)) : MarksJoined E systems c := by
  refine ⟨?_, h.reach⟩
  intro n hn
  constructor
  · exact h.only n hn
  · rintro (hmain | ⟨i, hi, hi'⟩)
    · exact (h.kept n hn).elim id fun hkept ↦ hkept.trans hmain
    · exact h.folded n hn i hi hi'

theorem marksJoined_bridged {P : LngLat K → Prop} (hE : E.Apart P)
    {systems : List (List (List (LngLat K)))}
    (hrange : ∀ segs ∈ systems, ∀ seg ∈ segs, ∀ c ∈ seg, P (normLon c.1, c.2)) {c : ℕ}
    (hc : c ≤ (systemComponents E systems).2.length) : MarksJoined E systems c := by
  have hnet := netOk_addSystems hE hrange
  have hlabel : Labelled (addSystems E systems).wires (addSystems E systems).nodeCoord.length
      (systemComponents E systems).1 (systemComponents E systems).2.length :=
    labelled_components _ _
  rcases Nat.eq_zero_or_pos (systemComponents E systems).2.length with hzero | hpos
  · -- no component, no node
    have hnone : ∀ n, ¬ n < (addSystems E systems).nodeCoord.length := by
      intro n hn
      obtain ⟨i, hi⟩ := hlabel.all n hn
      have hlt := hlabel.lt n i hi
      omega
    exact ⟨fun n hn ↦ absurd hn (hnone n), fun m hm ↦ absurd hm (hnone m)⟩
  · apply marksJoined_of_folded
    exact folded_range hE hnet.nodes hlabel hnet.wires hc hpos

end Range

/-- With the distance any that is zero exactly between equal points. -/
theorem fullyConnected_buildCableGraph (E : Earth K) (hnonneg : ∀ p q, 0 ≤ E.haversineKm p q)
    (hzero : ∀ p q, E.haversineKm p q = 0 ↔ p = q) (systems : List (List (List (LngLat K))))
    (hlon : ∀ segs ∈ systems, ∀ seg ∈ segs, ∀ c ∈ seg, -540 ≤ c.1) :
    FullyConnected E systems := by
  have hE := apart_of_eq_zero_iff hnonneg hzero
  have hrange : ∀ segs ∈ systems, ∀ seg ∈ segs, ∀ c ∈ seg,
      normLon (normLon c.1, c.2).1 = (normLon c.1, c.2).1 :=
    fun segs hsegs seg hseg c hc ↦ normLon_normLon (hlon segs hsegs seg hseg c hc)
  constructor
  · exact (connected_of_apart hE hrange).reach
  · exact mirrored_buildCableGraph E systems
  · exact fun c hc ↦ marksJoined_bridged hE hrange hc

/-! ## West of -540 -/

section West

/-- The length along meridians and parallels. -/
def taxicab : Earth ℚ where
  haversineKm p q := |p.1 - q.1| + |p.2 - q.2|
  continentGroup _ := none
  landFraction _ _ := 0
  zonesBlock _ _ _ := false
  countryRings _ := []

/-- Two segments from the same landing. -/
def forked (lon : ℚ) : List (List (List (LngLat ℚ))) :=
  [[[(lon, 0), (lon, 1)], [(lon, 0), (lon, 2)]]]

theorem taxicab_nonneg (p q : LngLat ℚ) : 0 ≤ taxicab.haversineKm p q :=
  add_nonneg (abs_nonneg _) (abs_nonneg _)

theorem taxicab_eq_zero_iff (p q : LngLat ℚ) : taxicab.haversineKm p q = 0 ↔ p = q := by
  have hsum : taxicab.haversineKm p q = 0 ↔ |p.1 - q.1| = 0 ∧ |p.2 - q.2| = 0 :=
    add_eq_zero_iff_of_nonneg (abs_nonneg _) (abs_nonneg _)
  rw [hsum, abs_eq_zero, abs_eq_zero, sub_eq_zero, sub_eq_zero, Prod.ext_iff]

/-- A system in two parts, and a system far away. -/
def twoSystems : List (List (List (LngLat ℚ))) :=
  [[[(0, 0), (0, 10)], [(0, 20), (0, 30)]], [[(50, 0), (50, 10)]]]

/-- The parts are bridged to each other, and then the systems. -/
theorem fullyConnected_twoSystems :
    (buildCableGraph taxicab twoSystems).wires.map (fun x ↦ (x.a, x.b, x.out.branchIdx)) =
        [(0, 1, some 0), (2, 3, some 1), (0, 2, none), (4, 5, some 2), (4, 0, none)] ∧
      FullyConnected taxicab twoSystems := by
  have hlon : ∀ segs ∈ twoSystems, ∀ seg ∈ segs, ∀ c ∈ seg, -540 ≤ c.1 := by decide +kernel
  refine ⟨by decide +kernel, ?_⟩
  exact fullyConnected_buildCableGraph taxicab taxicab_nonneg taxicab_eq_zero_iff _ hlon

/-- The landing is there twice, and the bridge between the two has no length. -/
theorem not_fullyConnected_west : ¬ ∀ E : Earth ℚ, (∀ p q, 0 ≤ E.haversineKm p q) →
    (∀ p q, E.haversineKm p q = E.haversineKm q p) →
    (∀ p q, E.haversineKm p q = 0 ↔ p = q) → ∀ systems, FullyConnected E systems := by
  intro hall
  have hsymm : ∀ p q, taxicab.haversineKm p q = taxicab.haversineKm q p :=
    fun p q ↦ congrArg₂ (· + ·) (abs_sub_comm _ _) (abs_sub_comm _ _)
  have hreach := (hall taxicab taxicab_nonneg hsymm taxicab_eq_zero_iff (forked (-600))).reach 0
    (by decide +kernel) 2 (by decide +kernel)
  have hends : ∀ x ∈ (buildCableGraph taxicab (forked (-600))).wires, x.a < 2 ↔ x.b < 2 := by
    have hall : ((buildCableGraph taxicab (forked (-600))).wires.all fun x ↦
        decide (x.a < 2 ↔ x.b < 2)) = true := by decide +kernel
    simpa using hall
  have hside := hreach.invariant (p := fun n ↦ n < 2) hends
  exact absurd (hside.mp two_pos) (lt_irrefl 2)

end West

end TrafficMap.Web
