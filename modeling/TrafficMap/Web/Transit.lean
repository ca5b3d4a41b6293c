import TrafficMap.Lib.Shortest
import TrafficMap.Web.Connected
import Mathlib.Tactic.IntervalCases

/-!
# Barriers on the routes

An edge of the backbone is declared or no zone blocks it.  A backhaul goes to the
nearest hub, whatever lies between, so a route respects the barriers as far as
there are shorter ways around such a backhaul.
-/

namespace TrafficMap.Web

open Real

/-! ## The edges of a route -/

section Uses

variable {K : Type} [Field K] [LinearOrder K] [FloorRing K]
variable (E : Earth K) (d : HubData K) (g : CableGraph K)

/-- The edge from `u` to `v` is terrestrial, not declared, and a zone blocks it. -/
structure Crosses (coord : ℕ → LngLat K) (u v : ℕ) : Prop where
  terrestrial : u < hubCount d ∨ v < hubCount d
  undeclared : (u, v) ∉ declared d
  undeclared' : (v, u) ∉ declared d
  blocked : E.zonesBlock (coord u) (coord v) (zones E d) = true

/-- The path that `landRoute` returns goes from `u` to `v`. -/
def LandUses (a b : LngLat K) (u v : ℕ) : Prop :=
  hubsLoaded d = true ∧ ∃ ia ib, nearestHub E d a = some ia ∧ nearestHub E d b = some ib ∧
    ia ≠ ib ∧ ∃ hops, landTrail E d ia ib = some hops ∧ ∃ tag, (u, tag, v) ∈ hops

/-- The path that `jointRoute` returns goes from `u` to `v`. -/
def JointUses (a b : LngLat K) (u v : ℕ) : Prop :=
  jointLoaded d g = true ∧ ∃ ia ib, nearestJoint E d g a = some ia ∧
    nearestJoint E d g b = some ib ∧ (jointSearch E d g ia ib).dist ib ≠ ⊤ ∧
    ∃ tag, (u, tag, v) ∈ jointTrail E d g ia ib

/-- No route uses an edge that it should not. -/
structure NoTransit : Prop where
  land : ∀ a b u v, LandUses E d a b u v → ¬ Crosses E d (hubAt d) u v
  joint : ∀ a b u v, JointUses E d g a b u v → ¬ Crosses E d (coordAt d g) u v

/-- The backhaul of a cable node crosses a barrier. -/
structure BadBackhaul (j i : ℕ) : Prop where
  lt : j < g.nodeCoord.length
  nearest : backhaulHub E d g j = some i
  crosses : Crosses E d (coordAt d g) (hubCount d + j) i

/-- The length of a backhaul. -/
def backhaulKm (j i : ℕ) : K := E.haversineKm (hubAt d i) (nodeAt g.nodeCoord j)

/-- Each bad backhaul has a shorter way between its ends. -/
def Undercut : Prop := ∀ j i, BadBackhaul E d g j i →
  ∃ w hops, Search.Way (jointAdj E d g) (hubCount d + j) i w hops ∧ w < backhaulKm E d g j i

/-- A way around a bad backhaul over the edges that routes may use, no longer than it. -/
def WayAround (j i : ℕ) : Prop :=
  ∃ w hops, Search.Way (jointAdj E d g) (hubCount d + j) i w hops ∧ w ≤ backhaulKm E d g j i ∧
    ∀ u tag v, (u, tag, v) ∈ hops → ¬ Crosses E d (coordAt d g) u v

end Uses

/-! ## Land routes -/

section Earth

variable {polys : List Poly} {d : HubData ℝ} {g : CableGraph ℝ}

theorem Crosses.symm {coord : ℕ → LngLat ℝ} {u v : ℕ} (h : Crosses (earth polys) d coord u v) :
    Crosses (earth polys) d coord v u where
  terrestrial := h.terrestrial.symm
  undeclared := h.undeclared'
  undeclared' := h.undeclared
  blocked := by
    have hblocked := h.blocked
    rw [earth_zonesBlock] at hblocked ⊢
    rwa [zonesBlock_comm]

theorem not_crosses_of_landOk {coord : ℕ → LngLat ℝ}
    (hcoord : ∀ i < hubCount d, coord i = hubAt d i) {x : Wire ℝ Unit}
    (hx : LandOk (earth polys) d x) :
    ¬ Crosses (earth polys) d coord x.a x.b := by
  intro h
  rcases hx.checked with hdeclared | hfree
  · exact h.undeclared hdeclared
  · have hblocked := h.blocked
    rw [hcoord x.a hx.a_lt, hcoord x.b hx.b_lt, hfree] at hblocked
    exact Bool.false_ne_true hblocked

theorem not_crosses_of_landUses {a b : LngLat ℝ} {u v : ℕ} (h : LandUses (earth polys) d a b u v) :
    ¬ Crosses (earth polys) d (hubAt d) u v := by
  obtain ⟨-, ia, ib, hia, -, -, hops, htrail, tag, hmem⟩ := h
  rw [landTrail] at htrail
  split at htrail
  · cases htrail
  · obtain rfl := Option.some.inj htrail
    have hsound := Search.sound_search (landAdj_bound (earth polys) d)
      (List.mem_range.mp (List.argmin_mem hia)) ib
    obtain ⟨e, he, rfl, -⟩ := hsound.step_of_mem_trail hmem
    obtain ⟨x, hx, ⟨rfl, rfl⟩ | ⟨rfl, rfl⟩⟩ := Links.mem_rows.mp he
    · exact not_crosses_of_landOk (fun i _ ↦ rfl) (landOk_landWires x hx)
    · exact fun hcross ↦
        not_crosses_of_landOk (fun i _ ↦ rfl) (landOk_landWires x hx) hcross.symm

/-! ## Joint routes -/

theorem coordAt_of_lt {i : ℕ} (hi : i < hubCount d) : coordAt d g i = hubAt d i := by
  rw [coordAt, hubAt, List.getD_eq_getElem?_getD, List.getD_eq_getElem?_getD,
    List.getElem?_append_left hi]

/-- An entry that crosses a barrier is a backhaul. -/
theorem badBackhaul_of_entry {u : ℕ} {e : Link ℝ Branch} (he : e ∈ jointAdj (earth polys) d g u)
    (hcross : Crosses (earth polys) d (coordAt d g) u e.dest) :
    ∃ j i, BadBackhaul (earth polys) d g j i ∧ e.w = backhaulKm (earth polys) d g j i ∧
      (u = hubCount d + j ∧ e.dest = i ∨ u = i ∧ e.dest = hubCount d + j) := by
  rw [jointAdj_eq_rows] at he
  obtain ⟨x, hx, hends⟩ := Links.mem_rows.mp he
  rcases mem_jointWires hx with ⟨y, hy, rfl⟩ | ⟨y, -, rfl⟩ | ⟨j, hj, i, hi, rfl⟩
  · have hok := not_crosses_of_landOk (fun i hi ↦ coordAt_of_lt (g := g) hi) (landOk_landWires y hy)
    rcases hends with ⟨rfl, rfl⟩ | ⟨rfl, rfl⟩
    · exact absurd hcross hok
    · exact absurd hcross.symm hok
  · have hends' : u = hubCount d + y.a ∧ e.dest = hubCount d + y.b ∨
        u = hubCount d + y.b ∧ e.dest = hubCount d + y.a := by
      rcases hends with ⟨rfl, rfl⟩ | ⟨rfl, rfl⟩
      · exact Or.inl ⟨rfl, rfl⟩
      · exact Or.inr ⟨rfl, rfl⟩
    have hland := hcross.terrestrial
    omega
  · rcases hends with ⟨rfl, rfl⟩ | ⟨rfl, rfl⟩
    · exact ⟨j, i, ⟨hj, hi, hcross⟩, rfl, Or.inl ⟨rfl, rfl⟩⟩
    · exact ⟨j, i, ⟨hj, hi, hcross.symm⟩, rfl, Or.inr ⟨rfl, rfl⟩⟩

theorem backhaul_mem_jointAdj {j i : ℕ} (hj : j < g.nodeCoord.length)
    (hi : backhaulHub (earth polys) d g j = some i) :
    (⟨i, backhaulKm (earth polys) d g j i, straight⟩ : Link ℝ Branch) ∈
      jointAdj (earth polys) d g (hubCount d + j) := by
  rw [jointAdj_eq_rows]
  refine Links.mem_rows.mpr ⟨backhaulWire (earth polys) d g j i, ?_, Or.inl ⟨rfl, rfl⟩⟩
  exact List.mem_append_right _ (mem_backhaulWires.mpr ⟨j, hj, i, hi, rfl⟩)

/-- A node at the point itself, and no other. -/
theorem nearestJoint_of_self {p : LngLat ℝ} {u : ℕ} (hu : u < jointSize d g)
    (hself : coordAt d g u = p)
    (hother : ∀ v < jointSize d g, v ≠ u → 0 < haversineKm (coordAt d g v) p) :
    nearestJoint (earth polys) d g p = some u := by
  cases hnearest : nearestJoint (earth polys) d g p with
  | none =>
      have hnil := List.range_eq_nil.mp (List.argmin_eq_none.mp hnearest)
      omega
  | some v =>
      by_cases hvu : v = u
      · rw [hvu]
      · have hlt := hother v (lt_of_nearestJoint hnearest) hvu
        have hmin := not_lt_of_nearestJoint hnearest hu
        rw [hself, earth_haversineKm, earth_haversineKm, haversineKm_self] at hmin
        exact absurd hlt hmin

section Joint

variable (hg : g.Connected) (hpos : PosWires g.wires)
include hg hpos

theorem shortest_jointTrail {ia ib : ℕ} (hia : ia < jointSize d g)
    (h : (jointSearch (earth polys) d g ia ib).dist ib ≠ ⊤) :
    ∃ w, Search.Shortest (jointAdj (earth polys) d g) ia ib w
      (jointTrail (earth polys) d g ia ib) := by
  have hw := jointAdj_nonneg (d := d) (isDistance_earth polys).nonneg fun x hx ↦ (hpos x hx).le
  obtain ⟨w, -, hshort⟩ := Search.shortest_trail (jointAdj_bound hg.bound) hia hw h
  exact ⟨w, hshort⟩

theorem noTransit_of_undercut (hcut : Undercut (earth polys) d g) :
    NoTransit (earth polys) d g where
  land a b u v h := not_crosses_of_landUses h
  joint a b u v h hcross := by
    obtain ⟨-, ia, ib, hia, -, hdist, tag, hmem⟩ := h
    obtain ⟨w, hshort⟩ :=
      shortest_jointTrail hg hpos (lt_of_nearestJoint hia) hdist
    obtain ⟨e, he, rfl, -, hmin⟩ := hshort.entry_le hmem
    obtain ⟨j, i, hbad, hkm, hends⟩ := badBackhaul_of_entry he hcross
    obtain ⟨w', hops, hway, hlt⟩ := hcut j i hbad
    rw [← hkm] at hlt
    rcases hends with ⟨rfl, hi⟩ | ⟨rfl, hj⟩
    · exact absurd (hmin w' hops (hi ▸ hway)) (not_le.mpr hlt)
    · rw [jointAdj_eq_rows] at hway hmin
      obtain ⟨hops', hback⟩ := hway.symm
      exact absurd (hmin w' hops' (hj ▸ hback)) (not_le.mpr hlt)

/-- The route between the ends of a backhaul is a way around it. -/
theorem wayAround_of_noTransit (hloaded : jointLoaded d g = true)
    (h : NoTransit (earth polys) d g) {j i : ℕ} (hbad : BadBackhaul (earth polys) d g j i)
    {a b : LngLat ℝ} (ha : nearestJoint (earth polys) d g a = some (hubCount d + j))
    (hb : nearestJoint (earth polys) d g b = some i) : WayAround (earth polys) d g j i := by
  have hia : hubCount d + j < jointSize d g := Nat.add_lt_add_left hbad.lt _
  have hentry := backhaul_mem_jointAdj hbad.lt hbad.nearest
  have hdist : (jointSearch (earth polys) d g (hubCount d + j) i).dist i ≠ ⊤ := by
    apply (Search.dist_search_ne_top_iff (jointAdj_bound hg.bound) hia).mpr
    exact Relation.ReflTransGen.single ⟨_, hentry, rfl⟩
  obtain ⟨w, hway, hmin⟩ := shortest_jointTrail hg hpos hia hdist
  refine ⟨w, _, hway, hmin _ _ (Search.Way.single hentry), ?_⟩
  intro u tag v hmem
  exact h.joint a b u v ⟨hloaded, _, _, ha, hb, hdist, tag, hmem⟩

end Joint

/-- Routes respect the barriers if each backhaul that crosses one has a shorter way
around, and only if it has a way around that is no longer and crosses none. -/
theorem noTransit_routes (polys : List Poly) (landings inland : List (LngLat ℝ))
    (topo : Topology ℝ) (cables : CableData ℝ) :
    let E := earth polys
    let d := loadHubs landings inland topo
    let g := buildCableGraph E (cableSystems cables.features)
    (Undercut E d g → NoTransit E d g) ∧
      (jointLoaded d g = true → NoTransit E d g → ∀ j i, BadBackhaul E d g j i → ∀ a b,
        nearestJoint E d g a = some (hubCount d + j) → nearestJoint E d g b = some i →
          WayAround E d g j i) := by
  intro E d g
  have hg : g.Connected :=
    connected_buildCableGraph (isDistance_earth _) (inRange_cableSystems cables)
  have hpos : PosWires g.wires := posWires_buildCableGraph _
  refine ⟨noTransit_of_undercut hg hpos, ?_⟩
  intro hloaded h j i hbad a b ha hb
  exact wayAround_of_noTransit hg hpos hloaded h hbad ha hb

end Earth

/-! ## Landings within a zone -/

/-- A barrier around the stretch of the equator from 9 to 15. -/
def bayRing : List (LngLat ℝ) := [(9, -1), (15, -1), (15, 1), (9, 1), (9, -1)]

def bayTopology : Topology ℝ := ⟨[], [], [], [], [], [bayRing]⟩

/-- One hub, to the west of the bay. -/
def bayHub : HubData ℝ := loadHubs [((10 : ℕ), 0)] [(0, 0)] bayTopology

/-- A cable from the bay to the bay. -/
noncomputable def bayNet : CableGraph ℝ := equatorNet (10 : ℕ) (14 : ℕ)

theorem onMap_bay : ∀ lines ∈ equatorLine (10 : ℕ) (14 : ℕ), ∀ line ∈ lines, ∀ c ∈ line, OnMap c :=
  onMap_equatorLine (by norm_num) (by norm_num)

theorem bayNet_eq : bayNet.nodeCoord = [(10, 0), (14, 0)] ∧
    bayNet.branches = [[(10, 0), (14, 0)]] := by
  have hnet := equatorNet_eq (x := (10 : ℕ)) (y := (14 : ℕ)) (by norm_num) (by norm_num)
    (by norm_num)
  rw [bayNet, hnet.1, hnet.2]
  norm_num

theorem zones_bayHub : zones (earth farPolys) bayHub = [makeZone bayRing] := by
  simp [zones, bayHub, loadHubs, bayTopology, countryRings, bayRing]

theorem inZone_bayRing {x : ℝ} (hlo : 9 < x) (hhi : x < 15) :
    inZone x 0 (makeZone bayRing) = true := by
  have hwest : ¬ x < 9 := not_lt.mpr hlo.le
  norm_num [inZone, makeZone, bayRing, pip, crossesSide, hwest, hlo.le, hhi.le, hhi]

theorem zonesBlock_bayRing {x : ℝ} (hlo : 9 < x) (hhi : x < 15) :
    zonesBlock (x, 0) (0, 0) [makeZone bayRing] = true := by
  have hom : sin (omegaOf (toXYZ (x, 0)) (toXYZ (0, 0))) ≠ 0 := by
    have habs : |0 - x| = x := by rw [zero_sub, abs_neg, abs_of_pos (by linarith)]
    rw [omegaOf_equator (by rw [habs]; linarith), habs]
    have hturn : x * D2R < π := by
      have hpi := pi_pos
      rw [D2R_eq]
      nlinarith
    exact (sin_pos_of_pos_of_lt_pi (mul_pos (by linarith) D2R_pos) hturn).ne'
  refine zonesBlock_of_inZone ?_ ?_ ?_ hom (List.mem_singleton_self _) (inZone_bayRing hlo hhi)
  · rw [abs_zero]
    norm_num
  · exact lt_trans (by norm_num) hlo
  · exact (hhi.trans (by norm_num)).le

theorem coordAt_bay {j : ℕ} (hj : j < 2) :
    ∃ x : ℝ, 9 < x ∧ x < 15 ∧ coordAt bayHub bayNet (1 + j) = (x, 0) := by
  rw [coordAt, bayNet_eq.1]
  rcases (by omega : j = 0 ∨ j = 1) with rfl | rfl
  · exact ⟨10, by norm_num, by norm_num, rfl⟩
  · exact ⟨14, by norm_num, by norm_num, rfl⟩

/-- Both backhauls cross the barrier. -/
theorem crosses_bay {j : ℕ} (hj : j < 2) :
    Crosses (earth farPolys) bayHub (coordAt bayHub bayNet) (1 + j) 0 where
  terrestrial := Or.inr Nat.one_pos
  undeclared := List.not_mem_nil
  undeclared' := List.not_mem_nil
  blocked := by
    obtain ⟨x, hlo, hhi, hx⟩ := coordAt_bay hj
    rw [hx, zones_bayHub]
    exact zonesBlock_bayRing hlo hhi

theorem jointSize_bay : jointSize bayHub bayNet = 3 := by
  rw [jointSize, bayNet_eq.1]
  rfl

/-- A way from a landing that crosses no barrier ends at a landing. -/
theorem ne_zero_of_way_bay {v : ℕ} {w : ℝ} {hops : List (ℕ × Branch × ℕ)}
    (h : Search.Way (jointAdj (earth farPolys) bayHub bayNet) 1 v w hops)
    (hclear : ∀ u tag v, (u, tag, v) ∈ hops →
      ¬ Crosses (earth farPolys) bayHub (coordAt bayHub bayNet) u v) : v ≠ 0 := by
  induction h with
  | nil => exact one_ne_zero
  | @snoc u w hops e _ he ih =>
      have hu : u ≠ 0 := ih fun u tag v hmem ↦ hclear u tag v (List.mem_append_left _ hmem)
      intro hzero
      have hlast := hclear u e.tag e.dest (List.mem_append_right _ (List.mem_singleton_self _))
      rw [jointAdj_eq_rows] at he
      obtain ⟨x, hx, hends⟩ := Links.mem_rows.mp he
      rcases mem_jointWires hx with ⟨y, hy, rfl⟩ | ⟨y, -, rfl⟩ | ⟨j, hj, i, hi, rfl⟩
      · have ha : y.a < 1 := (landOk_landWires y hy).a_lt
        have hb : y.b < 1 := (landOk_landWires y hy).b_lt
        rcases hends with ⟨rfl, -⟩ | ⟨rfl, -⟩
        · exact hu (Nat.lt_one_iff.mp ha)
        · exact hu (Nat.lt_one_iff.mp hb)
      · rcases hends with ⟨-, rfl⟩ | ⟨-, rfl⟩
        · exact absurd hzero (Nat.add_pos_left Nat.one_pos _).ne'
        · exact absurd hzero (Nat.add_pos_left Nat.one_pos _).ne'
      · rw [bayNet_eq.1] at hj
        rcases hends with ⟨rfl, rfl⟩ | ⟨rfl, -⟩
        · change i = 0 at hzero
          rw [hzero] at hlast
          exact hlast (crosses_bay hj)
        · exact hu (Nat.lt_one_iff.mp (lt_of_backhaulHub hi))

theorem nearestJoint_bay {p : LngLat ℝ} {u : ℕ} (hu : u < 3)
    (hself : coordAt bayHub bayNet u = p) :
    nearestJoint (earth farPolys) bayHub bayNet p = some u := by
  have hcoord : ∀ v < 3, coordAt bayHub bayNet v = (([0, 10, 14] : List ℝ).getD v 0, 0) := by
    intro v hv
    rw [coordAt, bayNet_eq.1]
    interval_cases v
    · rfl
    · rfl
    · rfl
  apply nearestJoint_of_self (jointSize_bay ▸ hu) hself
  intro v hv hvu
  rw [jointSize_bay] at hv
  rw [← hself, hcoord u hu, hcoord v hv]
  have hpos : ∀ x y : ℝ, |y - x| ≤ 180 → x ≠ y → 0 < haversineKm (x, 0) (y, 0) := by
    intro x y hle hne
    rw [haversineKm_equator hle]
    have habs : 0 < |y - x| := abs_pos.mpr (sub_ne_zero.mpr hne.symm)
    have hpos := D2R_pos
    positivity
  apply hpos
  · interval_cases u <;> interval_cases v <;> norm_num
  · interval_cases u <;> interval_cases v <;> first | exact absurd rfl hvu | norm_num

/-- From the landing, every route to the hub crosses the barrier. -/
theorem not_noTransit_bay : jointLoaded bayHub bayNet = true ∧
    ¬ NoTransit (earth farPolys) bayHub bayNet := by
  have hloaded : jointLoaded bayHub bayNet = true := by
    simp [jointLoaded, hubsLoaded, bayHub, loadHubs, bayNet_eq.1]
  refine ⟨hloaded, ?_⟩
  intro h
  have hg : bayNet.Connected := connected_buildCableGraph (isDistance_earth _)
    (inRange_cableSystems ⟨_, onMap_bay⟩)
  have hnearest : backhaulHub (earth farPolys) bayHub bayNet 0 = some 0 := rfl
  have hlt : 0 < bayNet.nodeCoord.length := by
    rw [bayNet_eq.1]
    exact Nat.zero_lt_two
  have hpos : PosWires bayNet.wires := posWires_buildCableGraph _
  obtain ⟨w, hops, hway, -, hclear⟩ := wayAround_of_noTransit hg hpos hloaded h
    ⟨hlt, hnearest, crosses_bay Nat.zero_lt_two⟩ (nearestJoint_bay (by decide) rfl)
    (nearestJoint_bay (by decide) rfl)
  exact ne_zero_of_way_bay hway hclear rfl

/-! ## A shorter way around -/

/-- Two cables from the bay to the west.  The second starts a little nearer, at the
same landing. -/
noncomputable def ferryLines : List (List (List (LngLat ℝ))) :=
  [[[((12 : ℕ), 0), ((2 : ℕ), 0)], [((119 : ℕ) / (10 : ℕ), 0), ((2 : ℕ), 0)]]]

theorem ferryLines_eq : ferryLines = [[[(12, 0), (2, 0)], [(119 / 10, 0), (2, 0)]]] := by
  norm_num [ferryLines]

noncomputable def ferryNet : CableGraph ℝ :=
  buildCableGraph (earth farPolys) (cableSystems ferryLines)

theorem onMap_ferry : ∀ lines ∈ ferryLines, ∀ line ∈ lines, ∀ c ∈ line, OnMap c := by
  rw [ferryLines_eq]
  intro lines hlines line hline c hc
  obtain rfl := List.mem_singleton.mp hlines
  have h12 := onMap_equator (x := 12) (by norm_num)
  have h2 := onMap_equator (x := 2) (by norm_num)
  have h119 := onMap_equator (x := 119 / 10) (by norm_num [abs_lt])
  rcases List.mem_pair.mp hline with rfl | rfl
  · rcases List.mem_pair.mp hc with rfl | rfl
    · exact h12
    · exact h2
  · rcases List.mem_pair.mp hc with rfl | rfl
    · exact h119
    · exact h2

theorem cableSystems_ferry : cableSystems ferryLines = ferryLines := by
  have hwest : ∀ x ∈ [12, 2, (119 / 10 : ℝ)], ¬ 359 / 2 ≤ x ∧ ¬ x ≤ -(359 / 2) := by
    intro x hx
    simp only [List.mem_cons, List.not_mem_nil, or_false] at hx
    rcases hx with rfl | rfl | rfl <;> norm_num
  obtain ⟨h12, h2, h119, -⟩ := by simpa only [List.forall_mem_cons] using hwest
  simp [cableSystems, ferryLines_eq, stitchAntimeridian, endsOf, dateline, h12, h2, h119]

theorem findOrAdd_ferry {x : ℝ} {i : ℕ} (hi : i < 2) (hx : |x| < 179)
    (hcell : ⌊x⌋ = ([11, 2] : List ℤ).getD i 0)
    (hnear : haversineKm (nodeAt [(12, 0), (2, 0)] i) (x, 0) < 60) :
    findOrAdd (earth farPolys) [(12, 0), (2, 0)] (x, 0) = (i, [(12, 0), (2, 0)]) := by
  have hnorm := (normLon_equator hx hx).1
  have h12 : normLon (12 : ℝ) = 12 := normLon_of_mem (by norm_num) (by norm_num)
  have h2 : normLon (2 : ℝ) = 2 := normLon_of_mem (by norm_num) (by norm_num)
  have haround : nodesAround [(12, (0 : ℝ)), (2, 0)] (x, 0) = [i] := by
    rcases (by omega : i = 0 ∨ i = 1) with rfl | rfl
    · change ⌊x⌋ = 11 at hcell
      simp [nodesAround, offsets, List.range_succ, nodeCell, nodeAt, hcell, h12, h2]
    · change ⌊x⌋ = 2 at hcell
      simp [nodesAround, offsets, List.range_succ, nodeCell, nodeAt, hcell, h12, h2]
  have hfound : clusterNode (earth farPolys) [(12, (0 : ℝ)), (2, 0)] (x, 0) = some i := by
    simp [clusterNode, haround, hnear]
  simp [findOrAdd, hnorm, hfound]


theorem addSegments_ferry :
    (([[(12, 0), (2, 0)], [(119 / 10, 0), (2, 0)]] : List (List (LngLat ℝ))).foldl
      (addSegment (earth farPolys)) (⟨[], [], [], []⟩, [])).1.nodeCoord = [(12, 0), (2, 0)] ∧
    (⟨0, 1, haversineKm (119 / 10, 0) (2, 0), ⟨some 1, false⟩, ⟨some 1, true⟩⟩ : Wire ℝ Branch) ∈
      (([[(12, 0), (2, 0)], [(119 / 10, 0), (2, 0)]] : List (List (LngLat ℝ))).foldl
        (addSegment (earth farPolys)) (⟨[], [], [], []⟩, [])).1.wires := by
  have hfirst := addSegment_equator (x := 12) (y := 2) (by norm_num) (by norm_num)
    (E := earth farPolys) (s := (⟨[], [], [], []⟩, [])) (fun c hc ↦ absurd hc List.not_mem_nil)
    (by norm_num)
  have hstart : findOrAdd (earth farPolys) [(12, 0), (2, 0)] (119 / 10, 0) =
      (0, [(12, 0), (2, 0)]) := by
    refine findOrAdd_ferry Nat.two_pos (by norm_num [abs_lt]) (by norm_num [Int.floor_eq_iff]) ?_
    change haversineKm (12, 0) (119 / 10, 0) < 60
    have hkm := haversineKm_equator (x := 12) (y := 119 / 10) (by norm_num [abs_le])
    rw [show (119 / 10 - 12 : ℝ) = -(1 / 10) by norm_num, abs_neg, abs_of_pos (by norm_num),
      D2R_eq] at hkm
    have := Real.pi_le_four
    linarith
  have hend : findOrAdd (earth farPolys) [(12, 0), (2, 0)] (2, 0) = (1, [(12, 0), (2, 0)]) := by
    refine findOrAdd_ferry Nat.one_lt_two (by norm_num) (by norm_num [Int.floor_eq_iff]) ?_
    change haversineKm (2, 0) (2, 0) < 60
    rw [haversineKm_self]
    norm_num
  have hsouth : crossesArctic [((119 / 10 : ℝ), (0 : ℝ)), (2, 0)] = false := by
    simp [crossesArctic, arcticTransit]
  have hkm : 0 < haversineKm (119 / 10, 0) (2, 0) := by
    rw [haversineKm_equator (by norm_num [abs_le])]
    have := D2R_pos
    positivity
  rw [List.foldl_cons, hfirst, List.foldl_cons, List.foldl_nil]
  simp [addSegment, hsouth, hstart, hend, addEdge, pathLengthKm, not_le.mpr hkm]

theorem nodeCoord_ferry : ferryNet.nodeCoord = [(12, 0), (2, 0)] := by
  rw [ferryNet, cableSystems_ferry, ferryLines_eq]
  obtain ⟨hnodes, -⟩ := sameNodes_buildCableGraph (E := earth farPolys) ferryLines
  exact hnodes.trans ((sameNodes_bridgeSystem (E := earth farPolys) _ _).1.trans
    addSegments_ferry.1)

/-- The shorter cable is an edge between the two landings. -/
theorem mem_wires_ferry :
    (⟨0, 1, haversineKm (119 / 10, 0) (2, 0), ⟨some 1, false⟩, ⟨some 1, true⟩⟩ : Wire ℝ Branch) ∈
      ferryNet.wires := by
  have hkeep : ∀ (ws : List (Wire ℝ Branch)) (x : Wire ℝ Branch) (a b : ℕ) (w : ℝ),
      x ∈ ws → x ∈ addEdge ws a b w none := by
    intro ws x a b w hx
    rw [addEdge]
    split
    · exact hx
    · exact List.mem_append_left _ hx
  rw [ferryNet, cableSystems_ferry, ferryLines_eq]
  refine foldComponents_wires (p := fun ws ↦ _ ∈ ws) (fun ws a b w _ _ h ↦ hkeep ws _ a b w h) _ _
    ?_
  refine bridgeSystem_wires (p := fun ws ↦ _ ∈ ws) (q := fun _ ↦ True)
    (fun ws a b w _ _ h ↦ hkeep ws _ a b w h) (fun _ _ ↦ trivial) ?_
  exact addSegments_ferry.2

theorem km_ferry : haversineKm (119 / 10, 0) (2, 0) + haversineKm (0, 0) (2, 0) <
    haversineKm (0, 0) (12, 0) := by
  rw [haversineKm_equator (by norm_num [abs_le]), haversineKm_equator (by norm_num [abs_le]),
    haversineKm_equator (by norm_num [abs_le])]
  have := D2R_pos
  norm_num [abs_of_neg, abs_of_pos]
  linarith

/-- From the western landing nothing is in the way. -/
theorem zonesBlock_west : zonesBlock (2, 0) (0, 0) [makeZone bayRing] = false := by
  have hnone : nearZones (2, 0) (0, 0) [makeZone bayRing] = [] := by
    norm_num [nearZones, makeZone, bayRing]
  simp [zonesBlock, hnone]

theorem badBackhaul_ferry {j i : ℕ} :
    BadBackhaul (earth farPolys) bayHub ferryNet j i ↔ j = 0 ∧ i = 0 := by
  have hfirst : coordAt bayHub ferryNet (hubCount bayHub + 0) = (12, 0) := by
    rw [coordAt, nodeCoord_ferry]
    rfl
  have hsecond : coordAt bayHub ferryNet (hubCount bayHub + 1) = (2, 0) := by
    rw [coordAt, nodeCoord_ferry]
    rfl
  constructor
  · intro h
    obtain rfl : i = 0 := Nat.lt_one_iff.mp (lt_of_backhaulHub h.nearest)
    have hlt := h.lt
    rw [nodeCoord_ferry] at hlt
    have hlt : j < 2 := hlt
    rcases (by omega : j = 0 ∨ j = 1) with rfl | rfl
    · exact ⟨rfl, rfl⟩
    · have hblocked := h.crosses.blocked
      rw [hsecond, zones_bayHub] at hblocked
      exact absurd (zonesBlock_west.symm.trans hblocked) Bool.false_ne_true
  · rintro ⟨rfl, rfl⟩
    refine ⟨?_, rfl, Or.inr Nat.one_pos, List.not_mem_nil, List.not_mem_nil, ?_⟩
    · rw [nodeCoord_ferry]
      exact Nat.two_pos
    · rw [hfirst, zones_bayHub]
      exact zonesBlock_bayRing (by norm_num) (by norm_num)

/-- The backhaul from the bay is cut short by the second cable. -/
theorem undercut_ferry : Undercut (earth farPolys) bayHub ferryNet := by
  intro j i hbad
  obtain ⟨rfl, rfl⟩ := badBackhaul_ferry.mp hbad
  have hcable : (⟨1 + 1, haversineKm (119 / 10, 0) (2, 0), ⟨some 1, false⟩⟩ : Link ℝ Branch) ∈
      jointAdj (earth farPolys) bayHub ferryNet (1 + 0) := by
    have hwire := List.mem_map_of_mem (f := Links.relabel (1 + ·) id) mem_wires_ferry
    rw [jointAdj_eq_rows]
    refine Links.mem_rows.mpr ⟨_, List.mem_append_left _ (List.mem_append_right _ hwire), ?_⟩
    exact Or.inl ⟨rfl, rfl⟩
  have htie : (⟨0, backhaulKm (earth farPolys) bayHub ferryNet 1 0, straight⟩ : Link ℝ Branch) ∈
      jointAdj (earth farPolys) bayHub ferryNet (1 + 1) := by
    refine backhaul_mem_jointAdj ?_ rfl
    rw [nodeCoord_ferry]
    exact Nat.one_lt_two
  refine ⟨_, _, (Search.Way.single hcable).snoc htie, ?_⟩
  rw [backhaulKm, backhaulKm, nodeCoord_ferry]
  exact km_ferry

/-- A zone rejects the backhaul from the bay, and no route takes it. -/
theorem noTransit_ferry : jointLoaded bayHub ferryNet = true ∧
    BadBackhaul (earth farPolys) bayHub ferryNet 0 0 ∧
    NoTransit (earth farPolys) bayHub ferryNet := by
  refine ⟨?_, badBackhaul_ferry.mpr ⟨rfl, rfl⟩,
    (noTransit_routes farPolys _ _ _ ⟨ferryLines, onMap_ferry⟩).1 undercut_ferry⟩
  simp [jointLoaded, hubsLoaded, bayHub, loadHubs, nodeCoord_ferry]

end TrafficMap.Web
