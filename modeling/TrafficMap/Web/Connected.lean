import TrafficMap.Web.CableNet
import TrafficMap.Web.Landmass
import Mathlib.Data.Rat.Floor

/-!
# Whether the joint graph connects everything

The cable network is connected, and each of its nodes is tied to one hub.  A
piece of the backbone that is not bridged over land has no other way out than
such a tie.
-/

namespace TrafficMap.Web

variable {K : Type} [Field K] [LinearOrder K] [FloorRing K]

/-! ## The data -/

/-- A position within the bounds of the format, and at no pole. -/
structure OnMap (c : LngLat K) : Prop where
  west : -(180 : ℕ) ≤ c.1
  east : c.1 ≤ (180 : ℕ)
  south : -(90 : ℕ) < c.2
  north : c.2 < (90 : ℕ)

/-- `cables.geojson`: lines of positions. -/
structure CableData (K : Type) [Field K] [LinearOrder K] where
  features : List (List (List (LngLat K)))
  onMap : ∀ lines ∈ features, ∀ line ∈ lines, ∀ c ∈ line, OnMap c

section Stitch

variable {brs : List (List (LngLat K))}

omit [LinearOrder K] [FloorRing K] in
theorem mem_joinBranches {a b : List (LngLat K)} {p n : End K} {c : LngLat K}
    (hc : c ∈ joinBranches a b p n) : c ∈ a ∨ ∃ c' ∈ b, c = (c'.1 + (360 : ℕ), c'.2) := by
  rcases List.mem_append.mp hc with ha | hb
  · left
    split at ha
    · exact List.mem_reverse.mp ha
    · exact ha
  · right
    have hmem := List.mem_of_mem_drop hb
    have hmap : c ∈ b.map fun c ↦ (c.1 + ((360 : ℕ) : K), c.2) := by
      split at hmem
      · exact hmem
      · exact List.mem_reverse.mp hmem
    obtain ⟨c', hc', rfl⟩ := List.mem_map.mp hmap
    exact ⟨c', hc', rfl⟩

omit [FloorRing K] in
/-- Stitching moves positions around the globe only. -/
theorem forall_mem_stitch {P : LngLat K → Prop} (hmove : ∀ c, P c → P (c.1 + (360 : ℕ), c.2))
    (hbrs : ∀ br ∈ brs, ∀ c ∈ br, P c) : ∀ br ∈ stitchAntimeridian brs, ∀ c ∈ br, P c := by
  have hget : ∀ i, ∀ c ∈ brs.getD i [], P c := by
    intro i c hc
    rw [List.getD_eq_getElem?_getD] at hc
    cases hi : brs[i]? with
    | none =>
        rw [hi] at hc
        cases hc
    | some br =>
        rw [hi] at hc
        exact hbrs br (List.mem_of_getElem? hi) c hc
  have hfold : ∀ (neg pos : List (End K)) (s : List ℕ × List (List (LngLat K))),
      (∀ br ∈ s.2, ∀ c ∈ br, P c) →
      ∀ br ∈ (pos.foldl (stitchEnd brs neg) s).2, ∀ c ∈ br, P c := by
    intro neg pos
    induction pos with
    | nil => exact fun s hs ↦ hs
    | cons p pos ih =>
        intro s hs
        apply ih
        rw [stitchEnd]
        split
        · exact hs
        · split
          · exact hs
          · intro br hbr c hc
            rcases List.mem_append.mp hbr with hold | hnew
            · exact hs br hold c hc
            · rw [List.mem_singleton.mp hnew] at hc
              rcases mem_joinBranches hc with ha | ⟨c', hc', rfl⟩
              · exact hget _ c ha
              · exact hmove c' (hget _ c' hc')
  intro br hbr c hc
  rcases List.mem_append.mp hbr with hkept | hmerged
  · obtain ⟨p, hp, rfl⟩ := List.mem_map.mp hkept
    exact hbrs p.1 (List.fst_mem_of_mem_zipIdx (List.mem_of_mem_filter hp)) c hc
  · refine hfold _ _ ([], []) ?_ br hmerged c hc
    exact fun br hbr ↦ absurd hbr List.not_mem_nil

end Stitch

theorem inRange_cableSystems [IsStrictOrderedRing K] (cables : CableData K) :
    ∀ segs ∈ cableSystems cables.features, ∀ seg ∈ segs, ∀ c ∈ seg, InRange c := by
  intro segs hsegs
  obtain ⟨lines, hlines, hsome⟩ := List.mem_filterMap.mp hsegs
  split at hsome
  · cases hsome
  · obtain rfl := Option.some.inj hsome
    apply forall_mem_stitch
    · intro c hc
      have hturn : (0 : K) ≤ (360 : ℕ) := Nat.cast_nonneg _
      exact ⟨hc.west.trans (le_add_of_nonneg_right hturn), hc.south, hc.north⟩
    · intro line hline c hc
      have hc := cables.onMap lines hlines line (List.mem_of_mem_filter hline) c hc
      have hwest := hc.west
      refine ⟨?_, hc.south, hc.north⟩
      push_cast at hwest ⊢
      linarith

/-! ## Ways in the joint graph -/

section Joint

variable {E : Earth K} {d : HubData K} {g : CableGraph K}

theorem reach_joint_of_land {i k : ℕ} (h : Links.Reach (landAdj E d) i k) :
    Links.Reach (Links.rows (jointWires E d g)) i k := by
  apply (h.relabel id fun _ ↦ straight).of_subset
  exact List.subset_append_of_subset_left _ (List.subset_append_left _ _)

theorem reach_joint_of_cable {j k : ℕ} (h : Links.Reach (Links.rows g.wires) j k) :
    Links.Reach (Links.rows (jointWires E d g)) (hubCount d + j) (hubCount d + k) := by
  apply (h.relabel (hubCount d + ·) id).of_subset
  exact List.subset_append_of_subset_left _ (List.subset_append_right _ _)

theorem reach_joint_of_backhaul {i j : ℕ} (hj : j < g.nodeCoord.length)
    (h : backhaulHub E d g j = some i) :
    Links.Reach (Links.rows (jointWires E d g)) (hubCount d + j) i := by
  have hmem : backhaulWire E d g j i ∈ jointWires E d g :=
    List.mem_append_right _ (mem_backhaulWires.mpr ⟨j, hj, i, h, rfl⟩)
  exact Links.reach_of_mem hmem

/-- A hub whose piece no cable node is tied to reaches hubs only. -/
theorem lt_of_reach_of_untied {i u : ℕ} (hi : i < hubCount d)
    (hnone : ∀ j < g.nodeCoord.length, ∀ k, backhaulHub E d g j = some k →
      ¬ Links.Reach (landAdj E d) i k)
    (h : Links.Reach (Links.rows (jointWires E d g)) i u) : u < hubCount d := by
  have hinv : ∀ x ∈ jointWires E d g,
      (x.a < hubCount d ∧ Links.Reach (landAdj E d) i x.a) ↔
        (x.b < hubCount d ∧ Links.Reach (landAdj E d) i x.b) := by
    intro x hx
    rcases mem_jointWires hx with ⟨y, hy, rfl⟩ | ⟨y, -, rfl⟩ | ⟨j, hj, k, hk, rfl⟩
    · have hok := landOk_landWires y hy
      refine and_congr (iff_of_true hok.a_lt hok.b_lt) ⟨fun ha ↦ ?_, fun hb ↦ ?_⟩
      · exact ha.trans (Links.reach_of_mem hy)
      · exact hb.trans (Links.reach_symm (Links.reach_of_mem hy))
    · refine iff_of_false (fun ha ↦ ?_) fun hb ↦ ?_
      · exact absurd ha.1 (Nat.not_lt.mpr (Nat.le_add_right _ _))
      · exact absurd hb.1 (Nat.not_lt.mpr (Nat.le_add_right _ _))
    · refine iff_of_false (fun ha ↦ ?_) fun hb ↦ hnone j hj k hk hb.2
      exact absurd ha.1 (Nat.not_lt.mpr (Nat.le_add_right _ _))
  have hiff : (i < hubCount d ∧ Links.Reach (landAdj E d) i i) ↔
      (u < hubCount d ∧ Links.Reach (landAdj E d) i u) :=
    Links.Reach.invariant (p := fun u ↦ u < hubCount d ∧ Links.Reach (landAdj E d) i u) hinv h
  exact (hiff.mp ⟨hi, .refl⟩).1

/-- Every node reaches every other, and there is a route between any two points. -/
def JointConnected (E : Earth K) (d : HubData K) (g : CableGraph K) : Prop :=
  (∀ u < jointSize d g, ∀ v < jointSize d g, Links.Reach (jointAdj E d g) u v) ∧
    ∀ a b, jointRoute E d g a b ≠ none

/-- Every piece of the backbone has a hub that some cable node is tied to. -/
def PiecesTied (E : Earth K) (d : HubData K) (g : CableGraph K) : Prop :=
  ∀ i < hubCount d, ∃ j < g.nodeCoord.length, ∃ k, backhaulHub E d g j = some k ∧
    Links.Reach (landAdj E d) i k

theorem reach_of_piecesTied (hg : g.Connected) (htied : PiecesTied E d g)
    (hpos : 0 < g.nodeCoord.length) {u : ℕ} (hu : u < jointSize d g) :
    Links.Reach (Links.rows (jointWires E d g)) u (hubCount d) := by
  by_cases hhub : u < hubCount d
  · obtain ⟨j, hj, k, hk, hland⟩ := htied u hhub
    have hstation := Links.reach_symm (reach_joint_of_backhaul hj hk)
    exact ((reach_joint_of_land hland).trans hstation).trans
      (reach_joint_of_cable (hg.reach j hj 0 hpos))
  · obtain ⟨j, rfl⟩ := Nat.exists_eq_add_of_le (not_lt.mp hhub)
    have hj : j < g.nodeCoord.length := Nat.lt_of_add_lt_add_left hu
    exact reach_joint_of_cable (hg.reach j hj 0 hpos)

theorem jointRoute_ne_none (hg : g.Connected) (hloaded : jointLoaded d g = true)
    (hreach : ∀ u < jointSize d g, ∀ v < jointSize d g, Links.Reach (jointAdj E d g) u v)
    (a b : LngLat K) : jointRoute E d g a b ≠ none := by
  have hsize : 0 < jointSize d g := by
    have hnodes : g.nodeCoord ≠ [] := by
      rintro hnil
      simp [jointLoaded, hnil] at hloaded
    exact Nat.add_pos_right _ (List.length_pos_iff.mpr hnodes)
  have hnearest : ∀ p, ∃ u < jointSize d g, nearestJoint E d g p = some u := by
    intro p
    cases hp : nearestJoint E d g p with
    | none =>
        have hnil := List.argmin_eq_none.mp hp
        rw [List.range_eq_nil] at hnil
        omega
    | some u => exact ⟨u, List.mem_range.mp (List.argmin_mem hp), rfl⟩
  obtain ⟨ia, hia, ha⟩ := hnearest a
  obtain ⟨ib, hib, hb⟩ := hnearest b
  have hdist : (jointSearch E d g ia ib).dist ib ≠ ⊤ :=
    (Search.dist_search_ne_top_iff (jointAdj_bound hg.bound) hia).mpr (hreach ia hia ib hib)
  rw [jointRoute, if_pos hloaded, ha, hb, Option.bind_some, Option.bind_some, if_neg hdist]
  exact Option.some_ne_none _

end Joint

/-! ## On the earth -/

theorem isDistance_earth (polys : List Poly) : (earth polys).IsDistance where
  nonneg := haversineKm_nonneg
  self := haversineKm_self
  eq_of_zero p q hp hq h := by
    have hbound : ∀ p : LngLat ℝ, OnGlobe p → (-180 ≤ p.1 ∧ p.1 < 180) ∧ |p.2| < 90 := by
      intro p hp
      have hwest := hp.west
      have heast := hp.east
      have hsouth := hp.south
      have hnorth := hp.north
      push_cast at hwest heast hsouth hnorth
      exact ⟨⟨hwest, heast⟩, abs_lt.mpr ⟨hsouth, hnorth⟩⟩
    obtain ⟨⟨hpw, hpe⟩, hplat⟩ := hbound p hp
    obtain ⟨⟨hqw, hqe⟩, hqlat⟩ := hbound q hq
    refine eq_of_haversineKm_eq_zero hplat hqlat ?_ h
    exact abs_lt.mpr ⟨by linarith, by linarith⟩

/-- With hubs, landings and cables loaded, the joint graph connects everything
exactly if every piece of the backbone is tied to the cables. -/
theorem jointConnected_iff (polys : List Poly) (landings inland : List (LngLat ℝ))
    (topo : Topology ℝ) (cables : CableData ℝ)
    (hloaded : jointLoaded (loadHubs landings inland topo)
      (buildCableGraph (earth polys) (cableSystems cables.features)) = true) :
    JointConnected (earth polys) (loadHubs landings inland topo)
        (buildCableGraph (earth polys) (cableSystems cables.features)) ↔
      PiecesTied (earth polys) (loadHubs landings inland topo)
        (buildCableGraph (earth polys) (cableSystems cables.features)) := by
  have hg := connected_buildCableGraph (isDistance_earth polys)
    (inRange_cableSystems cables)
  generalize buildCableGraph (earth polys) (cableSystems cables.features) = g at hg hloaded ⊢
  generalize loadHubs landings inland topo = d at hloaded ⊢
  have hpos : 0 < g.nodeCoord.length := by
    apply List.length_pos_iff.mpr
    rintro hnil
    simp [jointLoaded, hnil] at hloaded
  constructor
  · rintro ⟨hreach, -⟩ i hi
    by_contra hnone
    push Not at hnone
    have hway := hreach i (Nat.lt_add_right _ hi) (hubCount d) (Nat.lt_add_of_pos_right hpos)
    rw [jointAdj_eq_rows] at hway
    exact absurd (lt_of_reach_of_untied hi (fun j hj k hk ↦ hnone j hj k hk) hway) (lt_irrefl _)
  · intro htied
    have hreach : ∀ u < jointSize d g, ∀ v < jointSize d g,
        Links.Reach (jointAdj (earth polys) d g) u v := by
      intro u hu v hv
      rw [jointAdj_eq_rows]
      exact (reach_of_piecesTied hg htied hpos hu).trans
        (Links.reach_symm (reach_of_piecesTied hg htied hpos hv))
    exact ⟨hreach, jointRoute_ne_none hg hloaded hreach⟩

/-! ## An island without a tie -/

/-- Land in the far north. -/
def farLand : List Country :=
  [⟨"Europe", "Farland", [[(0, 60), (10, 60), (10, 65), (0, 65), (0, 60)]]⟩]

noncomputable def farPolys : List Poly := loadLandmass farLand

def noTopology : Topology ℝ := ⟨[], [], [], [], [], []⟩

/-- One cable along the equator. -/
def equatorLine (x y : ℝ) : List (List (List (LngLat ℝ))) := [[[(x, 0), (y, 0)]]]

noncomputable def equatorNet (x y : ℝ) : CableGraph ℝ :=
  buildCableGraph (earth farPolys) (cableSystems (equatorLine x y))

/-- Away from the antimeridian. -/
theorem onMap_equator {x : ℝ} (hx : |x| < 179) : OnMap (x, (0 : ℝ)) := by
  obtain ⟨hlo, hhi⟩ := abs_lt.mp hx
  constructor
  · push_cast
    linarith
  · push_cast
    linarith
  · norm_num
  · norm_num

section Equator

variable {x y : ℝ} (hx : |x| < 179) (hy : |y| < 179)

include hx hy

theorem onMap_equatorLine : ∀ lines ∈ equatorLine x y, ∀ line ∈ lines, ∀ c ∈ line, OnMap c := by
  intro lines hlines line hline c hc
  obtain rfl := List.mem_singleton.mp hlines
  obtain rfl := List.mem_singleton.mp hline
  rcases List.mem_pair.mp hc with rfl | rfl
  · exact onMap_equator hx
  · exact onMap_equator hy

theorem cableSystems_equatorLine : cableSystems (equatorLine x y) = [[[(x, 0), (y, 0)]]] := by
  have hnorth : ∀ x : ℝ, |x| < 179 → ¬ (359 / 2 : ℝ) ≤ x ∧ ¬ x ≤ -(359 / 2) := by
    intro x hx
    obtain ⟨hlo, hhi⟩ := abs_lt.mp hx
    exact ⟨by linarith, by linarith⟩
  obtain ⟨hxe, hxw⟩ := hnorth x hx
  obtain ⟨hye, hyw⟩ := hnorth y hy
  simp [cableSystems, equatorLine, stitchAntimeridian, endsOf, dateline, hxe, hxw, hye, hyw]

theorem normLon_equator : normLon x = x ∧ normLon y = y := by
  obtain ⟨hxlo, hxhi⟩ := abs_lt.mp hx
  obtain ⟨hylo, hyhi⟩ := abs_lt.mp hy
  exact ⟨normLon_of_mem (by linarith) (by linarith), normLon_of_mem (by linarith) (by linarith)⟩

/-- The ends of a cable that are far from the nodes, and from each other, are two nodes. -/
theorem addSegment_equator {E : Earth ℝ} {s : CableGraph ℝ × List ℕ}
    (hfar : ∀ c ∈ s.1.nodeCoord,
      2 ≤ |⌊normLon c.1⌋ - ⌊x⌋| ∧ 2 ≤ |⌊normLon c.1⌋ - ⌊y⌋|) (hxy : 2 ≤ |⌊x⌋ - ⌊y⌋|) :
    addSegment E s [(x, 0), (y, 0)] =
      ({ nodeCoord := s.1.nodeCoord ++ [(x, 0), (y, 0)]
         wires := addEdge s.1.wires s.1.nodeCoord.length (s.1.nodeCoord.length + 1)
           (pathLengthKm E [(x, 0), (y, 0)]) (some s.1.branches.length)
         branches := s.1.branches ++ [[(x, 0), (y, 0)]]
         parent := UnionFind.union
           (ensureNode (ensureNode s.1.parent s.1.nodeCoord.length) (s.1.nodeCoord.length + 1))
           s.1.nodeCoord.length (s.1.nodeCoord.length + 1) },
        s.2 ++ [s.1.nodeCoord.length, s.1.nodeCoord.length + 1]) := by
  obtain ⟨hnx, hny⟩ := normLon_equator hx hy
  obtain ⟨g, landings⟩ := s
  have hfirst : findOrAdd E g.nodeCoord (x, 0) =
      (g.nodeCoord.length, g.nodeCoord ++ [(x, 0)]) := by
    rw [findOrAdd_far, hnx]
    intro c hc
    rw [hnx]
    exact (hfar c hc).1
  have hsecond : findOrAdd E (g.nodeCoord ++ [(x, 0)]) (y, 0) =
      (g.nodeCoord.length + 1, g.nodeCoord ++ [(x, 0), (y, 0)]) := by
    rw [findOrAdd_far, hny, List.length_append, List.append_assoc]
    · rfl
    · intro c hc
      rw [hny]
      rcases List.mem_append.mp hc with hold | hnew
      · exact (hfar c hold).2
      · rw [List.mem_singleton.mp hnew, hnx]
        exact hxy
  have hsouth : crossesArctic [(x, (0 : ℝ)), (y, 0)] = false := by
    simp [crossesArctic, arcticTransit]
  simp [addSegment, hsouth, hfirst, hsecond]

/-- The ends of a cable of some length are two nodes. -/
theorem equatorNet_eq (hfar : 2 ≤ |⌊x⌋ - ⌊y⌋|) :
    (equatorNet x y).nodeCoord = [(x, 0), (y, 0)] ∧
      (equatorNet x y).branches = [[(x, 0), (y, 0)]] := by
  rw [equatorNet, cableSystems_equatorLine hx hy]
  obtain ⟨hnodes, hbranches⟩ :=
    sameNodes_buildCableGraph (E := earth farPolys) [[[(x, (0 : ℝ)), (y, 0)]]]
  rw [hnodes, hbranches, addSystems, List.foldl_cons, List.foldl_nil, addSystem, List.foldl_cons,
    List.foldl_nil, addSegment_equator hx hy (fun c hc ↦ absurd hc List.not_mem_nil) hfar]
  exact sameNodes_bridgeSystem (E := earth farPolys) _ _

end Equator

/-- A second hub, at a landing. -/
def twoHubs : HubData ℝ := loadHubs [(20, 0)] [(0, 0), (20, 0)] noTopology

theorem hubAt_twoHubs (i : ℕ) : (hubAt twoHubs i).2 = 0 := by
  match i with
  | 0 => rfl
  | 1 => rfl
  | _ + 2 => rfl

theorem landFraction_twoHubs (i j : ℕ) :
    landFraction farPolys (hubAt twoHubs i) (hubAt twoHubs j) = 0 := by
  apply landFraction_equator (hubAt_twoHubs i) (hubAt_twoHubs j)
  intro pl hpl
  obtain rfl := List.mem_singleton.mp hpl
  norm_num [makeZone]

theorem linkNearest_twoHubs (i : ℕ) (js : List ℕ) (added : ℕ) (ws : List (Wire ℝ Unit)) :
    linkNearest (earth farPolys) twoHubs i js added ws = ws := by
  have hnone : ∀ j, eligible (earth farPolys) twoHubs i j = false := by
    intro j
    have hsea : (0 : ℝ) < overland := by norm_num [overland]
    simp [eligible, landFraction_twoHubs, hsea]
  induction js with
  | nil => rfl
  | cons j js ih => simp [linkNearest, hnone, ih]

theorem bridge_twoHubs : bridge (earth farPolys) twoHubs [0] [1] = none := by
  have hbest : bestLink (earth farPolys) twoHubs [0] [1] = some (1, 0) := by
    have hzones : zones (earth farPolys) twoHubs = [] := by
      simp [zones, twoHubs, loadHubs, noTopology, countryRings]
    simp [bestLink, hzones]
  have hkm : hubKm (earth farPolys) twoHubs 1 0 = 6371 * (20 * D2R) := by
    have hequator := haversineKm_equator (x := 20) (y := 0) (by norm_num)
    norm_num at hequator
    exact hequator
  have hserved : cableServed (earth farPolys) twoHubs [1] = true := by
    simp [cableServed, twoHubs, loadHubs, hubAt, noTopology]
  have hland : (0 : ℝ) < overland := by norm_num [overland]
  have hlong : 60 < 6371 * (20 * D2R) := by
    rw [D2R_eq]
    have hpi := Real.two_le_pi
    linarith
  simp [bridge, hbest, hkm, hserved, landFraction_twoHubs, hland, hlong]

theorem landWires_twoHubs : landWires (earth farPolys) twoHubs = [] := by
  have hnearest : nearestWires (earth farPolys) twoHubs = [] := by
    simp [nearestWires, linkNearest_twoHubs]
  have hbase : baseWires (earth farPolys) twoHubs = [] := by
    rw [baseWires, hnearest]
    rfl
  have hclasses : UnionFind.classes 2 (unionRows twoHubs ([] : List (Wire ℝ Unit))) =
      ([[0], [1]], [0, 1]) := by decide
  have hsorted : ([[0], [1]] : List (List ℕ)).mergeSort (fun a b ↦ b.length ≤ a.length) =
      [[0], [1]] := List.mergeSort_of_pairwise (by decide)
  rw [landWires, buildLandGraph, hbase, show twoHubs.hubs.length = 2 from rfl, hclasses]
  dsimp only
  rw [hsorted]
  simp [mergePieces, mergeRound, bridge_twoHubs]

theorem km_equator_lt {x y z : ℝ} (hx : |z - x| ≤ 180) (hy : |z - y| ≤ 180)
    (h : |z - x| < |z - y|) : haversineKm (x, 0) (z, 0) < haversineKm (y, 0) (z, 0) := by
  rw [haversineKm_equator hx, haversineKm_equator hy]
  have hpos := D2R_pos
  gcongr

/-- A node on the equator is tied to the hub on its side of 10° east. -/
theorem backhaulHub_twoHubs {g : CableGraph ℝ} {j : ℕ} {x : ℝ} (hx : |x| ≤ 160)
    (hj : nodeAt g.nodeCoord j = (x, 0)) :
    (x < 10 → backhaulHub (earth farPolys) twoHubs g j = some 0) ∧
      (10 < x → backhaulHub (earth farPolys) twoHubs g j = some 1) := by
  obtain ⟨hlo, hhi⟩ := abs_le.mp hx
  have hzero : |x - 0| ≤ 180 := by
    rw [sub_zero]
    linarith
  have htwenty : |x - 20| ≤ 180 := abs_le.mpr ⟨by linarith, by linarith⟩
  constructor
  · intro hwest
    apply backhaulHub_eq_some Nat.zero_lt_two
    rw [hj]
    intro k hk hne
    obtain rfl : k = 1 := by
      have hk : k < 2 := hk
      omega
    refine km_equator_lt hzero htwenty ?_
    rw [sub_zero, abs_of_neg (by linarith : x - 20 < 0), abs_lt]
    exact ⟨by linarith, by linarith⟩
  · intro heast
    apply backhaulHub_eq_some Nat.one_lt_two
    rw [hj]
    intro k hk hne
    obtain rfl : k = 0 := by
      have hk : k < 2 := hk
      omega
    refine km_equator_lt htwenty hzero ?_
    rw [sub_zero, abs_of_pos (by linarith : 0 < x), abs_lt]
    exact ⟨by linarith, by linarith⟩

theorem jointLoaded_equatorNet {x y : ℝ} (hnodes : (equatorNet x y).nodeCoord ≠ []) :
    jointLoaded twoHubs (equatorNet x y) = true := by
  simp [jointLoaded, hubsLoaded, twoHubs, loadHubs, hnodes]

/-- One cable from near the first hub to near the second. -/
theorem nodeCoord_equatorNet : (equatorNet 1 19).nodeCoord = [(1, 0), (19, 0)] :=
  (equatorNet_eq (by norm_num) (by norm_num) (by norm_num)).1

/-- The hubs are two pieces over land, and each has a tie of its own. -/
theorem jointConnected_twoHubs : landWires (earth farPolys) twoHubs = [] ∧
    JointConnected (earth farPolys) twoHubs (equatorNet 1 19) := by
  refine ⟨landWires_twoHubs, (jointConnected_iff farPolys [(20, 0)] [(0, 0), (20, 0)] noTopology
    ⟨_, onMap_equatorLine (x := 1) (y := 19) (by norm_num) (by norm_num)⟩ ?_).mpr ?_⟩
  · apply jointLoaded_equatorNet
    rw [nodeCoord_equatorNet]
    exact List.cons_ne_nil _ _
  · have hsize : (equatorNet 1 19).nodeCoord.length = 2 := by
      rw [nodeCoord_equatorNet]
      rfl
    have hfirst : nodeAt (equatorNet 1 19).nodeCoord 0 = (1, 0) := by
      rw [nodeCoord_equatorNet]
      rfl
    have hsecond : nodeAt (equatorNet 1 19).nodeCoord 1 = (19, 0) := by
      rw [nodeCoord_equatorNet]
      rfl
    intro i hi
    have hi : i < 2 := hi
    rcases (by omega : i = 0 ∨ i = 1) with rfl | rfl
    · exact ⟨0, hsize ▸ Nat.zero_lt_two, 0,
        (backhaulHub_twoHubs (by norm_num) hfirst).1 (by norm_num), .refl⟩
    · exact ⟨1, hsize ▸ Nat.one_lt_two, 1,
        (backhaulHub_twoHubs (by norm_num) hsecond).2 (by norm_num), .refl⟩

/-- One cable to the west of Null Island. -/
noncomputable def westNet : CableGraph ℝ := equatorNet (-1) (-(5 : ℕ))

theorem nodeCoord_westNet : westNet.nodeCoord = [(-1, 0), (-5, 0)] := by
  have hnet := equatorNet_eq (x := -1) (y := -(5 : ℕ)) (by norm_num) (by norm_num) (by norm_num)
  rw [westNet, hnet.1]
  norm_num

theorem backhaulHub_westNet {j : ℕ} (hj : j < westNet.nodeCoord.length) :
    backhaulHub (earth farPolys) twoHubs westNet j = some 0 := by
  have hnode : nodeAt westNet.nodeCoord j = (-1, 0) ∨ nodeAt westNet.nodeCoord j = (-5, 0) := by
    rw [nodeCoord_westNet] at hj ⊢
    have hj : j < 2 := hj
    rcases (by omega : j = 0 ∨ j = 1) with rfl | rfl
    · exact Or.inl rfl
    · exact Or.inr rfl
  rcases hnode with hnode | hnode
  · exact (backhaulHub_twoHubs (by norm_num) hnode).1 (by norm_num)
  · exact (backhaulHub_twoHubs (by norm_num) hnode).1 (by norm_num)

/-- The island is served, so it is not bridged, and its landing is no node of the
cables: nothing is tied to it. -/
theorem not_jointConnected_island : jointLoaded twoHubs westNet = true ∧
    ¬ JointConnected (earth farPolys) twoHubs westNet := by
  refine ⟨jointLoaded_equatorNet ?_, ?_⟩
  · change westNet.nodeCoord ≠ []
    rw [nodeCoord_westNet]
    exact List.cons_ne_nil _ _
  intro hconn
  have hsize : jointSize twoHubs westNet = 4 := by
    rw [jointSize, nodeCoord_westNet]
    rfl
  have hway := hconn.1 1 (by omega) 2 (by omega)
  rw [jointAdj_eq_rows] at hway
  have hnone : ∀ j < westNet.nodeCoord.length, ∀ k,
      backhaulHub (earth farPolys) twoHubs westNet j = some k →
      ¬ Links.Reach (landAdj (earth farPolys) twoHubs) 1 k := by
    intro j hj k hk hreach
    rw [landAdj, landWires_twoHubs] at hreach
    have hiff : (1 : ℕ) = 1 ↔ k = 1 :=
      Links.Reach.invariant (p := fun u ↦ u = 1) (fun x hx ↦ absurd hx List.not_mem_nil) hreach
    rw [hiff.mp rfl, backhaulHub_westNet hj] at hk
    cases hk
  exact absurd (lt_of_reach_of_untied (by decide) hnone hway) (by decide)

end TrafficMap.Web
