import TrafficMap.Lib.Shortest
import TrafficMap.Web.Branches

/-!
# Shortest routes

`landRoute` and `jointRoute` follow a shortest way between the nodes nearest to the two
points, if there is one, and draw each of its entries once.
-/

namespace TrafficMap.Web

open Search

variable {K : Type} [Field K] [LinearOrder K]

section Specs

/-- No more rounds, no more steps back and no exhaustive search would change the way. -/
structure LoopsEnd {τ : Type} (N : ℕ) (adj : ℕ → List (Link K τ)) (ia ib : ℕ) : Prop where
  rounds : ∀ n ≥ Search.rounds N adj, run adj ib n (init ia) = search N adj ia ib
  steps : (search N adj ia ib).dist ib ≠ ⊤ → ∀ n ≥ N,
    trail (search N adj ia ib).prev n ib = trail (search N adj ia ib).prev N ib
  exhaustive : (search N adj ia N).dist ib = (search N adj ia ib).dist ib ∧
    ((search N adj ia ib).dist ib ≠ ⊤ →
      trail (search N adj ia N).prev N ib = trail (search N adj ia ib).prev N ib)

variable [FloorRing K] (E : Earth K) (d : HubData K) (g : CableGraph K)

/-- The first `N` points have none closer. -/
structure Nearest (coord : ℕ → LngLat K) (N : ℕ) (p : LngLat K) (i : ℕ) : Prop where
  lt : i < N
  le : ∀ j < N, E.haversineKm (coord i) p ≤ E.haversineKm (coord j) p

/-- A line from `a` to `b` through the hubs of a shortest way. -/
def LandLine (ia ib : ℕ) (a b : LngLat K) (line : List (LngLat K)) : Prop :=
  ∃ w hops, Shortest (landAdj E d) ia ib w hops ∧ (nodesOf hops ib).Nodup ∧
    line = [a] ++ (nodesOf hops ib).map (hubAt d) ++ [b]

structure LandShortest (a b : LngLat K) (ia ib : ℕ) : Prop where
  start : Nearest E (hubAt d) d.hubs.length a ia
  target : Nearest E (hubAt d) d.hubs.length b ib
  none_iff : landRoute E d a b = none ↔ ¬ Links.Reach (landAdj E d) ia ib
  line : ∀ line, landRoute E d a b = some line → LandLine E d ia ib a b line
  loops : LoopsEnd d.hubs.length (landAdj E d) ia ib

/-- The point stands for the node. -/
def StandsFor (u : ℕ) (p : LngLat K) : Prop :=
  coordAt d g u = (normLon p.1, p.2) ∨
    E.haversineKm (coordAt d g u) (normLon p.1, p.2) < (CLUSTER_KM : K)

/-- What an entry contributes: the node it leaves, or the polyline of the cable in the
direction of travel from that node on, but for the point of the node it leads to. -/
def Contributes (hop : ℕ × Branch × ℕ) (part : List (LngLat K)) : Prop :=
  match hop.2.1.branchIdx with
  | none => part = [coordAt d g hop.1]
  | some bi => ∃ seg p mid q, g.branches[bi]? = some seg ∧
      (if hop.2.1.reversed then seg.reverse else seg) = p :: mid ++ [q] ∧
      StandsFor E d g hop.1 p ∧ StandsFor E d g hop.2.2 q ∧ part = p :: mid

/-- A line from `a` to `b` to which each entry of a shortest way contributes its part. -/
def JointLine (ia ib : ℕ) (a b : LngLat K) (line : List (LngLat K)) : Prop :=
  ∃ w hops, Shortest (jointAdj E d g) ia ib w hops ∧ (nodesOf hops ib).Nodup ∧
    ∃ parts, List.Forall₂ (Contributes E d g) hops parts ∧
      line = [a] ++ parts.flatten ++ [coordAt d g ib, b]

structure JointShortest (a b : LngLat K) (ia ib : ℕ) : Prop where
  start : Nearest E (coordAt d g) (jointSize d g) a ia
  target : Nearest E (coordAt d g) (jointSize d g) b ib
  none_iff : jointRoute E d g a b = none ↔ ¬ Links.Reach (jointAdj E d g) ia ib
  line : ∀ line, jointRoute E d g a b = some line → JointLine E d g ia ib a b line
  loops : LoopsEnd (jointSize d g) (jointAdj E d g) ia ib

end Specs

variable [IsStrictOrderedRing K]

theorem loopsEnd {τ : Type} {N : ℕ} {adj : ℕ → List (Link K τ)}
    (hadj : ∀ u < N, ∀ e ∈ adj u, e.dest < N) (hw : ∀ u, ∀ e ∈ adj u, 0 ≤ e.w) {ia : ℕ}
    (hia : ia < N) (ib : ℕ) : LoopsEnd N adj ia ib where
  rounds _ hn := run_search hadj hia ib hn
  steps h := (trail_search hadj hia hw h).2
  exhaustive := search_exhaustive hadj hia hw ib

variable [FloorRing K] {E : Earth K} {d : HubData K} {g : CableGraph K}

omit [Field K] [IsStrictOrderedRing K] [FloorRing K] in
theorem nearest_of_argmin {coord : ℕ → LngLat K} {N : ℕ} {p : LngLat K} {i : ℕ}
    (h : (List.range N).argmin (fun i ↦ E.haversineKm (coord i) p) = some i) :
    Nearest E coord N p i where
  lt := List.mem_range.mp (List.argmin_mem h)
  le _ hj := not_lt.mp (List.not_lt_of_mem_argmin (List.mem_range.mpr hj) h)

omit [Field K] [IsStrictOrderedRing K] [FloorRing K] in
theorem exists_nearest (E : Earth K) (coord : ℕ → LngLat K) {N : ℕ} (hN : 0 < N) (p : LngLat K) :
    ∃ i, (List.range N).argmin (fun i ↦ E.haversineKm (coord i) p) = some i := by
  apply Option.ne_none_iff_exists'.mp
  intro hnone
  rw [List.argmin_eq_none, List.range_eq_nil] at hnone
  omega

/-! ## Over land -/

section Land

/-- No way is shorter than none. -/
theorem shortest_nil (hw : ∀ u, ∀ e ∈ landAdj E d u, 0 ≤ e.w) (i : ℕ) :
    Shortest (landAdj E d) i i 0 [] := by
  refine ⟨Way.nil, ?_⟩
  intro w hops hway
  exact hway.nonneg hw

section Loaded

variable (hloaded : hubsLoaded d = true) {a b : LngLat K}
include hloaded

omit [Field K] [LinearOrder K] [IsStrictOrderedRing K] [FloorRing K] in
theorem hubs_length_pos : 0 < d.hubs.length := by
  rw [hubsLoaded, Bool.and_eq_true] at hloaded
  exact List.length_pos_iff.mpr (by simpa using hloaded.2)

variable {ia ib : ℕ} (hia : nearestHub E d a = some ia) (hib : nearestHub E d b = some ib)
include hia hib

omit [IsStrictOrderedRing K] in
theorem landRoute_eq : landRoute E d a b = if ia = ib then some [a, hubAt d ia, b]
    else (landTrail E d ia ib).map fun hops ↦
      [a] ++ (hops.map fun hop ↦ hubAt d hop.1) ++ [hubAt d ib, b] := by
  rw [landRoute, if_pos hloaded, hia, hib, Option.bind_some, Option.bind_some]

omit [IsStrictOrderedRing K] in
theorem landRoute_eq_none_iff :
    landRoute E d a b = none ↔ ¬ Links.Reach (landAdj E d) ia ib := by
  have hiff : (search (hubCount d) (landAdj E d) ia ib).dist ib ≠ ⊤ ↔
      Links.Reach (landAdj E d) ia ib :=
    dist_search_ne_top_iff (landAdj_bound E d) (nearest_of_argmin hia).lt
  rw [landRoute_eq hloaded hia hib, ← hiff, landTrail]
  by_cases hab : ia = ib
  · subst hab
    rw [if_pos rfl]
    exact iff_of_false (Option.some_ne_none _) (not_not.mpr (hiff.mpr .refl))
  · rw [if_neg hab, Option.map_eq_none_iff]
    simp [hubCount]

end Loaded

theorem landShortest (hw : ∀ u, ∀ e ∈ landAdj E d u, 0 ≤ e.w) (hloaded : hubsLoaded d = true)
    (a b : LngLat K) : ∃ ia ib, LandShortest E d a b ia ib := by
  have hpos := hubs_length_pos hloaded
  obtain ⟨ia, hia⟩ := exists_nearest E (hubAt d) hpos a
  obtain ⟨ib, hib⟩ := exists_nearest E (hubAt d) hpos b
  have hstart := nearest_of_argmin hia
  refine ⟨ia, ib, hstart, nearest_of_argmin hib, landRoute_eq_none_iff hloaded hia hib, ?_,
    loopsEnd (landAdj_bound E d) hw hstart.lt ib⟩
  intro line hline
  rw [landRoute_eq hloaded hia hib] at hline
  by_cases hab : ia = ib
  · subst hab
    rw [if_pos rfl] at hline
    obtain rfl := Option.some.inj hline
    exact ⟨0, [], shortest_nil hw ia, List.nodup_singleton ia, rfl⟩
  · rw [if_neg hab] at hline
    obtain ⟨hops, hhops, rfl⟩ := Option.map_eq_some_iff.mp hline
    rw [landTrail] at hhops
    obtain ⟨hdist, hhops⟩ := Option.ite_none_left_eq_some.mp hhops
    obtain rfl := Option.some.inj hhops
    obtain ⟨w, -, hshort⟩ := shortest_trail (landAdj_bound E d) hstart.lt hw hdist
    obtain ⟨hnodup, -⟩ := trail_search (landAdj_bound E d) hstart.lt hw hdist
    refine ⟨w, _, hshort, hnodup, ?_⟩
    simp [nodesOf, hubCount]

end Land

/-! ## Over land and sea -/

section Joint

omit [LinearOrder K] [IsStrictOrderedRing K] [FloorRing K] in
theorem coordAt_hubCount_add (i : ℕ) : coordAt d g (hubCount d + i) = nodeAt g.nodeCoord i := by
  rw [coordAt, nodeAt, List.getD_eq_getElem?_getD, List.getD_eq_getElem?_getD, hubCount,
    List.getElem?_append_right (Nat.le_add_right _ _), Nat.add_sub_cancel_left]

omit [IsStrictOrderedRing K] in
theorem AtNode.standsFor {i : ℕ} {p : LngLat K} (h : AtNode E g.nodeCoord i p) :
    StandsFor E d g (hubCount d + i) p := by
  rwa [StandsFor, coordAt_hubCount_add]

omit [Field K] [LinearOrder K] [IsStrictOrderedRing K] [FloorRing K] in
/-- A line of two points or more, from its first to its last. -/
theorem exists_ends {α : Type} {line : List α} (h : 2 ≤ line.length) (z : α) :
    ∃ mid, line = line.headD z :: mid ++ [line.getLastD z] := by
  cases line with
  | nil => exact absurd h (by simp)
  | cons p rest =>
      have hne : rest ≠ [] := by
        rintro rfl
        exact absurd h (by simp)
      refine ⟨rest.dropLast, ?_⟩
      rw [List.getLastD_eq_getLast?, List.getLast?_cons_of_ne_nil hne,
        List.getLast?_eq_some_getLast hne]
      simp [List.dropLast_append_getLast hne]

omit [IsStrictOrderedRing K] in
theorem contributes_straight {hop : ℕ × Branch × ℕ} (h : hop.2.1.branchIdx = none) :
    Contributes E d g hop (hopPoints d g hop) := by
  rw [Contributes, hopPoints, h]

omit [IsStrictOrderedRing K] in
/-- An entry of the cable network. -/
theorem contributes_cable (hg : EdgesOk E g) {i : ℕ} {e : Link K Branch}
    (he : e ∈ Links.rows g.wires i) :
    Contributes E d g (hubCount d + i, e.tag, hubCount d + e.dest)
      (hopPoints d g (hubCount d + i, e.tag, hubCount d + e.dest)) := by
  cases h : e.tag.branchIdx with
  | none => exact contributes_straight h
  | some bi =>
      obtain ⟨seg, hseg, hlength, hfirst, hlast⟩ := hg.spans he h
      obtain ⟨mid, hline⟩ := exists_ends hlength (0, 0)
      have hget : g.branches.getD bi [] = seg := by
        rw [List.getD_eq_getElem?_getD, hseg, Option.getD_some]
      rw [Contributes, hopPoints]
      dsimp only
      rw [h]
      refine ⟨seg, _, mid, _, hseg, hline, hfirst.standsFor, hlast.standsFor, ?_⟩
      dsimp only
      rw [hget]
      exact (congrArg List.dropLast hline).trans List.dropLast_concat

omit [IsStrictOrderedRing K] in
theorem contributes_of_mem (hg : EdgesOk E g) {u : ℕ} {e : Link K Branch}
    (he : e ∈ jointAdj E d g u) :
    Contributes E d g (u, e.tag, e.dest) (hopPoints d g (u, e.tag, e.dest)) := by
  rw [jointAdj_eq_rows] at he
  obtain ⟨x, hx, hends⟩ := Links.mem_rows.mp he
  rcases mem_jointWires hx with ⟨y, -, rfl⟩ | ⟨y, hy, rfl⟩ | ⟨j, -, i, -, rfl⟩
  · rcases hends with ⟨-, rfl⟩ | ⟨-, rfl⟩
    · exact contributes_straight rfl
    · exact contributes_straight rfl
  · rcases hends with ⟨rfl, rfl⟩ | ⟨rfl, rfl⟩
    · exact contributes_cable hg (Links.mem_rows.mpr ⟨y, hy, Or.inl ⟨rfl, rfl⟩⟩)
    · exact contributes_cable hg (Links.mem_rows.mpr ⟨y, hy, Or.inr ⟨rfl, rfl⟩⟩)
  · rcases hends with ⟨-, rfl⟩ | ⟨-, rfl⟩
    · exact contributes_straight rfl
    · exact contributes_straight rfl

theorem jointShortest (hg : EdgesOk E g) (hw : ∀ u, ∀ e ∈ jointAdj E d g u, 0 ≤ e.w)
    (hloaded : jointLoaded d g = true) (a b : LngLat K) :
    ∃ ia ib, JointShortest E d g a b ia ib := by
  have hpos : 0 < jointSize d g := by
    rw [jointLoaded, Bool.and_eq_true] at hloaded
    have hnodes : 0 < g.nodeCoord.length := List.length_pos_iff.mpr (by simpa using hloaded.2)
    exact hnodes.trans_le (Nat.le_add_left _ _)
  have hadj := jointAdj_bound (E := E) (d := d) hg.bound
  obtain ⟨ia, hia⟩ := exists_nearest E (coordAt d g) hpos a
  obtain ⟨ib, hib⟩ := exists_nearest E (coordAt d g) hpos b
  have hstart := nearest_of_argmin hia
  have hroute : jointRoute E d g a b = if (jointSearch E d g ia ib).dist ib = ⊤ then none
      else some ([a] ++ ((jointTrail E d g ia ib).flatMap (hopPoints d g) ++ [coordAt d g ib]) ++
        [b]) := by
    rw [jointRoute, if_pos hloaded, nearestJoint, hia, nearestJoint, hib, Option.bind_some,
      Option.bind_some]
  refine ⟨ia, ib, hstart, nearest_of_argmin hib, ?_, ?_, loopsEnd hadj hw hstart.lt ib⟩
  · rw [hroute, ← dist_search_ne_top_iff hadj hstart.lt, not_not]
    by_cases hdist : (jointSearch E d g ia ib).dist ib = ⊤
    · rw [if_pos hdist]
      exact iff_of_true rfl hdist
    · rw [if_neg hdist]
      exact iff_of_false (Option.some_ne_none _) hdist
  · intro line hline
    rw [hroute] at hline
    obtain ⟨hdist, hline⟩ := Option.ite_none_left_eq_some.mp hline
    obtain rfl := Option.some.inj hline
    obtain ⟨w, -, hshort⟩ := shortest_trail hadj hstart.lt hw hdist
    obtain ⟨hnodup, -⟩ := trail_search hadj hstart.lt hw hdist
    change Shortest (jointAdj E d g) ia ib w (jointTrail E d g ia ib) at hshort
    refine ⟨w, _, hshort, hnodup, (jointTrail E d g ia ib).map (hopPoints d g), ?_, ?_⟩
    · rw [List.forall₂_map_right_iff, List.forall₂_same]
      intro hop hhop
      obtain ⟨e, he, hdest, htag⟩ :=
        (sound_search hadj hstart.lt ib).step_of_mem_trail hhop
      have hpart := contributes_of_mem hg he
      rwa [hdest, htag] at hpart
    · rw [← List.flatMap_def]
      simp

end Joint

/-- Both kinds of routes, between any two points. -/
theorem shortest_routes (E : Earth K) (d : HubData K) (systems : List (List (List (LngLat K))))
    (hland : ∀ u, ∀ e ∈ landAdj E d u, 0 ≤ e.w)
    (hjoint : ∀ u, ∀ e ∈ jointAdj E d (buildCableGraph E systems) u, 0 ≤ e.w) (a b : LngLat K) :
    (hubsLoaded d = true → ∃ ia ib, LandShortest E d a b ia ib) ∧
      (jointLoaded d (buildCableGraph E systems) = true →
        ∃ ia ib, JointShortest E d (buildCableGraph E systems) a b ia ib) := by
  constructor
  · exact fun hloaded ↦ landShortest hland hloaded a b
  · exact fun hloaded ↦ jointShortest (edgesOk_buildCableGraph E systems) hjoint hloaded a b

/-- Two hubs, at the first two landings of `forked`. -/
def forkedHubs : HubData ℚ := loadHubs [(175, 0)] [(175, 0), (175, 1)] ⟨[], [], [], [], [], []⟩

theorem shortest_routes_forked :
    (∃ ia ib, LandShortest taxicab forkedHubs (175, 0) (175, 2) ia ib) ∧
      ∃ ia ib, JointShortest taxicab forkedHubs (buildCableGraph taxicab (forked 175))
        (175, 0) (175, 2) ia ib := by
  have hcables : ∀ x ∈ (buildCableGraph taxicab (forked 175)).wires, 0 ≤ x.w :=
    fun x hx ↦ (posWires_buildCableGraph (forked 175) x hx).le
  obtain ⟨hland, hjoint⟩ := shortest_routes taxicab forkedHubs (forked 175)
    (landAdj_nonneg taxicab_nonneg) (jointAdj_nonneg taxicab_nonneg hcables) (175, 0) (175, 2)
  exact ⟨hland (by decide), hjoint (by decide +kernel)⟩

end TrafficMap.Web
