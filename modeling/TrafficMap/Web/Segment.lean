import TrafficMap.Web.CableRoute
import TrafficMap.Web.Transit

/-!
# One segment

What `segmentPath` of `cables.ts` computes, land or cable, and that its line runs
from the one endpoint to the other.
-/

namespace TrafficMap.Web

noncomputable section

/-! ## Land or cable -/

/-- The data of the module, with what has been loaded. -/
structure World where
  polys : List Poly
  hubs : HubData ℝ
  cables : CableData ℝ
  /-- The cable graph is built. -/
  ready : Bool

structure Drawn where
  path : List (LngLat ℝ)
  snapped : Bool

namespace World

variable (w : World)

def net : CableGraph ℝ := buildCableGraph (earth w.polys) (cableSystems w.cables.features)

/-- `ready`, `hubsReady()` and `landmassReady()`. -/
def loaded : Bool := w.ready && !w.hubs.landings.isEmpty && !w.polys.isEmpty

def viaCable (a b : LngLat ℝ) : Drawn :=
  match (jointRoute (earth w.polys) w.hubs w.net a b).filter fun jr ↦ 3 ≤ jr.length with
  | some jr => ⟨densifyPath jr, true⟩
  | none =>
      match (cableRoute w.net a b).filter fun route ↦ 2 ≤ route.length with
      | some route => ⟨densifyPath ([a] ++ route ++ [b]), true⟩
      | none => ⟨densifyGreatCircle a b, false⟩

def sameLandmass (a b : LngLat ℝ) : Bool :=
  let gA := continentGroup w.polys a
  let gB := continentGroup w.polys b
  gA.isSome && gB.isSome && gA == gB

/-- The path that is computed when there is none in the cache. -/
def compute (a b : LngLat ℝ) : Drawn :=
  if w.sameLandmass a b then
    match landRoute (earth w.polys) w.hubs a b with
    | some lr => ⟨densifyPath lr, false⟩
    | none => w.viaCable a b
  else w.viaCable a b

end World

/-! ## Between the endpoints -/

namespace World

variable {w : World}

/-- The points of the data that a line can be drawn through. -/
def pool (w : World) : List (LngLat ℝ) :=
  w.hubs.hubs ++ w.net.nodeCoord ++ w.net.branches.flatten

/-- A point at the place of one of the data. -/
def OnPool (w : World) (p : LngLat ℝ) : Prop := ∃ q ∈ w.pool, SameSpot p q

/-- Endpoints off the poles, no point of the data but at a distance from the start or
at its very place, and no two points opposite. -/
structure Anchored (w : World) (a b : LngLat ℝ) : Prop where
  lat_a : |a.2| < 90
  lat_b : |b.2| < 90
  opposite : ∀ p ∈ a :: b :: w.pool, ∀ q ∈ a :: b :: w.pool, ¬ Opposite p q
  near : ∀ p ∈ w.pool, Near a p → SameSpot p a

theorem OnPool.of_mem {p : LngLat ℝ} (h : p ∈ w.pool) : OnPool w p := ⟨p, h, SameSpot.refl p⟩

theorem mem_pool_of_hub {p : LngLat ℝ} (h : p ∈ w.hubs.hubs) : p ∈ w.pool :=
  List.mem_append_left _ (List.mem_append_left _ h)

theorem mem_pool_of_node {p : LngLat ℝ} (h : p ∈ w.net.nodeCoord) : p ∈ w.pool :=
  List.mem_append_left _ (List.mem_append_right _ h)

theorem mem_pool_of_branch {p : LngLat ℝ} {bi : ℕ} (h : p ∈ w.net.branches.getD bi []) :
    p ∈ w.pool := by
  refine List.mem_append_right _ (List.mem_flatten.mpr ⟨_, ?_, h⟩)
  rw [List.getD_eq_getElem?_getD] at h ⊢
  cases hbi : w.net.branches[bi]? with
  | none =>
      rw [hbi] at h
      cases h
  | some seg => exact List.mem_of_getElem? hbi

/-- A line whose ends lie at places of the data. -/
structure Ends (w : World) (path : List (LngLat ℝ)) : Prop where
  head : ∀ p, path.head? = some p → OnPool w p
  last : ∀ p, path.getLast? = some p → OnPool w p

theorem Ends.of_subset {path : List (LngLat ℝ)} (h : ∀ p ∈ path, p ∈ w.pool) : Ends w path where
  head p hp := OnPool.of_mem (h p (List.mem_of_head? hp))
  last p hp := OnPool.of_mem (h p (List.mem_of_getLast? hp))

/-- The line through points whose ends lie at places of the data. -/
theorem Anchored.joins {a b : LngLat ℝ} (h : Anchored w a b) {mid : List (LngLat ℝ)}
    (hne : mid ≠ []) (hmid : Ends w mid) : Joins a b (densifyPath (a :: (mid ++ [b]))) := by
  apply joins_densifyPath h.lat_a h.lat_b hne
  · intro p hp
    obtain ⟨q, hq, hspot⟩ := hmid.head p hp
    refine ⟨fun hopp ↦ ?_, fun hnear ↦ ?_⟩
    · refine h.opposite a (List.mem_cons_self ..) q ?_ ((hspot.opposite_iff a).1.mp hopp)
      exact List.mem_cons_of_mem _ (List.mem_cons_of_mem _ hq)
    · exact hspot.trans (h.near q hq ((hspot.near_iff a).mp hnear))
  · intro p hp hopp
    obtain ⟨q, hq, hspot⟩ := hmid.last p hp
    refine h.opposite q ?_ b (List.mem_cons_of_mem _ (List.mem_cons_self ..))
      ((hspot.opposite_iff b).2.mp hopp)
    exact List.mem_cons_of_mem _ (List.mem_cons_of_mem _ hq)

/-! ### Land -/

theorem hubAt_mem {d : HubData ℝ} {i : ℕ} (hi : i < hubCount d) : hubAt d i ∈ d.hubs := by
  rw [hubAt, List.getD_eq_getElem?_getD, List.getElem?_eq_getElem hi, Option.getD_some]
  exact List.getElem_mem hi

theorem landRoute_eq {polys : List Poly} {d : HubData ℝ} {a b : LngLat ℝ} {lr : List (LngLat ℝ)}
    (h : landRoute (earth polys) d a b = some lr) :
    ∃ mid, mid ≠ [] ∧ lr = a :: (mid ++ [b]) ∧ ∀ p ∈ mid, p ∈ d.hubs := by
  rw [landRoute] at h
  split at h
  · obtain ⟨ia, hia, h⟩ := Option.bind_eq_some_iff.mp h
    obtain ⟨ib, hib, h⟩ := Option.bind_eq_some_iff.mp h
    have hia' : ia < hubCount d := List.mem_range.mp (List.argmin_mem hia)
    have hib' : ib < hubCount d := List.mem_range.mp (List.argmin_mem hib)
    split at h
    · obtain rfl := Option.some.inj h
      refine ⟨[hubAt d ia], List.cons_ne_nil _ _, rfl, ?_⟩
      intro p hp
      rw [List.mem_singleton.mp hp]
      exact hubAt_mem hia'
    · obtain ⟨hops, hhops, rfl⟩ := Option.map_eq_some_iff.mp h
      refine ⟨(hops.map fun hop ↦ hubAt d hop.1) ++ [hubAt d ib], by simp, by simp, ?_⟩
      intro p hp
      rcases List.mem_append.mp hp with hhop | hlast
      · obtain ⟨⟨u, tag, v⟩, hmem, rfl⟩ := List.mem_map.mp hhop
        rw [landTrail] at hhops
        split at hhops
        · cases hhops
        · obtain rfl := Option.some.inj hhops
          have hsound := Search.sound_search (landAdj_bound (earth polys) d) hia' ib
          obtain ⟨e, he, -⟩ := hsound.step_of_mem_trail hmem
          have hends := Links.bound_of_mem_rows (fun x hx ↦ (landOk_landWires x hx).ends_lt) he
          exact hubAt_mem hends.1
      · rw [List.mem_singleton.mp hlast]
        exact hubAt_mem hib'
  · cases h

/-! ### Land and cable -/

theorem net_connected (w : World) : w.net.Connected :=
  connected_buildCableGraph (isDistance_earth _) (inRange_cableSystems w.cables)

theorem coordAt_mem {u : ℕ} (hu : u < jointSize w.hubs w.net) :
    coordAt w.hubs w.net u ∈ w.pool := by
  have hlen : u < (w.hubs.hubs ++ w.net.nodeCoord).length := by rwa [List.length_append]
  have hmem : coordAt w.hubs w.net u ∈ w.hubs.hubs ++ w.net.nodeCoord := by
    rw [coordAt, List.getD_eq_getElem?_getD, List.getElem?_eq_getElem hlen, Option.getD_some]
    exact List.getElem_mem hlen
  exact List.mem_append_left _ hmem

theorem mem_pool_of_hopPoints {hop : ℕ × Branch × ℕ} (hu : hop.1 < jointSize w.hubs w.net)
    {p : LngLat ℝ} (hp : p ∈ hopPoints w.hubs w.net hop) : p ∈ w.pool := by
  rw [hopPoints] at hp
  split at hp
  · rename_i bi _
    have hseg := List.mem_of_mem_dropLast hp
    split at hseg
    · exact mem_pool_of_branch (List.mem_reverse.mp hseg)
    · exact mem_pool_of_branch hseg
  · rw [List.mem_singleton.mp hp]
    exact coordAt_mem hu

theorem jointRoute_eq {a b : LngLat ℝ} {jr : List (LngLat ℝ)}
    (h : jointRoute (earth w.polys) w.hubs w.net a b = some jr) :
    ∃ mid, mid ≠ [] ∧ jr = a :: (mid ++ [b]) ∧ ∀ p ∈ mid, p ∈ w.pool := by
  rw [jointRoute] at h
  split at h
  · obtain ⟨ia, hia, h⟩ := Option.bind_eq_some_iff.mp h
    obtain ⟨ib, hib, h⟩ := Option.bind_eq_some_iff.mp h
    have hbound := jointAdj_bound (E := earth w.polys) (d := w.hubs) w.net_connected.bound
    split at h
    · cases h
    · obtain rfl := Option.some.inj h
      refine ⟨(jointTrail (earth w.polys) w.hubs w.net ia ib).flatMap (hopPoints w.hubs w.net) ++
        [coordAt w.hubs w.net ib], by simp, rfl, ?_⟩
      intro p hp
      rcases List.mem_append.mp hp with hhop | hlast
      · obtain ⟨⟨u, tag, v⟩, hmem, hpoint⟩ := List.mem_flatMap.mp hhop
        obtain ⟨e, he, -⟩ :=
          (Search.sound_search hbound (lt_of_nearestJoint hia) ib).step_of_mem_trail hmem
        rw [jointAdj_eq_rows] at he
        have hends := Links.bound_of_mem_rows (jointWires_bound w.net_connected.bound) he
        exact mem_pool_of_hopPoints hends.1 hpoint
      · rw [List.mem_singleton.mp hlast]
        exact coordAt_mem (lt_of_nearestJoint hib)
  · cases h

/-! ### Cable -/

theorem nodeAt_onGlobe {i : ℕ} (hi : i < w.net.nodeCoord.length) :
    nodeAt w.net.nodeCoord i ∈ w.pool ∧ |(nodeAt w.net.nodeCoord i).2| < 90 := by
  have hnet : NetOk OnGlobe (addSystems (earth w.polys) (cableSystems w.cables.features)) := by
    apply netOk_addSystems (isDistance_earth w.polys).apart
    exact fun segs hsegs seg hseg c hc ↦
      (inRange_cableSystems w.cables segs hsegs seg hseg c hc).onGlobe
  have hmem : nodeAt w.net.nodeCoord i ∈ w.net.nodeCoord := nodeAt_mem hi
  have hglobe := hnet.nodes.points _ hmem
  have hsouth := hglobe.south
  have hnorth := hglobe.north
  push_cast at hsouth hnorth
  exact ⟨mem_pool_of_node hmem, abs_lt.mpr ⟨hsouth, hnorth⟩⟩

theorem Anchored.ends_hopSegment {a b : LngLat ℝ} (h : Anchored w a b) {hop : ℕ × Branch × ℕ}
    (hu : hop.1 < w.net.nodeCoord.length) (hv : hop.2.2 < w.net.nodeCoord.length) :
    Ends w (hopSegment w.net hop) := by
  rw [hopSegment]
  split
  · rename_i bi _
    apply Ends.of_subset
    intro p hp
    split at hp
    · exact mem_pool_of_branch (List.mem_reverse.mp hp)
    · exact mem_pool_of_branch hp
  · obtain ⟨hmemu, hlatu⟩ := nodeAt_onGlobe hu
    obtain ⟨hmemv, hlatv⟩ := nodeAt_onGlobe hv
    have hopp : ¬ Opposite (nodeAt w.net.nodeCoord hop.1) (nodeAt w.net.nodeCoord hop.2.2) :=
      h.opposite _ (List.mem_cons_of_mem _ (List.mem_cons_of_mem _ hmemu)) _
        (List.mem_cons_of_mem _ (List.mem_cons_of_mem _ hmemv))
    obtain ⟨⟨p, hp, hpu⟩, q, hq, hqv⟩ := joins_densifyGreatCircle hlatu hlatv hopp
    constructor
    · intro p' hp'
      obtain rfl := Option.some.inj (hp'.symm.trans hp)
      exact ⟨_, hmemu, hpu⟩
    · intro q' hq'
      obtain rfl := Option.some.inj (hq'.symm.trans hq)
      exact ⟨_, hmemv, hqv⟩

theorem Ends.joinSegment {out seg : List (LngLat ℝ)} (hout : Ends w out) (hseg : Ends w seg) :
    Ends w (joinSegment out seg) := by
  rw [Web.joinSegment]
  cases out with
  | nil => exact hseg
  | cons p ps =>
      rw [List.isEmpty_cons, if_neg Bool.false_ne_true]
      refine ⟨hout.head, ?_⟩
      intro q hq
      rw [List.getLast?_append] at hq
      rcases Option.or_eq_some_iff.mp hq with hlast | ⟨-, hold⟩
      · rw [List.getLast?_drop] at hlast
        split at hlast
        · cases hlast
        · exact hseg.last q hlast
      · exact hout.last q hold

theorem Ends.joinSegments {hops : List (ℕ × Branch × ℕ)}
    (hhops : ∀ hop ∈ hops, Ends w (hopSegment w.net hop)) {out : List (LngLat ℝ)}
    (hout : Ends w out) : Ends w ((hops.map (hopSegment w.net)).foldl Web.joinSegment out) := by
  induction hops generalizing out with
  | nil => exact hout
  | cons hop hops ih =>
      obtain ⟨hhop, hhops⟩ := List.forall_mem_cons.mp hhops
      exact ih hhops (hout.joinSegment hhop)

theorem Anchored.ends_cableRoute {a b : LngLat ℝ} (h : Anchored w a b) {route : List (LngLat ℝ)}
    (hroute : cableRoute w.net a b = some route) : Ends w route := by
  rw [cableRoute] at hroute
  split at hroute
  · cases hroute
  · obtain ⟨cur, hcur, rfl⟩ := Option.map_eq_some_iff.mp hroute
    have hprev : EntryPrev w.net (startSweep w.net a) := by
      intro v u tag hprev
      cases hprev
    have hsweep := hprev.sweep w.net.nodeCoord.length
    generalize sweep w.net w.net.nodeCoord.length (startSweep w.net a) = s at hcur hsweep ⊢
    have hhops : ∀ hop ∈ Search.trail s.prev w.net.nodeCoord.length cur,
        Ends w (hopSegment w.net hop) := by
      intro hop hmem
      obtain ⟨u, tag, v⟩ := hop
      obtain ⟨e, he, rfl, -⟩ := hsweep v u tag (Search.prev_of_mem_trail hmem)
      obtain ⟨hu, hv⟩ := Links.bound_of_mem_rows w.net_connected.bound he
      exact h.ends_hopSegment hu hv
    split
    · apply Ends.of_subset
      intro p hp
      rw [List.mem_singleton.mp hp]
      exact (nodeAt_onGlobe (lt_of_bestEnd hcur)).1
    · apply Ends.joinSegments hhops
      apply Ends.of_subset
      exact fun p hp ↦ absurd hp List.not_mem_nil

/-! ### All ways -/

theorem Anchored.joins_viaCable {a b : LngLat ℝ} (h : Anchored w a b) :
    Joins a b (w.viaCable a b).path := by
  rw [viaCable]
  split
  · rename_i jr hjr
    obtain ⟨mid, hne, rfl, hmid⟩ := jointRoute_eq (Option.filter_eq_some_iff.mp hjr).1
    exact h.joins hne (Ends.of_subset hmid)
  · split
    · rename_i route hroute
      obtain ⟨hroute, hlen⟩ := Option.filter_eq_some_iff.mp hroute
      have hne : route ≠ [] := by
        rintro rfl
        exact absurd (of_decide_eq_true hlen) (by decide)
      rw [List.append_assoc, List.singleton_append]
      exact h.joins hne (h.ends_cableRoute hroute)
    · exact joins_densifyGreatCircle h.lat_a h.lat_b
        (h.opposite a (List.mem_cons_self ..) b (List.mem_cons_of_mem _ (List.mem_cons_self ..)))

/-- What is computed runs from the one endpoint to the other. -/
theorem Anchored.joins_compute {a b : LngLat ℝ} (h : Anchored w a b) :
    Joins a b (w.compute a b).path := by
  rw [compute]
  split
  · split
    · rename_i lr hlr
      obtain ⟨mid, hne, rfl, hmid⟩ := landRoute_eq hlr
      exact h.joins hne (Ends.of_subset fun p hp ↦ mem_pool_of_hub (hmid p hp))
    · exact h.joins_viaCable
  · exact h.joins_viaCable

end World

end

end TrafficMap.Web
