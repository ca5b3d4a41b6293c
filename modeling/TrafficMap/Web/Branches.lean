import TrafficMap.Web.CableBuild

/-!
# The segments behind the edges

An edge of the cable network lies between nodes.  The segment that it draws, if any,
begins and ends at the landings that the nodes stand for.
-/

namespace TrafficMap.Web

variable {K : Type} [Field K] [LinearOrder K] [FloorRing K]

section Defs

variable (E : Earth K)

/-- The node stands for the point. -/
def AtNode (nodes : List (LngLat K)) (i : ℕ) (p : LngLat K) : Prop :=
  nodeAt nodes i = (normLon p.1, p.2) ∨
    E.haversineKm (nodeAt nodes i) (normLon p.1, p.2) < (CLUSTER_KM : K)

/-- A line from `a` to `b`. -/
structure Spans (nodes : List (LngLat K)) (a b : ℕ) (line : List (LngLat K)) : Prop where
  length : 2 ≤ line.length
  first : AtNode E nodes a (line.headD (0, 0))
  last : AtNode E nodes b (line.getLastD (0, 0))

/-- An edge between nodes, with its segment from the one end to the other. -/
structure EdgeOk (g : CableGraph K) (x : Wire K Branch) : Prop where
  a_lt : x.a < g.nodeCoord.length
  b_lt : x.b < g.nodeCoord.length
  pos : 0 < x.w
  out : x.out = ⟨x.out.branchIdx, false⟩
  back : x.back = ⟨x.out.branchIdx, true⟩
  segment : ∀ bi, x.out.branchIdx = some bi →
    ∃ seg, g.branches[bi]? = some seg ∧ Spans E g.nodeCoord x.a x.b seg

end Defs

section Build

variable {E : Earth K} {g g' : CableGraph K} {nodes nodes' : List (LngLat K)} {i : ℕ}
  {p : LngLat K}

omit [LinearOrder K] [FloorRing K] in
theorem nodeAt_grow (h : nodes <+: nodes') (hi : i < nodes.length) :
    nodeAt nodes' i = nodeAt nodes i := by
  rw [nodeAt_eq_getElem hi, nodeAt_eq_getElem (hi.trans_le h.length_le)]
  exact (h.getElem hi).symm

theorem AtNode.grow (hat : AtNode E nodes i p) (h : nodes <+: nodes') (hi : i < nodes.length) :
    AtNode E nodes' i p := by
  rwa [AtNode, nodeAt_grow h hi]

theorem EdgeOk.grow {x : Wire K Branch} (hx : EdgeOk E g x)
    (hnodes : g.nodeCoord <+: g'.nodeCoord) (hbranches : g.branches <+: g'.branches) :
    EdgeOk E g' x where
  a_lt := hx.a_lt.trans_le hnodes.length_le
  b_lt := hx.b_lt.trans_le hnodes.length_le
  pos := hx.pos
  out := hx.out
  back := hx.back
  segment bi hbi := by
    obtain ⟨seg, hseg, hspans⟩ := hx.segment bi hbi
    have hseg' : g'.branches[bi]? = some seg := by
      obtain ⟨rest, hrest⟩ := hbranches
      rw [← hrest, List.getElem?_append_left (List.getElem?_eq_some_iff.mp hseg).1, hseg]
    refine ⟨seg, hseg', hspans.length, ?_, ?_⟩
    · exact hspans.first.grow hnodes hx.a_lt
    · exact hspans.last.grow hnodes hx.b_lt

/-- The node is there already, or it is added. -/
theorem findOrAdd_atNode (E : Earth K) (nodes : List (LngLat K)) (p : LngLat K) :
    nodes <+: (findOrAdd E nodes p).2 ∧ (findOrAdd E nodes p).1 < (findOrAdd E nodes p).2.length ∧
      AtNode E (findOrAdd E nodes p).2 (findOrAdd E nodes p).1 p := by
  rw [findOrAdd]
  cases hfound : clusterNode E nodes (normLon p.1, p.2) with
  | some id =>
      have hnear := List.of_mem_filter (List.argmin_mem hfound)
      exact ⟨List.prefix_refl _, lt_of_clusterNode hfound, Or.inr (of_decide_eq_true hnear)⟩
  | none =>
      refine ⟨List.prefix_append _ _, ?_, Or.inl ?_⟩
      · simp
      · dsimp only
        rw [nodeAt_eq_getElem (by simp), List.getElem_concat_length rfl]

/-- Every edge is drawn. -/
def EdgesOk (E : Earth K) (g : CableGraph K) : Prop := ∀ x ∈ g.wires, EdgeOk E g x

theorem EdgesOk.bound (hg : EdgesOk E g) :
    ∀ x ∈ g.wires, x.a < g.nodeCoord.length ∧ x.b < g.nodeCoord.length :=
  fun x hx ↦ ⟨(hg x hx).a_lt, (hg x hx).b_lt⟩

theorem edgeOk_of_mem_addEdge {wires : List (Wire K Branch)} {a b : ℕ} {w : K} {bi : Option ℕ}
    (hwires : ∀ x ∈ wires, EdgeOk E g x) (ha : a < g.nodeCoord.length) (hb : b < g.nodeCoord.length)
    (hseg : ∀ i, bi = some i → ∃ seg, g.branches[i]? = some seg ∧ Spans E g.nodeCoord a b seg) :
    ∀ x ∈ addEdge wires a b w bi, EdgeOk E g x := by
  rw [addEdge]
  split
  · exact hwires
  · rename_i hadd
    intro x hx
    rcases List.mem_append.mp hx with hold | hnew
    · exact hwires x hold
    · obtain rfl := List.mem_singleton.mp hnew
      exact ⟨ha, hb, not_le.mp (not_or.mp hadd).2, rfl, rfl, hseg⟩

theorem edgesOk_addSegment {landings : List ℕ} (hg : EdgesOk E g)
    (hland : ∀ id ∈ landings, id < g.nodeCoord.length) (seg : List (LngLat K)) :
    EdgesOk E (addSegment E (g, landings) seg).1 ∧
      ∀ id ∈ (addSegment E (g, landings) seg).2,
        id < (addSegment E (g, landings) seg).1.nodeCoord.length := by
  rw [addSegment]
  dsimp only
  split
  · exact ⟨hg, hland⟩
  · rename_i hcond
    have hlength : 2 ≤ seg.length := by
      by_contra hshort
      exact hcond (by simp [not_le.mp hshort])
    obtain ⟨hpre, hia, hfirst⟩ := findOrAdd_atNode E g.nodeCoord (seg.headD (0, 0))
    generalize findOrAdd E g.nodeCoord (seg.headD (0, 0)) = first at hpre hia hfirst ⊢
    obtain ⟨ia, nodes⟩ := first
    dsimp only at hpre hia hfirst ⊢
    obtain ⟨hpre', hib, hlast⟩ := findOrAdd_atNode E nodes (seg.getLastD (0, 0))
    generalize findOrAdd E nodes (seg.getLastD (0, 0)) = second at hpre' hib hlast ⊢
    obtain ⟨ib, nodes'⟩ := second
    dsimp only at hpre' hib hlast ⊢
    have hspans : Spans E nodes' ia ib seg := ⟨hlength, hfirst.grow hpre' hia, hlast⟩
    constructor
    · apply edgeOk_of_mem_addEdge
      · exact fun x hx ↦ (hg x hx).grow (hpre.trans hpre') (List.prefix_append _ _)
      · exact hia.trans_le hpre'.length_le
      · exact hib
      · intro i hi
        obtain rfl := Option.some.inj hi
        exact ⟨seg, List.getElem?_concat_length, hspans⟩
    · intro id hid
      rcases List.mem_append.mp hid with hold | hnew
      · exact (hland id hold).trans_le (hpre.trans hpre').length_le
      · rcases List.mem_pair.mp hnew with rfl | rfl
        · exact hia.trans_le hpre'.length_le
        · exact hib

theorem edgesOk_addSegments (segs : List (List (LngLat K))) {landings : List ℕ} (hg : EdgesOk E g)
    (hland : ∀ id ∈ landings, id < g.nodeCoord.length) :
    EdgesOk E (segs.foldl (addSegment E) (g, landings)).1 ∧
      ∀ id ∈ (segs.foldl (addSegment E) (g, landings)).2,
        id < (segs.foldl (addSegment E) (g, landings)).1.nodeCoord.length := by
  induction segs generalizing g landings with
  | nil => exact ⟨hg, hland⟩
  | cons seg segs ih =>
      obtain ⟨hg', hland'⟩ := edgesOk_addSegment hg hland seg
      exact ih hg' hland'

theorem EdgesOk.of_sameNodes {ws : List (Wire K Branch)} (hws : ∀ x ∈ ws, EdgeOk E g x)
    (hsame : SameNodes g g') (heq : g'.wires = ws) : EdgesOk E g' := by
  intro x hx
  apply (hws x (heq ▸ hx)).grow
  · rw [hsame.1]
  · rw [hsame.2]

/-- A bridge draws nothing. -/
theorem edgeOk_of_mem_bridge {wires : List (Wire K Branch)} {a b : ℕ} {w : K}
    (ha : a < g.nodeCoord.length) (hb : b < g.nodeCoord.length)
    (hwires : ∀ x ∈ wires, EdgeOk E g x) : ∀ x ∈ addEdge wires a b w none, EdgeOk E g x := by
  apply edgeOk_of_mem_addEdge hwires ha hb
  intro i hi
  cases hi

theorem edgesOk_addSystem (hg : EdgesOk E g) (segs : List (List (LngLat K))) :
    EdgesOk E (addSystem E g segs) := by
  obtain ⟨hg', hland⟩ := edgesOk_addSegments segs hg
    fun id hid ↦ absurd hid List.not_mem_nil
  rw [addSystem]
  apply EdgesOk.of_sameNodes ?_ (sameNodes_bridgeSystem _ _) rfl
  refine bridgeSystem_wires (p := fun ws ↦ ∀ x ∈ ws, EdgeOk E _ x) ?_
    (fun id hid ↦ hland id (List.mem_eraseDups.mp hid)) hg'
  exact fun ws a b w ha hb hws ↦ edgeOk_of_mem_bridge ha hb hws

theorem edgesOk_addSystems (systems : List (List (List (LngLat K)))) :
    EdgesOk E (addSystems E systems) := by
  have hfold : ∀ g : CableGraph K, EdgesOk E g → EdgesOk E (systems.foldl (addSystem E) g) := by
    induction systems with
    | nil => exact fun g hg ↦ hg
    | cons segs systems ih => exact fun g hg ↦ ih _ (edgesOk_addSystem hg segs)
  exact hfold _ fun x hx ↦ absurd hx List.not_mem_nil

theorem edgesOk_buildCableGraph (E : Earth K) (systems : List (List (List (LngLat K)))) :
    EdgesOk E (buildCableGraph E systems) := by
  apply EdgesOk.of_sameNodes ?_ (sameNodes_buildCableGraph systems) rfl
  refine foldComponents_wires (p := fun ws ↦ ∀ x ∈ ws, EdgeOk E _ x) ?_ _ _
    (edgesOk_addSystems systems)
  exact fun ws a b w ha hb hws ↦ edgeOk_of_mem_bridge ha hb hws

end Build

/-! ## Either direction -/

section Direction

variable {E : Earth K} {g : CableGraph K}

theorem Spans.reverse {nodes : List (LngLat K)} {i j : ℕ} {line : List (LngLat K)}
    (h : Spans E nodes i j line) : Spans E nodes j i line.reverse where
  length := h.length.trans_eq (List.length_reverse).symm
  first := by
    rw [List.headD_eq_head?_getD, List.head?_reverse, ← List.getLastD_eq_getLast?]
    exact h.last
  last := by
    rw [List.getLastD_eq_getLast?, List.getLast?_reverse, ← List.headD_eq_head?_getD]
    exact h.first

/-- The segment of an entry leads where the entry does. -/
theorem EdgesOk.spans (hg : EdgesOk E g) {u bi : ℕ} {e : Link K Branch}
    (he : e ∈ Links.rows g.wires u) (h : e.tag.branchIdx = some bi) :
    ∃ seg, g.branches[bi]? = some seg ∧
      Spans E g.nodeCoord u e.dest (if e.tag.reversed then seg.reverse else seg) := by
  obtain ⟨x, hx, ⟨rfl, rfl⟩ | ⟨rfl, rfl⟩⟩ := Links.mem_rows.mp he
  · obtain ⟨seg, hseg, hspans⟩ := (hg x hx).segment bi h
    refine ⟨seg, hseg, ?_⟩
    rw [(hg x hx).out]
    exact hspans
  · rw [(hg x hx).back] at h
    obtain ⟨seg, hseg, hspans⟩ := (hg x hx).segment bi h
    refine ⟨seg, hseg, ?_⟩
    rw [(hg x hx).back]
    exact hspans.reverse

end Direction

end TrafficMap.Web
