import TrafficMap.Web.Backbone
import Mathlib.Algebra.Order.Floor.Ring
import Mathlib.Tactic.Linarith
import Mathlib.Tactic.Ring

/-!
# The cable network is connected

The nodes are distinct points, each component hangs together, and the loop over
the components joins each of them to the main one with an edge of positive
length.
-/

namespace TrafficMap.Web

variable {K : Type} [Field K] [LinearOrder K] [IsStrictOrderedRing K] [FloorRing K]

/-! ## Longitudes -/

section Longitude

variable {x : K}

theorem jsMod_of_nonneg (hx : 0 ≤ x) : jsMod x 360 = x - 360 * (⌊x / 360⌋ : K) := by
  rw [jsMod, if_pos (div_nonneg hx (by norm_num))]

omit [IsStrictOrderedRing K] in
theorem normLon_eq (x : K) : normLon x = jsMod (x + 540) 360 - 180 := by
  simp [normLon]

theorem normLon_mem (hx : -540 ≤ x) : -180 ≤ normLon x ∧ normLon x < 180 := by
  have hfloor : (⌊(x + 540) / 360⌋ : K) ≤ (x + 540) / 360 := Int.floor_le _
  have hlt : (x + 540) / 360 < (⌊(x + 540) / 360⌋ : K) + 1 := Int.lt_floor_add_one _
  rw [le_div_iff₀ (by norm_num)] at hfloor
  rw [div_lt_iff₀ (by norm_num)] at hlt
  rw [normLon_eq, jsMod_of_nonneg (by linarith)]
  constructor
  · linarith
  · linarith

theorem normLon_of_mem (hlo : -180 ≤ x) (hhi : x < 180) : normLon x = x := by
  have hfloor : ⌊(x + 540) / 360⌋ = 1 := by
    rw [Int.floor_eq_iff, le_div_iff₀ (by norm_num), div_lt_iff₀ (by norm_num)]
    constructor
    · push_cast
      linarith
    · push_cast
      linarith
  rw [normLon_eq, jsMod_of_nonneg (by linarith), hfloor]
  push_cast
  ring

end Longitude

/-! ## Nodes -/

/-- A position that `normLon` brings onto the globe: one of the file, or one that
stitching has moved beyond 180. -/
structure InRange (c : LngLat K) : Prop where
  west : -(540 : ℕ) ≤ c.1
  south : -(90 : ℕ) < c.2
  north : c.2 < (90 : ℕ)

theorem OnGlobe.normLon {c : LngLat K} (h : OnGlobe c) : normLon c.1 = c.1 := by
  have hwest := h.west
  have heast := h.east
  push_cast at hwest heast
  exact normLon_of_mem hwest heast

theorem InRange.onGlobe {c : LngLat K} (h : InRange c) : OnGlobe (Web.normLon c.1, c.2) := by
  have hwest := h.west
  push_cast at hwest
  obtain ⟨hlo, hhi⟩ := normLon_mem hwest
  exact ⟨by simpa using hlo, by simpa using hhi, h.south, h.north⟩

/-- Points under one longitude each, which the distance tells apart. -/
structure Earth.Apart (E : Earth K) (P : LngLat K → Prop) : Prop where
  nonneg : ∀ p q, 0 ≤ E.haversineKm p q
  self : ∀ p, E.haversineKm p p = 0
  normLon : ∀ p, P p → normLon p.1 = p.1
  eq_of_zero : ∀ p q, P p → P q → E.haversineKm p q = 0 → p = q

theorem Earth.IsDistance.apart {E : Earth K} (hE : E.IsDistance) : E.Apart OnGlobe where
  nonneg := hE.nonneg
  self := hE.self
  normLon _ hp := hp.normLon
  eq_of_zero := hE.eq_of_zero

/-- Distinct points of `P`. -/
structure NodesOk (P : LngLat K → Prop) (nodes : List (LngLat K)) : Prop where
  nodup : nodes.Nodup
  points : ∀ c ∈ nodes, P c

section Nodes

variable {E : Earth K} {P : LngLat K → Prop} {nodes : List (LngLat K)}

omit [LinearOrder K] [IsStrictOrderedRing K] [FloorRing K] in
theorem nodeAt_eq_getElem {i : ℕ} (hi : i < nodes.length) : nodeAt nodes i = nodes[i] := by
  rw [nodeAt, List.getD_eq_getElem?_getD, List.getElem?_eq_getElem hi, Option.getD_some]

omit [LinearOrder K] [IsStrictOrderedRing K] [FloorRing K] in
theorem nodeAt_mem {i : ℕ} (hi : i < nodes.length) : nodeAt nodes i ∈ nodes := by
  rw [nodeAt_eq_getElem hi]
  exact List.getElem_mem hi

omit [IsStrictOrderedRing K] in
/-- A node of the cell itself. -/
theorem mem_nodesAround_of_cell {i : ℕ} (hi : i < nodes.length) {c : LngLat K}
    (hcell : nodeCell (nodeAt nodes i) = (⌊c.1⌋, ⌊c.2⌋)) : i ∈ nodesAround nodes c := by
  rw [nodesAround]
  refine List.mem_flatMap.mpr ⟨0, by decide, List.mem_flatMap.mpr ⟨0, by decide, ?_⟩⟩
  rw [List.mem_filter, decide_eq_true_eq, add_zero, add_zero]
  exact ⟨List.mem_range.mpr hi, hcell⟩

omit [IsStrictOrderedRing K] in
theorem mem_nodesAround_self {i : ℕ} (hE : E.Apart P) (hok : NodesOk P nodes)
    (hi : i < nodes.length) : i ∈ nodesAround nodes (nodeAt nodes i) := by
  apply mem_nodesAround_of_cell hi
  rw [nodeCell, hE.normLon _ (hok.points _ (nodeAt_mem hi))]

omit [IsStrictOrderedRing K] in
theorem lt_of_mem_nodesAround {c : LngLat K} {id : ℕ} (h : id ∈ nodesAround nodes c) :
    id < nodes.length := by
  obtain ⟨dx, -, h⟩ := List.mem_flatMap.mp h
  obtain ⟨dy, -, h⟩ := List.mem_flatMap.mp h
  exact List.mem_range.mp (List.mem_of_mem_filter h)

omit [IsStrictOrderedRing K] in
theorem lt_of_clusterNode {c : LngLat K} {id : ℕ} (h : clusterNode E nodes c = some id) :
    id < nodes.length :=
  lt_of_mem_nodesAround (List.mem_of_mem_filter (List.argmin_mem h))

omit [IsStrictOrderedRing K] in
/-- A point two columns from every node becomes a node of its own. -/
theorem findOrAdd_far {p : LngLat K}
    (h : ∀ c ∈ nodes, 2 ≤ |⌊normLon c.1⌋ - ⌊normLon p.1⌋|) :
    findOrAdd E nodes p = (nodes.length, nodes ++ [(normLon p.1, p.2)]) := by
  have hnone : nodesAround nodes (normLon p.1, p.2) = [] := by
    simp only [nodesAround, List.flatMap_eq_nil_iff, List.filter_eq_nil_iff]
    intro dx hdx dy hdy id hid hcell
    obtain ⟨k, hk, rfl⟩ := List.mem_map.mp hdx
    have hlt := List.mem_range.mp hk
    have hcol := congrArg Prod.fst (of_decide_eq_true hcell)
    have hfar := h _ (nodeAt_mem (List.mem_range.mp hid))
    dsimp only [nodeCell] at hcol
    rcases le_abs.mp hfar with hle | hle
    · omega
    · omega
  have hsearch : clusterNode E nodes (normLon p.1, p.2) = none := by
    rw [clusterNode, hnone]
    rfl
  rw [findOrAdd, hsearch]

/-- A node at the point itself is always found. -/
theorem not_mem_of_clusterNode (hE : E.Apart P) (hok : NodesOk P nodes) {c : LngLat K}
    (h : clusterNode E nodes c = none) : c ∉ nodes := by
  intro hc
  obtain ⟨i, hi, hget⟩ := List.mem_iff_getElem.mp hc
  have hat : nodeAt nodes i = c := by rw [nodeAt_eq_getElem hi, hget]
  have hmem : i ∈ (nodesAround nodes c).filter fun id ↦
      E.haversineKm (nodeAt nodes id) c < (CLUSTER_KM : K) := by
    rw [List.mem_filter, decide_eq_true_eq, hat, hE.self c]
    exact ⟨hat ▸ mem_nodesAround_self hE hok hi, by norm_num⟩
  rw [clusterNode, List.argmin_eq_none] at h
  rw [h] at hmem
  cases hmem

theorem findOrAdd_spec (hE : E.Apart P) (hok : NodesOk P nodes) {p : LngLat K}
    (hp : P (normLon p.1, p.2)) :
    NodesOk P (findOrAdd E nodes p).2 ∧ nodes.length ≤ (findOrAdd E nodes p).2.length ∧
      (findOrAdd E nodes p).1 < (findOrAdd E nodes p).2.length := by
  rw [findOrAdd]
  cases hfound : clusterNode E nodes (normLon p.1, p.2) with
  | some id => exact ⟨hok, le_rfl, lt_of_clusterNode hfound⟩
  | none =>
      have hnew := not_mem_of_clusterNode hE hok hfound
      refine ⟨⟨?_, ?_⟩, ?_, ?_⟩
      · rw [List.nodup_append]
        refine ⟨hok.nodup, List.nodup_singleton _, ?_⟩
        rintro c hc c' hc' rfl
        rw [List.mem_singleton.mp hc'] at hc
        exact hnew hc
      · intro c hc
        rcases List.mem_append.mp hc with hold | hlast
        · exact hok.points c hold
        · rw [List.mem_singleton.mp hlast]
          exact hp
      · simp
      · simp

end Nodes

/-! ## Segments and systems -/

/-- The nodes are distinct points, and the edges lie between nodes. -/
structure NetOk (P : LngLat K → Prop) (g : CableGraph K) : Prop where
  nodes : NodesOk P g.nodeCoord
  wires : ∀ x ∈ g.wires, x.a < g.nodeCoord.length ∧ x.b < g.nodeCoord.length

section Systems

variable {E : Earth K} {P : LngLat K → Prop} {g : CableGraph K} {landings : List ℕ}

omit [IsStrictOrderedRing K] [FloorRing K] in
theorem mem_addEdge {wires : List (Wire K Branch)} {a b : ℕ} {w : K} {bi : Option ℕ}
    {x : Wire K Branch} (hx : x ∈ addEdge wires a b w bi) : x ∈ wires ∨ x.a = a ∧ x.b = b := by
  rw [addEdge] at hx
  split at hx
  · exact Or.inl hx
  · rcases List.mem_append.mp hx with hold | hnew
    · exact Or.inl hold
    · rw [List.mem_singleton.mp hnew]
      exact Or.inr ⟨rfl, rfl⟩

theorem netOk_addSegment (hE : E.Apart P) (hok : NetOk P g)
    (hland : ∀ id ∈ landings, id < g.nodeCoord.length) {seg : List (LngLat K)}
    (hseg : ∀ c ∈ seg, P (normLon c.1, c.2)) : NetOk P (addSegment E (g, landings) seg).1 ∧
      ∀ id ∈ (addSegment E (g, landings) seg).2,
        id < (addSegment E (g, landings) seg).1.nodeCoord.length := by
  rw [addSegment]
  dsimp only
  split
  · exact ⟨hok, hland⟩
  · rename_i hcond
    have hne : seg ≠ [] := by
      rintro rfl
      simp at hcond
    have hhead : P (normLon (seg.headD (0, 0)).1, (seg.headD (0, 0)).2) := by
      rw [List.headD_eq_head?_getD, List.head?_eq_some_head hne, Option.getD_some]
      exact hseg _ (List.head_mem hne)
    have hlast : P (normLon (seg.getLastD (0, 0)).1, (seg.getLastD (0, 0)).2) := by
      rw [List.getLastD_eq_getLast?, List.getLast?_eq_some_getLast hne, Option.getD_some]
      exact hseg _ (List.getLast_mem hne)
    obtain ⟨hnodes, hlen, hia⟩ := findOrAdd_spec hE hok.nodes hhead
    generalize findOrAdd E g.nodeCoord (seg.headD (0, 0)) = first at hnodes hlen hia ⊢
    obtain ⟨ia, nodes⟩ := first
    dsimp only at hnodes hlen hia ⊢
    obtain ⟨hnodes', hlen', hib⟩ := findOrAdd_spec hE hnodes hlast
    generalize findOrAdd E nodes (seg.getLastD (0, 0)) = second at hnodes' hlen' hib ⊢
    obtain ⟨ib, nodes'⟩ := second
    dsimp only at hnodes' hlen' hib ⊢
    refine ⟨⟨hnodes', ?_⟩, ?_⟩
    · intro x hx
      rcases mem_addEdge hx with hold | ⟨ha, hb⟩
      · obtain ⟨ha, hb⟩ := hok.wires x hold
        exact ⟨ha.trans_le (hlen.trans hlen'), hb.trans_le (hlen.trans hlen')⟩
      · rw [ha, hb]
        exact ⟨hia.trans_le hlen', hib⟩
    · intro id hid
      rcases List.mem_append.mp hid with hold | hnew
      · exact (hland id hold).trans_le (hlen.trans hlen')
      · rcases List.mem_pair.mp hnew with rfl | rfl
        · exact hia.trans_le hlen'
        · exact hib

theorem netOk_addSegments (hE : E.Apart P) {segs : List (List (LngLat K))}
    (hsegs : ∀ seg ∈ segs, ∀ c ∈ seg, P (normLon c.1, c.2)) (hok : NetOk P g)
    (hland : ∀ id ∈ landings, id < g.nodeCoord.length) :
    NetOk P (segs.foldl (addSegment E) (g, landings)).1 ∧
      ∀ id ∈ (segs.foldl (addSegment E) (g, landings)).2,
        id < (segs.foldl (addSegment E) (g, landings)).1.nodeCoord.length := by
  induction segs generalizing g landings with
  | nil => exact ⟨hok, hland⟩
  | cons seg segs ih =>
      obtain ⟨hseg, hsegs⟩ := List.forall_mem_cons.mp hsegs
      obtain ⟨hok', hland'⟩ := netOk_addSegment hE hok hland hseg
      exact ih hsegs hok' hland'

/-- Bridges are edges between the nodes that are there. -/
def SameNodes (g g' : CableGraph K) : Prop :=
  g'.nodeCoord = g.nodeCoord ∧ g'.branches = g.branches

omit [IsStrictOrderedRing K] [FloorRing K] in
theorem sameNodes_bridgePair (g : CableGraph K) (a b : ℕ) : SameNodes g (bridgePair E g a b) := by
  rw [bridgePair]
  dsimp only
  split
  · exact ⟨rfl, rfl⟩
  · exact ⟨rfl, rfl⟩

omit [IsStrictOrderedRing K] [FloorRing K] in
theorem sameNodes_bridgeRow (a : ℕ) (rest : List ℕ) (g : CableGraph K) :
    SameNodes g (rest.foldl (fun g b ↦ bridgePair E g a b) g) := by
  induction rest generalizing g with
  | nil => exact ⟨rfl, rfl⟩
  | cons b rest ih =>
      obtain ⟨hnodes, hbranches⟩ := sameNodes_bridgePair (E := E) g a b
      obtain ⟨hnodes', hbranches'⟩ := ih (bridgePair E g a b)
      exact ⟨hnodes'.trans hnodes, hbranches'.trans hbranches⟩

omit [IsStrictOrderedRing K] [FloorRing K] in
theorem sameNodes_bridgeSystem (ids : List ℕ) (g : CableGraph K) :
    SameNodes g (bridgeSystem E ids g) := by
  induction ids generalizing g with
  | nil => exact ⟨rfl, rfl⟩
  | cons a rest ih =>
      obtain ⟨hnodes, hbranches⟩ := sameNodes_bridgeRow (E := E) a rest g
      obtain ⟨hnodes', hbranches'⟩ := ih (rest.foldl (fun g b ↦ bridgePair E g a b) g)
      exact ⟨hnodes'.trans hnodes, hbranches'.trans hbranches⟩

omit [IsStrictOrderedRing K] in
theorem sameNodes_buildCableGraph (systems : List (List (List (LngLat K)))) :
    SameNodes (addSystems E systems) (buildCableGraph E systems) :=
  ⟨rfl, rfl⟩

section Bridges

variable {p : List (Wire K Branch) → Prop} {q : ℕ → Prop}
  (hadd : ∀ ws a b w, q a → q b → p ws → p (addEdge ws a b w none))

omit [IsStrictOrderedRing K] [FloorRing K] in
include hadd in
theorem bridgeSystem_wires {ids : List ℕ} (hids : ∀ id ∈ ids, q id) (h : p g.wires) :
    p (bridgeSystem E ids g).wires := by
  have hpair : ∀ (g : CableGraph K) (a b : ℕ), q a → q b → p g.wires →
      p (bridgePair E g a b).wires := by
    intro g a b ha hb h
    rw [bridgePair]
    dsimp only
    split
    · exact h
    · exact hadd _ _ _ _ ha hb h
  have hrow : ∀ (a : ℕ) (rest : List ℕ) (g : CableGraph K), q a → (∀ id ∈ rest, q id) →
      p g.wires → p (rest.foldl (fun g b ↦ bridgePair E g a b) g).wires := by
    intro a rest
    induction rest with
    | nil => exact fun g _ _ h ↦ h
    | cons b rest ih =>
        intro g ha hrest h
        obtain ⟨hb, hrest⟩ := List.forall_mem_cons.mp hrest
        exact ih _ ha hrest (hpair g a b ha hb h)
  induction ids generalizing g with
  | nil => exact h
  | cons a rest ih =>
      obtain ⟨ha, hrest⟩ := List.forall_mem_cons.mp hids
      exact ih hrest (hrow a rest g ha hrest h)

end Bridges

omit [IsStrictOrderedRing K] [FloorRing K] in
theorem netOk_bridgeSystem {ids : List ℕ} (hids : ∀ id ∈ ids, id < g.nodeCoord.length)
    (hok : NetOk P g) : NetOk P (bridgeSystem E ids g) where
  nodes := by
    rw [(sameNodes_bridgeSystem ids g).1]
    exact hok.nodes
  wires := by
    rw [(sameNodes_bridgeSystem ids g).1]
    refine bridgeSystem_wires
      (p := fun ws ↦ ∀ x ∈ ws, x.a < g.nodeCoord.length ∧ x.b < g.nodeCoord.length)
      (q := (· < g.nodeCoord.length)) ?_ hids hok.wires
    intro ws a b w ha hb h x hx
    rcases mem_addEdge hx with hold | ⟨rfl, rfl⟩
    · exact h x hold
    · exact ⟨ha, hb⟩

theorem netOk_addSystems (hE : E.Apart P) {systems : List (List (List (LngLat K)))}
    (hrange : ∀ segs ∈ systems, ∀ seg ∈ segs, ∀ c ∈ seg, P (normLon c.1, c.2)) :
    NetOk P (addSystems E systems) := by
  have hfold : ∀ g : CableGraph K, NetOk P g → NetOk P (systems.foldl (addSystem E) g) := by
    induction systems with
    | nil => exact fun g hok ↦ hok
    | cons segs systems ih =>
        obtain ⟨hsegs, hrange⟩ := List.forall_mem_cons.mp hrange
        intro g hok
        apply ih hrange
        have hnone : ∀ id ∈ ([] : List ℕ), id < g.nodeCoord.length :=
          fun id hid ↦ absurd hid List.not_mem_nil
        obtain ⟨hok', hland⟩ := netOk_addSegments hE hsegs hok hnone
        exact netOk_bridgeSystem (fun id hid ↦ hland id (List.mem_eraseDups.mp hid)) hok'
  refine hfold _ ⟨⟨List.nodup_nil, ?_⟩, ?_⟩
  · exact fun c hc ↦ absurd hc List.not_mem_nil
  · exact fun x hx ↦ absurd hx List.not_mem_nil

end Systems

/-! ## Components -/

section Flood

variable {W : Type} {adj : ℕ → List (Link W Branch)} {id s : ℕ}

/-- The loop labels nodes that the start reaches, the first of the stack among
them, and leaves labels alone. -/
theorem flood_spec (adj : ℕ → List (Link W Branch)) (id n : ℕ) (stack : List ℕ) (c : CompOf × ℕ)
    (hstack : ∀ u ∈ stack, Links.Reach adj s u) :
    (∀ v i, c.1 v = some i → (flood adj id n stack c).1 v = some i) ∧
    (∀ v i, (flood adj id n stack c).1 v = some i →
      c.1 v = some i ∨ i = id ∧ c.1 v = none ∧ Links.Reach adj s v) := by
  induction n generalizing stack c with
  | zero => exact ⟨fun _ _ h ↦ h, fun _ _ h ↦ Or.inl h⟩
  | succ n ih =>
      obtain ⟨compOf, size⟩ := c
      cases stack with
      | nil => exact ⟨fun _ _ h ↦ h, fun _ _ h ↦ Or.inl h⟩
      | cons u stack =>
          obtain ⟨hu, hstack⟩ := List.forall_mem_cons.mp hstack
          rw [flood]
          split
          · exact ih stack (compOf, size) hstack
          · rename_i hnone
            have hcu : compOf u = none := by simpa using hnone
            have hnext : ∀ v ∈ (((adj u).map Link.dest).filter fun v ↦
                (Function.update compOf u (some id) v).isNone).reverse ++ stack,
                Links.Reach adj s v := by
              intro v hv
              rcases List.mem_append.mp hv with hnew | hold
              · obtain ⟨e, he, rfl⟩ :=
                  List.mem_map.mp (List.mem_of_mem_filter (List.mem_reverse.mp hnew))
                exact Relation.ReflTransGen.tail hu ⟨e, he, rfl⟩
              · exact hstack v hold
            obtain ⟨hkeep, honly⟩ := ih _ (Function.update compOf u (some id), size + 1) hnext
            dsimp only at hkeep honly ⊢
            constructor
            · intro v i hv
              apply hkeep
              by_cases hvu : v = u
              · rw [hvu, hcu] at hv
                cases hv
              · rwa [Function.update_of_ne hvu]
            · intro v i hv
              by_cases hvu : v = u
              · rcases honly v i hv with hold | ⟨-, hno, -⟩
                · rw [hvu, Function.update_self] at hold
                  exact Or.inr ⟨(Option.some.inj hold).symm, hvu ▸ hcu, hvu ▸ hu⟩
                · rw [hvu, Function.update_self] at hno
                  cases hno
              · rcases honly v i hv with hold | ⟨hi, hno, hreach⟩
                · rw [Function.update_of_ne hvu] at hold
                  exact Or.inl hold
                · rw [Function.update_of_ne hvu] at hno
                  exact Or.inr ⟨hi, hno, hreach⟩

theorem flood_start (adj : ℕ → List (Link W Branch)) (id n : ℕ) {compOf : CompOf} (size : ℕ)
    (hs : compOf s = none) :
    (flood adj id (n + 1) [s] (compOf, size)).1 s = some id := by
  rw [flood, if_neg (by simp [hs])]
  have hstack : ∀ u ∈ (((adj s).map Link.dest).filter fun v ↦
      (Function.update compOf s (some id) v).isNone).reverse ++ [], Links.Reach adj s u := by
    intro u hu
    rw [List.append_nil] at hu
    obtain ⟨e, he, rfl⟩ := List.mem_map.mp (List.mem_of_mem_filter (List.mem_reverse.mp hu))
    exact Relation.ReflTransGen.single ⟨e, he, rfl⟩
  apply (flood_spec adj id n _ _ hstack).1 s id
  exact Function.update_self ..

end Flood

section Components

/-- The labels after the nodes below `k`. -/
structure Labelled {W : Type} (ws : List (Wire W Branch)) (k : ℕ) (compOf : CompOf)
    (count : ℕ) : Prop where
  all : ∀ n < k, ∃ i, compOf n = some i
  count_le : count ≤ k
  lt : ∀ n i, compOf n = some i → i < count
  le : ∀ n i, compOf n = some i → i ≤ n
  used : ∀ i < count, ∃ n < k, compOf n = some i
  reach : ∀ m n i, compOf m = some i → compOf n = some i → Links.Reach (Links.rows ws) m n

variable {W : Type} {ws : List (Wire W Branch)} {k : ℕ}

theorem Labelled.succ {compOf : CompOf} {count : ℕ} (h : Labelled ws k compOf count) {i : ℕ}
    (hk : compOf k = some i) : Labelled ws (k + 1) compOf count where
  all n hn := by
    rcases Nat.lt_succ_iff_lt_or_eq.mp hn with hlt | rfl
    · exact h.all n hlt
    · exact ⟨i, hk⟩
  count_le := h.count_le.trans (Nat.le_succ k)
  lt := h.lt
  le := h.le
  used i hi := by
    obtain ⟨n, hn, hlabel⟩ := h.used i hi
    exact ⟨n, hn.trans (Nat.lt_succ_self k), hlabel⟩
  reach := h.reach

/-- A flood from the first node without a label. -/
theorem Labelled.flood {compOf : CompOf} {count : ℕ} (h : Labelled ws k compOf count)
    (hk : compOf k = none) (n : ℕ) :
    Labelled ws (k + 1) (flood (Links.rows ws) count (n + 1) [k] (compOf, 0)).1 (count + 1) := by
  have hstack : ∀ u ∈ [k], Links.Reach (Links.rows ws) k u := by
    intro u hu
    rw [List.mem_singleton.mp hu]
    exact .refl
  obtain ⟨hkeep, honly⟩ := flood_spec (Links.rows ws) count (n + 1) [k] (compOf, 0) hstack
  have hstart := flood_start (Links.rows ws) count n 0 hk
  dsimp only at hkeep honly
  constructor
  · intro m hm
    rcases Nat.lt_succ_iff_lt_or_eq.mp hm with hlt | rfl
    · obtain ⟨i, hi⟩ := h.all m hlt
      exact ⟨i, hkeep m i hi⟩
    · exact ⟨count, hstart⟩
  · exact Nat.succ_le_succ h.count_le
  · intro m i hi
    rcases honly m i hi with hold | ⟨rfl, -, -⟩
    · exact (h.lt m i hold).trans (Nat.lt_succ_self _)
    · exact Nat.lt_succ_self _
  · intro m i hi
    rcases honly m i hi with hold | ⟨rfl, hno, -⟩
    · exact h.le m i hold
    · -- every node below `k` has a label already
      by_contra hlt
      obtain ⟨j, hj⟩ := h.all m ((not_le.mp hlt).trans_le h.count_le)
      rw [hj] at hno
      cases hno
  · intro i hi
    rcases Nat.lt_succ_iff_lt_or_eq.mp hi with hlt | rfl
    · obtain ⟨m, hm, hlabel⟩ := h.used i hlt
      exact ⟨m, hm.trans (Nat.lt_succ_self k), hkeep m i hlabel⟩
    · exact ⟨k, Nat.lt_succ_self k, hstart⟩
  · intro m m' i hm hm'
    rcases honly m i hm with hold | ⟨rfl, -, hreach⟩
    · rcases honly m' i hm' with hold' | ⟨rfl, -, -⟩
      · exact h.reach m m' i hold hold'
      · exact absurd (h.lt m _ hold) (lt_irrefl _)
    · rcases honly m' _ hm' with hold' | ⟨-, -, hreach'⟩
      · exact absurd (h.lt m' _ hold') (lt_irrefl _)
      · exact (Links.reach_symm hreach).trans hreach'

theorem labelled_components (V : ℕ) (ws : List (Wire W Branch)) :
    Labelled ws V (components V (Links.rows ws)).1 (components V (Links.rows ws)).2.length := by
  have hfold : ∀ k, Labelled ws k
      ((List.range k).foldl (startComponent V (Links.rows ws)) (fun _ ↦ none, [])).1
      ((List.range k).foldl (startComponent V (Links.rows ws)) (fun _ ↦ none, [])).2.length := by
    intro k
    induction k with
    | zero =>
        refine ⟨?_, le_rfl, ?_, ?_, ?_, ?_⟩
        · exact fun n hn ↦ absurd hn (Nat.not_lt_zero n)
        · exact fun n i h ↦ by cases h
        · exact fun n i h ↦ by cases h
        · exact fun i hi ↦ absurd hi (Nat.not_lt_zero i)
        · exact fun m n i h ↦ by cases h
    | succ k ih =>
        rw [List.range_succ, List.foldl_append]
        generalize (List.range k).foldl (startComponent V (Links.rows ws)) (fun _ ↦ none, []) = c
          at ih ⊢
        rw [List.foldl_cons, List.foldl_nil, startComponent]
        cases hk : c.1 k with
        | some i => exact ih.succ hk
        | none =>
            rw [if_neg (by simp), List.length_append]
            have hrounds : Search.rounds V (Links.rows ws) =
                ∑ u ∈ Finset.range V, (Links.rows ws u).length + 1 := Nat.add_comm 1 _
            rw [hrounds]
            exact ih.flood hk _
  exact hfold V

end Components

/-! ## Folding the components -/

section Fold

variable {E : Earth K} {P : LngLat K → Prop} {nodes : List (LngLat K)}
  {ws : List (Wire K Branch)} {label : CompOf} {main c : ℕ} {s : List (Wire K Branch) × CompOf}

/-- The components below `c` are joined to the main one. -/
structure Folded (nodes : List (LngLat K)) (ws : List (Wire K Branch)) (label : CompOf)
    (main c : ℕ) (s : List (Wire K Branch) × CompOf) : Prop where
  sub : ws ⊆ s.1
  bound : ∀ x ∈ s.1, x.a < nodes.length ∧ x.b < nodes.length
  kept : ∀ n < nodes.length, s.2 n = some main ∨ s.2 n = label n
  folded : ∀ n < nodes.length, ∀ i < c, label n = some i → s.2 n = some main
  only : ∀ n < nodes.length, s.2 n = some main → label n = some main ∨ ∃ i < c, label n = some i
  reach : ∀ m < nodes.length, ∀ n < nodes.length, s.2 m = some main → s.2 n = some main →
    Links.Reach (Links.rows s.1) m n

omit [IsStrictOrderedRing K] [FloorRing K] in
theorem mem_members {V comp i : ℕ} {compOf : CompOf} :
    i ∈ members V compOf comp ↔ i < V ∧ compOf i = some comp := by
  simp [members]

omit [IsStrictOrderedRing K] [FloorRing K] in
theorem nearestPair_spec (E : Earth K) (nodes : List (LngLat K)) {ms others : List ℕ}
    (hms : ms ≠ []) (hothers : others ≠ []) :
    ∃ a ∈ ms, ∃ b ∈ others, nearestPair E nodes ms others = some (a, b) := by
  cases hpair : nearestPair E nodes ms others with
  | none =>
      obtain ⟨a, ha⟩ := List.exists_mem_of_ne_nil ms hms
      obtain ⟨b, hb⟩ := List.exists_mem_of_ne_nil others hothers
      have hmem : (a, b) ∈ ms.flatMap fun m ↦ others.map fun i ↦ (m, i) :=
        List.mem_flatMap.mpr ⟨a, ha, List.mem_map.mpr ⟨b, hb, rfl⟩⟩
      rw [List.argmin_eq_none.mp hpair] at hmem
      cases hmem
  | some p =>
      obtain ⟨a, ha, hmap⟩ := List.mem_flatMap.mp (List.argmin_mem hpair)
      obtain ⟨b, hb, rfl⟩ := List.mem_map.mp hmap
      exact ⟨a, ha, b, hb, rfl⟩

omit [IsStrictOrderedRing K] in
/-- Two nodes are apart, so the edge between them is added. -/
theorem mem_addEdge_of_ne (hE : E.Apart P) (hok : NodesOk P nodes) {a b : ℕ}
    (ha : a < nodes.length) (hb : b < nodes.length) (hab : a ≠ b) (wires : List (Wire K Branch)) :
    ∃ x ∈ addEdge wires a b (E.haversineKm (nodeAt nodes a) (nodeAt nodes b)) none,
      x.a = a ∧ x.b = b := by
  have hne : nodeAt nodes a ≠ nodeAt nodes b := by
    rw [nodeAt_eq_getElem ha, nodeAt_eq_getElem hb]
    exact fun heq ↦ hab ((hok.nodup.getElem_inj_iff).mp heq)
  have hpos : ¬ E.haversineKm (nodeAt nodes a) (nodeAt nodes b) ≤ 0 := by
    intro hle
    exact hne (hE.eq_of_zero _ _ (hok.points _ (nodeAt_mem ha)) (hok.points _ (nodeAt_mem hb))
      (le_antisymm hle (hE.nonneg _ _)))
  rw [addEdge, if_neg (not_or.mpr ⟨hab, hpos⟩)]
  exact ⟨_, List.mem_append_right _ (List.mem_singleton_self _), rfl, rfl⟩

section Joined

variable {count n : ℕ} (hlabel : Labelled ws nodes.length label count)
  (h : Folded nodes ws label main c s) (hcm : c ≠ main)

omit [Field K] [LinearOrder K] [IsStrictOrderedRing K] [FloorRing K] in
include h hcm in
/-- Nothing of a component is joined to the main one before its turn. -/
theorem Folded.mem_members_iff :
    n ∈ members nodes.length s.2 c ↔ n < nodes.length ∧ label n = some c := by
  rw [mem_members]
  apply and_congr_right
  intro hn
  rcases h.kept n hn with hm | hkept
  · apply iff_of_false
    · rw [hm]
      exact fun heq ↦ hcm (Option.some.inj heq).symm
    · intro hlabeln
      rcases h.only n hn hm with hmain | ⟨i, hi, hlabeli⟩
      · rw [hlabeln] at hmain
        exact hcm (Option.some.inj hmain)
      · rw [hlabeln] at hlabeli
        exact hi.ne' (Option.some.inj hlabeli)
  · rw [hkept]

omit [Field K] [LinearOrder K] [IsStrictOrderedRing K] [FloorRing K] in
include hlabel h in
/-- The node with the number of the component is a member or joined already. -/
theorem Folded.label_self (hc : c < nodes.length) (hne : s.2 c ≠ some main) :
    label c = some c := by
  obtain ⟨i, hi⟩ := hlabel.all c hc
  rcases (hlabel.le c i hi).lt_or_eq with hlt | rfl
  · exact absurd (h.folded c hc i hlt hi) hne
  · exact hi

omit [Field K] [LinearOrder K] [IsStrictOrderedRing K] [FloorRing K] in
include hlabel h hcm in
theorem Folded.foldInto_eq_main_iff (hn : n < nodes.length) :
    foldInto s.2 (members nodes.length s.2 c) main c n = some main ↔
      s.2 n = some main ∨ label n = some c := by
  rw [foldInto]
  by_cases hnc : label n = some c
  · rw [if_pos ((h.mem_members_iff hcm).mpr ⟨hn, hnc⟩)]
    exact iff_of_true rfl (Or.inr hnc)
  · rw [if_neg fun hin ↦ hnc ((h.mem_members_iff hcm).mp hin).2]
    by_cases heq : n = c
    · rw [if_pos heq]
      refine iff_of_true rfl (Or.inl ?_)
      subst heq
      by_contra hne
      exact hnc (h.label_self hlabel hn hne)
    · rw [if_neg heq]
      exact ⟨Or.inl, fun hmain ↦ hmain.resolve_right hnc⟩

omit [Field K] [LinearOrder K] [IsStrictOrderedRing K] [FloorRing K] in
include hlabel h hcm in
/-- A component is joined over the nodes `a` and `b`. -/
theorem Folded.join {ws' : List (Wire K Branch)} {a b : ℕ} (hsub : s.1 ⊆ ws')
    (hbound : ∀ x ∈ ws', x.a < nodes.length ∧ x.b < nodes.length) (ha : label a = some c)
    (hb : b < nodes.length) (hbm : s.2 b = some main)
    (hjoin : Links.Reach (Links.rows ws') a b) :
    Folded nodes ws label main (c + 1)
      (ws', foldInto s.2 (members nodes.length s.2 c) main c) := by
  have hmain : ∀ n < nodes.length,
      foldInto s.2 (members nodes.length s.2 c) main c n = some main ↔
        s.2 n = some main ∨ label n = some c :=
    fun n hn ↦ h.foldInto_eq_main_iff hlabel hcm hn
  constructor
  · exact List.Subset.trans h.sub hsub
  · exact hbound
  · intro n hn
    by_cases hin : s.2 n = some main ∨ label n = some c
    · exact Or.inl ((hmain n hn).mpr hin)
    · right
      have hnin : n ∉ members nodes.length s.2 c :=
        fun hin' ↦ hin (Or.inr ((h.mem_members_iff hcm).mp hin').2)
      have hnc : n ≠ c := by
        rintro rfl
        exact hin (Or.inr (h.label_self hlabel hn fun hm ↦ hin (Or.inl hm)))
      dsimp only
      rw [foldInto, if_neg hnin, if_neg hnc]
      exact (h.kept n hn).resolve_left fun hm ↦ hin (Or.inl hm)
  · intro n hn i hi hlabeln
    apply (hmain n hn).mpr
    rcases Nat.lt_succ_iff_lt_or_eq.mp hi with hlt | rfl
    · exact Or.inl (h.folded n hn i hlt hlabeln)
    · exact Or.inr hlabeln
  · intro n hn hn'
    rcases (hmain n hn).mp hn' with hm | hlabeln
    · rcases h.only n hn hm with hlabeln | ⟨i, hi, hlabeln⟩
      · exact Or.inl hlabeln
      · exact Or.inr ⟨i, hi.trans (Nat.lt_succ_self c), hlabeln⟩
    · exact Or.inr ⟨c, Nat.lt_succ_self c, hlabeln⟩
  · have hto : ∀ n < nodes.length,
        foldInto s.2 (members nodes.length s.2 c) main c n = some main →
        Links.Reach (Links.rows ws') n b := by
      intro n hn hn'
      rcases (hmain n hn).mp hn' with hm | hlabeln
      · exact (h.reach n hn b hb hm hbm).of_subset hsub
      · have hna := (hlabel.reach n a c hlabeln ha).of_subset (List.Subset.trans h.sub hsub)
        exact hna.trans hjoin
    intro m hm n hn hm' hn'
    exact (hto m hm hm').trans (Links.reach_symm (hto n hn hn'))

end Joined

omit [Field K] [LinearOrder K] [IsStrictOrderedRing K] [FloorRing K] in
/-- The turn of the main component itself. -/
theorem Folded.skip (h : Folded nodes ws label main main s) :
    Folded nodes ws label main (main + 1) s where
  sub := h.sub
  bound := h.bound
  kept := h.kept
  folded n hn i hi hlabel := by
    rcases Nat.lt_succ_iff_lt_or_eq.mp hi with hlt | rfl
    · exact h.folded n hn i hlt hlabel
    · rcases h.kept n hn with hmain | hkept
      · exact hmain
      · rw [hkept, hlabel]
  only n hn hmain := by
    rcases h.only n hn hmain with hlabel | ⟨i, hi, hlabel⟩
    · exact Or.inl hlabel
    · exact Or.inr ⟨i, hi.trans (Nat.lt_succ_self main), hlabel⟩
  reach := h.reach

omit [IsStrictOrderedRing K] in
theorem Folded.foldComponent (hE : E.Apart P) (hok : NodesOk P nodes) {count : ℕ}
    (hlabel : Labelled ws nodes.length label count) (hmain : main < count) (hc : c < count)
    (h : Folded nodes ws label main c s) :
    Folded nodes ws label main (c + 1) (foldComponent E nodes main s c) := by
  rw [Web.foldComponent]
  dsimp only
  by_cases hcm : c = main
  · rw [if_pos hcm]
    subst hcm
    exact h.skip
  · rw [if_neg hcm]
    obtain ⟨m, hm, hlabelm⟩ := hlabel.used c hc
    obtain ⟨n, hn, hlabeln⟩ := hlabel.used main hmain
    have hnmain : s.2 n = some main := by
      rcases h.kept n hn with hmain | hkept
      · exact hmain
      · rw [hkept, hlabeln]
    obtain ⟨a, ha, b, hb, hpair⟩ := nearestPair_spec E nodes
      (List.ne_nil_of_mem ((h.mem_members_iff hcm).mpr ⟨hm, hlabelm⟩))
      (List.ne_nil_of_mem (mem_members.mpr ⟨hn, hnmain⟩))
    obtain ⟨haV, hac⟩ := (h.mem_members_iff hcm).mp ha
    obtain ⟨hbV, hbm⟩ := mem_members.mp hb
    have hab : a ≠ b := by
      rintro rfl
      rw [(mem_members.mp ha).2] at hbm
      exact hcm (Option.some.inj hbm)
    obtain ⟨x, hx, hxa, hxb⟩ := mem_addEdge_of_ne hE hok haV hbV hab s.1
    rw [hpair]
    apply h.join hlabel hcm ?_ ?_ hac hbV hbm
    · have hreach := Links.reach_of_mem hx
      rwa [hxa, hxb] at hreach
    · rw [addEdge]
      split
      · exact List.Subset.refl _
      · exact List.subset_append_left _ _
    · intro y hy
      rcases mem_addEdge hy with hold | ⟨hya, hyb⟩
      · exact h.bound y hold
      · rw [hya, hyb]
        exact ⟨haV, hbV⟩

omit [IsStrictOrderedRing K] [FloorRing K] in
theorem mainComp_lt {compSize : List ℕ} (h : 0 < compSize.length) :
    mainComp compSize < compSize.length := by
  rw [mainComp]
  cases hmax : (List.range compSize.length).argmax fun i ↦ compSize.getD i 0 with
  | none => exact h
  | some i => exact List.mem_range.mp (List.argmax_mem hmax)

/-- The edges lie between nodes, and every node reaches every other. -/
structure CableGraph.Connected (g : CableGraph K) : Prop where
  bound : ∀ x ∈ g.wires, x.a < g.nodeCoord.length ∧ x.b < g.nodeCoord.length
  reach : ∀ u < g.nodeCoord.length, ∀ v < g.nodeCoord.length,
    Links.Reach (Links.rows g.wires) u v

omit [IsStrictOrderedRing K] in
/-- The loop over the components below `c`. -/
theorem folded_range (hE : E.Apart P) (hok : NodesOk P nodes) {comp : CompOf × List ℕ}
    (hlabel : Labelled ws nodes.length comp.1 comp.2.length)
    (hbound : ∀ x ∈ ws, x.a < nodes.length ∧ x.b < nodes.length) (hc : c ≤ comp.2.length)
    (hpos : 0 < comp.2.length) :
    Folded nodes ws comp.1 (mainComp comp.2) c ((List.range c).foldl
      (Web.foldComponent E nodes (mainComp comp.2)) (ws, comp.1)) := by
  induction c with
  | zero =>
      refine ⟨List.Subset.refl _, hbound, fun n _ ↦ Or.inr rfl, ?_, fun n _ h ↦ Or.inl h, ?_⟩
      · exact fun n _ i hi ↦ absurd hi (Nat.not_lt_zero i)
      · exact fun m _ n _ hm hn ↦ hlabel.reach m n _ hm hn
  | succ c ih =>
      rw [List.range_succ, List.foldl_append]
      exact (ih (Nat.le_of_succ_le hc)).foldComponent hE hok hlabel (mainComp_lt hpos) hc

theorem connected_of_apart (hE : E.Apart P)
    {systems : List (List (List (LngLat K)))}
    (hrange : ∀ segs ∈ systems, ∀ seg ∈ segs, ∀ c ∈ seg, P (normLon c.1, c.2)) :
    (buildCableGraph E systems).Connected := by
  have hnet := netOk_addSystems hE hrange
  rw [buildCableGraph]
  generalize addSystems E systems = g at hnet
  have hlabel := labelled_components g.nodeCoord.length g.wires
  dsimp only
  generalize components g.nodeCoord.length (Links.rows g.wires) = comp at hlabel
  rcases Nat.eq_zero_or_pos comp.2.length with hzero | hpos
  · -- no component, no node
    have hnone : ∀ u, ¬ u < g.nodeCoord.length := by
      intro u hu
      obtain ⟨i, hi⟩ := hlabel.all u hu
      have hlt := hlabel.lt u i hi
      omega
    rw [hzero]
    exact ⟨hnet.wires, fun u hu ↦ absurd hu (hnone u)⟩
  · have hend := folded_range hE hnet.nodes hlabel hnet.wires le_rfl hpos
    have hmain : ∀ u < g.nodeCoord.length, ((List.range comp.2.length).foldl
        (Web.foldComponent E g.nodeCoord (mainComp comp.2)) (g.wires, comp.1)).2 u =
          some (mainComp comp.2) := by
      intro u hu
      obtain ⟨i, hi⟩ := hlabel.all u hu
      exact hend.folded u hu i (hlabel.lt u i hi) hi
    exact ⟨hend.bound, fun u hu v hv ↦ hend.reach u hu v hv (hmain u hu) (hmain v hv)⟩

theorem connected_buildCableGraph (hE : E.IsDistance)
    {systems : List (List (List (LngLat K)))}
    (hrange : ∀ segs ∈ systems, ∀ seg ∈ segs, ∀ c ∈ seg, InRange c) :
    (buildCableGraph E systems).Connected :=
  connected_of_apart hE.apart fun segs hsegs seg hseg c hc ↦
    (hrange segs hsegs seg hseg c hc).onGlobe

end Fold

/-! ## Edges -/

section Edges

variable {E : Earth K} {p : List (Wire K Branch) → Prop}
  (hadd : ∀ ws a b w bi, p ws → p (addEdge ws a b w bi))

omit [IsStrictOrderedRing K] in
include hadd in
theorem addSegments_wires (segs : List (List (LngLat K))) (s : CableGraph K × List ℕ)
    (h : p s.1.wires) : p (segs.foldl (addSegment E) s).1.wires := by
  induction segs generalizing s with
  | nil => exact h
  | cons seg segs ih =>
      apply ih
      rw [addSegment]
      dsimp only
      split
      · exact h
      · exact hadd _ _ _ _ _ h

omit [IsStrictOrderedRing K] [FloorRing K] in
theorem foldComponents_wires {nodes : List (LngLat K)}
    (hadd : ∀ ws a b w, a < nodes.length → b < nodes.length → p ws → p (addEdge ws a b w none))
    (main : ℕ) (comps : List ℕ) {s : List (Wire K Branch) × CompOf} (h : p s.1) :
    p (comps.foldl (foldComponent E nodes main) s).1 := by
  induction comps generalizing s with
  | nil => exact h
  | cons comp comps ih =>
      apply ih
      rw [foldComponent]
      dsimp only
      split
      · exact h
      · split
        · exact h
        · rename_i a b hpair
          obtain ⟨m, hm, hmap⟩ := List.mem_flatMap.mp (List.argmin_mem hpair)
          obtain ⟨i, hi, heq⟩ := List.mem_map.mp hmap
          obtain ⟨rfl, rfl⟩ := Prod.mk.inj heq
          exact hadd _ _ _ _ (mem_members.mp hm).1 (mem_members.mp hi).1 h

omit [IsStrictOrderedRing K] in
include hadd in
/-- Edges are only added by `addEdge`. -/
theorem buildCableGraph_wires (hnil : p []) (systems : List (List (List (LngLat K)))) :
    p (buildCableGraph E systems).wires := by
  have hsystems : ∀ g : CableGraph K, p g.wires → p (systems.foldl (addSystem E) g).wires := by
    induction systems with
    | nil => exact fun g h ↦ h
    | cons segs systems ih =>
        intro g h
        apply ih
        refine bridgeSystem_wires (q := fun _ ↦ True) ?_ (fun _ _ ↦ trivial) ?_
        · exact fun ws a b w _ _ h ↦ hadd ws a b w none h
        · exact addSegments_wires hadd segs (g, []) h
  exact foldComponents_wires (fun ws a b w _ _ h ↦ hadd ws a b w none h) _ _ (hsystems _ hnil)

/-- Only edges of a positive length are added. -/
def PosWires (ws : List (Wire K Branch)) : Prop := ∀ x ∈ ws, 0 < x.w

omit [IsStrictOrderedRing K] [FloorRing K] in
theorem PosWires.addEdge {ws : List (Wire K Branch)} (h : PosWires ws) (a b : ℕ) (w : K)
    (bi : Option ℕ) : PosWires (addEdge ws a b w bi) := by
  rw [Web.addEdge]
  split
  · exact h
  · rename_i hadd
    intro x hx
    rcases List.mem_append.mp hx with hold | hnew
    · exact h x hold
    · rw [List.mem_singleton.mp hnew]
      exact not_le.mp (not_or.mp hadd).2

omit [IsStrictOrderedRing K] in
theorem posWires_buildCableGraph (systems : List (List (List (LngLat K)))) :
    PosWires (buildCableGraph E systems).wires := by
  apply buildCableGraph_wires
  · exact fun _ a b w bi h ↦ h.addEdge a b w bi
  · exact fun x hx ↦ absurd hx List.not_mem_nil

end Edges

end TrafficMap.Web
