import TrafficMap.Web.Connected

/-!
# Chords within a system

Landings of one system that its segments leave apart are joined by straight chords.  The
loops over the pairs put the first landing at the middle of a star, whatever lies nearer.
-/

namespace TrafficMap.Web

variable {K : Type} [Field K] [LinearOrder K] [FloorRing K]

/-- Each landing with those behind it, in the order of the loops. -/
def landingPairs : List ℕ → List (ℕ × ℕ)
  | [] => []
  | a :: rest => rest.map (fun b ↦ (a, b)) ++ landingPairs rest

/-- Connected so far, as the union-find has it. -/
abbrev Grouped (g : CableGraph K) (a b : ℕ) : Prop := UnionFind.Joined g.parent a b

abbrev GroupedWith (g : CableGraph K) (zs : List ℕ) (a : ℕ) : Prop :=
  UnionFind.JoinedTo g.parent zs a

section Defs

variable (E : Earth K)

def nodeKm (g : CableGraph K) (a b : ℕ) : K :=
  E.haversineKm (nodeAt g.nodeCoord a) (nodeAt g.nodeCoord b)

def bridgePairs (g : CableGraph K) (ps : List (ℕ × ℕ)) : CableGraph K :=
  ps.foldl (fun g p ↦ bridgePair E g p.1 p.2) g

/-- The graph with the segments of a further system, and the landings of that system. -/
def withSegments (systems : List (List (List (LngLat K)))) (segs : List (List (LngLat K))) :
    CableGraph K × List ℕ :=
  let (g, landings) := segs.foldl (addSegment E) (addSystems E systems, [])
  (g, landings.eraseDups)

/-- No landing of the one group is closer to a landing of the other. -/
def NearestLandings (landings : List ℕ) (g : CableGraph K) (a b : ℕ) : Prop :=
  ∀ x ∈ landings, Grouped g x a → ∀ y ∈ landings, Grouped g y b →
    nodeKm E g a b ≤ nodeKm E g x y

/-- An edge that is added for a pair of landings joins their groups where they are
nearest. -/
def ChordsNearest (landings : List ℕ) (g : CableGraph K) : Prop :=
  ∀ pre p, pre ++ [p] <+: landingPairs landings →
    (bridgePair E (bridgePairs E g pre) p.1 p.2).wires ≠ (bridgePairs E g pre).wires →
      NearestLandings E landings (bridgePairs E g pre) p.1 p.2

/-- The first landing is as near to the first of each further group as any landing of
that group is to one of the groups before. -/
def FirstNearest (landings : List ℕ) (g : CableGraph K) : Prop :=
  ∀ u pre f post, landings = u :: pre ++ f :: post → ¬ GroupedWith g (u :: pre) f →
    0 < nodeKm E g u f → ∀ x ∈ landings, GroupedWith g (u :: pre) x →
      ∀ y ∈ landings, Grouped g y f → nodeKm E g u f ≤ nodeKm E g x y

def ShortestChords (systems : List (List (List (LngLat K)))) : Prop :=
  ∀ pre segs, pre ++ [segs] <+: systems →
    ChordsNearest E (withSegments E pre segs).2 (withSegments E pre segs).1

end Defs

/-! ## One pair -/

section Pair

variable {E : Earth K} {g : CableGraph K} {a b : ℕ}

omit [Field K] [LinearOrder K] [FloorRing K] in
theorem mem_landingPairs {ids : List ℕ} {p : ℕ × ℕ} (h : p ∈ landingPairs ids) :
    p.1 ∈ ids ∧ p.2 ∈ ids := by
  induction ids with
  | nil => exact absurd h List.not_mem_nil
  | cons a rest ih =>
      rcases List.mem_append.mp h with hrow | hrest
      · obtain ⟨b, hb, rfl⟩ := List.mem_map.mp hrow
        exact ⟨List.mem_cons_self .., List.mem_cons_of_mem _ hb⟩
      · exact (ih hrest).imp (List.mem_cons_of_mem _) (List.mem_cons_of_mem _)

omit [Field K] [LinearOrder K] [FloorRing K] in
/-- A pair of the first pass, or one behind it. -/
theorem prefix_landingPairs {u : ℕ} {rest : List ℕ} {pre : List (ℕ × ℕ)} {p : ℕ × ℕ}
    (h : pre ++ [p] <+: landingPairs (u :: rest)) :
    (∃ ids f post, rest = ids ++ f :: post ∧ pre = ids.map (fun b ↦ (u, b)) ∧ p = (u, f)) ∨
      ∃ ps, pre = rest.map (fun b ↦ (u, b)) ++ ps ∧ ps ++ [p] <+: landingPairs rest := by
  have hrow : pre ++ [p] <+: rest.map (fun b ↦ (u, b)) →
      ∃ ids f post, rest = ids ++ f :: post ∧ pre = ids.map (fun b ↦ (u, b)) ∧ p = (u, f) := by
    rintro ⟨t, ht⟩
    rw [List.append_assoc, List.singleton_append] at ht
    obtain ⟨ids, fs, rfl, rfl, hfs⟩ := List.map_eq_append_iff.mp ht.symm
    obtain ⟨f, post, rfl, rfl, -⟩ := List.map_eq_cons_iff.mp hfs
    exact ⟨ids, f, post, rfl, rfl, rfl⟩
  rcases List.prefix_or_prefix_of_prefix h (List.prefix_append _ _) with hpre | hpre
  · exact Or.inl (hrow hpre)
  · rcases List.prefix_concat_iff.mp hpre with heq | ⟨ps, rfl⟩
    · exact Or.inl (hrow (heq ▸ List.prefix_refl _))
    · rw [landingPairs, List.append_assoc] at h
      exact Or.inr ⟨ps, rfl, (List.prefix_append_right_inj _).mp h⟩

omit [FloorRing K] in
/-- The two loops run through the pairs. -/
theorem bridgeSystem_eq (ids : List ℕ) (g : CableGraph K) :
    bridgeSystem E ids g = bridgePairs E g (landingPairs ids) := by
  induction ids generalizing g with
  | nil => rfl
  | cons a rest ih =>
      rw [bridgeSystem, ih, landingPairs, bridgePairs, bridgePairs, List.foldl_append,
        List.foldl_map]

omit [FloorRing K] in
/-- A pair that is joined is left alone, of any other the groups become one and the edge
is added if it has a length. -/
theorem bridgePair_spec (hg : UnionFind.Forest g.parent) (ha : a < g.parent.length)
    (hb : b < g.parent.length) :
    UnionFind.Merged g.parent a b (bridgePair E g a b).parent ∧
      ((bridgePair E g a b).wires ≠ g.wires ↔
        ¬ Grouped g a b ∧ 0 < nodeKm E g a b) := by
  obtain ⟨hra, hsame⟩ := UnionFind.root_spec hg ha
  obtain ⟨hrb, hsame'⟩ := UnionFind.root_spec hsame.forest (hsame.length.symm ▸ hb)
  have hall := hsame.trans hsame'
  have hjoined := hra.joined_iff ((hsame.root_iff b _).mp hrb)
  rw [bridgePair]
  dsimp only
  by_cases hroot : (UnionFind.root g.parent a).1 =
      (UnionFind.root (UnionFind.root g.parent a).2 b).1
  · rw [if_pos hroot]
    refine ⟨hall.merged (hjoined.mpr hroot), ?_⟩
    constructor
    · exact fun h ↦ absurd rfl h
    · exact fun h ↦ absurd (hjoined.mpr hroot) h.1
  · rw [if_neg hroot]
    have hapart : ¬ Grouped g a b := fun h ↦ hroot (hjoined.mp h)
    have hne : a ≠ b := fun h ↦ hapart (h ▸ UnionFind.Joined.refl hg a)
    constructor
    · apply hall.merged_trans
      exact UnionFind.merged_union hall.forest (hall.length.symm ▸ ha) (hall.length.symm ▸ hb)
    · change addEdge g.wires a b (nodeKm E g a b) none ≠ g.wires ↔ _
      rw [addEdge]
      by_cases hlength : nodeKm E g a b ≤ 0
      · rw [if_pos (Or.inr hlength)]
        constructor
        · exact fun h ↦ absurd rfl h
        · exact fun h ↦ absurd h.2 (not_lt.mpr hlength)
      · rw [if_neg (not_or.mpr ⟨hne, hlength⟩)]
        constructor
        · exact fun _ ↦ ⟨hapart, not_le.mp hlength⟩
        · intro _ hsame
          have hcount := congrArg List.length hsame
          rw [List.length_append, List.length_singleton] at hcount
          omega

omit [FloorRing K] in
theorem nodeKm_bridgePairs (ps : List (ℕ × ℕ)) (g : CableGraph K) (x y : ℕ) :
    nodeKm E (bridgePairs E g ps) x y = nodeKm E g x y := by
  induction ps generalizing g with
  | nil => rfl
  | cons p ps ih =>
      rw [bridgePairs, List.foldl_cons]
      apply (ih (bridgePair E g p.1 p.2)).trans
      rw [nodeKm, nodeKm, (sameNodes_bridgePair g p.1 p.2).1]

end Pair

/-! ## The star -/

section Star

variable {E : Earth K} {g g' : CableGraph K} {landings zs ids : List ℕ} {u : ℕ}

omit [FloorRing K] in
/-- A pass over the first landing gathers the others around it. -/
theorem gathered_row (hg : UnionFind.Forest g.parent) (hu : u < g.parent.length)
    (hids : ∀ b ∈ ids, b < g.parent.length) : UnionFind.Gathered g.parent (u :: ids)
      (bridgePairs E g (ids.map fun b ↦ (u, b))).parent := by
  induction ids using List.reverseRecOn with
  | nil => exact UnionFind.Gathered.single hg u
  | append_singleton ids b ih =>
      have hrow := ih fun c hc ↦ hids c (List.mem_append_left _ hc)
      have hb : b < g.parent.length := hids b (List.mem_append_right _ (List.mem_singleton_self b))
      rw [List.map_append, List.map_singleton, bridgePairs, List.foldl_append, List.foldl_cons,
        List.foldl_nil, ← List.cons_append]
      have hpair := bridgePair_spec (E := E) hrow.forest (hrow.length.symm ▸ hu)
        (hrow.length.symm ▸ hb)
      exact hrow.merged hg (List.mem_cons_self ..) hpair.1

omit [FloorRing K] in
/-- Landings of one group stay in one group. -/
theorem bridgePairs_spec {ps : List (ℕ × ℕ)} (hg : UnionFind.Forest g.parent)
    (hps : ∀ p ∈ ps, p.1 < g.parent.length ∧ p.2 < g.parent.length) :
    UnionFind.Forest (bridgePairs E g ps).parent ∧
      (bridgePairs E g ps).parent.length = g.parent.length ∧
      ∀ {x y}, Grouped g x y → Grouped (bridgePairs E g ps) x y := by
  induction ps generalizing g with
  | nil => exact ⟨hg, rfl, fun h ↦ h⟩
  | cons p ps ih =>
      obtain ⟨hp, hps⟩ := List.forall_mem_cons.mp hps
      have hpair := (bridgePair_spec (E := E) hg hp.1 hp.2).1
      obtain ⟨hforest, hlength, hmono⟩ := ih hpair.forest (hpair.length.symm ▸ hps)
      exact ⟨hforest, hlength.trans hpair.length, fun h ↦ hmono (hpair.mono h)⟩

section Ray

variable {pre : List ℕ} {f : ℕ}
  (hrow : UnionFind.Gathered g.parent (u :: pre)
    (bridgePairs E g (pre.map fun b ↦ (u, b))).parent)
  (hg : UnionFind.Forest g.parent)

omit [FloorRing K] in
include hrow hg in
theorem grouped_center_iff (x : ℕ) :
    Grouped (bridgePairs E g (pre.map fun b ↦ (u, b))) x u ↔ GroupedWith g (u :: pre) x := by
  have hself : GroupedWith g (u :: pre) u :=
    ⟨u, List.mem_cons_self .., UnionFind.Joined.refl hg u⟩
  apply (hrow.joined_iff x u).trans
  constructor
  · rintro (hx | ⟨hx, -⟩)
    · exact hself.of_joined hx
    · exact hx
  · exact fun hx ↦ Or.inr ⟨hx, hself⟩

omit [FloorRing K] in
include hrow in
theorem grouped_outside_iff (hf : ¬ GroupedWith g (u :: pre) f) (y : ℕ) :
    Grouped (bridgePairs E g (pre.map fun b ↦ (u, b))) y f ↔ Grouped g y f := by
  apply (hrow.joined_iff y f).trans
  constructor
  · rintro (hy | ⟨-, hf'⟩)
    · exact hy
    · exact absurd hf' hf
  · exact Or.inl

omit [FloorRing K] in
include hrow hg in
/-- An edge is added to the first landing of each further group. -/
theorem ray_added_iff (hu : u < g.parent.length) (hf : f < g.parent.length) :
    (bridgePair E (bridgePairs E g (pre.map fun b ↦ (u, b))) u f).wires ≠
        (bridgePairs E g (pre.map fun b ↦ (u, b))).wires ↔
      ¬ GroupedWith g (u :: pre) f ∧ 0 < nodeKm E g u f := by
  have hlength := hrow.length
  have hadded := (bridgePair_spec (E := E) hrow.forest (hlength.symm ▸ hu)
    (hlength.symm ▸ hf)).2
  rw [nodeKm_bridgePairs] at hadded
  rw [hadded, ← grouped_center_iff hrow hg]
  constructor
  · exact fun h ↦ ⟨fun hgrouped ↦ h.1 hgrouped.symm, h.2⟩
  · exact fun h ↦ ⟨fun hgrouped ↦ h.1 hgrouped.symm, h.2⟩

omit [FloorRing K] in
include hrow hg in
theorem nearestLandings_ray_iff (hf : ¬ GroupedWith g (u :: pre) f) :
    NearestLandings E landings (bridgePairs E g (pre.map fun b ↦ (u, b))) u f ↔
      ∀ x ∈ landings, GroupedWith g (u :: pre) x → ∀ y ∈ landings, Grouped g y f →
        nodeKm E g u f ≤ nodeKm E g x y := by
  simp only [NearestLandings, grouped_center_iff hrow hg, grouped_outside_iff hrow hf,
    nodeKm_bridgePairs]

end Ray

omit [FloorRing K] in
/-- After the first pass no two landings are apart. -/
theorem not_added_of_mem_rest (hg : UnionFind.Forest g.parent)
    (hids : ∀ b ∈ u :: ids, b < g.parent.length) {ps : List (ℕ × ℕ)} {p : ℕ × ℕ}
    (hps : ps ++ [p] <+: landingPairs ids) :
    (bridgePair E (bridgePairs E g (ids.map (fun b ↦ (u, b)) ++ ps)) p.1 p.2).wires =
      (bridgePairs E g (ids.map (fun b ↦ (u, b)) ++ ps)).wires := by
  obtain ⟨hu, hrest⟩ := List.forall_mem_cons.mp hids
  have hrow := gathered_row (E := E) hg hu hrest
  have happend : bridgePairs E g (ids.map (fun b ↦ (u, b)) ++ ps) =
      bridgePairs E (bridgePairs E g (ids.map fun b ↦ (u, b))) ps :=
    List.foldl_append
  rw [happend]
  generalize bridgePairs E g (ids.map fun b ↦ (u, b)) = g' at hrow ⊢
  have hlt : ∀ q ∈ ps ++ [p], q.1 < g'.parent.length ∧ q.2 < g'.parent.length := by
    intro q hq
    rw [hrow.length]
    exact (mem_landingPairs (hps.subset hq)).imp (hrest q.1) (hrest q.2)
  obtain ⟨hp1, hp2⟩ := mem_landingPairs (hps.subset (List.mem_append_right ps
    (List.mem_singleton_self p)))
  have hwith : ∀ b ∈ ids, GroupedWith g (u :: ids) b :=
    fun b hb ↦ ⟨b, List.mem_cons_of_mem _ hb, UnionFind.Joined.refl hg b⟩
  have hgrouped : Grouped g' p.1 p.2 :=
    (hrow.joined_iff _ _).mpr (Or.inr ⟨hwith _ hp1, hwith _ hp2⟩)
  obtain ⟨hforest, hlength, hmono⟩ := bridgePairs_spec (E := E) hrow.forest
    fun q hq ↦ hlt q (List.mem_append_left [p] hq)
  obtain ⟨hlt1, hlt2⟩ := hlt p (List.mem_append_right ps (List.mem_singleton_self p))
  by_contra hadded
  have hapart := (bridgePair_spec (E := E) hforest (hlength.symm ▸ hlt1)
    (hlength.symm ▸ hlt2)).2.mp hadded
  exact hapart.1 (hmono hgrouped)

omit [FloorRing K] in
theorem chordsNearest_iff (hg : UnionFind.Forest g.parent)
    (hids : ∀ id ∈ landings, id < g.parent.length) :
    ChordsNearest E landings g ↔ FirstNearest E landings g := by
  constructor
  · rintro h u pre f post rfl hf hkm
    obtain ⟨hu, hrest⟩ := List.forall_mem_cons.mp hids
    have hrow := gathered_row (E := E) hg hu fun b hb ↦ hrest b (List.mem_append_left _ hb)
    have hfirst : (pre.map fun b ↦ (u, b)) ++ [(u, f)] <+:
        landingPairs (u :: pre ++ f :: post) := by
      refine ⟨(post.map fun b ↦ (u, b)) ++ landingPairs (pre ++ f :: post), ?_⟩
      rw [List.cons_append, landingPairs, List.map_append, List.map_cons, List.append_assoc,
        List.append_assoc, List.singleton_append, List.cons_append]
    have hlt : f < g.parent.length :=
      hrest f (List.mem_append_right _ (List.mem_cons_self ..))
    have hnear := h _ _ hfirst ((ray_added_iff hrow hg hu hlt).mpr ⟨hf, hkm⟩)
    exact (nearestLandings_ray_iff hrow hg hf).mp hnear
  · rintro h pre p hpre hadded
    cases landings with
    | nil =>
        have hnil := List.prefix_nil.mp hpre
        exact absurd hnil (List.append_ne_nil_of_right_ne_nil pre (List.cons_ne_nil p []))
    | cons u rest =>
        rcases prefix_landingPairs hpre with ⟨ids, f, post, rfl, rfl, rfl⟩ | ⟨ps, rfl, hps⟩
        · obtain ⟨hu, hrest⟩ := List.forall_mem_cons.mp hids
          have hrow := gathered_row (E := E) hg hu fun b hb ↦ hrest b (List.mem_append_left _ hb)
          have hlt : f < g.parent.length :=
            hrest f (List.mem_append_right _ (List.mem_cons_self ..))
          obtain ⟨hf, hkm⟩ := (ray_added_iff hrow hg hu hlt).mp hadded
          exact (nearestLandings_ray_iff hrow hg hf).mpr (h u ids f post rfl hf hkm)
        · exact absurd (not_added_of_mem_rest hg hids hps) hadded

end Star

/-! ## All systems -/

section Systems

variable {E : Earth K}

theorem parent_ensureNode (p : List ℕ) (id x : ℕ) :
    UnionFind.parent (ensureNode p id) x = UnionFind.parent p x := by
  simp only [UnionFind.parent, ensureNode, List.getD_eq_getElem?_getD]
  by_cases hx : x < p.length
  · rw [List.getElem?_append_left hx]
  · rw [not_lt] at hx
    rw [List.getElem?_append_right hx, List.getElem?_eq_none hx]
    by_cases hid : x - p.length < id + 1 - p.length
    · rw [List.getElem?_range' hid, Nat.one_mul, Nat.add_sub_of_le hx]
      rfl
    · rw [List.getElem?_eq_none]
      rw [List.length_range']
      exact not_lt.mp hid

theorem length_ensureNode (p : List ℕ) (id : ℕ) :
    (ensureNode p id).length = max p.length (id + 1) := by
  rw [ensureNode, List.length_append, List.length_range']
  omega

theorem forest_ensureNode {p : List ℕ} (hp : UnionFind.Forest p) (id : ℕ) :
    UnionFind.Forest (ensureNode p id) := by
  obtain ⟨rank, hrank⟩ := hp
  refine ⟨rank, ?_⟩
  intro i hi
  rw [parent_ensureNode]
  by_cases hlt : i < p.length
  · obtain ⟨hup, hdown⟩ := hrank i hlt
    refine ⟨?_, hdown⟩
    rw [length_ensureNode]
    exact hup.trans_le (le_max_left _ _)
  · rw [UnionFind.parent_of_le (not_lt.mp hlt)]
    exact ⟨hi, fun hne ↦ absurd rfl hne⟩

/-- The union-find knows the landings. -/
structure Known (s : CableGraph K × List ℕ) : Prop where
  forest : UnionFind.Forest s.1.parent
  lt : ∀ id ∈ s.2, id < s.1.parent.length

theorem Known.addSegment {s : CableGraph K × List ℕ} (h : Known s) (seg : List (LngLat K)) :
    Known (Web.addSegment E s seg) := by
  obtain ⟨g, landings⟩ := s
  rw [Web.addSegment]
  dsimp only
  split
  · exact h
  · generalize findOrAdd E g.nodeCoord (seg.headD (0, 0)) = na
    generalize findOrAdd E na.2 (seg.getLastD (0, 0)) = nb
    have hbound : ∀ id, id < g.parent.length ∨ id = na.1 ∨ id = nb.1 →
        id < (ensureNode (ensureNode g.parent na.1) nb.1).length := by
      intro id hid
      rw [length_ensureNode, length_ensureNode]
      omega
    have hunion := UnionFind.merged_union
      (forest_ensureNode (forest_ensureNode h.forest na.1) nb.1)
      (hbound na.1 (Or.inr (Or.inl rfl))) (hbound nb.1 (Or.inr (Or.inr rfl)))
    refine ⟨hunion.forest, ?_⟩
    intro id hid
    refine (hbound id ?_).trans_eq hunion.length.symm
    rcases List.mem_append.mp hid with hold | hnew
    · exact Or.inl (h.lt id hold)
    · exact Or.inr (List.mem_pair.mp hnew)

theorem Known.addSegments {s : CableGraph K × List ℕ} (h : Known s)
    (segs : List (List (LngLat K))) : Known (segs.foldl (Web.addSegment E) s) := by
  induction segs generalizing s with
  | nil => exact h
  | cons seg segs ih => exact ih (h.addSegment seg)

/-- A system is its segments, and then the pairs of its landings. -/
theorem addSystems_concat (systems : List (List (List (LngLat K))))
    (segs : List (List (LngLat K))) : addSystems E (systems ++ [segs]) =
      bridgePairs E (withSegments E systems segs).1
        (landingPairs (withSegments E systems segs).2) := by
  rw [addSystems, List.foldl_append, List.foldl_cons, List.foldl_nil, ← bridgeSystem_eq]
  rfl

theorem known_withSegments {systems : List (List (List (LngLat K)))}
    (h : UnionFind.Forest (addSystems E systems).parent) (segs : List (List (LngLat K))) :
    Known (withSegments E systems segs) := by
  have hstart : Known (addSystems E systems, ([] : List ℕ)) :=
    ⟨h, fun id hid ↦ absurd hid List.not_mem_nil⟩
  have hend := hstart.addSegments (E := E) segs
  exact ⟨hend.forest, fun id hid ↦ hend.lt id (List.mem_eraseDups.mp hid)⟩

theorem forest_addSystems (systems : List (List (List (LngLat K)))) :
    UnionFind.Forest (addSystems E systems).parent := by
  induction systems using List.reverseRecOn with
  | nil => exact ⟨id, fun i hi ↦ absurd hi (Nat.not_lt_zero i)⟩
  | append_singleton systems segs ih =>
      have h := known_withSegments ih segs
      rw [addSystems_concat]
      refine (bridgePairs_spec h.forest fun p hp ↦ ?_).1
      exact (mem_landingPairs hp).imp (h.lt p.1) (h.lt p.2)

/-- The chords of all systems are the shortest there are if and only if in each system
the first landing is as near to the further groups as any other is. -/
theorem shortestChords_iff (E : Earth K) (systems : List (List (List (LngLat K)))) :
    ShortestChords E systems ↔ ∀ pre segs, pre ++ [segs] <+: systems →
      FirstNearest E (withSegments E pre segs).2 (withSegments E pre segs).1 := by
  refine forall₂_congr fun pre segs ↦ imp_congr_right fun _ ↦ ?_
  have h := known_withSegments (forest_addSystems (E := E) pre) segs
  exact chordsNearest_iff h.forest h.lt

end Systems

/-! ## A chord too long -/

section Gap

/-- Two branches along the equator, two degrees between them. -/
def gapSystem : List (List (LngLat ℝ)) :=
  [[(0, 0), ((10 : ℕ), 0)], [((12 : ℕ), 0), ((22 : ℕ), 0)]]

theorem withSegments_gap (E : Earth ℝ) :
    (withSegments E [] gapSystem).1.nodeCoord = [(0, 0), (10, 0), (12, 0), (22, 0)] ∧
      (withSegments E [] gapSystem).1.parent = [1, 1, 3, 3] ∧
      (withSegments E [] gapSystem).2 = [0, 1, 2, 3] := by
  have hwest := addSegment_equator (x := 0) (y := (10 : ℕ)) (by norm_num) (by norm_num)
    (E := E) (s := (⟨[], [], [], []⟩, [])) (fun c hc ↦ absurd hc List.not_mem_nil) (by norm_num)
  have hnorm : normLon (0 : ℝ) = 0 ∧ normLon ((10 : ℕ) : ℝ) = (10 : ℕ) :=
    normLon_equator (by norm_num) (by norm_num)
  have heast := fun s ↦ addSegment_equator (x := (12 : ℕ)) (y := (22 : ℕ)) (by norm_num)
    (by norm_num) (E := E) (s := s)
  rw [withSegments, gapSystem, addSystems, List.foldl_nil, List.foldl_cons, hwest, List.foldl_cons,
    List.foldl_nil, heast]
  · refine ⟨?_, ?_, ?_⟩
    · simp
    · rfl
    · rfl
  · intro c hc
    rcases List.mem_pair.mp hc with rfl | rfl
    · rw [hnorm.1]
      norm_num
    · rw [hnorm.2]
      norm_num
  · norm_num

/-- The chord runs from the far end, ten degrees further than it need. -/
theorem gap_not_shortest : ¬ ShortestChords (earth farPolys) [gapSystem] := by
  rw [shortestChords_iff]
  intro h
  have hfirst := h [] gapSystem (List.prefix_refl _)
  obtain ⟨hnodes, hparent, hlandings⟩ := withSegments_gap (earth farPolys)
  have hkm : ∀ i j : ℕ, nodeKm (earth farPolys) (withSegments (earth farPolys) [] gapSystem).1 i j =
      haversineKm (nodeAt [(0, 0), (10, 0), (12, 0), (22, 0)] i)
        (nodeAt [(0, 0), (10, 0), (12, 0), (22, 0)] j) := by
    intro i j
    rw [nodeKm, hnodes]
    rfl
  have hroots : UnionFind.Root [1, 1, 3, 3] 1 1 ∧ UnionFind.Root [1, 1, 3, 3] 0 1 ∧
      UnionFind.Root [1, 1, 3, 3] 2 3 := by
    refine ⟨.self rfl, .up (by decide) (.self rfl), .up (by decide) (.self rfl)⟩
  obtain ⟨h1, h0, h2⟩ := hroots
  have hapart : ¬ GroupedWith (withSegments (earth farPolys) [] gapSystem).1 [0, 1] 2 := by
    rintro ⟨z, hz, hgrouped⟩
    rw [hparent] at hgrouped
    rcases List.mem_pair.mp hz with rfl | rfl
    · exact absurd ((h2.joined_iff h0).mp hgrouped) (by decide)
    · exact absurd ((h2.joined_iff h1).mp hgrouped) (by decide)
  have hself : ∀ z, Grouped (withSegments (earth farPolys) [] gapSystem).1 z z :=
    UnionFind.Joined.refl (known_withSegments (forest_addSystems []) gapSystem).forest
  rw [hlandings] at hfirst
  have hlong : nodeKm (earth farPolys) (withSegments (earth farPolys) [] gapSystem).1 0 2 =
      6371 * (12 * D2R) := by
    rw [hkm]
    change haversineKm (0, 0) (12, 0) = _
    rw [haversineKm_equator (by norm_num)]
    norm_num
  have hshort : nodeKm (earth farPolys) (withSegments (earth farPolys) [] gapSystem).1 1 2 =
      6371 * (2 * D2R) := by
    rw [hkm]
    change haversineKm (10, 0) (12, 0) = _
    rw [haversineKm_equator (by norm_num)]
    norm_num
  have hpos := D2R_pos
  have hnear := hfirst 0 [1] 2 [3] rfl hapart (by rw [hlong]; positivity) 1 (by decide)
    ⟨1, by decide, hself 1⟩ 2 (by decide) (hself 2)
  rw [hlong, hshort] at hnear
  linarith

end Gap

end TrafficMap.Web
