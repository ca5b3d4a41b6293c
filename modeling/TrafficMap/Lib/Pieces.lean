import TrafficMap.Lib.Links
import TrafficMap.Lib.UnionFind

/-!
# Pieces of a graph

Disjoint sets that are united along the edges of a graph are its connected pieces.
-/

namespace UnionFind

variable {N : ℕ} {p p' : List ℕ} {x y : ℕ}

/-- Nodes of one set are related. -/
structure Within (N : ℕ) (R : ℕ → ℕ → Prop) (p : List ℕ) : Prop where
  forest : Forest p
  length : p.length = N
  sound : ∀ x y, Joined p x y → R x y

section Unions

variable {R : ℕ → ℕ → Prop}

theorem parent_range (N x : ℕ) : parent (List.range N) x = x := by
  by_cases hx : x < N
  · rw [parent, List.getD_eq_getElem?_getD, List.getElem?_range hx, Option.getD_some]
  · exact parent_of_le (by rw [List.length_range]; exact not_lt.mp hx)

theorem within_range (N : ℕ) (hR : Equivalence R) : Within N R (List.range N) where
  forest := by
    refine ⟨fun _ ↦ 0, ?_⟩
    intro i hi
    rw [parent_range]
    exact ⟨hi, fun hne ↦ absurd rfl hne⟩
  length := List.length_range
  sound x y h := by
    have hroot : ∀ z r, Root (List.range N) z r → z = r := by
      intro z r hz
      cases hz with
      | self => rfl
      | up hne => exact absurd (parent_range N z) hne
    obtain ⟨r, hx, hy⟩ := h
    rw [hroot x r hx, hroot y r hy]
    exact hR.refl r

theorem Within.of_sameRoots (h : Within N R p) (hsame : SameRoots p p') : Within N R p' where
  forest := hsame.forest
  length := hsame.length.trans h.length
  sound x y hxy := h.sound x y (hsame.joined_iff.mp hxy)

/-- Sets of related nodes are united. -/
theorem Within.unite (hR : Equivalence R) (h : Within N R p) {a b : ℕ} (ha : a < N) (hb : b < N)
    (hab : R a b) : Within N R (union p a b) ∧ (∀ x y, Joined p x y → Joined (union p a b) x y) ∧
      Joined (union p a b) a b := by
  obtain ⟨hforest, hlength, hjoined⟩ :=
    union_spec h.forest (h.length.symm ▸ ha) (h.length.symm ▸ hb)
  refine ⟨⟨hforest, hlength.trans h.length, ?_⟩, ?_, ?_⟩
  · intro x y hxy
    rcases (hjoined x y).mp hxy with hold | ⟨hx, hy⟩ | ⟨hx, hy⟩
    · exact h.sound x y hold
    · exact hR.trans (h.sound x a hx) (hR.trans hab (hR.symm (h.sound y b hy)))
    · exact hR.trans (h.sound x b hx) (hR.trans (hR.symm hab) (hR.symm (h.sound y a hy)))
  · exact fun x y hxy ↦ (hjoined x y).mpr (Or.inl hxy)
  · exact (hjoined a b).mpr (Or.inr (Or.inl ⟨Joined.refl h.forest a, Joined.refl h.forest b⟩))

theorem Within.unite_all (hR : Equivalence R) (h : Within N R p) {pairs : List (ℕ × ℕ)}
    (hpairs : ∀ q ∈ pairs, q.1 < N ∧ q.2 < N ∧ R q.1 q.2) :
    Within N R (pairs.foldl (fun p q ↦ union p q.1 q.2) p) ∧
      (∀ x y, Joined p x y → Joined (pairs.foldl (fun p q ↦ union p q.1 q.2) p) x y) ∧
      ∀ q ∈ pairs, Joined (pairs.foldl (fun p q ↦ union p q.1 q.2) p) q.1 q.2 := by
  induction pairs generalizing p with
  | nil => exact ⟨h, fun _ _ hxy ↦ hxy, fun q hq ↦ absurd hq List.not_mem_nil⟩
  | cons q pairs ih =>
      obtain ⟨⟨ha, hb, hab⟩, hpairs⟩ := List.forall_mem_cons.mp hpairs
      obtain ⟨hone, hkeep, hq⟩ := h.unite hR ha hb hab
      obtain ⟨hall, hkeep', hrest⟩ := ih hone hpairs
      refine ⟨hall, fun x y hxy ↦ hkeep' x y (hkeep x y hxy), ?_⟩
      intro q' hq'
      rcases List.mem_cons.mp hq' with rfl | hq'
      · exact hkeep' _ _ hq
      · exact hrest q' hq'

theorem sameRoots_classes (hp : Forest p) (hN : N ≤ p.length) : SameRoots p (classes N p).2 := by
  have hfold : ∀ (is : List ℕ) (s : List (ℕ × List ℕ) × List ℕ), SameRoots p s.2 →
      (∀ i ∈ is, i < p.length) → SameRoots p (is.foldl (fun (s : List (ℕ × List ℕ) × List ℕ) i ↦
        (insertMember (root s.2 i).1 i s.1, (root s.2 i).2)) s).2 := by
    intro is
    induction is with
    | nil => exact fun s hs _ ↦ hs
    | cons i is ih =>
        intro s hs his
        obtain ⟨hi, his⟩ := List.forall_mem_cons.mp his
        apply ih _ ?_ his
        exact hs.trans (root_spec hs.forest (hs.length.symm ▸ hi)).2
  exact hfold (List.range N) ([], p) (SameRoots.refl hp)
    fun i hi ↦ (List.mem_range.mp hi).trans_le hN

/-- The roots tell the sets apart. -/
theorem roots_eq_iff (hp : Forest p) (hx : x < p.length) (hy : y < p.length) :
    (roots p.length p).getD x 0 = (roots p.length p).getD y 0 ↔ Joined p x y := by
  have hget : ∀ z < p.length, (roots p.length p).getD z 0 = (root p z).1 := by
    intro z hz
    rw [roots, List.getD_eq_getElem?_getD, List.getElem?_map, List.getElem?_range hz]
    rfl
  rw [hget x hx, hget y hy]
  exact ((root_spec hp hx).1.joined_iff (root_spec hp hy).1).symm

end Unions

/-! ## Edges -/

section Edges

open Links

variable {K τ : Type*} {ws : List (Wire K τ)}

theorem equivalence_reach (ws : List (Wire K τ)) : Equivalence (Reach (rows ws)) where
  refl _ := Relation.ReflTransGen.refl
  symm h := reach_symm h
  trans h h' := Relation.ReflTransGen.trans h h'

/-- The sets are the pieces of the graph. -/
structure Tracks (N : ℕ) (ws : List (Wire K τ)) (p : List ℕ) : Prop where
  within : Within N (Reach (rows ws)) p
  complete : ∀ x ∈ ws, Joined p x.a x.b

theorem Tracks.joined_iff (h : Tracks N ws p) : Joined p x y ↔ Reach (rows ws) x y := by
  constructor
  · exact h.within.sound x y
  · intro hreach
    induction hreach with
    | refl => exact Joined.refl h.within.forest x
    | tail _ hstep ih =>
        obtain ⟨e, he, ⟨rfl, rfl⟩ | ⟨rfl, rfl⟩⟩ := step_rows_iff.mp hstep
        · exact ih.trans (h.complete e he)
        · exact ih.trans (h.complete e he).symm

theorem Tracks.of_sameRoots (h : Tracks N ws p) (hsame : SameRoots p p') : Tracks N ws p' where
  within := h.within.of_sameRoots hsame
  complete x hx := hsame.joined_iff.mpr (h.complete x hx)

/-- An edge is added, and the sets of its ends are united. -/
theorem Tracks.append (h : Tracks N ws p) {e : Wire K τ} (ha : e.a < N) (hb : e.b < N) :
    Tracks N (ws ++ [e]) (UnionFind.union p e.a e.b) := by
  have hmem : e ∈ ws ++ [e] := List.mem_append_right _ (List.mem_singleton_self e)
  have hwider : Within N (Reach (rows (ws ++ [e]))) p :=
    ⟨h.within.forest, h.within.length,
      fun x y hxy ↦ (h.within.sound x y hxy).of_subset (List.subset_append_left ws [e])⟩
  obtain ⟨hwithin, hkeep, hab⟩ :=
    hwider.unite (equivalence_reach _) ha hb (reach_of_mem hmem)
  refine ⟨hwithin, ?_⟩
  intro x hx
  rcases List.mem_append.mp hx with hold | hnew
  · exact hkeep _ _ (h.complete x hold)
  · rw [List.mem_singleton.mp hnew]
    exact hab

/-- Sets of one node each, united row by row. -/
theorem tracks_rows (hws : ∀ x ∈ ws, x.a < N ∧ x.b < N) :
    Tracks N ws ((List.range N).foldl
      (fun p i ↦ (rows ws i).foldl (fun p e ↦ UnionFind.union p i e.dest) p) (List.range N)) := by
  have hflat : ((List.range N).foldl
      (fun p i ↦ (rows ws i).foldl (fun p e ↦ UnionFind.union p i e.dest) p) (List.range N)) =
      (((List.range N).flatMap fun i ↦ (rows ws i).map fun e ↦ (i, e.dest)).foldl
        (fun p q ↦ UnionFind.union p q.1 q.2) (List.range N)) := by
    rw [List.foldl_flatMap]
    congr 1
    funext p i
    rw [List.foldl_map]
  rw [hflat]
  have hpairs : ∀ q ∈ (List.range N).flatMap fun i ↦ (rows ws i).map fun e ↦ (i, e.dest),
      q.1 < N ∧ q.2 < N ∧ Reach (rows ws) q.1 q.2 := by
    intro q hq
    obtain ⟨i, hi, hq⟩ := List.mem_flatMap.mp hq
    obtain ⟨e, he, rfl⟩ := List.mem_map.mp hq
    exact ⟨List.mem_range.mp hi, (bound_of_mem_rows hws he).2,
      Relation.ReflTransGen.single ⟨e, he, rfl⟩⟩
  obtain ⟨hwithin, -, hjoined⟩ :=
    (within_range N (equivalence_reach ws)).unite_all (equivalence_reach ws) hpairs
  refine ⟨hwithin, ?_⟩
  intro x hx
  apply hjoined (x.a, x.b)
  refine List.mem_flatMap.mpr ⟨x.a, List.mem_range.mpr (hws x hx).1, ?_⟩
  exact List.mem_map.mpr ⟨_, mem_rows.mpr ⟨x, hx, Or.inl ⟨rfl, rfl⟩⟩, rfl⟩

end Edges

end UnionFind
