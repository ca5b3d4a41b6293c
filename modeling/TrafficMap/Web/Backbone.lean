import TrafficMap.Web.Joint

/-!
# The edges of the graphs

Where an edge of the backbone comes from: each is declared, or its ends passed
the test of the zones.  The joint graph is undirected and has no edges out of
its nodes.
-/

namespace TrafficMap.Web

variable {K : Type} [Field K] [LinearOrder K]

/-! ## The backbone -/

section Land

variable (E : Earth K) (d : HubData K)

/-- An edge between hubs, of their distance, that is declared or that no zone blocks. -/
structure LandOk (x : Wire K Unit) : Prop where
  a_lt : x.a < d.hubs.length
  b_lt : x.b < d.hubs.length
  w_eq : x.w = hubKm E d x.a x.b
  checked : (x.a, x.b) ∈ declared d ∨
    E.zonesBlock (hubAt d x.a) (hubAt d x.b) (zones E d) = false

variable {E d}

theorem LandOk.ends_lt {x : Wire K Unit} (h : LandOk E d x) : x.a < hubCount d ∧ x.b < hubCount d :=
  ⟨h.a_lt, h.b_lt⟩

theorem landOk_of_eligible {i j : ℕ} (hi : i < d.hubs.length) (hj : j < d.hubs.length)
    (h : eligible E d i j = true) : LandOk E d (landWire E d i j) where
  a_lt := hi
  b_lt := hj
  w_eq := rfl
  checked := by
    rw [eligible, Bool.and_eq_true] at h
    have hblock : E.zonesBlock (hubAt d i) (hubAt d j) (zones E d) = false := by simpa using h.2
    exact Or.inr hblock

theorem landOk_linkNearest {i : ℕ} (hi : i < d.hubs.length) (js : List ℕ)
    (hjs : ∀ j ∈ js, j < d.hubs.length) (added : ℕ) (ws : List (Wire K Unit))
    (hws : ∀ x ∈ ws, LandOk E d x) : ∀ x ∈ linkNearest E d i js added ws, LandOk E d x := by
  induction js generalizing added ws with
  | nil => exact hws
  | cons j js ih =>
      obtain ⟨hj, hjs⟩ := List.forall_mem_cons.mp hjs
      rw [linkNearest]
      split
      · exact hws
      · split
        · exact ih hjs added ws hws
        · rename_i helig
          apply ih hjs (added + 1)
          intro x hx
          rcases List.mem_append.mp hx with hold | hnew
          · exact hws x hold
          · obtain rfl := List.mem_singleton.mp hnew
            apply landOk_of_eligible hi hj
            cases hcase : eligible E d i j with
            | true => rfl
            | false => simp [hcase] at helig

theorem landOk_declaredWires : ∀ x ∈ declaredWires E d, LandOk E d x := by
  intro x hx
  obtain ⟨p, hp, rfl⟩ := List.mem_map.mp hx
  obtain ⟨hp, hlt⟩ := List.mem_filter.mp hp
  obtain ⟨ha, hb⟩ := of_decide_eq_true hlt
  exact ⟨ha, hb, rfl, Or.inl hp⟩

theorem mem_of_bridge {main piece : List ℕ} {a b : ℕ} (h : bridge E d main piece = some (a, b)) :
    a ∈ piece ∧ b ∈ main ∧ E.zonesBlock (hubAt d a) (hubAt d b) (zones E d) = false := by
  have hbest := (Option.filter_eq_some_iff.mp h).1
  obtain ⟨hpair, hblock⟩ := List.mem_filter.mp (List.argmin_mem hbest)
  obtain ⟨a', ha', hmap⟩ := List.mem_flatMap.mp hpair
  obtain ⟨b', hb', heq⟩ := List.mem_map.mp hmap
  obtain ⟨rfl, rfl⟩ := Prod.mk.inj heq
  exact ⟨ha', hb', by simpa using hblock⟩

/-- The edges so far, and the members of the main piece. -/
structure MergeOk (E : Earth K) (d : HubData K) (s : Merge K) : Prop where
  wires : ∀ x ∈ s.wires, LandOk E d x
  main : ∀ i ∈ s.main, i < d.hubs.length

/-- The piece is merged over the link from `a` to `b`. -/
def mergePiece (E : Earth K) (d : HubData K) (s : Merge K) (piece : List ℕ) (a b : ℕ) :
    Merge K where
  wires := s.wires ++ [landWire E d a b]
  parent := UnionFind.union s.parent a b
  main := s.main ++ piece

theorem mergeRound_subset (pieces : List (List ℕ)) (s : Merge K) :
    (mergeRound E d pieces s).1 ⊆ pieces := by
  induction pieces generalizing s with
  | nil => exact List.Subset.refl _
  | cons piece pieces ih =>
      rw [mergeRound]
      split
      · exact List.Subset.trans (ih _) (List.subset_cons_self _ _)
      · exact List.cons_subset_cons _ (ih s)

section Rule

variable {P : Merge K → Prop} {q : List ℕ → Prop}
  (hmerge : ∀ s piece a b, q piece → bridge E d s.main piece = some (a, b) → P s →
    P (mergePiece E d s piece a b))
include hmerge

theorem mergeRound_rule {pieces : List (List ℕ)} {s : Merge K} (hpieces : ∀ piece ∈ pieces, q piece)
    (hs : P s) : P (mergeRound E d pieces s).2 := by
  induction pieces generalizing s with
  | nil => exact hs
  | cons piece pieces ih =>
      obtain ⟨hpiece, hpieces⟩ := List.forall_mem_cons.mp hpieces
      rw [mergeRound]
      cases hbridge : bridge E d s.main piece with
      | none => exact ih hpieces hs
      | some p => exact ih hpieces (hmerge s piece p.1 p.2 hpiece hbridge hs)

/-- What every merge preserves holds in the end. -/
theorem mergePieces_rule {n : ℕ} {pieces : List (List ℕ)} {s : Merge K}
    (hpieces : ∀ piece ∈ pieces, q piece) (hs : P s) : P (mergePieces E d n pieces s) := by
  induction n generalizing pieces s with
  | zero => exact hs
  | succ n ih =>
      have hround := mergeRound_rule hmerge hpieces hs
      rw [mergePieces]
      dsimp only
      split
      · exact hround
      · exact ih (fun piece hpiece ↦ hpieces piece (mergeRound_subset pieces s hpiece)) hround

end Rule

theorem MergeOk.mergePiece {s : Merge K} {piece : List ℕ} {a b : ℕ}
    (hpiece : ∀ i ∈ piece, i < d.hubs.length) (hbridge : bridge E d s.main piece = some (a, b))
    (hs : MergeOk E d s) : MergeOk E d (mergePiece E d s piece a b) := by
  obtain ⟨ha, hb, hblock⟩ := mem_of_bridge hbridge
  constructor
  · intro x hx
    rcases List.mem_append.mp hx with hold | hnew
    · exact hs.wires x hold
    · obtain rfl := List.mem_singleton.mp hnew
      exact ⟨hpiece a ha, hs.main b hb, rfl, Or.inr hblock⟩
  · intro i hi
    rcases List.mem_append.mp hi with hold | hnew
    · exact hs.main i hold
    · exact hpiece i hnew

variable [FloorRing K]

theorem lt_of_mem_candidates {i j : ℕ} (h : j ∈ candidates d i) : j < d.hubs.length := by
  obtain ⟨dx, -, h⟩ := List.mem_flatMap.mp h
  obtain ⟨dy, -, h⟩ := List.mem_flatMap.mp h
  exact List.mem_range.mp (List.mem_of_mem_filter (List.mem_of_mem_filter h))

theorem landOk_nearestWires : ∀ x ∈ nearestWires E d, LandOk E d x := by
  have hfold : ∀ (is : List ℕ) (ws : List (Wire K Unit)), (∀ i ∈ is, i < d.hubs.length) →
      (∀ x ∈ ws, LandOk E d x) → ∀ x ∈ is.foldl (fun ws i ↦ linkNearest E d i
        ((candidates d i).mergeSort (byDistance E d i)) 0 ws) ws, LandOk E d x := by
    intro is
    induction is with
    | nil => exact fun ws _ hws ↦ hws
    | cons i is ih =>
        intro ws his hws
        obtain ⟨hi, his⟩ := List.forall_mem_cons.mp his
        refine ih _ his (landOk_linkNearest hi _ ?_ 0 ws hws)
        exact fun j hj ↦ lt_of_mem_candidates (List.mem_mergeSort.mp hj)
  exact hfold _ [] (fun i hi ↦ List.mem_range.mp hi) fun x hx ↦ absurd hx List.not_mem_nil

theorem landOk_baseWires : ∀ x ∈ baseWires E d, LandOk E d x := by
  intro x hx
  rcases List.mem_append.mp hx with hnearest | hdeclared
  · exact landOk_nearestWires x hnearest
  · exact landOk_declaredWires x hdeclared

/-- What holds of the largest piece and is preserved by every merge holds in the end. -/
theorem buildLandGraph_rule {P : Merge K → Prop}
    (hstart : ∀ main, (∀ i ∈ main, i < d.hubs.length) → P ⟨baseWires E d,
      (UnionFind.classes d.hubs.length (unionRows d (baseWires E d))).2, main⟩)
    (hmerge : ∀ s piece a b, (∀ i ∈ piece, i < d.hubs.length) →
      bridge E d s.main piece = some (a, b) → P s → P (mergePiece E d s piece a b)) :
    P (buildLandGraph E d) := by
  have hclasses : ∀ ms ∈ (UnionFind.classes d.hubs.length (unionRows d (baseWires E d))).1.mergeSort
      (fun a b ↦ b.length ≤ a.length), ∀ i ∈ ms, i < d.hubs.length :=
    fun ms hms i hi ↦ UnionFind.lt_of_mem_classes (List.mem_mergeSort.mp hms) hi
  rw [buildLandGraph]
  dsimp only
  split
  · exact hstart [] fun i hi ↦ absurd hi List.not_mem_nil
  · rename_i main pieces hsort
    rw [hsort] at hclasses
    obtain ⟨hmain, hpieces⟩ := List.forall_mem_cons.mp hclasses
    exact mergePieces_rule hmerge hpieces (hstart main hmain)

/-- Every edge of the backbone is declared or passed the test of the zones. -/
theorem landOk_landWires : ∀ x ∈ landWires E d, LandOk E d x := by
  have hok : MergeOk E d (buildLandGraph E d) := by
    apply buildLandGraph_rule
    · exact fun main hmain ↦ ⟨landOk_baseWires, hmain⟩
    · exact fun _ _ _ _ hpiece hbridge hs ↦ hs.mergePiece hpiece hbridge
  exact hok.wires

theorem landAdj_bound (E : Earth K) (d : HubData K) :
    ∀ u < hubCount d, ∀ e ∈ landAdj E d u, e.dest < hubCount d := by
  intro u _ e he
  exact (Links.bound_of_mem_rows (fun x hx ↦ (landOk_landWires x hx).ends_lt) he).2

theorem landAdj_nonneg (hE : ∀ p q, 0 ≤ E.haversineKm p q) :
    ∀ u, ∀ e ∈ landAdj E d u, 0 ≤ e.w := by
  intro u e he
  refine Links.weight_of_mem_rows ?_ he
  intro x hx
  rw [(landOk_landWires x hx).w_eq]
  exact hE _ _

end Land

/-! ## The joint graph -/

section Joint

variable {E : Earth K} {d : HubData K} {g : CableGraph K}

theorem mem_backhaulWires {x : Wire K Branch} : x ∈ backhaulWires E d g ↔
    ∃ j < g.nodeCoord.length, ∃ i, backhaulHub E d g j = some i ∧ x = backhaulWire E d g j i := by
  rw [backhaulWires, List.mem_filterMap]
  constructor
  · rintro ⟨j, hj, hx⟩
    obtain ⟨i, hi, rfl⟩ := Option.map_eq_some_iff.mp hx
    exact ⟨j, List.mem_range.mp hj, i, hi, rfl⟩
  · rintro ⟨j, hj, i, hi, rfl⟩
    exact ⟨j, List.mem_range.mpr hj, by rw [hi]; rfl⟩

theorem lt_of_backhaulHub {i j : ℕ} (h : backhaulHub E d g j = some i) : i < hubCount d :=
  List.mem_range.mp (List.argmin_mem h)

theorem not_lt_of_backhaulHub {i j k : ℕ} (h : backhaulHub E d g j = some i) (hk : k < hubCount d) :
    ¬ E.haversineKm (hubAt d k) (nodeAt g.nodeCoord j) <
      E.haversineKm (hubAt d i) (nodeAt g.nodeCoord j) :=
  List.not_lt_of_mem_argmin (List.mem_range.mpr hk) h

/-- The only nearest hub. -/
theorem backhaulHub_eq_some {i j : ℕ} (hi : i < hubCount d)
    (hlt : ∀ k < hubCount d, k ≠ i →
      E.haversineKm (hubAt d i) (nodeAt g.nodeCoord j) <
        E.haversineKm (hubAt d k) (nodeAt g.nodeCoord j)) : backhaulHub E d g j = some i := by
  cases hk : backhaulHub E d g j with
  | none =>
      have hnil := List.argmin_eq_none.mp hk
      exact absurd (List.range_eq_nil.mp hnil) (by omega)
  | some k =>
      by_contra hne
      have hki : k ≠ i := fun heq ↦ hne (congrArg some heq)
      exact not_lt_of_backhaulHub hk hi (hlt k (lt_of_backhaulHub hk) hki)

theorem lt_of_nearestJoint {p : LngLat K} {u : ℕ} (h : nearestJoint E d g p = some u) :
    u < jointSize d g :=
  List.mem_range.mp (List.argmin_mem h)

theorem not_lt_of_nearestJoint {p : LngLat K} {u v : ℕ} (h : nearestJoint E d g p = some u)
    (hv : v < jointSize d g) :
    ¬ E.haversineKm (coordAt d g v) p < E.haversineKm (coordAt d g u) p :=
  List.not_lt_of_mem_argmin (List.mem_range.mpr hv) h

variable [FloorRing K]

/-- The edges of the joint graph. -/
def jointWires (E : Earth K) (d : HubData K) (g : CableGraph K) : List (Wire K Branch) :=
  (landWires E d).map (Links.relabel id fun _ ↦ straight) ++
    g.wires.map (Links.relabel (hubCount d + ·) id) ++ backhaulWires E d g

theorem jointAdj_eq_rows : jointAdj E d g = Links.rows (jointWires E d g) := by
  funext u
  rw [jointAdj, jointWires, Links.rows_append, Links.rows_append]
  congr 1
  by_cases hu : u < hubCount d
  · have hcable : Links.rows (g.wires.map (Links.relabel (hubCount d + ·) id)) u = [] := by
      apply Links.rows_eq_nil
      intro x hx
      obtain ⟨y, -, rfl⟩ := List.mem_map.mp hx
      exact ⟨(hu.trans_le (Nat.le_add_right _ _)).ne', (hu.trans_le (Nat.le_add_right _ _)).ne'⟩
    rw [if_pos hu, hcable, List.append_nil]
    exact (Links.rows_relabel (landWires E d) Function.injective_id (fun _ ↦ straight) u).symm
  · obtain ⟨j, rfl⟩ := Nat.exists_eq_add_of_le (not_lt.mp hu)
    have hland : Links.rows ((landWires E d).map (Links.relabel id fun _ ↦ straight))
        (hubCount d + j) = [] := by
      apply Links.rows_eq_nil
      intro x hx
      obtain ⟨y, hy, rfl⟩ := List.mem_map.mp hx
      have hok := landOk_landWires y hy
      exact ⟨(hok.a_lt.trans_le (Nat.le_add_right _ _)).ne,
        (hok.b_lt.trans_le (Nat.le_add_right _ _)).ne⟩
    rw [if_neg hu, hland, List.nil_append, Nat.add_sub_cancel_left]
    exact (Links.rows_relabel g.wires (add_right_injective (hubCount d)) id j).symm

/-- An edge of the joint graph is of one of three kinds. -/
theorem mem_jointWires {x : Wire K Branch} (hx : x ∈ jointWires E d g) :
    (∃ y ∈ landWires E d, x = Links.relabel id (fun _ ↦ straight) y) ∨
    (∃ y ∈ g.wires, x = Links.relabel (hubCount d + ·) id y) ∨
    ∃ j < g.nodeCoord.length, ∃ i, backhaulHub E d g j = some i ∧ x = backhaulWire E d g j i := by
  rcases List.mem_append.mp hx with hleft | hbackhaul
  · rcases List.mem_append.mp hleft with hland | hcable
    · obtain ⟨y, hy, rfl⟩ := List.mem_map.mp hland
      exact Or.inl ⟨y, hy, rfl⟩
    · obtain ⟨y, hy, rfl⟩ := List.mem_map.mp hcable
      exact Or.inr (Or.inl ⟨y, hy, rfl⟩)
  · exact Or.inr (Or.inr (mem_backhaulWires.mp hbackhaul))

section Bounds

variable (hbound : ∀ x ∈ g.wires, x.a < g.nodeCoord.length ∧ x.b < g.nodeCoord.length)
include hbound

theorem jointWires_bound : ∀ x ∈ jointWires E d g, x.a < jointSize d g ∧ x.b < jointSize d g := by
  intro x hx
  rw [jointSize]
  rcases mem_jointWires hx with ⟨y, hy, rfl⟩ | ⟨y, hy, rfl⟩ | ⟨j, hj, i, hi, rfl⟩
  · have hok := landOk_landWires y hy
    exact ⟨hok.a_lt.trans_le (Nat.le_add_right _ _), hok.b_lt.trans_le (Nat.le_add_right _ _)⟩
  · obtain ⟨ha, hb⟩ := hbound y hy
    exact ⟨Nat.add_lt_add_left ha _, Nat.add_lt_add_left hb _⟩
  · exact ⟨Nat.add_lt_add_left hj _, (lt_of_backhaulHub hi).trans_le (Nat.le_add_right _ _)⟩

theorem jointAdj_bound : ∀ u < jointSize d g, ∀ e ∈ jointAdj E d g u, e.dest < jointSize d g := by
  intro u _ e he
  rw [jointAdj_eq_rows] at he
  exact (Links.bound_of_mem_rows (jointWires_bound hbound) he).2

end Bounds

theorem jointAdj_nonneg (hE : ∀ p q, 0 ≤ E.haversineKm p q) (hg : ∀ x ∈ g.wires, 0 ≤ x.w) :
    ∀ u, ∀ e ∈ jointAdj E d g u, 0 ≤ e.w := by
  intro u e he
  rw [jointAdj_eq_rows] at he
  refine Links.weight_of_mem_rows ?_ he
  intro x hx
  rcases mem_jointWires hx with ⟨y, hy, rfl⟩ | ⟨y, hy, rfl⟩ | ⟨j, hj, i, hi, rfl⟩
  · change 0 ≤ y.w
    rw [(landOk_landWires y hy).w_eq]
    exact hE _ _
  · exact hg y hy
  · exact hE _ _

end Joint

end TrafficMap.Web
