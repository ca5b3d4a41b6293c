import TrafficMap.Web.Cables
import Mathlib.Algebra.Order.Ring.Rat
import Mathlib.Algebra.Field.Rat

/-!
# Stitching at the antimeridian

A cable across the Pacific is drawn in two halves, one on each side of 180 degrees.
Every branch of a cable stays as it is or becomes a half of one line.
-/

namespace TrafficMap.Web

variable {K : Type} [Field K] [LinearOrder K]

/-! ## Ends -/

/-- The branch as it is drawn, or the other way round. -/
def Turned (br line : List (LngLat K)) : Prop := line = br ∨ line = br.reverse

/-- One line through the dateline, from the first of the branches to the second. -/
structure Stitched (brs : List (List (LngLat K))) (m : ℕ × ℕ) (line : List (LngLat K)) : Prop where
  ne : m.1 ≠ m.2
  halves : ∃ a b east west, Turned (brs.getD m.1 []) a ∧ Turned (brs.getD m.2 []) b ∧
    a.getLast? = some east ∧ b.head? = some west ∧ dateline ≤ east.1 ∧ west.1 ≤ -dateline ∧
    |west.2 - east.2| < (2 : ℕ) ∧
    line = a ++ (b.drop 1).map fun c ↦ (c.1 + ((360 : ℕ) : K), c.2)

def branchEnd (br : List (LngLat K)) (head : Bool) : LngLat K :=
  if head then br.headD (0, 0) else br.getLastD (0, 0)

variable {brs : List (List (LngLat K))} {keep : LngLat K → Bool} {e p n : End K}

omit [LinearOrder K] in
theorem end_spec (h : e ∈ endsOf keep brs) : e.bi < brs.length ∧
    keep (branchEnd (brs.getD e.bi []) e.head) = true ∧
      e.lat = (branchEnd (brs.getD e.bi []) e.head).2 := by
  obtain ⟨⟨br, bi⟩, hbr, he⟩ := List.mem_flatMap.mp h
  obtain ⟨c, hc, hkeep⟩ := List.mem_filterMap.mp he
  obtain ⟨hkept, hsome⟩ := Option.ite_none_right_eq_some.mp hkeep
  obtain rfl := Option.some.inj hsome
  have hget : brs[bi]? = some br := List.mem_zipIdx_iff_getElem?.mp hbr
  have hpoint : branchEnd (brs.getD bi []) c.2 = c.1 := by
    rw [List.getD, hget, Option.getD_some]
    rcases List.mem_pair.mp hc with rfl | rfl
    · rfl
    · rfl
  refine ⟨(List.getElem?_eq_some_iff.mp hget).1, ?_, ?_⟩
  · change keep (branchEnd (brs.getD bi []) c.2) = true
    rwa [hpoint]
  · change c.1.2 = (branchEnd (brs.getD bi []) c.2).2
    rw [hpoint]

theorem partner_spec {consumed : List ℕ} {neg : List (End K)}
    (h : partner consumed p neg = some n) :
    n ∈ neg ∧ n.bi ∉ consumed ∧ n.bi ≠ p.bi ∧ |n.lat - p.lat| < (2 : ℕ) := by
  obtain ⟨hmem, hnear⟩ := List.mem_filter.mp (List.argmin_mem h)
  obtain ⟨hneg, hfree⟩ := List.mem_filter.mp hmem
  rw [Bool.not_eq_true', Bool.or_eq_false_iff, beq_eq_false_iff_ne] at hfree
  refine ⟨hneg, fun hin ↦ ?_, hfree.2, of_decide_eq_true hnear⟩
  rw [List.contains_iff_mem.mpr hin] at hfree
  exact Bool.noConfusion hfree.1

theorem dateline_pos [IsStrictOrderedRing K] : 0 < (dateline : K) :=
  div_pos (Nat.cast_pos.mpr (by norm_num)) (Nat.cast_pos.mpr (by norm_num))

omit [LinearOrder K] in
/-- An end off the meridian of Greenwich is a point of its branch. -/
theorem getLast?_turned {br : List (LngLat K)} {head : Bool} (h : (branchEnd br head).1 ≠ 0) :
    (if head then br.reverse else br).getLast? = some (branchEnd br head) := by
  cases br with
  | nil => cases head <;> simp [branchEnd] at h
  | cons c br =>
      cases head
      · simp [branchEnd, List.getLast?_cons]
      · simp [branchEnd]

omit [LinearOrder K] in
theorem head?_turned {br : List (LngLat K)} {head : Bool} (h : (branchEnd br head).1 ≠ 0) :
    (if head then br else br.reverse).head? = some (branchEnd br head) := by
  cases br with
  | nil => cases head <;> simp [branchEnd] at h
  | cons c br =>
      cases head
      · simp [branchEnd, List.getLast?_cons]
      · simp [branchEnd]

/-! ## Stitching -/

/-- The branches in use are those of the pairs, each of them once. -/
structure Seams (brs : List (List (LngLat K))) (s : List ℕ × List (List (LngLat K)))
    (pairs : List (ℕ × ℕ)) : Prop where
  consumed : s.1 = pairs.flatMap fun m ↦ [m.1, m.2]
  nodup : s.1.Nodup
  lt : ∀ i ∈ s.1, i < brs.length
  merged : List.Forall₂ (Stitched brs) pairs s.2

theorem seams_nil (brs : List (List (LngLat K))) : Seams brs ([], []) [] :=
  ⟨rfl, List.nodup_nil, fun _ hi ↦ absurd hi List.not_mem_nil, List.Forall₂.nil⟩

variable [IsStrictOrderedRing K]

/-- The two ends face each other over the dateline. -/
structure Facing (brs : List (List (LngLat K))) (p n : End K) : Prop where
  lt : p.bi < brs.length ∧ n.bi < brs.length
  ne : n.bi ≠ p.bi
  east : dateline ≤ (branchEnd (brs.getD p.bi []) p.head).1
  west : (branchEnd (brs.getD n.bi []) n.head).1 ≤ -dateline
  near : |(branchEnd (brs.getD n.bi []) n.head).2 - (branchEnd (brs.getD p.bi []) p.head).2| <
    (2 : ℕ)

theorem stitched_joinBranches (h : Facing brs p n) : Stitched brs (p.bi, n.bi)
    (joinBranches (brs.getD p.bi []) (brs.getD n.bi []) p n) where
  ne := h.ne.symm
  halves := by
    have hpos := dateline_pos (K := K)
    have heast := getLast?_turned (hpos.trans_le h.east).ne'
    have hwest := head?_turned (h.west.trans_lt (neg_neg_iff_pos.mpr hpos)).ne
    refine ⟨_, _, _, _, ?_, ?_, heast, hwest, h.east, h.west, h.near, ?_⟩
    · cases p.head
      · exact Or.inl rfl
      · exact Or.inr rfl
    · cases n.head
      · exact Or.inr rfl
      · exact Or.inl rfl
    · rw [joinBranches, List.map_drop]
      cases n.head
      · simp
      · simp

theorem Seams.stitchEnd {s : List ℕ × List (List (LngLat K))} {pairs : List (ℕ × ℕ)}
    {neg : List (End K)} (hs : Seams brs s pairs)
    (hfacing : ∀ n ∈ neg, n.bi ≠ p.bi → |n.lat - p.lat| < (2 : ℕ) → Facing brs p n) :
    ∃ pairs', Seams brs (Web.stitchEnd brs neg s p) pairs' := by
  obtain ⟨consumed, merged⟩ := s
  rw [Web.stitchEnd]
  split
  · exact ⟨pairs, hs⟩
  · rename_i hfree
    rw [List.contains_iff_mem] at hfree
    cases hpartner : partner consumed p neg with
    | none => exact ⟨pairs, hs⟩
    | some n =>
        obtain ⟨hneg, hfreen, hne, hnear⟩ := partner_spec hpartner
        have hface := hfacing n hneg hne hnear
        refine ⟨pairs ++ [(p.bi, n.bi)], ?_, ?_, ?_, ?_⟩
        · rw [List.flatMap_append, ← hs.consumed]
          rfl
        · refine List.nodup_append'.mpr ⟨hs.nodup, ?_, ?_⟩
          · simpa using hne.symm
          · rw [List.disjoint_right]
            intro i hi
            rcases List.mem_pair.mp hi with rfl | rfl
            · exact hfree
            · exact hfreen
        · intro i hi
          rcases List.mem_append.mp hi with hold | hnew
          · exact hs.lt i hold
          · rcases List.mem_pair.mp hnew with rfl | rfl
            · exact hface.lt.1
            · exact hface.lt.2
        · apply List.rel_append hs.merged
          exact List.Forall₂.cons (stitched_joinBranches hface) List.Forall₂.nil

theorem Seams.foldl {neg pos : List (End K)} {s : List ℕ × List (List (LngLat K))}
    {pairs : List (ℕ × ℕ)} (hs : Seams brs s pairs)
    (hfacing : ∀ p ∈ pos, ∀ n ∈ neg, n.bi ≠ p.bi → |n.lat - p.lat| < (2 : ℕ) →
      Facing brs p n) :
    ∃ pairs', Seams brs (pos.foldl (Web.stitchEnd brs neg) s) pairs' := by
  induction pos generalizing s pairs with
  | nil => exact ⟨pairs, hs⟩
  | cons p pos ih =>
      obtain ⟨hp, hpos⟩ := List.forall_mem_cons.mp hfacing
      obtain ⟨pairs', hs'⟩ := hs.stitchEnd hp
      exact ih hs' hpos

/-- The branches that are not in use. -/
def unused (brs : List (List (LngLat K))) (consumed : List ℕ) : List ℕ :=
  (List.range brs.length).filter fun i ↦ !consumed.contains i

omit [Field K] [LinearOrder K] [IsStrictOrderedRing K] in
theorem map_unused (brs : List (List (LngLat K))) (consumed : List ℕ) :
    ((brs.zipIdx.filter fun br ↦ !consumed.contains br.2).map Prod.fst) =
      (unused brs consumed).map fun i ↦ brs.getD i [] := by
  have hzip : brs.zipIdx = (List.range brs.length).map fun i ↦ (brs.getD i [], i) := by
    apply List.ext_getElem
    · simp
    · intro i hi _
      rw [List.length_zipIdx] at hi
      simp [hi]
  rw [hzip, List.filter_map, List.map_map]
  rfl

omit [Field K] [LinearOrder K] [IsStrictOrderedRing K] in
theorem perm_unused (brs : List (List (LngLat K))) {consumed : List ℕ} (hnodup : consumed.Nodup)
    (hlt : ∀ i ∈ consumed, i < brs.length) :
    List.Perm (unused brs consumed ++ consumed) (List.range brs.length) := by
  have hunused : (unused brs consumed).Nodup := List.nodup_range.filter _
  have hdisjoint : List.Disjoint (unused brs consumed) consumed := by
    intro i hi hin
    have hfree := (List.mem_filter.mp hi).2
    simp [hin] at hfree
  refine (List.perm_ext_iff_of_nodup (hunused.append hnodup hdisjoint) List.nodup_range).mpr ?_
  intro i
  rw [List.mem_append, List.mem_range, unused, List.mem_filter, List.mem_range]
  by_cases hin : i ∈ consumed
  · simpa [hin] using hlt i hin
  · simp [hin]

omit [IsStrictOrderedRing K] in
theorem facing_of_ends (hp : p ∈ endsOf (fun c ↦ decide (dateline ≤ c.1)) brs)
    (hn : n ∈ endsOf (fun c ↦ decide (c.1 < dateline) && decide (c.1 ≤ -dateline)) brs)
    (hne : n.bi ≠ p.bi) (hnear : |n.lat - p.lat| < (2 : ℕ)) : Facing brs p n := by
  obtain ⟨hpbi, heast, hplat⟩ := end_spec hp
  obtain ⟨hnbi, hwest, hnlat⟩ := end_spec hn
  rw [hplat, hnlat] at hnear
  exact ⟨⟨hpbi, hnbi⟩, hne, of_decide_eq_true heast,
    of_decide_eq_true (Bool.and_eq_true_iff.mp hwest).2, hnear⟩

/-- Every branch stays as it is or is one half of one line through the dateline. -/
theorem stitchAntimeridian_partition (brs : List (List (LngLat K))) :
    ∃ kept : List ℕ, ∃ pairs : List (ℕ × ℕ), ∃ merged : List (List (LngLat K)),
      stitchAntimeridian brs = (kept.map fun i ↦ brs.getD i []) ++ merged ∧
      List.Forall₂ (Stitched brs) pairs merged ∧
      List.Perm (kept ++ pairs.flatMap fun m ↦ [m.1, m.2]) (List.range brs.length) := by
  have hfacing : ∀ p ∈ endsOf (fun c ↦ decide (dateline ≤ c.1)) brs,
      ∀ n ∈ endsOf (fun c ↦ decide (c.1 < dateline) && decide (c.1 ≤ -dateline)) brs,
        n.bi ≠ p.bi → |n.lat - p.lat| < (2 : ℕ) → Facing brs p n :=
    fun p hp n hn ↦ facing_of_ends hp hn
  obtain ⟨pairs, hs⟩ := (seams_nil brs).foldl hfacing
  refine ⟨unused brs (pairs.flatMap fun m ↦ [m.1, m.2]), pairs, _, ?_, hs.merged, ?_⟩
  · rw [stitchAntimeridian, ← hs.consumed, ← map_unused]
  · rw [← hs.consumed]
    exact perm_unused brs hs.nodup hs.lt

/-- The two halves of a cable between Japan and the west. -/
def pacific : List (List (LngLat ℚ)) := [[(140, 35), (180, 40)], [(-125, 45), (-180, 41)]]

theorem pacific_partition : ∃ kept : List ℕ, ∃ pairs : List (ℕ × ℕ),
    ∃ merged : List (List (LngLat ℚ)),
      stitchAntimeridian pacific = (kept.map fun i ↦ pacific.getD i []) ++ merged ∧
      List.Forall₂ (Stitched pacific) pairs merged ∧
      List.Perm (kept ++ pairs.flatMap fun m ↦ [m.1, m.2]) (List.range pacific.length) :=
  stitchAntimeridian_partition pacific

example : stitchAntimeridian pacific = [[(140, 35), (180, 40), (235, 45)]] := by decide +kernel

end TrafficMap.Web
