import TrafficMap.Lib.Greedy
import TrafficMap.Web.Landmass

/-!
# Bridging pieces

The rounds of `buildLandGraph` take pieces greedily.  Which pieces they take depends on
the order of the pieces, unless a piece that may be merged stays in reach of the main
one.
-/

namespace TrafficMap.Web

variable {K : Type} [Field K] [LinearOrder K]

/-- Pieces without a common hub, none of them empty. -/
structure PieceSet (main : List ℕ) (pieces : List (List ℕ)) : Prop where
  nodup : (main ++ pieces.flatten).Nodup
  ne_nil : [] ∉ pieces

section Defs

variable (E : Earth K) (d : HubData K)

/-- The piece may be merged when `taken` have been. -/
def mayMerge (main : List ℕ) (taken : List (List ℕ)) (piece : List ℕ) : Bool :=
  (bridge E d (main ++ taken.flatten) piece).isSome

/-- The loop stops, and it merges the same pieces in whatever order they are listed. -/
structure Confluent (s : Merge K) (pieces : List (List ℕ)) : Prop where
  order : ∀ order, order.Perm pieces → ∀ piece ∈ pieces,
    piece ⊆ (mergePieces E d order.length order s).main ↔
      piece ⊆ (mergePieces E d pieces.length pieces s).main
  terminates : ∀ order, order.Perm pieces → ∀ n ≥ order.length,
    mergePieces E d n order s = mergePieces E d order.length order s

end Defs

section Rounds

variable {E : Earth K} {d : HubData K} {main : List ℕ} {taken pieces : List (List ℕ)}
  {s : Merge K}

omit [Field K] [LinearOrder K] in
theorem Merge.main_eq_append (s : Merge K) : s.main = s.main ++ ([] : List (List ℕ)).flatten :=
  (List.append_nil s.main).symm

variable (E d pieces) in
/-- A round is a greedy pass. -/
theorem mergeRound_eq_pass (hs : s.main = main ++ taken.flatten) :
    (mergeRound E d pieces s).1 = (Greedy.pass (mayMerge E d main) taken pieces).1 ∧
      (mergeRound E d pieces s).2.main =
        main ++ (Greedy.pass (mayMerge E d main) taken pieces).2.flatten := by
  induction pieces generalizing s taken with
  | nil => exact ⟨rfl, hs⟩
  | cons piece pieces ih =>
      rw [mergeRound, Greedy.pass, mayMerge, ← hs]
      cases hbridge : bridge E d s.main piece with
      | none =>
          obtain ⟨hleft, hmain⟩ := ih hs
          exact ⟨congrArg (piece :: ·) hleft, hmain⟩
      | some p =>
          rw [Option.isSome_some, if_pos rfl]
          apply ih
          rw [hs, List.flatten_append, List.flatten_singleton, List.append_assoc]

theorem main_mergePieces (n : ℕ) (hs : s.main = main ++ taken.flatten) :
    (mergePieces E d n pieces s).main =
      main ++ (Greedy.passes (mayMerge E d main) n taken pieces).flatten := by
  induction n generalizing s taken pieces with
  | zero => exact hs
  | succ n ih =>
      obtain ⟨hleft, hmain⟩ := mergeRound_eq_pass E d pieces hs
      rw [mergePieces, Greedy.passes]
      dsimp only
      rw [hleft]
      split
      · exact hmain
      · exact ih hmain

/-- Rounds beyond the number of pieces change nothing. -/
theorem mergePieces_of_le {n m : ℕ} (hn : pieces.length ≤ n) (hm : n ≤ m) :
    mergePieces E d m pieces s = mergePieces E d n pieces s := by
  induction n generalizing m pieces s with
  | zero =>
      obtain rfl := List.length_eq_zero_iff.mp (Nat.le_zero.mp hn)
      cases m with
      | zero => rfl
      | succ m => rfl
  | succ n ih =>
      obtain ⟨m, rfl⟩ := Nat.exists_eq_add_one_of_ne_zero (Nat.ne_zero_of_lt hm)
      have hle : (mergeRound E d pieces s).1.length ≤ pieces.length := by
        rw [(mergeRound_eq_pass E d pieces s.main_eq_append).1]
        exact Greedy.length_pass_le _ _ _
      rw [mergePieces, mergePieces]
      dsimp only
      split
      · rfl
      · exact ih (by omega) (Nat.le_of_succ_le_succ hm)

end Rounds

section Set

variable {E : Earth K} {d : HubData K} {main : List ℕ} {pieces : List (List ℕ)}

theorem PieceSet.nodup_pieces (h : PieceSet main pieces) : pieces.Nodup := by
  have hdisjoint := (List.nodup_flatten.mp (List.nodup_append.mp h.nodup).2.1).2
  apply hdisjoint.imp_of_mem
  rintro ms ms' hms - hdis rfl
  obtain ⟨i, hi⟩ := List.exists_mem_of_ne_nil ms fun hnil ↦ h.ne_nil (hnil ▸ hms)
  exact hdis hi hi

/-- The hubs of the main piece tell which pieces have been merged. -/
theorem PieceSet.subset_iff (h : PieceSet main pieces) {taken left : List (List ℕ)}
    (hperm : (taken ++ left).Perm pieces) {piece : List ℕ} (hpiece : piece ∈ pieces) :
    piece ⊆ main ++ taken.flatten ↔ piece ∈ taken := by
  constructor
  · intro hsub
    rcases List.mem_append.mp (hperm.mem_iff.mpr hpiece) with htaken | hleft
    · exact htaken
    · have hflat : (main ++ taken.flatten ++ left.flatten).Perm (main ++ pieces.flatten) := by
        rw [List.append_assoc, ← List.flatten_append]
        exact hperm.flatten.append_left main
      obtain ⟨i, hi⟩ := List.exists_mem_of_ne_nil piece fun hnil ↦ h.ne_nil (hnil ▸ hpiece)
      have hdisjoint := (List.nodup_append.mp (hflat.nodup_iff.mpr h.nodup)).2.2
      exact absurd rfl (hdisjoint i (hsub hi) i (List.mem_flatten.mpr ⟨piece, hleft, hi⟩))
  · intro htaken i hi
    exact List.mem_append_right main (List.mem_flatten.mpr ⟨piece, htaken, hi⟩)

/-- The pieces of the build. -/
theorem pieceSet_classes {n : ℕ} {p : List ℕ} {le : List ℕ → List ℕ → Bool}
    (h : (UnionFind.classes n p).1.mergeSort le = main :: pieces) : PieceSet main pieces := by
  obtain ⟨hperm, hne⟩ := UnionFind.classes_spec n p
  have hsort := List.mergeSort_perm (UnionFind.classes n p).1 le
  rw [h] at hsort
  constructor
  · rw [← List.flatten_cons]
    exact (hsort.flatten.trans hperm).nodup_iff.mpr List.nodup_range
  · exact fun hnil ↦ hne (hsort.mem_iff.mp (List.mem_cons_of_mem main hnil))

/-- To more hubs there is a link as before, and no longer one. -/
theorem exists_bestLink_le {main' piece : List ℕ} (hsub : main ⊆ main') {p : ℕ × ℕ}
    (hp : bestLink E d main piece = some p) : p.1 ∈ piece ∧
      ∃ p', bestLink E d main' piece = some p' ∧ hubKm E d p'.1 p'.2 ≤ hubKm E d p.1 p.2 := by
  obtain ⟨hpair, hblock⟩ := List.mem_filter.mp (List.argmin_mem hp)
  obtain ⟨a, ha, hmap⟩ := List.mem_flatMap.mp hpair
  obtain ⟨b, hb, rfl⟩ := List.mem_map.mp hmap
  have hmem : (a, b) ∈ (piece.flatMap fun a ↦ main'.map fun b ↦ (a, b)).filter fun p ↦
      !E.zonesBlock (hubAt d p.1) (hubAt d p.2) (zones E d) := by
    apply List.mem_filter.mpr
    exact ⟨List.mem_flatMap.mpr ⟨a, ha, List.mem_map_of_mem (hsub hb)⟩, hblock⟩
  have hsome : bestLink E d main' piece ≠ none := by
    rw [bestLink, Ne, List.argmin_eq_none]
    exact List.ne_nil_of_mem hmem
  obtain ⟨p', hp'⟩ := Option.ne_none_iff_exists'.mp hsome
  exact ⟨ha, p', hp', not_lt.mp (List.not_lt_of_mem_argmin hmem hp')⟩

/-- A piece without a landing, or with no link over land, may be merged ever after. -/
theorem mayMerge_mono {taken taken' : List (List ℕ)} {piece : List ℕ} (hsub : taken ⊆ taken')
    (hpiece : cableServed E d piece = false ∨
      ∀ a ∈ piece, ∀ b, E.landFraction (hubAt d a) (hubAt d b) < (overland : K))
    (h : mayMerge E d main taken piece = true) : mayMerge E d main taken' piece = true := by
  rw [mayMerge, Option.isSome_iff_exists] at h ⊢
  obtain ⟨p, hp⟩ := h
  obtain ⟨hbest, htest⟩ := Option.filter_eq_some_iff.mp hp
  have hgrow : main ++ taken.flatten ⊆ main ++ taken'.flatten := by
    intro i hi
    rcases List.mem_append.mp hi with hmain | htaken
    · exact List.mem_append_left _ hmain
    · obtain ⟨ms, hms, hi⟩ := List.mem_flatten.mp htaken
      exact List.mem_append_right _ (List.mem_flatten.mpr ⟨ms, hsub hms, hi⟩)
  obtain ⟨ha, p', hp', hle⟩ := exists_bestLink_le hgrow hbest
  refine ⟨p', Option.filter_eq_some_iff.mpr ⟨hp', ?_⟩⟩
  simp only [Bool.or_eq_true, decide_eq_true_eq, Bool.not_eq_true'] at htest ⊢
  rcases hpiece with hunserved | hsea
  · exact Or.inr hunserved
  · rcases htest with (hkm | hland) | hunserved
    · exact Or.inl (Or.inl (hle.trans hkm))
    · exact absurd hland (not_le.mpr (hsea p.1 ha p.2))
    · exact Or.inr hunserved

/-- Only a link over land can be lost to a nearer one. -/
theorem staysInReach_of_sea (main : List ℕ) (hpieces : ∀ piece ∈ pieces,
    cableServed E d piece = false ∨
      ∀ a ∈ piece, ∀ b, E.landFraction (hubAt d a) (hubAt d b) < (overland : K)) :
    Greedy.StaysInReach (mayMerge E d main) pieces := by
  apply Greedy.staysInReach_of_mono
  intro piece hpiece taken taken' hsub
  exact mayMerge_mono hsub (hpieces piece hpiece)

end Set

/-- The order of the pieces makes no difference exactly if a piece that may be merged,
after some others, may still be merged, then or later, after these and more. -/
theorem confluent_iff (E : Earth K) (d : HubData K) (s : Merge K) (pieces : List (List ℕ))
    (hset : PieceSet s.main pieces) :
    Confluent E d s pieces ↔ Greedy.StaysInReach (mayMerge E d s.main) pieces := by
  have hmain : ∀ order, order.Perm pieces → ∀ piece ∈ pieces,
      piece ⊆ (mergePieces E d order.length order s).main ↔
        piece ∈ Greedy.run (mayMerge E d s.main) order := by
    intro order horder piece hpiece
    obtain ⟨left, -, hperm, -⟩ := Greedy.run_spec (mayMerge E d s.main) order
    rw [main_mergePieces order.length s.main_eq_append]
    exact hset.subset_iff (hperm.trans horder) hpiece
  have hsub : ∀ order, order.Perm pieces → Greedy.run (mayMerge E d s.main) order ⊆ pieces := by
    intro order horder piece hpiece
    obtain ⟨left, -, hperm, -⟩ := Greedy.run_spec (mayMerge E d s.main) order
    exact (hperm.trans horder).mem_iff.mp (List.mem_append_left left hpiece)
  rw [← Greedy.run_order_iff hset.nodup_pieces]
  constructor
  · intro h order horder piece
    by_cases hpiece : piece ∈ pieces
    · rw [← hmain order horder piece hpiece, ← hmain pieces (List.Perm.refl _) piece hpiece]
      exact h.order order horder piece hpiece
    · apply iff_of_false
      · exact fun hin ↦ hpiece (hsub order horder hin)
      · exact fun hin ↦ hpiece (hsub pieces (List.Perm.refl _) hin)
  · intro h
    constructor
    · intro order horder piece hpiece
      rw [hmain order horder piece hpiece, hmain pieces (List.Perm.refl _) piece hpiece]
      exact h order horder piece
    · exact fun order _ n hn ↦ mergePieces_of_le (Nat.le_refl _) hn

/-! ## A merge that spoils another -/

section Strait

/-- Land between the longitudes 0 and 2, sea elsewhere. -/
noncomputable def straitEarth : Earth ℝ :=
  { earth [] with landFraction := fun p q ↦ if p.1 + q.1 = (2 : ℕ) then 1 else 0 }

/-- A hub at either end of the land, the second with a landing, and one on an island
beyond it. -/
def straitHubs : HubData ℝ :=
  loadHubs [((2 : ℕ), 0)] [(0, 0), ((2 : ℕ), 0), ((3 : ℕ), 0)] ⟨[], [], [], [], [], []⟩

theorem landFraction_strait (p q : LngLat ℝ) :
    straitEarth.landFraction p q = if p.1 + q.1 = 2 then 1 else 0 := by
  simp [straitEarth]

theorem hubKm_strait {i j : ℕ} {x y : ℝ} (hi : hubAt straitHubs i = (x, 0))
    (hj : hubAt straitHubs j = (y, 0)) (h : |y - x| ≤ 180) :
    hubKm straitEarth straitHubs i j = 6371 * (|y - x| * D2R) := by
  rw [hubKm, hi, hj]
  exact haversineKm_equator h

theorem zonesBlock_strait (i j : ℕ) : straitEarth.zonesBlock (hubAt straitHubs i)
    (hubAt straitHubs j) (zones straitEarth straitHubs) = false := by
  have hzones : zones straitEarth straitHubs = [] := by
    simp [zones, straitHubs, straitEarth, earth, loadHubs, countryRings]
  rw [hzones]
  simp [straitEarth, earth, zonesBlock, nearZones]

theorem bestLink_strait {main : List ℕ} {i : ℕ} : bestLink straitEarth straitHubs main [i] =
    (main.map fun j ↦ (i, j)).argmin fun p ↦ hubKm straitEarth straitHubs p.1 p.2 := by
  simp [bestLink, zonesBlock_strait]

/-- More than 60 kilometres. -/
theorem degree_long : 60 < 6371 * D2R := by
  rw [D2R_eq]
  have hpi := Real.two_le_pi
  linarith

theorem hubAt_strait :
    hubAt straitHubs 0 = (0, 0) ∧ hubAt straitHubs 1 = (2, 0) ∧ hubAt straitHubs 2 = (3, 0) := by
  simp [straitHubs, hubAt, loadHubs]

theorem cableServed_strait : cableServed straitEarth straitHubs [0] = false ∧
    cableServed straitEarth straitHubs [1] = true ∧
    cableServed straitEarth straitHubs [2] = false := by
  obtain ⟨h0, h1, h2⟩ := hubAt_strait
  have hself : straitEarth.haversineKm (2, 0) (2, 0) = 0 := haversineKm_self _
  have hkm : straitEarth.haversineKm (3, 0) (2, 0) = 6371 * D2R := by
    have hequator := haversineKm_equator (x := 3) (y := 2) (by norm_num)
    norm_num at hequator
    exact hequator
  have hkm' : straitEarth.haversineKm (0, 0) (2, 0) = 6371 * (2 * D2R) := by
    have hequator := haversineKm_equator (x := 0) (y := 2) (by norm_num)
    norm_num at hequator
    exact hequator
  have hlandings : straitHubs.landings = [(2, 0)] := by simp [straitHubs, loadHubs]
  have hlong := degree_long
  refine ⟨?_, ?_, ?_⟩
  · have hlonger : 60 < 6371 * (2 * D2R) := by linarith
    simp [cableServed, hlandings, h0, hkm', hlonger]
  · simp [cableServed, hlandings, h1, hself]
  · simp [cableServed, hlandings, h2, hkm, hlong]

/-- Without a landing any link will do. -/
theorem bridge_island {i : ℕ} (hi : cableServed straitEarth straitHubs [i] = false)
    {main : List ℕ} (hmain : main ≠ []) :
    (bridge straitEarth straitHubs main [i]).isSome = true := by
  have hbest : bestLink straitEarth straitHubs main [i] ≠ none := by
    rw [bestLink_strait, Ne, List.argmin_eq_none, List.map_eq_nil_iff]
    exact hmain
  obtain ⟨p, hp⟩ := Option.ne_none_iff_exists'.mp hbest
  simp [bridge, hp, hi]

theorem bridge_land : (bridge straitEarth straitHubs [0] [1]).isSome = true := by
  obtain ⟨h0, h1, -⟩ := hubAt_strait
  have hbest : bestLink straitEarth straitHubs [0] [1] = some (1, 0) := by
    rw [bestLink_strait]
    rfl
  have hover : (overland : ℝ) ≤ 1 := by norm_num [overland]
  simp [bridge, hbest, h0, h1, landFraction_strait, hover]

/-- From the island on, the nearest link is over the sea. -/
theorem bridge_sea : bridge straitEarth straitHubs [0, 2] [1] = none := by
  obtain ⟨h0, h1, h2⟩ := hubAt_strait
  have hfar : hubKm straitEarth straitHubs 1 0 = 6371 * (2 * D2R) := by
    rw [hubKm_strait h1 h0 (by norm_num)]
    norm_num
  have hnear : hubKm straitEarth straitHubs 1 2 = 6371 * D2R := by
    rw [hubKm_strait h1 h2 (by norm_num)]
    norm_num
  have hlt : 6371 * D2R < 6371 * (2 * D2R) := by
    have hpos := D2R_pos
    linarith
  have hbest : bestLink straitEarth straitHubs [0, 2] [1] = some (1, 2) := by
    rw [bestLink_strait]
    have hstep := List.argmin_concat (fun p : ℕ × ℕ ↦ hubKm straitEarth straitHubs p.1 p.2)
      (1, 2) [(1, 0)]
    rw [List.argmin_singleton] at hstep
    dsimp only at hstep
    rw [hnear, hfar, if_pos hlt] at hstep
    exact hstep
  have hsea : straitEarth.landFraction (2, 0) (3, 0) = 0 := by
    rw [landFraction_strait, if_neg (by norm_num)]
  have hland : (0 : ℝ) < overland := by norm_num [overland]
  have hlong := degree_long
  simp [bridge, hbest, hnear, hlong, h1, h2, hsea, hland, cableServed_strait.2.1]

/-- The piece at the landing is merged if it is listed first, and not if the island is. -/
theorem not_confluent_strait :
    PieceSet [0] [[1], [2]] ∧
      ¬ Confluent straitEarth straitHubs ⟨[], [0, 1, 2], [0]⟩ [[1], [2]] := by
  refine ⟨⟨by decide, by decide⟩, ?_⟩
  intro h
  have hfirst : mayMerge straitEarth straitHubs [0] [] [1] = true := bridge_land
  have hsecond : mayMerge straitEarth straitHubs [0] [[1]] [2] = true :=
    bridge_island cableServed_strait.2.2 (List.cons_ne_nil _ _)
  have hisland : mayMerge straitEarth straitHubs [0] [] [2] = true :=
    bridge_island cableServed_strait.2.2 (List.cons_ne_nil _ _)
  have hspoilt : mayMerge straitEarth straitHubs [0] [[2]] [1] = false :=
    congrArg Option.isSome bridge_sea
  have hmain : ∀ order, (mergePieces straitEarth straitHubs 2 order ⟨[], [0, 1, 2], [0]⟩).main =
      [0] ++ (Greedy.passes (mayMerge straitEarth straitHubs [0]) 2 [] order).flatten :=
    fun _ ↦ main_mergePieces 2 rfl
  have hboth : Greedy.passes (mayMerge straitEarth straitHubs [0]) 2 [] [[1], [2]] =
      [[1], [2]] := by
    simp [Greedy.passes, Greedy.pass, hfirst, hsecond]
  have hone : Greedy.passes (mayMerge straitEarth straitHubs [0]) 2 [] [[2], [1]] = [[2]] := by
    simp [Greedy.passes, Greedy.pass, hisland, hspoilt]
  have hsame := h.order [[2], [1]] (List.Perm.swap _ _ _) [1] (List.mem_cons_self ..)
  change [1] ⊆ (mergePieces straitEarth straitHubs 2 [[2], [1]] ⟨[], [0, 1, 2], [0]⟩).main ↔
    [1] ⊆ (mergePieces straitEarth straitHubs 2 [[1], [2]] ⟨[], [0, 1, 2], [0]⟩).main at hsame
  rw [hmain, hmain, hboth, hone] at hsame
  exact absurd (hsame.mpr (by decide)) (by decide)

/-- The two pieces without a landing are merged in either order. -/
theorem confluent_islands :
    Confluent straitEarth straitHubs ⟨[], [0, 1, 2], [1]⟩ [[0], [2]] := by
  refine (confluent_iff straitEarth straitHubs ⟨[], [0, 1, 2], [1]⟩ [[0], [2]]
    ⟨by decide, by decide⟩).mpr (staysInReach_of_sea [1] ?_)
  intro piece hpiece
  rcases List.mem_pair.mp hpiece with rfl | rfl
  · exact Or.inl cableServed_strait.1
  · exact Or.inl cableServed_strait.2.2

end Strait

end TrafficMap.Web
