import TrafficMap.Web.Connected

/-!
# Nearest neighbours

The hubs of the backbone take their neighbours in turn, each from a window of cells about
it and in the order of their distance.  A hub that has been taken by a neighbour before
its turn has one slot more for the others.
-/

namespace TrafficMap.Web

variable {K : Type} [Field K] [LinearOrder K] [FloorRing K]

section Defs

variable (E : Earth K) (d : HubData K)

def sortedCandidates (i : ℕ) : List ℕ := (candidates d i).mergeSort (byDistance E d i)

/-- The candidates that may be linked and that hub `i` comes to before `j`. -/
def ahead (i j : ℕ) : List ℕ :=
  ((sortedCandidates E d i).takeWhile fun c ↦ c ≠ j).filter (eligible E d i)

/-- Hub `i` comes to `j` with a slot left.  Those ahead that took `i` in a turn before
need none. -/
def takes (i j : ℕ) : Bool :=
  decide (j ∈ candidates d i) && eligible E d i j &&
    decide (((ahead E d i j).filter fun c ↦
      if _h : c < i then !takes c i else true).length < LAND_K)
termination_by i

/-- How many other hubs that may be linked to `i` are nearer than `j`. -/
def nearer (i j : ℕ) : ℕ :=
  ((List.range d.hubs.length).filter fun c ↦
    c ≠ i ∧ eligible E d i c = true ∧ hubKm E d i c < hubKm E d i j).length

structure AmongNearest (i j : ℕ) : Prop where
  i_lt : i < d.hubs.length
  j_lt : j < d.hubs.length
  ne : i ≠ j
  eligible : eligible E d i j = true
  nearer : nearer E d i j < LAND_K

/-- Every hub is linked to its nearest ones. -/
def NearestLinked (ws : List (Wire K Unit)) : Prop :=
  ∀ i j, AmongNearest E d i j → Links.Step (Links.rows ws) i j

def Declared (i j : ℕ) : Prop :=
  ((i, j) ∈ declared d ∨ (j, i) ∈ declared d) ∧ i < d.hubs.length ∧ j < d.hubs.length

/-- Of two hubs, one among the nearest of the other, one takes the other in its turn, or
their link is declared. -/
def NearestTaken : Prop :=
  ∀ i j, AmongNearest E d i j → takes E d i j = true ∨ takes E d j i = true ∨ Declared d i j

end Defs

/-! ## One turn -/

section Turn

variable {E : Earth K} {d : HubData K} {i j : ℕ} {ws ws' : List (Wire K Unit)}

omit [Field K] [LinearOrder K] [FloorRing K] in
theorem seen_iff : seen ws i j = true ↔
    ∃ x ∈ ws, x.a = i ∧ x.b = j ∨ x.a = j ∧ x.b = i := by
  rw [seen, List.any_eq_true]
  simp only [decide_eq_true_eq]

omit [Field K] [LinearOrder K] [FloorRing K] in
theorem seen_comm : seen ws i j = seen ws j i := by
  rw [Bool.eq_iff_iff, seen_iff, seen_iff]
  simp only [or_comm]

omit [Field K] [LinearOrder K] [FloorRing K] in
theorem seen_append : seen (ws ++ ws') i j = (seen ws i j || seen ws' i j) := by
  rw [seen, seen, seen, List.any_append]

omit [Field K] [LinearOrder K] [FloorRing K] in
theorem step_iff_seen : Links.Step (Links.rows ws) i j ↔ seen ws i j = true := by
  rw [Links.step_rows_iff, seen_iff]
  simp only [and_comm]

omit [LinearOrder K] [FloorRing K] in
theorem seen_landWire {a b : ℕ} : seen [landWire E d a b] i j = true ↔
    a = i ∧ b = j ∨ a = j ∧ b = i := by
  simp [seen_iff, landWire]

omit [LinearOrder K] [FloorRing K] in
theorem seen_concat_of_ne {c x : ℕ} (hc : i ≠ c) (hx : x ≠ c) :
    seen (ws ++ [landWire E d i c]) i x = seen ws i x := by
  rw [seen_append, Bool.or_eq_left_iff_imp, seen_landWire]
  rintro (⟨-, h⟩ | ⟨-, h⟩)
  · exact absurd h.symm hx
  · exact absurd h.symm hc

omit [FloorRing K] in
/-- The turn of a hub has no part in the links of two others. -/
theorem seen_linkNearest_of_ne {a : ℕ} (hi : a ≠ i) (hj : a ≠ j) (js : List ℕ) (added : ℕ)
    (ws : List (Wire K Unit)) :
    seen (linkNearest E d a js added ws) i j = seen ws i j := by
  induction js generalizing added ws with
  | nil => rfl
  | cons c js ih =>
      rw [linkNearest]
      split
      · rfl
      · split
        · exact ih added ws
        · rw [ih, seen_append, Bool.or_eq_left_iff_imp, seen_landWire]
          rintro (⟨h, -⟩ | ⟨h, -⟩)
          · exact absurd h hi
          · exact absurd h hj

variable (E d) in
/-- Those ahead of `j` in the list that need a slot of hub `i`. -/
def needing (ws : List (Wire K Unit)) (js : List ℕ) (i j : ℕ) : List ℕ :=
  (js.takeWhile fun c ↦ c ≠ j).filter fun c ↦ eligible E d i c && !seen ws i c

section Needing

variable {c : ℕ} {js : List ℕ}

omit [FloorRing K] in
theorem needing_self : needing E d ws (j :: js) i j = [] := by
  simp [needing]

omit [FloorRing K] in
/-- One that is skipped needs none. -/
theorem needing_skip (hcj : c ≠ j) (hskip : eligible E d i c = false ∨ seen ws i c = true) :
    needing E d ws (c :: js) i j = needing E d ws js i j := by
  have hnone : (eligible E d i c && !seen ws i c) = false := by
    rcases hskip with helig | hseen
    · rw [helig, Bool.false_and]
    · rw [hseen, Bool.not_true, Bool.and_false]
  rw [needing, List.takeWhile_cons_of_pos (by simpa using hcj),
    List.filter_cons_of_neg (by simp [hnone])]
  rfl

omit [FloorRing K] in
/-- One that is linked needs one, and the others what they needed. -/
theorem length_needing_take (hcj : c ≠ j) (hic : i ≠ c) (hc : c ∉ js)
    (helig : eligible E d i c = true) (hseen : seen ws i c = false) :
    (needing E d ws (c :: js) i j).length =
      (needing E d (ws ++ [landWire E d i c]) js i j).length + 1 := by
  have hsame : needing E d (ws ++ [landWire E d i c]) js i j = needing E d ws js i j := by
    apply List.filter_congr
    intro x hx
    rw [seen_concat_of_ne hic]
    rintro rfl
    exact hc ((List.takeWhile_prefix _).subset hx)
  rw [hsame, needing, List.takeWhile_cons_of_pos (by simpa using hcj),
    List.filter_cons_of_pos (by simp [helig, hseen]), List.length_cons]
  rfl

end Needing

omit [FloorRing K] in
/-- Hub `i` is linked to `j` if it comes to it with a slot left. -/
theorem seen_linkNearest_iff {js : List ℕ} (hjs : js.Nodup) (hi : i ∉ js) (added : ℕ)
    (ws : List (Wire K Unit)) :
    seen (linkNearest E d i js added ws) i j = true ↔ seen ws i j = true ∨
      j ∈ js ∧ eligible E d i j = true ∧
        added + (needing E d ws js i j).length < LAND_K := by
  induction js generalizing added ws with
  | nil => simp [linkNearest]
  | cons c js ih =>
      obtain ⟨hc, hjs⟩ := List.nodup_cons.mp hjs
      have hic : i ≠ c := List.ne_of_not_mem_cons hi
      have hijs : i ∉ js := List.not_mem_of_not_mem_cons hi
      rw [linkNearest]
      split
      · rename_i hfull
        constructor
        · exact Or.inl
        · rintro (hseen | ⟨-, -, hslot⟩)
          · exact hseen
          · omega
      · rename_i hslot
        split
        · rename_i hskip
          have hskip : eligible E d i c = false ∨ seen ws i c = true := by
            simpa using hskip
          rw [ih hjs hijs]
          by_cases hcj : c = j
          · subst hcj
            have hseen : eligible E d i c = true → seen ws i c = true :=
              fun helig ↦ hskip.resolve_left (by simp [helig])
            constructor
            · rintro (h | ⟨hmem, -⟩)
              · exact Or.inl h
              · exact absurd hmem hc
            · rintro (h | ⟨-, helig, -⟩)
              · exact Or.inl h
              · exact Or.inl (hseen helig)
          · rw [needing_skip hcj hskip, List.mem_cons, or_iff_right (Ne.symm hcj)]
        · rename_i htake
          obtain ⟨helig, hunseen⟩ : eligible E d i c = true ∧ seen ws i c = false := by
            simpa using htake
          rw [ih hjs hijs]
          by_cases hcj : c = j
          · subst hcj
            have hseen : seen (ws ++ [landWire E d i c]) i c = true := by
              rw [seen_append, seen_landWire.mpr (Or.inl ⟨rfl, rfl⟩), Bool.or_true]
            apply iff_of_true (Or.inl hseen)
            refine Or.inr ⟨List.mem_cons_self .., helig, ?_⟩
            rw [needing_self]
            exact not_le.mp hslot
          · rw [seen_concat_of_ne hic (Ne.symm hcj), List.mem_cons, or_iff_right (Ne.symm hcj),
              length_needing_take hcj hic hc helig hunseen, Nat.add_right_comm, Nat.add_assoc]

end Turn

/-! ## The window -/

section Window

variable {E : Earth K} {d : HubData K} {i j : ℕ}

theorem nodup_offsets (r : ℕ) : (offsets r).Nodup := by
  apply List.Nodup.map ?_ List.nodup_range
  intro a b h
  dsimp only at h
  omega

theorem mem_ringIds {r : ℕ} (h : j ∈ ringIds d i r) : j < d.hubs.length ∧ j ≠ i ∧
    ∃ dx ∈ offsets r, ∃ dy ∈ offsets r,
      cellOf (hubAt d j) = ((cellOf (hubAt d i)).1 + dx, (cellOf (hubAt d i)).2 + dy) := by
  obtain ⟨dx, hdx, h⟩ := List.mem_flatMap.mp h
  obtain ⟨dy, hdy, h⟩ := List.mem_flatMap.mp h
  obtain ⟨hcell, hne⟩ := List.mem_filter.mp h
  obtain ⟨hlt, hcell⟩ := List.mem_filter.mp hcell
  exact ⟨List.mem_range.mp hlt, of_decide_eq_true hne, dx, hdx, dy, hdy, of_decide_eq_true hcell⟩

/-- A hub is in one cell. -/
theorem nodup_ringIds (d : HubData K) (i r : ℕ) : (ringIds d i r).Nodup := by
  have hcell : ∀ c, (cellIds d c).Nodup := fun c ↦ List.nodup_range.filter _
  have hmem : ∀ {c id}, id ∈ (cellIds d c).filter (fun id ↦ id ≠ i) → cellOf (hubAt d id) = c :=
    fun h ↦ of_decide_eq_true (List.mem_filter.mp (List.mem_of_mem_filter h)).2
  rw [ringIds, List.nodup_flatMap]
  constructor
  · intro dx _
    rw [List.nodup_flatMap]
    constructor
    · exact fun dy _ ↦ (hcell _).filter _
    · apply (nodup_offsets r).imp
      intro dy dy' hne id h h'
      have heq := (hmem h).symm.trans (hmem h')
      exact hne (by simpa using heq)
  · apply (nodup_offsets r).imp
    intro dx dx' hne id h h'
    obtain ⟨dy, -, h⟩ := List.mem_flatMap.mp h
    obtain ⟨dy', -, h'⟩ := List.mem_flatMap.mp h'
    have heq := congrArg Prod.fst ((hmem h).symm.trans (hmem h'))
    exact hne (by simpa using heq)

/-- With few hubs the window becomes as wide as it can. -/
theorem candidates_of_few (h : d.hubs.length < LAND_K * 4) (i : ℕ) :
    candidates d i = ringIds d i 8 := by
  have hshort : ∀ r, (ringIds d i r).length < LAND_K * 4 := by
    intro r
    have hsub : ringIds d i r ⊆ List.range d.hubs.length :=
      fun _ hj ↦ List.mem_range.mpr (mem_ringIds hj).1
    have hle := ((nodup_ringIds d i r).subperm hsub).length_le
    rw [List.length_range] at hle
    exact hle.trans_lt h
  have hnone : ((List.range' 1 8).find? fun r ↦ LAND_K * 4 ≤ (ringIds d i r).length) = none := by
    rw [List.find?_eq_none]
    intro r _ hr
    exact absurd (of_decide_eq_true hr) (not_le.mpr (hshort r))
  rw [candidates, hnone, Option.getD_none]

theorem mem_sortedCandidates : j ∈ sortedCandidates E d i ↔ j ∈ candidates d i :=
  List.mem_mergeSort

theorem nodup_sortedCandidates (E : Earth K) (d : HubData K) (i : ℕ) :
    (sortedCandidates E d i).Nodup :=
  (List.mergeSort_perm _ _).nodup_iff.mpr (nodup_ringIds d i _)

theorem not_mem_sortedCandidates (E : Earth K) (d : HubData K) (i : ℕ) :
    i ∉ sortedCandidates E d i :=
  fun h ↦ (mem_ringIds (mem_sortedCandidates.mp h)).2.1 rfl

end Window

/-! ## All turns -/

section Turns

variable {E : Earth K} {d : HubData K} {i j : ℕ}

variable (E d) in
/-- The links after the turns of the first hubs. -/
def turns (n : ℕ) : List (Wire K Unit) :=
  (List.range n).foldl (fun ws i ↦ linkNearest E d i (sortedCandidates E d i) 0 ws) []

theorem turns_succ (n : ℕ) :
    turns E d (n + 1) = linkNearest E d n (sortedCandidates E d n) 0 (turns E d n) := by
  rw [turns, List.range_succ, List.foldl_append, List.foldl_cons, List.foldl_nil]
  rfl

theorem takes_iff : takes E d i j = true ↔ j ∈ sortedCandidates E d i ∧ eligible E d i j = true ∧
    ((ahead E d i j).filter fun c ↦ !(decide (c < i) && takes E d c i)).length < LAND_K := by
  have hguard : ∀ c, (if _h : c < i then !takes E d c i else true) =
      !(decide (c < i) && takes E d c i) := by
    intro c
    by_cases hc : c < i
    · rw [dif_pos hc, decide_eq_true hc, Bool.true_and]
    · rw [dif_neg hc, decide_eq_false hc, Bool.false_and, Bool.not_false]
  rw [takes]
  simp only [hguard, Bool.and_eq_true, decide_eq_true_eq, mem_sortedCandidates, and_assoc]

/-- After its turn a hub is linked to those that it has taken, and that have taken it
before. -/
theorem seen_turn_iff {n : ℕ} (hn : ∀ c, seen (turns E d n) n c = true ↔
    c < n ∧ takes E d c n = true) (j : ℕ) : seen (turns E d (n + 1)) n j = true ↔
      j < n ∧ takes E d j n = true ∨ takes E d n j = true := by
  have hneed : ((ahead E d n j).filter fun c ↦ !(decide (c < n) && takes E d c n)) =
      needing E d (turns E d n) (sortedCandidates E d n) n j := by
    rw [ahead, List.filter_filter]
    apply List.filter_congr
    intro c _
    have hseen : seen (turns E d n) n c = (decide (c < n) && takes E d c n) := by
      rw [Bool.eq_iff_iff, hn c, Bool.and_eq_true, decide_eq_true_eq]
    rw [hseen, Bool.and_comm]
  rw [turns_succ, seen_linkNearest_iff (nodup_sortedCandidates E d n)
    (not_mem_sortedCandidates E d n), hn j, takes_iff (i := n), hneed, Nat.zero_add]

/-- Two hubs are linked if one has taken the other in its turn. -/
theorem seen_turns_iff (n : ℕ) : seen (turns E d n) i j = true ↔
    i < n ∧ takes E d i j = true ∨ j < n ∧ takes E d j i = true := by
  induction n generalizing i j with
  | zero => simp [turns, seen]
  | succ n ih =>
      have hrow := seen_turn_iff (n := n) fun c ↦ by
        rw [ih]
        simp
      by_cases hi : i = n
      · subst hi
        rw [hrow]
        constructor
        · rintro (⟨hj, htakes⟩ | htakes)
          · exact Or.inr ⟨Nat.lt_succ_of_lt hj, htakes⟩
          · exact Or.inl ⟨Nat.lt_succ_self i, htakes⟩
        · rintro (⟨-, htakes⟩ | ⟨hj, htakes⟩)
          · exact Or.inr htakes
          · rcases Nat.lt_succ_iff_lt_or_eq.mp hj with hlt | rfl
            · exact Or.inl ⟨hlt, htakes⟩
            · exact Or.inr htakes
      · by_cases hj : j = n
        · subst hj
          rw [seen_comm, hrow]
          constructor
          · rintro (⟨hi, htakes⟩ | htakes)
            · exact Or.inl ⟨Nat.lt_succ_of_lt hi, htakes⟩
            · exact Or.inr ⟨Nat.lt_succ_self j, htakes⟩
          · rintro (⟨hlt, htakes⟩ | ⟨-, htakes⟩)
            · exact Or.inl ⟨by omega, htakes⟩
            · exact Or.inr htakes
        · rw [turns_succ, seen_linkNearest_of_ne (Ne.symm hi) (Ne.symm hj), ih]
          have hlt : ∀ k, k ≠ n → (k < n + 1 ↔ k < n) := by omega
          rw [hlt i hi, hlt j hj]

theorem nearestWires_eq_turns : nearestWires E d = turns E d d.hubs.length := rfl

omit [LinearOrder K] [FloorRing K] in
theorem seen_declaredWires_iff : seen (declaredWires E d) i j = true ↔ Declared d i j := by
  rw [seen_iff]
  constructor
  · rintro ⟨x, hx, hends⟩
    obtain ⟨p, hp, rfl⟩ := List.mem_map.mp hx
    obtain ⟨hp, hlt⟩ := List.mem_filter.mp hp
    have hlt := of_decide_eq_true hlt
    rcases hends with ⟨rfl, rfl⟩ | ⟨rfl, rfl⟩
    · exact ⟨Or.inl hp, hlt⟩
    · exact ⟨Or.inr hp, hlt.symm⟩
  · rintro ⟨hp | hp, hi, hj⟩
    · refine ⟨landWire E d i j, ?_, Or.inl ⟨rfl, rfl⟩⟩
      exact List.mem_map.mpr ⟨(i, j), List.mem_filter.mpr ⟨hp, decide_eq_true ⟨hi, hj⟩⟩, rfl⟩
    · refine ⟨landWire E d j i, ?_, Or.inr ⟨rfl, rfl⟩⟩
      exact List.mem_map.mpr ⟨(j, i), List.mem_filter.mpr ⟨hp, decide_eq_true ⟨hj, hi⟩⟩, rfl⟩

/-- Bridges are added to the links there are. -/
theorem seen_landWires_of_base (h : seen (baseWires E d) i j = true) :
    seen (landWires E d) i j = true := by
  apply buildLandGraph_rule (P := fun s ↦ seen s.wires i j = true)
  · exact fun main _ ↦ h
  · intro s piece a b _ _ hs
    change seen (s.wires ++ [landWire E d a b]) i j = true
    rw [seen_append, hs, Bool.true_or]

/-- Before pieces are bridged every hub is linked to its nearest ones if and only if of any
two of them one takes the other; so it is in the end, too, if they do. -/
theorem nearestLinked_iff (E : Earth K) (d : HubData K) :
    (NearestLinked E d (baseWires E d) ↔ NearestTaken E d) ∧
      (NearestTaken E d → NearestLinked E d (landWires E d)) := by
  have hbase : NearestLinked E d (baseWires E d) ↔ NearestTaken E d := by
    refine forall₂_congr fun i j ↦ forall_congr' fun h ↦ ?_
    rw [step_iff_seen, baseWires, seen_append, Bool.or_eq_true, nearestWires_eq_turns,
      seen_turns_iff, seen_declaredWires_iff, and_iff_right h.i_lt, and_iff_right h.j_lt, or_assoc]
  refine ⟨hbase, ?_⟩
  intro htaken i j h
  apply step_iff_seen.mpr
  apply seen_landWires_of_base
  exact step_iff_seen.mp (hbase.mpr htaken i j h)

end Turns

/-! ## Out of the window -/

section Belt

theorem neg_lt_jsMod (x : ℝ) : -360 < jsMod x 360 := by
  by_cases hx : 0 ≤ x
  · have hfloor := Int.floor_le (x / 360)
    rw [jsMod_of_nonneg hx]
    linarith
  · have hneg : ¬ 0 ≤ x / 360 := by
      rw [not_le] at hx ⊢
      exact div_neg_of_neg_of_pos hx (by norm_num)
    have hceil := Int.ceil_lt_add_one (x / 360)
    rw [jsMod, if_neg hneg]
    linarith

theorem wrapLon_mem (x : ℝ) : -180 ≤ wrapLon x ∧ wrapLon x < 180 := by
  have hpos : 0 ≤ jsMod (x + 180) 360 + 360 := by
    have hlt := neg_lt_jsMod (x + 180)
    linarith
  have hfloor := Int.floor_le ((jsMod (x + 180) 360 + 360) / 360)
  have hlt := Int.lt_floor_add_one ((jsMod (x + 180) 360 + 360) / 360)
  have heq : wrapLon x = jsMod (jsMod (x + 180) 360 + 360) 360 - 180 := by
    rw [wrapLon]
    norm_num
  rw [heq, jsMod_of_nonneg hpos]
  constructor
  · linarith
  · linarith

/-- Land all along the equator. -/
def beltLand : List Country :=
  [⟨"Africa", "Belt", [[(-(180 : ℕ), -(10 : ℕ)), ((180 : ℕ), -(10 : ℕ)), ((180 : ℕ), (10 : ℕ)),
    (-(180 : ℕ), (10 : ℕ)), (-(180 : ℕ), -(10 : ℕ))]]⟩]

noncomputable def beltPolys : List Poly := loadLandmass beltLand

theorem inZone_belt {p : LngLat ℝ} (hp : p.2 = 0) {pl : Poly} (hpl : pl ∈ beltPolys) :
    inZone (wrapLon p.1) p.2 pl.toZone = true := by
  obtain ⟨hlo, hhi⟩ := wrapLon_mem p.1
  obtain rfl := List.mem_singleton.mp hpl
  generalize wrapLon p.1 = x at hlo hhi ⊢
  rw [hp]
  have hwest : ¬ x < -180 := not_lt.mpr hlo
  have heast : ¬ 180 < x := not_lt.mpr hhi.le
  simp [inZone, makeZone, pip, crossesSide]
  rw [if_neg hwest]
  exact ⟨⟨hlo, hhi.le⟩, hhi⟩

/-- Three hubs on the belt, the last two in one window, and the first two. -/
def beltHubs : HubData ℝ :=
  loadHubs [((20 : ℕ), 0)] [(0, 0), (1, 0), ((9 : ℕ), 0)] noTopology

theorem hubAt_belt (i : ℕ) : (hubAt beltHubs i).2 = 0 := by
  match i with
  | 0 => rfl
  | 1 => rfl
  | 2 => rfl
  | _ + 3 => rfl

theorem eligible_belt (i j : ℕ) : eligible (earth beltPolys) beltHubs i j = true := by
  obtain ⟨pl, hone⟩ : ∃ pl, beltPolys = [pl] := ⟨_, rfl⟩
  have hpl : pl ∈ beltPolys := hone ▸ List.mem_singleton_self pl
  have hland : ∀ p : LngLat ℝ, p.2 = 0 → onLand beltPolys p = true :=
    fun p hp ↦ List.any_eq_true.mpr ⟨pl, hpl, inZone_belt hp hpl⟩
  have hgroup : ∀ k, (earth beltPolys).continentGroup (hubAt beltHubs k) = some pl.group := by
    intro k
    change continentGroup beltPolys (hubAt beltHubs k) = some pl.group
    have hin := inZone_belt (hubAt_belt k) hpl
    rw [continentGroup, hone, List.find?_cons, hin]
    rfl
  have hzones : zones (earth beltPolys) beltHubs = [] := by
    simp [zones, beltHubs, loadHubs, noTopology, countryRings]
  have hcorridor : inCorridor beltHubs i = false := rfl
  have hfraction := landFraction_of_onLand (hubAt_belt i) (hubAt_belt j) hland
  have hover : ¬ (1 : ℝ) < overland := by norm_num [overland]
  simp [eligible, hgroup, hzones, hcorridor, hfraction, hover]

/-- The cells of the hubs. -/
theorem cellOf_belt (i : ℕ) : cellOf (hubAt beltHubs i) = ([0, 1, 9].getD i 0, 0) := by
  match i with
  | 0 => simp [cellOf, hubAt, beltHubs, loadHubs]
  | 1 => simp [cellOf, hubAt, beltHubs, loadHubs]
  | 2 => simp [cellOf, hubAt, beltHubs, loadHubs]
  | _ + 3 => simp [cellOf, hubAt, beltHubs, loadHubs, noTopology]

theorem length_belt : beltHubs.hubs.length = 3 := rfl

theorem candidates_belt : candidates beltHubs 0 = [1] ∧ candidates beltHubs 1 = [0, 2] ∧
    candidates beltHubs 2 = [1] := by
  have hfew : beltHubs.hubs.length < LAND_K * 4 := by decide
  simp only [candidates_of_few hfew, ringIds, cellIds, cellOf_belt, length_belt]
  decide +kernel

theorem hubKm_belt :
    hubKm (earth beltPolys) beltHubs 1 0 ≤ hubKm (earth beltPolys) beltHubs 1 2 := by
  have hwest : hubKm (earth beltPolys) beltHubs 1 0 = 6371 * (1 * D2R) := by
    change haversineKm (1, 0) (0, 0) = _
    rw [haversineKm_equator (by norm_num)]
    norm_num
  have heast : hubKm (earth beltPolys) beltHubs 1 2 = 6371 * (8 * D2R) := by
    change haversineKm (1, 0) ((9 : ℕ), 0) = _
    rw [haversineKm_equator (by norm_num)]
    norm_num
  have hpos := D2R_pos
  rw [hwest, heast]
  linarith

theorem nearestWires_belt : nearestWires (earth beltPolys) beltHubs =
    [landWire (earth beltPolys) beltHubs 0 1, landWire (earth beltPolys) beltHubs 1 2] := by
  obtain ⟨h0, h1, h2⟩ := candidates_belt
  have hsorted : sortedCandidates (earth beltPolys) beltHubs 1 = [0, 2] := by
    rw [sortedCandidates, h1]
    apply List.mergeSort_of_pairwise
    simp [byDistance, hubKm_belt]
  have hfirst : sortedCandidates (earth beltPolys) beltHubs 0 = [1] := by
    rw [sortedCandidates, h0, List.mergeSort_singleton]
  have hlast : sortedCandidates (earth beltPolys) beltHubs 2 = [1] := by
    rw [sortedCandidates, h2, List.mergeSort_singleton]
  rw [nearestWires_eq_turns, length_belt, turns_succ, turns_succ, turns_succ, hfirst, hsorted,
    hlast]
  simp [turns, linkNearest, eligible_belt, seen, landWire]

theorem landWires_belt : landWires (earth beltPolys) beltHubs =
    nearestWires (earth beltPolys) beltHubs := by
  have hbase : baseWires (earth beltPolys) beltHubs =
      nearestWires (earth beltPolys) beltHubs := List.append_nil _
  have hclasses : (UnionFind.classes 3 (unionRows beltHubs
      (nearestWires (earth beltPolys) beltHubs))).1 = [[0, 1, 2]] := by
    rw [nearestWires_belt]
    rfl
  rw [landWires, buildLandGraph, hbase, length_belt]
  dsimp only
  rw [hclasses, List.mergeSort_singleton]
  rfl

/-- The first hub and the last are out of each other's windows. -/
theorem belt_not_linked : ¬ NearestLinked (earth beltPolys) beltHubs
    (landWires (earth beltPolys) beltHubs) := by
  intro h
  have hnearest : AmongNearest (earth beltPolys) beltHubs 0 2 := by
    refine ⟨by decide, by decide, by decide, eligible_belt 0 2, ?_⟩
    have hle := List.length_filter_le (fun c ↦ decide (c ≠ 0 ∧
      eligible (earth beltPolys) beltHubs 0 c = true ∧ hubKm (earth beltPolys) beltHubs 0 c <
        hubKm (earth beltPolys) beltHubs 0 2)) (List.range beltHubs.hubs.length)
    exact hle.trans_lt (by decide)
  have hseen := step_iff_seen.mp (h 0 2 hnearest)
  rw [landWires_belt, nearestWires_belt] at hseen
  simp [seen, landWire] at hseen

end Belt

end TrafficMap.Web
