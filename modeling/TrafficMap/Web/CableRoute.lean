import TrafficMap.Web.Polyline
import TrafficMap.Lib.Search

/-!
# Routes over cables alone

`cableRoute` of `cables.ts`: a search from every landing that the start reaches,
to the landing from which the whole trip is shortest.
-/

namespace TrafficMap.Web

noncomputable section

abbrev ENDPOINT_SNAP_KM : ℕ := 800

section Route

variable (g : CableGraph ℝ)

def nearestNode (p : LngLat ℝ) : Option ℕ :=
  (List.range g.nodeCoord.length).argmin fun i ↦ haversineKm (nodeAt g.nodeCoord i) p

/-- The landings that an endpoint may use. -/
def inReach (p : LngLat ℝ) : List ℕ :=
  (List.range g.nodeCoord.length).filter fun i ↦
    haversineKm (nodeAt g.nodeCoord i) p ≤ (ENDPOINT_SNAP_KM : ℝ)

def seeds (a : LngLat ℝ) : List ℕ :=
  match inReach g a with
  | [] => (nearestNode g a).toList
  | ids => ids

/-! ## The search -/

structure Sweep where
  dist : ℕ → WithTop ℝ
  prev : ℕ → Option (ℕ × Branch)
  visited : ℕ → Bool

def startSweep (a : LngLat ℝ) : Sweep where
  dist i := if i ∈ seeds g a then (haversineKm (nodeAt g.nodeCoord i) a : WithTop ℝ) else ⊤
  prev _ := none
  visited _ := false

/-- The closest node that is not visited yet. -/
def nextNode (s : Sweep) : Option ℕ :=
  ((List.range g.nodeCoord.length).filter fun i ↦ !s.visited i && s.dist i ≠ ⊤).argmin s.dist

def relaxNode (u : ℕ) (s : Sweep) (e : Link ℝ Branch) : Sweep :=
  if s.visited e.dest then s
  else if s.dist u + (e.w : WithTop ℝ) < s.dist e.dest then
    { s with
      dist := Function.update s.dist e.dest (s.dist u + (e.w : WithTop ℝ))
      prev := Function.update s.prev e.dest (some (u, e.tag)) }
  else s

/-- Each round visits a node. -/
def sweep : ℕ → Sweep → Sweep
  | 0, s => s
  | n + 1, s =>
      match nextNode g s with
      | none => s
      | some u => sweep n ((Links.rows g.wires u).foldl (relaxNode u)
          { s with visited := Function.update s.visited u true })

/-- The landing with the shortest way to `b`, or else the nearest one. -/
def bestEnd (s : Sweep) (b : LngLat ℝ) : Option ℕ :=
  match ((inReach g b).filter fun i ↦ s.dist i ≠ ⊤).argmin fun i ↦
      s.dist i + (haversineKm (nodeAt g.nodeCoord i) b : WithTop ℝ) with
  | some i => some i
  | none => (nearestNode g b).filter fun i ↦ s.dist i ≠ ⊤

/-! ## The line -/

def hopSegment (hop : ℕ × Branch × ℕ) : List (LngLat ℝ) :=
  match hop.2.1.branchIdx with
  | some bi =>
      let seg := g.branches.getD bi []
      if hop.2.1.reversed then seg.reverse else seg
  | none => densifyGreatCircle (nodeAt g.nodeCoord hop.1) (nodeAt g.nodeCoord hop.2.2)

/-- A segment without the point that is there already. -/
def joinSegment (out seg : List (LngLat ℝ)) : List (LngLat ℝ) :=
  if out.isEmpty then seg else out ++ seg.drop 1

def cableRoute (a b : LngLat ℝ) : Option (List (LngLat ℝ)) :=
  if g.nodeCoord.isEmpty then none
  else
    let s := sweep g g.nodeCoord.length (startSweep g a)
    (bestEnd g s b).map fun cur ↦
      match Search.trail s.prev g.nodeCoord.length cur with
      | [] => [nodeAt g.nodeCoord cur]
      | hops => (hops.map (hopSegment g)).foldl joinSegment []

end Route

/-! ## Its parts -/

section Parts

variable {g : CableGraph ℝ}

/-- A predecessor is noted together with an entry of its row. -/
def EntryPrev (g : CableGraph ℝ) (s : Sweep) : Prop :=
  ∀ v u tag, s.prev v = some (u, tag) → ∃ e ∈ Links.rows g.wires u, e.dest = v ∧ e.tag = tag

theorem EntryPrev.relaxNode {u : ℕ} {s : Sweep} (h : EntryPrev g s) {e : Link ℝ Branch}
    (he : e ∈ Links.rows g.wires u) : EntryPrev g (relaxNode u s e) := by
  rw [Web.relaxNode]
  split
  · exact h
  · split
    · intro v u' tag hprev
      rcases Search.prev_cases hprev with ⟨rfl, rfl, rfl⟩ | ⟨-, hold⟩
      · exact ⟨e, he, rfl, rfl⟩
      · exact h v u' tag hold
    · exact h

theorem EntryPrev.row {u : ℕ} {es : List (Link ℝ Branch)} (hes : es ⊆ Links.rows g.wires u)
    {s : Sweep} (h : EntryPrev g s) : EntryPrev g (es.foldl (Web.relaxNode u) s) := by
  induction es generalizing s with
  | nil => exact h
  | cons e es ih =>
      obtain ⟨he, hes⟩ := List.cons_subset.mp hes
      exact ih hes (h.relaxNode he)

theorem EntryPrev.sweep {s : Sweep} (h : EntryPrev g s) (n : ℕ) :
    EntryPrev g (Web.sweep g n s) := by
  induction n generalizing s with
  | zero => exact h
  | succ n ih =>
      rw [Web.sweep]
      split
      · exact h
      · rename_i u _
        have hvisit : EntryPrev g { s with visited := Function.update s.visited u true } := h
        exact ih (hvisit.row (List.Subset.refl _))

theorem lt_of_inReach {p : LngLat ℝ} {i : ℕ} (h : i ∈ inReach g p) : i < g.nodeCoord.length :=
  List.mem_range.mp (List.mem_of_mem_filter h)

theorem lt_of_bestEnd {s : Sweep} {b : LngLat ℝ} {i : ℕ} (h : bestEnd g s b = some i) :
    i < g.nodeCoord.length := by
  rw [bestEnd] at h
  split at h
  · rename_i j hj
    obtain rfl := Option.some.inj h
    exact lt_of_inReach (List.mem_of_mem_filter (List.argmin_mem hj))
  · exact List.mem_range.mp (List.argmin_mem (Option.filter_eq_some_iff.mp h).1)

/-! ## Enough rounds -/

/-- Each of `n` rounds visits a node, and predecessors have been visited before. -/
structure Visits (g : CableGraph ℝ) (n : ℕ) (s : Sweep) : Prop where
  card : ((Finset.range g.nodeCoord.length).filter (s.visited ·)).card = n
  ranked : ∃ rank : ℕ → ℕ, (∀ u, s.visited u = true → rank u < n) ∧
    ∀ v u tag, s.prev v = some (u, tag) →
      s.visited u = true ∧ (s.visited v = true → rank u < rank v)

theorem visits_startSweep (a : LngLat ℝ) : Visits g 0 (startSweep g a) where
  card := by simp [startSweep]
  ranked := by
    refine ⟨fun _ ↦ 0, fun u hu ↦ absurd hu Bool.false_ne_true, ?_⟩
    intro v u tag hprev
    cases hprev

theorem Visits.relaxNode {n u : ℕ} {s : Sweep} (h : Visits g n s) (hu : s.visited u = true)
    (e : Link ℝ Branch) : Visits g n (relaxNode u s e) ∧ (relaxNode u s e).visited = s.visited := by
  rw [Web.relaxNode]
  split
  · exact ⟨h, rfl⟩
  · rename_i hdest
    split
    · refine ⟨⟨h.card, ?_⟩, rfl⟩
      obtain ⟨rank, hlt, hmono⟩ := h.ranked
      refine ⟨rank, hlt, ?_⟩
      intro v w tag hprev
      rcases Search.prev_cases hprev with ⟨rfl, rfl, -⟩ | ⟨-, hold⟩
      · exact ⟨hu, fun hvisited ↦ absurd hvisited hdest⟩
      · exact hmono v w tag hold
    · exact ⟨h, rfl⟩

theorem Visits.row {n u : ℕ} (es : List (Link ℝ Branch)) {s : Sweep} (h : Visits g n s)
    (hu : s.visited u = true) : Visits g n (es.foldl (Web.relaxNode u) s) := by
  induction es generalizing s with
  | nil => exact h
  | cons e es ih =>
      obtain ⟨hnext, hvisited⟩ := h.relaxNode hu e
      exact ih hnext (hvisited ▸ hu)

theorem Visits.visit {n u : ℕ} {s : Sweep} (h : Visits g n s) (hlt : u < g.nodeCoord.length)
    (hu : s.visited u = false) :
    Visits g (n + 1) { s with visited := Function.update s.visited u true } where
  card := by
    have hset : (Finset.range g.nodeCoord.length).filter (Function.update s.visited u true ·) =
        insert u ((Finset.range g.nodeCoord.length).filter (s.visited ·)) := by
      ext v
      by_cases hvu : v = u
      · simp [hvu, hlt]
      · simp [hvu]
    dsimp only
    rw [hset, Finset.card_insert_of_notMem (by simp [hu]), h.card]
  ranked := by
    obtain ⟨rank, hrank, hmono⟩ := h.ranked
    have hother : ∀ v, s.visited v = true → v ≠ u := by
      rintro v hv rfl
      exact Bool.false_ne_true (hu.symm.trans hv)
    refine ⟨Function.update rank u n, ?_, ?_⟩
    · intro v hv
      dsimp only at hv
      by_cases hvu : v = u
      · rw [hvu, Function.update_self]
        exact n.lt_succ_self
      · rw [Function.update_of_ne hvu] at hv ⊢
        exact (hrank v hv).trans n.lt_succ_self
    · intro v w tag hprev
      obtain ⟨hw, hlt⟩ := hmono v w tag hprev
      dsimp only
      rw [Function.update_of_ne (hother w hw), Function.update_of_ne (hother w hw)]
      refine ⟨hw, ?_⟩
      intro hv
      by_cases hvu : v = u
      · rw [hvu, Function.update_self]
        exact hrank w hw
      · rw [Function.update_of_ne hvu] at hv ⊢
        exact hlt hv

theorem nextNode_spec {s : Sweep} {u : ℕ} (h : nextNode g s = some u) :
    u < g.nodeCoord.length ∧ s.visited u = false := by
  obtain ⟨hrange, hopen⟩ := List.mem_filter.mp (List.argmin_mem h)
  simp only [Bool.and_eq_true, Bool.not_eq_true'] at hopen
  exact ⟨List.mem_range.mp hrange, hopen.1⟩

/-- After `n` rounds there is no next node, or `n` more are visited. -/
theorem Visits.sweep {k : ℕ} {s : Sweep} (h : Visits g k s) (n : ℕ) :
    ∃ m, Visits g m (Web.sweep g n s) ∧ (nextNode g (Web.sweep g n s) = none ∨ m = k + n) := by
  induction n generalizing k s with
  | zero => exact ⟨k, h, Or.inr rfl⟩
  | succ n ih =>
      rw [Web.sweep]
      split
      · rename_i hnone
        exact ⟨k, h, Or.inl hnone⟩
      · rename_i u hu
        obtain ⟨hlt, hopen⟩ := nextNode_spec hu
        obtain ⟨m, hm, hend⟩ :=
          ih ((h.visit hlt hopen).row (Links.rows g.wires u) (Function.update_self ..))
        refine ⟨m, hm, hend.imp_right ?_⟩
        rintro rfl
        omega

theorem Visits.trail_eq {k : ℕ} {s : Sweep} (h : Visits g k s) (hk : k ≤ g.nodeCoord.length)
    (v j : ℕ) : Search.trail s.prev (g.nodeCoord.length + j) v =
      Search.trail s.prev g.nodeCoord.length v := by
  obtain ⟨rank, hlt, hmono⟩ := h.ranked
  have hdown : ∀ n v u tag, s.prev v = some (u, tag) → (s.visited v = true → rank v ≤ n) →
      (s.visited v = false → k ≤ n) → s.visited u = true ∧ rank u < n := by
    intro n v u tag hprev hv hopen
    obtain ⟨hu, hrank⟩ := hmono v u tag hprev
    refine ⟨hu, ?_⟩
    cases hvisited : s.visited v with
    | true => exact (hrank hvisited).trans_le (hv hvisited)
    | false => exact (hlt u hu).trans_le (hopen hvisited)
  have hback : ∀ n v, (s.visited v = true → rank v ≤ n) → (s.visited v = false → k ≤ n) →
      Search.trail s.prev (n + j) v = Search.trail s.prev n v := by
    intro n
    induction n with
    | zero =>
        intro v hv hopen
        have hnone : s.prev v = none := by
          cases hprev : s.prev v with
          | none => rfl
          | some hop => exact absurd (hdown 0 v hop.1 hop.2 hprev hv hopen).2 (Nat.not_lt_zero _)
        cases j with
        | zero => rfl
        | succ j => rw [Nat.zero_add, Search.trail, Search.trail, hnone]
    | succ n ih =>
        intro v hv hopen
        rw [Nat.succ_add, Search.trail, Search.trail]
        cases hprev : s.prev v with
        | none => rfl
        | some hop =>
            obtain ⟨hu, hrank⟩ := hdown (n + 1) v hop.1 hop.2 hprev hv hopen
            dsimp only
            rw [ih hop.1 (fun _ ↦ Nat.le_of_lt_succ hrank)]
            exact fun hopen ↦ absurd (hopen.symm.trans hu) Bool.false_ne_true
  apply hback
  · exact fun hv ↦ (hlt v hv).le.trans hk
  · exact fun _ ↦ hk

/-- As many rounds, and as many steps back, as there are nodes are enough. -/
theorem enough_rounds (a : LngLat ℝ) :
    nextNode g (sweep g g.nodeCoord.length (startSweep g a)) = none ∧
      ∀ v j, Search.trail (sweep g g.nodeCoord.length (startSweep g a)).prev
        (g.nodeCoord.length + j) v =
          Search.trail (sweep g g.nodeCoord.length (startSweep g a)).prev g.nodeCoord.length v := by
  obtain ⟨m, hm, hend⟩ := (visits_startSweep (g := g) a).sweep g.nodeCoord.length
  have hle : m ≤ g.nodeCoord.length := by
    rw [← hm.card]
    exact (Finset.card_filter_le _ _).trans_eq (Finset.card_range _)
  refine ⟨?_, hm.trail_eq hle⟩
  rcases hend with hnone | hall
  · exact hnone
  · rw [Nat.zero_add] at hall
    generalize sweep g g.nodeCoord.length (startSweep g a) = s at hm ⊢
    cases hnext : nextNode g s with
    | none => rfl
    | some u =>
        obtain ⟨hlt, hopen⟩ := nextNode_spec hnext
        have hfull : (Finset.range g.nodeCoord.length).filter (s.visited ·) =
            Finset.range g.nodeCoord.length := by
          apply Finset.eq_of_subset_of_card_le (Finset.filter_subset _ _)
          rw [hm.card, hall, Finset.card_range]
        have hmem : u ∈ (Finset.range g.nodeCoord.length).filter (s.visited ·) := by
          rw [hfull]
          exact Finset.mem_range.mpr hlt
        have hvisited := (Finset.mem_filter.mp hmem).2
        exact absurd (hopen.symm.trans hvisited) Bool.false_ne_true

end Parts

end

end TrafficMap.Web
