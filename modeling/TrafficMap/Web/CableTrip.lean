import TrafficMap.Lib.Labels
import TrafficMap.Web.Branches
import TrafficMap.Web.CableRoute
import TrafficMap.Web.Connected

/-!
# The whole trip

`cableRoute` draws a way over the cables for which the way to its first landing, the
cables and the way from its last landing are the shortest together, unless no landing in
reach of the one point is connected to one in reach of the other.
-/

namespace TrafficMap.Web

open Links Search

noncomputable section

section Specs

variable (E : Earth ℝ) (g : CableGraph ℝ) (a b : LngLat ℝ)

/-- The way to a landing, or from it. -/
def access (i : ℕ) (p : LngLat ℝ) : ℝ := haversineKm (nodeAt g.nodeCoord i) p

/-- A way over the cables between landings in reach, of the length `w` from `a` to `b`. -/
def Trip (s e : ℕ) (w : ℝ) (hops : List (ℕ × Branch × ℕ)) : Prop :=
  s ∈ inReach g a ∧ e ∈ inReach g b ∧
    ∃ d, Way (rows g.wires) s e d hops ∧ w = access g s a + d + access g e b

/-- The line of an entry, in the direction of travel. -/
def Draws (hop : ℕ × Branch × ℕ) (piece : List (LngLat ℝ)) : Prop :=
  match hop.2.1.branchIdx with
  | none => piece = densifyGreatCircle (nodeAt g.nodeCoord hop.1) (nodeAt g.nodeCoord hop.2.2)
  | some bi => ∃ seg, g.branches[bi]? = some seg ∧
      piece = (if hop.2.1.reversed then seg.reverse else seg) ∧
      Spans E g.nodeCoord hop.1 hop.2.2 piece

/-- The lines of the entries, each but the first without its first point. -/
def TripLine (s : ℕ) (hops : List (ℕ × Branch × ℕ)) (line : List (LngLat ℝ)) : Prop :=
  hops = [] ∧ line = [nodeAt g.nodeCoord s] ∨
    ∃ first rest, List.Forall₂ (Draws E g) hops (first :: rest) ∧
      line = first ++ rest.flatMap (List.drop 1)

/-- The search, as far as it goes. -/
def swept : Sweep := sweep g g.nodeCoord.length (startSweep g a)

/-- The search has ended, and so has the walk back, at a seed with its own cost. -/
structure WalksBack (s e : ℕ) (hops : List (ℕ × Branch × ℕ)) : Prop where
  rounds : nextNode g (swept g a) = none
  steps : ∀ n ≥ g.nodeCoord.length, trail (swept g a).prev n e = hops
  root : (swept g a).prev s = none
  own : (swept g a).dist s = (access g s a : WithTop ℝ)

/-- The line of a trip of which there is no shorter one. -/
def CheapestLine (line : List (LngLat ℝ)) : Prop :=
  ∃ s e w hops, Trip g a b s e w hops ∧
    (∀ s' e' w' hops', Trip g a b s' e' w' hops' → w ≤ w') ∧
    TripLine E g s hops line ∧ WalksBack g a s e hops

structure WholeTrip : Prop where
  none_iff : cableRoute g a b = none ↔
    ∀ s ∈ inReach g a, ∀ e ∈ inReach g b, ¬ Reach (rows g.wires) s e
  line : ∀ line, cableRoute g a b = some line → CheapestLine E g a b line

end Specs

/-! ## The search -/

section Search

variable {E : Earth ℝ} {g : CableGraph ℝ} {a : LngLat ℝ} {u v : ℕ} {s t : Sweep}

variable (g a) in
/-- The labels are the costs from the seeds. -/
def SweepOk (s : Sweep) : Prop :=
  Labels.Ok (rows g.wires) (startSweep g a).dist s.dist s.prev s.visited

/-- `t` has the labels of `s`, lowered along the entries of `u`. -/
structure Relaxes (u : ℕ) (es : List (Link ℝ Branch)) (s t : Sweep) : Prop where
  visited : t.visited = s.visited
  lowers : Labels.Lowers s.visited s.dist t.dist
  row : ∀ e ∈ es, t.dist e.dest ≤ s.dist u + (e.w : WithTop ℝ)

theorem SweepOk.relaxNode (hs : SweepOk g a s) (ht : Labels.Turn s.dist s.visited u)
    {e : Link ℝ Branch} (he : e ∈ rows g.wires u) (hw : 0 ≤ e.w) :
    SweepOk g a (relaxNode u s e) ∧ Relaxes u [e] s (relaxNode u s e) := by
  have hkept : s.dist e.dest ≤ s.dist u + (e.w : WithTop ℝ) → Relaxes u [e] s s := by
    intro hle
    refine ⟨rfl, Labels.Lowers.refl _ _, ?_⟩
    intro e' he'
    rwa [List.mem_singleton.mp he']
  rw [Web.relaxNode]
  cases hopen : s.visited e.dest with
  | true =>
      rw [if_pos rfl]
      exact ⟨hs, hkept (ht.le_of_done hw hopen)⟩
  | false =>
      rw [if_neg Bool.false_ne_true]
      by_cases hlt : s.dist u + (e.w : WithTop ℝ) < s.dist e.dest
      · rw [if_pos hlt]
        refine ⟨Labels.Ok.lower hs ht hw he hopen hlt, rfl, Labels.lowers_update hopen hlt, ?_⟩
        intro e' he'
        rw [List.mem_singleton.mp he']
        exact (Function.update_self ..).le
      · rw [if_neg hlt]
        exact ⟨hs, hkept (not_lt.mp hlt)⟩

variable (hw : ∀ u, ∀ e ∈ rows g.wires u, 0 ≤ e.w)
include hw

theorem SweepOk.row {es : List (Link ℝ Branch)} (hes : es ⊆ rows g.wires u) (hs : SweepOk g a s)
    (ht : Labels.Turn s.dist s.visited u) :
    SweepOk g a (es.foldl (Web.relaxNode u) s) ∧
      Relaxes u es s (es.foldl (Web.relaxNode u) s) := by
  induction es generalizing s with
  | nil => exact ⟨hs, rfl, Labels.Lowers.refl _ _, fun e he ↦ absurd he List.not_mem_nil⟩
  | cons e es ih =>
      obtain ⟨he, hes⟩ := List.cons_subset.mp hes
      obtain ⟨hone, hvisited, hlow, hfirst⟩ := hs.relaxNode ht he (hw u e he)
      have hturn := ht.lowers hlow
      rw [← hvisited] at hlow hturn
      obtain ⟨hall, hvisited', hlow', hrest⟩ := ih hes hone hturn
      refine ⟨hall, hvisited'.trans hvisited, hvisited ▸ hlow.trans hlow', ?_⟩
      intro e' he'
      rcases List.mem_cons.mp he' with rfl | he'
      · exact (hlow'.le e'.dest).trans (hfirst e' (List.mem_singleton_self e'))
      · rw [← hlow.settled u hturn.settled]
        exact hrest e' he'

omit hw in
/-- A label is set for a node only. -/
theorem SweepOk.lt (hs : SweepOk g a s) (hg : EdgesOk E g) (hv : s.dist v ≠ ⊤) :
    v < g.nodeCoord.length := by
  cases hprev : s.prev v with
  | none =>
      rw [hs.root v hprev] at hv
      have hseed : v ∈ seeds g a := by
        by_contra hnot
        exact hv (if_neg hnot)
      rw [seeds] at hseed
      split at hseed
      · rw [Option.mem_toList] at hseed
        exact List.mem_range.mp (List.argmin_mem hseed)
      · exact lt_of_inReach hseed
  | some p =>
      obtain ⟨-, e, he, rfl, -⟩ := hs.prev v p.1 p.2 hprev
      exact (bound_of_mem_rows hg.bound he).2

omit hw in
theorem le_of_nextNode (hs : SweepOk g a s) (hg : EdgesOk E g) (hu : nextNode g s = some u)
    (hv : s.visited v = false) : s.dist u ≤ s.dist v := by
  by_cases htop : s.dist v = ⊤
  · rw [htop]
    exact le_top
  · apply not_lt.mp
    apply List.not_lt_of_mem_argmin ?_ hu
    apply List.mem_filter.mpr
    refine ⟨List.mem_range.mpr (hs.lt hg htop), ?_⟩
    simp [hv, htop]

theorem SweepOk.sweep (hg : EdgesOk E g) (hs : SweepOk g a s)
    (hrel : Labels.Relaxed (rows g.wires) s.dist s.visited) (n : ℕ) :
    SweepOk g a (Web.sweep g n s) ∧
      Labels.Relaxed (rows g.wires) (Web.sweep g n s).dist (Web.sweep g n s).visited := by
  induction n generalizing s with
  | zero => exact ⟨hs, hrel⟩
  | succ n ih =>
      rw [Web.sweep]
      split
      · exact ⟨hs, hrel⟩
      · rename_i u hu
        have hopen := (nextNode_spec hu).2
        have hmin : ∀ v, s.visited v = false → s.dist u ≤ s.dist v :=
          fun v hv ↦ le_of_nextNode hs hg hu hv
        have hvisit : SweepOk g a { s with visited := Function.update s.visited u true } :=
          Labels.Ok.settle hs hopen hmin
        have hturn := Labels.Ok.turn hs hopen
        obtain ⟨hnext, hvisited, hlow, hrow⟩ := hvisit.row hw (List.Subset.refl _) hturn
        apply ih hnext
        rw [hvisited]
        exact hrel.settle hlow hrow

end Search

/-! ## Its ends -/

section Ends

variable {E : Earth ℝ} {g : CableGraph ℝ} {a b : LngLat ℝ} {s : Sweep} {e i v : ℕ}

theorem mem_inReach : i ∈ inReach g a ↔
    i < g.nodeCoord.length ∧ access g i a ≤ (ENDPOINT_SNAP_KM : ℝ) := by
  rw [inReach, List.mem_filter, List.mem_range, decide_eq_true_eq]
  rfl

theorem start_eq (ha : inReach g a ≠ []) (i : ℕ) : (startSweep g a).dist i =
    if i ∈ inReach g a then (access g i a : WithTop ℝ) else ⊤ := by
  have hseeds : seeds g a = inReach g a := by
    rw [seeds]
    split
    · rename_i hnil
      exact absurd hnil ha
    · rfl
  rw [startSweep, hseeds]
  rfl

/-- The nearest node is in reach if any node is. -/
theorem bestEnd_eq (hb : inReach g b ≠ []) (s : Sweep) : bestEnd g s b =
    ((inReach g b).filter fun i ↦ s.dist i ≠ ⊤).argmin fun i ↦
      s.dist i + (access g i b : WithTop ℝ) := by
  rw [bestEnd]
  split
  · rename_i i hi
    exact hi.symm
  · rename_i hargmin
    have hnone : ((inReach g b).filter fun i ↦ s.dist i ≠ ⊤).argmin (fun i ↦
        s.dist i + (access g i b : WithTop ℝ)) = none := hargmin
    rw [hnone, Option.filter_eq_none_iff]
    intro i hi
    rw [List.argmin_eq_none, List.filter_eq_nil_iff] at hnone
    apply hnone
    obtain ⟨j, hj⟩ := List.exists_mem_of_ne_nil _ hb
    obtain ⟨hlt, hnear⟩ := mem_inReach.mp hj
    apply mem_inReach.mpr
    refine ⟨List.mem_range.mp (List.argmin_mem hi), ?_⟩
    exact (not_lt.mp (List.not_lt_of_mem_argmin (List.mem_range.mpr hlt) hi)).trans hnear

theorem bestEnd_eq_none_iff (hb : inReach g b ≠ []) :
    bestEnd g s b = none ↔ ∀ e ∈ inReach g b, s.dist e = ⊤ := by
  rw [bestEnd_eq hb, List.argmin_eq_none, List.filter_eq_nil_iff]
  simp only [ne_eq, decide_not, Bool.not_eq_true', decide_eq_false_iff_not, not_not]

theorem bestEnd_spec (hb : inReach g b ≠ []) (he : bestEnd g s b = some e) :
    e ∈ inReach g b ∧ s.dist e ≠ ⊤ ∧ ∀ e' ∈ inReach g b,
      s.dist e + (access g e b : WithTop ℝ) ≤ s.dist e' + (access g e' b : WithTop ℝ) := by
  rw [bestEnd_eq hb] at he
  obtain ⟨hreach, hfinite⟩ := List.mem_filter.mp (List.argmin_mem he)
  refine ⟨hreach, of_decide_eq_true hfinite, ?_⟩
  intro e' he'
  by_cases htop : s.dist e' = ⊤
  · rw [htop, WithTop.top_add]
    exact le_top
  · apply not_lt.mp
    exact List.not_lt_of_mem_argmin (List.mem_filter.mpr ⟨he', decide_eq_true htop⟩) he

section Swept

variable (hg : EdgesOk E g) (ha : inReach g a ≠ [])
include hg

theorem swept_spec : SweepOk g a (swept g a) ∧
    Labels.Relaxed (rows g.wires) (swept g a).dist (swept g a).visited ∧
    ∀ v, (swept g a).dist v ≠ ⊤ → (swept g a).visited v = true := by
  have hw : ∀ u, ∀ e ∈ rows g.wires u, 0 ≤ e.w :=
    fun u e he ↦ weight_of_mem_rows (fun x hx ↦ (hg x hx).pos.le) he
  obtain ⟨hs, hrel⟩ := SweepOk.sweep hw hg (Labels.ok_start _ (startSweep g a).dist)
    (Labels.relaxed_start _ _) g.nodeCoord.length
  refine ⟨hs, hrel, ?_⟩
  intro v hv
  have hend := (enough_rounds (g := g) a).1
  rw [nextNode, List.argmin_eq_none, List.filter_eq_nil_iff] at hend
  have hdone := hend v (List.mem_range.mpr (hs.lt hg hv))
  simp only [Bool.and_eq_true, Bool.not_eq_true', decide_eq_true_eq, not_and] at hdone
  by_contra hopen
  exact hdone (Bool.eq_false_of_not_eq_true hopen) hv

include ha

theorem swept_trail (hv : (swept g a).dist v ≠ ⊤) : ∃ s ∈ inReach g a, ∃ d,
    Way (rows g.wires) s v d (trail (swept g a).prev g.nodeCoord.length v) ∧
      (swept g a).prev s = none ∧ (swept g a).dist s = (access g s a : WithTop ℝ) ∧
      (swept g a).dist v = (access g s a : WithTop ℝ) + (d : WithTop ℝ) := by
  obtain ⟨hs, -, -⟩ := swept_spec (a := a) hg
  obtain ⟨s, d, hway, hroot, hown, hdist⟩ := hs.way_trail ((enough_rounds (g := g) a).2 v 1)
  have hseed : s ∈ inReach g a := by
    by_contra hnot
    rw [hdist, start_eq ha, if_neg hnot, WithTop.top_add] at hv
    exact hv rfl
  rw [start_eq ha, if_pos hseed] at hown hdist
  exact ⟨s, hseed, d, hway, hroot, hown, hdist⟩

theorem dist_le_of_way {s : ℕ} {d : ℝ} {hops : List (ℕ × Branch × ℕ)} (hseed : s ∈ inReach g a)
    (hway : Way (rows g.wires) s v d hops) :
    (swept g a).dist v ≤ (access g s a : WithTop ℝ) + (d : WithTop ℝ) := by
  obtain ⟨hs, hrel, hall⟩ := swept_spec (a := a) hg
  have hle := hs.le_of_way hrel hall hway
  rwa [start_eq ha, if_pos hseed] at hle

theorem dist_swept_ne_top_iff :
    (swept g a).dist v ≠ ⊤ ↔ ∃ s ∈ inReach g a, Reach (rows g.wires) s v := by
  constructor
  · intro hv
    obtain ⟨s, hseed, d, hway, -⟩ := swept_trail hg ha hv
    exact ⟨s, hseed, exists_way_iff.mp ⟨d, _, hway⟩⟩
  · rintro ⟨s, hseed, hreach⟩
    obtain ⟨d, hops, hway⟩ := exists_way_iff.mpr hreach
    apply ne_top_of_le_ne_top _ (dist_le_of_way hg ha hseed hway)
    rw [← WithTop.coe_add]
    exact WithTop.coe_ne_top

end Swept

end Ends

/-! ## The line -/

section Line

variable {E : Earth ℝ} {g : CableGraph ℝ} {a b : LngLat ℝ}

/-- An entry, in either direction. -/
theorem draws_of_mem (hg : EdgesOk E g) {u : ℕ} {e : Link ℝ Branch} (he : e ∈ rows g.wires u) :
    Draws E g (u, e.tag, e.dest) (hopSegment g (u, e.tag, e.dest)) := by
  rw [Draws, hopSegment]
  dsimp only
  cases h : e.tag.branchIdx with
  | none => rfl
  | some bi =>
      obtain ⟨seg, hseg, hspans⟩ := hg.spans he h
      have hget : g.branches.getD bi [] = seg := by
        rw [List.getD_eq_getElem?_getD, hseg, Option.getD_some]
      dsimp only
      rw [hget]
      exact ⟨seg, hseg, rfl, hspans⟩

theorem densifyGreatCircle_ne_nil (p q : LngLat ℝ) : densifyGreatCircle p q ≠ [] := by
  rw [densifyGreatCircle]
  split
  · exact List.cons_ne_nil _ _
  · exact List.cons_ne_nil _ _

theorem Draws.ne_nil {hop : ℕ × Branch × ℕ} {piece : List (LngLat ℝ)} (h : Draws E g hop piece) :
    piece ≠ [] := by
  rw [Draws] at h
  split at h
  · rw [h]
    exact densifyGreatCircle_ne_nil _ _
  · obtain ⟨seg, -, -, hspans⟩ := h
    exact List.ne_nil_of_length_pos (two_pos.trans_le hspans.length)

theorem foldl_joinSegment {out : List (LngLat ℝ)} (hout : out ≠ [])
    (rest : List (List (LngLat ℝ))) :
    rest.foldl joinSegment out = out ++ rest.flatMap (List.drop 1) := by
  induction rest generalizing out with
  | nil => exact (List.append_nil out).symm
  | cons seg rest ih =>
      have hjoin : joinSegment out seg = out ++ seg.drop 1 := by
        rw [joinSegment, if_neg]
        rwa [List.isEmpty_iff]
      rw [List.foldl_cons, hjoin, ih (List.append_ne_nil_of_left_ne_nil hout _),
        List.flatMap_cons, List.append_assoc]

/-- The line of a way. -/
theorem tripLine_hops {hops : List (ℕ × Branch × ℕ)}
    (hdraws : ∀ hop ∈ hops, Draws E g hop (hopSegment g hop)) (hhops : hops ≠ []) (s : ℕ) :
    TripLine E g s hops ((hops.map (hopSegment g)).foldl joinSegment []) := by
  right
  obtain ⟨hop, hops, rfl⟩ := List.exists_cons_of_ne_nil hhops
  refine ⟨hopSegment g hop, hops.map (hopSegment g), ?_, ?_⟩
  · rw [← List.map_cons, List.forall₂_map_right_iff, List.forall₂_same]
    exact hdraws
  · have hfirst : joinSegment [] (hopSegment g hop) = hopSegment g hop := rfl
    rw [List.map_cons, List.foldl_cons, hfirst]
    exact foldl_joinSegment (hdraws hop (List.mem_cons_self ..)).ne_nil _

end Line

/-! ## The trip -/

section Whole

variable {E : Earth ℝ} {g : CableGraph ℝ} {a b : LngLat ℝ}

theorem cableRoute_eq (ha : inReach g a ≠ []) : cableRoute g a b =
    (bestEnd g (swept g a) b).map fun e ↦
      match trail (swept g a).prev g.nodeCoord.length e with
      | [] => [nodeAt g.nodeCoord e]
      | hops => (hops.map (hopSegment g)).foldl joinSegment [] := by
  have hnodes : g.nodeCoord.isEmpty = false := by
    obtain ⟨i, hi⟩ := List.exists_mem_of_ne_nil _ ha
    rw [List.isEmpty_eq_false_iff, ← List.length_pos_iff]
    exact (Nat.zero_le i).trans_lt (lt_of_inReach hi)
  rw [cableRoute, hnodes, if_neg Bool.false_ne_true]
  rfl

variable (hg : EdgesOk E g) (ha : inReach g a ≠ []) (hb : inReach g b ≠ [])
include hg ha hb

theorem cableRoute_eq_none_iff : cableRoute g a b = none ↔
    ∀ s ∈ inReach g a, ∀ e ∈ inReach g b, ¬ Reach (rows g.wires) s e := by
  rw [cableRoute_eq ha, Option.map_eq_none_iff, bestEnd_eq_none_iff hb]
  constructor
  · intro htop s hs e he hreach
    exact (dist_swept_ne_top_iff hg ha).mpr ⟨s, hs, hreach⟩ (htop e he)
  · intro hnone e he
    by_contra htop
    obtain ⟨s, hs, hreach⟩ := (dist_swept_ne_top_iff hg ha).mp htop
    exact hnone s hs e he hreach

theorem cheapestLine {line : List (LngLat ℝ)} (hline : cableRoute g a b = some line) :
    CheapestLine E g a b line := by
  rw [cableRoute_eq ha] at hline
  obtain ⟨e, he, rfl⟩ := Option.map_eq_some_iff.mp hline
  obtain ⟨hend, hfinite, hmin⟩ := bestEnd_spec hb he
  obtain ⟨hrounds, hsteps⟩ := enough_rounds (g := g) a
  obtain ⟨s, hs, d, hway, hroot, hown, hdist⟩ := swept_trail hg ha hfinite
  refine ⟨s, e, access g s a + d + access g e b,
    trail (swept g a).prev g.nodeCoord.length e, ⟨hs, hend, d, hway, rfl⟩, ?_, ?_, ?_⟩
  · rintro s' e' w' hops' ⟨hs', hend', d', hway', rfl⟩
    have hle : ((access g s a + d + access g e b : ℝ) : WithTop ℝ) ≤
        ((access g s' a + d' + access g e' b : ℝ) : WithTop ℝ) := by
      calc ((access g s a + d + access g e b : ℝ) : WithTop ℝ)
          = (swept g a).dist e + (access g e b : WithTop ℝ) := by
            rw [hdist, WithTop.coe_add, WithTop.coe_add]
        _ ≤ (swept g a).dist e' + (access g e' b : WithTop ℝ) := hmin e' hend'
        _ ≤ (access g s' a : WithTop ℝ) + (d' : WithTop ℝ) + (access g e' b : WithTop ℝ) := by
            apply add_le_add_left
            exact dist_le_of_way hg ha hs' hway'
        _ = ((access g s' a + d' + access g e' b : ℝ) : WithTop ℝ) := by
            rw [WithTop.coe_add, WithTop.coe_add]
    exact WithTop.coe_le_coe.mp hle
  · obtain ⟨hok, -, -⟩ := swept_spec (a := a) hg
    have hdraws : ∀ hop ∈ trail (swept g a).prev g.nodeCoord.length e,
        Draws E g hop (hopSegment g hop) := by
      intro hop hhop
      obtain ⟨u, tag, v⟩ := hop
      obtain ⟨-, e', he', rfl, rfl, -⟩ := hok.prev v u tag (prev_of_mem_trail hhop)
      exact draws_of_mem hg he'
    generalize trail (swept g a).prev g.nodeCoord.length e = hops at hway hdraws ⊢
    split
    · rw [hway.eq_of_nil]
      exact Or.inl ⟨rfl, rfl⟩
    · rename_i hhops
      exact tripLine_hops hdraws hhops s
  · refine ⟨hrounds, ?_, hroot, hown⟩
    intro n hn
    obtain ⟨j, rfl⟩ := Nat.exists_eq_add_of_le hn
    exact hsteps e j

end Whole

/-- Between points with landings in reach, over any network that is built.  With
positions in range there is a line. -/
theorem cableRoute_wholeTrip (E : Earth ℝ) (systems : List (List (List (LngLat ℝ))))
    {a b : LngLat ℝ} (ha : inReach (buildCableGraph E systems) a ≠ [])
    (hb : inReach (buildCableGraph E systems) b ≠ []) :
    WholeTrip E (buildCableGraph E systems) a b ∧
      (E.IsDistance → (∀ segs ∈ systems, ∀ seg ∈ segs, ∀ c ∈ seg, InRange c) →
        ∃ line, cableRoute (buildCableGraph E systems) a b = some line ∧
          CheapestLine E (buildCableGraph E systems) a b line) := by
  have hg := edgesOk_buildCableGraph E systems
  have hnone := cableRoute_eq_none_iff hg ha hb
  refine ⟨⟨hnone, fun line hline ↦ cheapestLine hg ha hb hline⟩, ?_⟩
  intro hE hrange
  have hconnected := connected_buildCableGraph hE hrange
  have hsome : cableRoute (buildCableGraph E systems) a b ≠ none := by
    intro hcable
    obtain ⟨s, hs⟩ := List.exists_mem_of_ne_nil _ ha
    obtain ⟨e, he⟩ := List.exists_mem_of_ne_nil _ hb
    apply hnone.mp hcable s hs e he
    exact hconnected.reach s (lt_of_inReach hs) e (lt_of_inReach he)
  obtain ⟨line, hline⟩ := Option.ne_none_iff_exists'.mp hsome
  exact ⟨line, hline, cheapestLine hg ha hb hline⟩

theorem mem_inReach_self {g : CableGraph ℝ} {i : ℕ} (hi : i < g.nodeCoord.length) :
    i ∈ inReach g (nodeAt g.nodeCoord i) := by
  apply mem_inReach.mpr
  refine ⟨hi, ?_⟩
  rw [access, haversineKm_self]
  exact Nat.cast_nonneg _

theorem cableRoute_west : WholeTrip (earth farPolys) westNet (-1, 0) (-5, 0) ∧
    ∃ line, cableRoute westNet (-1, 0) (-5, 0) = some line ∧
      CheapestLine (earth farPolys) westNet (-1, 0) (-5, 0) line := by
  have ha : inReach westNet (-1, 0) ≠ [] := by
    have hmem := mem_inReach_self (g := westNet) (i := 0) (by simp [nodeCoord_westNet])
    rw [nodeCoord_westNet] at hmem
    exact List.ne_nil_of_mem hmem
  have hb : inReach westNet (-5, 0) ≠ [] := by
    have hmem := mem_inReach_self (g := westNet) (i := 1) (by simp [nodeCoord_westNet])
    rw [nodeCoord_westNet] at hmem
    exact List.ne_nil_of_mem hmem
  obtain ⟨hwhole, hline⟩ := cableRoute_wholeTrip (earth farPolys) _ ha hb
  refine ⟨hwhole, hline (isDistance_earth _) ?_⟩
  exact inRange_cableSystems ⟨_, onMap_equatorLine (x := -1) (y := -(5 : ℕ)) (by norm_num)
    (by norm_num)⟩

/-! ## West of -540 -/

section West

theorem normLon_west {x : ℝ} (hlo : -900 < x) (hhi : x < -180) : normLon x = x + 360 := by
  rw [normLon_eq, jsMod]
  split
  · rename_i hpos
    have hlt : (x + 540) / 360 < 1 := by
      rw [div_lt_one (by norm_num)]
      linarith
    rw [Int.floor_eq_zero_iff.mpr ⟨hpos, hlt⟩, Int.cast_zero]
    ring
  · rename_i hneg
    have hlt : -1 < (x + 540) / 360 := by
      rw [lt_div_iff₀ (by norm_num)]
      linarith
    rw [Int.ceil_eq_zero_iff.mpr ⟨hlt, (not_le.mp hneg).le⟩, Int.cast_zero]
    ring

/-- A node from beyond -540 is filed half the globe away. -/
theorem findOrAdd_west {E : Earth ℝ} {nodes : List (LngLat ℝ)}
    (hnodes : ∀ c ∈ nodes, -360 ≤ c.1 ∧ c.1 < -180) {x y : ℝ} (hlo : -720 ≤ x) (hhi : x < -540) :
    findOrAdd E nodes (x, y) = (nodes.length, nodes ++ [(x + 360, y)]) := by
  have hnone : nodesAround nodes (x + 360, y) = [] := by
    simp only [nodesAround, List.flatMap_eq_nil_iff, List.filter_eq_nil_iff]
    intro dx hdx dy hdy id hid
    obtain ⟨k, hk, rfl⟩ := List.mem_map.mp hdx
    obtain ⟨hwest, heast⟩ := hnodes _ (nodeAt_mem (List.mem_range.mp hid))
    have hnode : 0 ≤ ⌊(nodeAt nodes id).1 + 360⌋ := Int.floor_nonneg.mpr (by linarith)
    have hpoint : ⌊x + 360⌋ < -180 := by
      rw [Int.floor_lt]
      push_cast
      linarith
    rw [nodeCell, normLon_west (by linarith) heast, decide_eq_true_eq, Prod.mk.injEq]
    have hlt := List.mem_range.mp hk
    omega
  simp [findOrAdd, clusterNode, normLon_west (x := x) (by linarith) (by linarith), hnone]

/-- A segment of 20 degrees along the equator, beyond -540. -/
theorem addSegment_west {g : CableGraph ℝ} (hnodes : ∀ c ∈ g.nodeCoord, -360 ≤ c.1 ∧ c.1 < -180)
    {x y : ℝ} (hx : -720 ≤ x ∧ x < -540) (hy : -720 ≤ y ∧ y < -540) (hxy : |y - x| = 20) :
    addSegment (earth []) (g, []) [(x, 0), (y, 0)] =
      ({ nodeCoord := g.nodeCoord ++ [(x + 360, 0), (y + 360, 0)]
         wires := g.wires ++ [⟨g.nodeCoord.length, g.nodeCoord.length + 1, 6371 * (20 * D2R),
           ⟨some g.branches.length, false⟩, ⟨some g.branches.length, true⟩⟩]
         branches := g.branches ++ [[(x, 0), (y, 0)]]
         parent := UnionFind.union (ensureNode (ensureNode g.parent g.nodeCoord.length)
           (g.nodeCoord.length + 1)) g.nodeCoord.length (g.nodeCoord.length + 1) },
        [g.nodeCoord.length, g.nodeCoord.length + 1]) := by
  have hsouth : crossesArctic [(x, (0 : ℝ)), (y, 0)] = false := by
    simp [crossesArctic, arcticTransit]
  have hboth : ∀ c ∈ g.nodeCoord ++ [(x + 360, (0 : ℝ))], -360 ≤ c.1 ∧ c.1 < -180 := by
    intro c hc
    rcases List.mem_append.mp hc with hold | hnew
    · exact hnodes c hold
    · rw [List.mem_singleton.mp hnew]
      exact ⟨by linarith [hx.1], by linarith [hx.2]⟩
  have hlength : pathLengthKm (earth []) [(x, (0 : ℝ)), (y, 0)] = 6371 * (20 * D2R) := by
    have hequator := haversineKm_equator (x := x) (y := y) (by linarith)
    rw [hxy] at hequator
    simp [pathLengthKm, earth, hequator]
  have hpos : ¬ 6371 * (20 * D2R) ≤ 0 := by
    have hdegree := D2R_pos
    rw [not_le]
    positivity
  simp [addSegment, hsouth, findOrAdd_west hnodes hx.1 hx.2, findOrAdd_west hboth hy.1 hy.2,
    addEdge, hlength, hpos]

/-- Two cables from one landing beyond -540, which becomes two nodes. -/
def apartSystems : List (List (List (LngLat ℝ))) :=
  [[[(-(600 : ℕ), 0), (-(580 : ℕ), 0)]], [[(-(600 : ℕ), 0), (-(620 : ℕ), 0)]]]

def apartNet : CableGraph ℝ := buildCableGraph (earth []) apartSystems

def apartNodes : List (LngLat ℝ) :=
  [(-(240 : ℕ), 0), (-(220 : ℕ), 0), (-(240 : ℕ), 0), (-(260 : ℕ), 0)]

/-- The edge of a cable. -/
def apartWire (i : ℕ) : Wire ℝ Branch :=
  ⟨2 * i, 2 * i + 1, (6371 : ℕ) * ((20 : ℕ) * D2R), ⟨some i, false⟩, ⟨some i, true⟩⟩

theorem addSystems_apart : (addSystems (earth []) apartSystems).nodeCoord = apartNodes ∧
    (addSystems (earth []) apartSystems).wires = [apartWire 0, apartWire 1] := by
  have hone : addSystem (earth []) ⟨[], [], [], []⟩ [[(-600, 0), (-580, 0)]] =
      ⟨[(-240, 0), (-220, 0)], [apartWire 0], [[(-600, 0), (-580, 0)]], [1, 1]⟩ := by
    have hsegment := addSegment_west (g := ⟨[], [], [], []⟩) (x := -600) (y := -580)
      (by simp) (by norm_num) (by norm_num) (by norm_num)
    norm_num at hsegment
    rw [addSystem, List.foldl_cons, List.foldl_nil, hsegment]
    rfl
  have htwo : addSystem (earth [])
      ⟨[(-240, 0), (-220, 0)], [apartWire 0], [[(-600, 0), (-580, 0)]], [1, 1]⟩
        [[(-600, 0), (-620, 0)]] =
      ⟨[(-240, 0), (-220, 0), (-240, 0), (-260, 0)], [apartWire 0, apartWire 1],
        [[(-600, 0), (-580, 0)], [(-600, 0), (-620, 0)]], [1, 1, 3, 3]⟩ := by
    have hsegment := addSegment_west
      (g := ⟨[(-240, 0), (-220, 0)], [apartWire 0], [[(-600, 0), (-580, 0)]], [1, 1]⟩)
      (x := -600) (y := -620) (by norm_num) (by norm_num) (by norm_num) (by norm_num)
    norm_num at hsegment
    rw [addSystem, List.foldl_cons, List.foldl_nil, hsegment]
    rfl
  have hsystems : apartSystems = [[[(-600, 0), (-580, 0)]], [[(-600, 0), (-620, 0)]]] := by
    simp [apartSystems]
  rw [hsystems, addSystems, List.foldl_cons, List.foldl_cons, List.foldl_nil, hone, htwo]
  exact ⟨by simp [apartNodes], rfl⟩

/-- A component with a node where the main one has one, too, stays apart. -/
theorem wires_foldComponent {E : Earth ℝ} {nodes : List (LngLat ℝ)} {main comp m i : ℕ}
    {ws : List (Wire ℝ Branch)} {compOf : CompOf} (hm : m ∈ members nodes.length compOf comp)
    (hi : i ∈ members nodes.length compOf main)
    (hzero : E.haversineKm (nodeAt nodes m) (nodeAt nodes i) ≤ 0) :
    (foldComponent E nodes main (ws, compOf) comp).1 = ws := by
  rw [foldComponent]
  dsimp only
  split
  · rfl
  · split
    · rfl
    · rename_i p q hp
      have hle := List.not_lt_of_mem_argmin
        (List.mem_flatMap.mpr ⟨m, hm, List.mem_map_of_mem hi⟩) hp
      exact if_pos (Or.inr ((not_lt.mp hle).trans hzero))

theorem components_pairs (adj : ℕ → List (Link ℝ Branch)) (hrounds : Search.rounds 4 adj = 5)
    (h0 : (adj 0).map Link.dest = [1]) (h1 : (adj 1).map Link.dest = [0])
    (h2 : (adj 2).map Link.dest = [3]) (h3 : (adj 3).map Link.dest = [2]) :
    (components 4 adj).2 = [2, 2] ∧ members 4 (components 4 adj).1 0 = [0, 1] ∧
      members 4 (components 4 adj).1 1 = [2, 3] := by
  simp [components, startComponent, flood, hrounds, h0, h1, h2, h3, List.range_succ, members]

theorem apartNet_eq :
    apartNet.nodeCoord = apartNodes ∧ apartNet.wires = [apartWire 0, apartWire 1] := by
  obtain ⟨hnodes, hwires⟩ := addSystems_apart
  refine ⟨hnodes, ?_⟩
  obtain ⟨hsize, hmain, hrest⟩ := components_pairs (rows [apartWire 0, apartWire 1])
    rfl rfl rfl rfl rfl
  have hlength : apartNodes.length = 4 := rfl
  have hlast : mainComp [2, 2] = 0 := rfl
  rw [apartNet, buildCableGraph, hnodes, hwires]
  dsimp only
  rw [hlength]
  generalize components 4 (rows [apartWire 0, apartWire 1]) = c at hsize hmain hrest ⊢
  rw [hsize, hlast]
  -- the first component is the main one
  change (foldComponent (earth []) apartNodes 0 ([apartWire 0, apartWire 1], c.1) 1).1 = _
  apply wires_foldComponent (m := 2) (i := 0)
  · rw [hlength, hrest]
    exact List.mem_cons_self ..
  · rw [hlength, hmain]
    exact List.mem_cons_self ..
  · exact (haversineKm_self _).le

/-- Of the two nodes of the common landing, each reaches the end of one cable only. -/
theorem not_reach_apart {s e : ℕ} (hs : s < 2) (he : ¬ e < 2) :
    ¬ Reach (rows apartNet.wires) s e := by
  intro hreach
  rw [apartNet_eq.2] at hreach
  have hends : ∀ x ∈ [apartWire 0, apartWire 1], x.a < 2 ↔ x.b < 2 := by
    intro x hx
    rcases List.mem_pair.mp hx with rfl | rfl
    · decide
    · decide
  exact he ((hreach.invariant (p := fun n ↦ n < 2) hends).mp hs)

/-- 20 degrees or more are out of reach. -/
theorem not_mem_inReach_apart {i : ℕ} {x y : ℝ} (hi : nodeAt apartNodes i = (x, 0))
    (hlo : 20 ≤ |y - x|) (hhi : |y - x| ≤ 180) : i ∉ inReach apartNet (y, 0) := by
  intro hmem
  have hnear := (mem_inReach.mp hmem).2
  rw [access, apartNet_eq.1, hi, haversineKm_equator hhi, D2R_eq] at hnear
  have hturn : 20 * 2 ≤ |y - x| * Real.pi :=
    mul_le_mul hlo Real.two_le_pi zero_le_two (abs_nonneg _)
  push_cast at hnear
  linarith

theorem nodeAt_apart : nodeAt apartNodes 0 = (-240, 0) ∧ nodeAt apartNodes 1 = (-220, 0) ∧
    nodeAt apartNodes 2 = (-240, 0) ∧ nodeAt apartNodes 3 = (-260, 0) := by
  simp [nodeAt, apartNodes]

theorem inReach_first : 1 ∈ inReach apartNet (-220, 0) ∧
    ∀ s ∈ inReach apartNet (-220, 0), s < 2 := by
  obtain ⟨-, h1, h2, h3⟩ := nodeAt_apart
  constructor
  · have hself := mem_inReach_self (g := apartNet) (i := 1) (by rw [apartNet_eq.1]; decide)
    rwa [apartNet_eq.1, h1] at hself
  · intro s hs
    have hlt := lt_of_inReach hs
    rw [apartNet_eq.1] at hlt
    match s with
    | 0 => decide
    | 1 => decide
    | 2 => exact absurd hs (not_mem_inReach_apart h2 (by norm_num) (by norm_num))
    | 3 => exact absurd hs (not_mem_inReach_apart h3 (by norm_num) (by norm_num))

theorem inReach_second : 3 ∈ inReach apartNet (-260, 0) ∧
    ∀ e ∈ inReach apartNet (-260, 0), ¬ e < 2 := by
  obtain ⟨h0, h1, -, h3⟩ := nodeAt_apart
  constructor
  · have hself := mem_inReach_self (g := apartNet) (i := 3) (by rw [apartNet_eq.1]; decide)
    rwa [apartNet_eq.1, h3] at hself
  · intro e he hlt
    match e with
    | 0 => exact absurd he (not_mem_inReach_apart h0 (by norm_num) (by norm_num))
    | 1 => exact absurd he (not_mem_inReach_apart h1 (by norm_num) (by norm_num))

/-- From the end of the one cable to that of the other there is no line. -/
theorem not_cableRoute_apart : ¬ ∀ (polys : List Poly) (systems : List (List (List (LngLat ℝ))))
    (a b : LngLat ℝ), inReach (buildCableGraph (earth polys) systems) a ≠ [] →
      inReach (buildCableGraph (earth polys) systems) b ≠ [] →
      ∃ line, cableRoute (buildCableGraph (earth polys) systems) a b = some line ∧
        CheapestLine (earth polys) (buildCableGraph (earth polys) systems) a b line := by
  intro hall
  obtain ⟨ha, hstart⟩ := inReach_first
  obtain ⟨hb, hend⟩ := inReach_second
  obtain ⟨line, -, s, e, w, hops, ⟨hs, he, d, hway, -⟩, -⟩ := hall [] apartSystems (-220, 0)
    (-260, 0) (List.ne_nil_of_mem ha) (List.ne_nil_of_mem hb)
  apply not_reach_apart (hstart s hs) (hend e he)
  exact exists_way_iff.mp ⟨d, hops, hway⟩

end West

end

end TrafficMap.Web
