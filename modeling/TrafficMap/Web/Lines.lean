import TrafficMap.Web.Legs
import TrafficMap.Web.Segment

/-!
# Lines to go on from

The lines of `segmentPath` start and end in such a way that one can be drawn after the
other: their last two points are not opposite, and their second point is a place of the
data or within a quarter turn of the start.
-/

namespace TrafficMap.Web

open Real

/-! ## Places -/

/-- Places off the poles of which no two are opposite. -/
structure Spread (S : Set (LngLat ℝ)) : Prop where
  lat : ∀ p ∈ S, |p.2| < 90
  opposite : ∀ p ∈ S, ∀ q ∈ S, ¬ Opposite p q

def AtPlace (S : Set (LngLat ℝ)) (p : LngLat ℝ) : Prop := ∃ q ∈ S, SameSpot p q

section Places

variable {S : Set (LngLat ℝ)} {p q : LngLat ℝ}

theorem AtPlace.of_mem (h : p ∈ S) : AtPlace S p := ⟨p, h, SameSpot.refl p⟩

theorem SameSpot.not_opposite {p' q' : LngLat ℝ} (hp : SameSpot p p') (hq : SameSpot q q')
    (h : ¬ Opposite p' q') : ¬ Opposite p q := by
  rwa [(hp.opposite_iff q).2, (hq.opposite_iff p').1]

theorem Spread.not_opposite (hS : Spread S) (hp : AtPlace S p) (hq : AtPlace S q) :
    ¬ Opposite p q := by
  obtain ⟨p', hp', hspotp⟩ := hp
  obtain ⟨q', hq', hspotq⟩ := hq
  exact hspotp.not_opposite hspotq (hS.opposite p' hp' q' hq')

theorem Spread.lat_lt (hS : Spread S) (hp : AtPlace S p) : |p.2| < 90 := by
  obtain ⟨p', hp', hspot⟩ := hp
  rw [hspot.lat]
  exact hS.lat p' hp'

end Places

/-! ## The last step -/

/-- The last two points are not opposite. -/
def Settles (path : List (LngLat ℝ)) : Prop :=
  ∀ p q l, path.reverse = q :: p :: l → ¬ Opposite p q

section Last

variable {path front : List (LngLat ℝ)}

theorem settles_of_length_le (h : path.length ≤ 1) : Settles path := by
  intro p q l heq
  have hlen := congrArg List.length heq
  rw [List.length_reverse, List.length_cons, List.length_cons] at hlen
  omega

theorem Settles.sameSpot (h : Settles path) {path' : List (LngLat ℝ)}
    (hspot : List.Forall₂ SameSpot path' path) : Settles path' := by
  intro p' q' l' heq
  have hrev : List.Forall₂ SameSpot path'.reverse path.reverse :=
    List.forall₂_reverse_iff.mpr hspot
  rw [heq] at hrev
  obtain ⟨q, rest, hq, hrest, hpath⟩ := List.forall₂_cons_left_iff.mp hrev
  obtain ⟨p, l, hp, -, rfl⟩ := List.forall₂_cons_left_iff.mp hrest
  exact hp.not_opposite hq (h p q l hpath)

theorem Settles.append (h : Settles path) (hlen : 2 ≤ path.length) : Settles (front ++ path) := by
  intro p q l heq
  rw [List.reverse_append] at heq
  obtain ⟨q', p', l', hpath⟩ : ∃ q' p' l', path.reverse = q' :: p' :: l' := by
    rw [← List.length_reverse] at hlen
    match path.reverse, hlen with
    | q' :: p' :: l', _ => exact ⟨q', p', l', rfl⟩
  rw [hpath] at heq
  obtain ⟨rfl, htail⟩ := List.cons.inj heq
  obtain ⟨rfl, -⟩ := List.cons.inj htail
  exact h p' q' l' hpath

theorem settles_concat {q : LngLat ℝ} (h : ∀ p, front.getLast? = some p → ¬ Opposite p q) :
    Settles (front ++ [q]) := by
  intro p q' l heq
  rw [List.reverse_append, List.reverse_singleton, List.singleton_append] at heq
  obtain ⟨rfl, htail⟩ := List.cons.inj heq
  refine h p ?_
  rw [List.getLast?_eq_head?_reverse, htail]
  rfl

theorem Settles.cons (h : Settles path) (hlen : 2 ≤ path.length) (p : LngLat ℝ) :
    Settles (p :: path) := by
  rw [← List.singleton_append]
  exact h.append hlen

theorem Settles.of_cons {r : LngLat ℝ} (h : Settles (r :: path)) : Settles path := by
  intro p q l heq
  refine h p q (l ++ [r]) ?_
  rw [List.reverse_cons, heq]
  rfl

theorem settles_pair {p q : LngLat ℝ} (h : ¬ Opposite p q) : Settles [p, q] := by
  rw [← List.singleton_append]
  apply settles_concat
  intro p' hp'
  obtain rfl := Option.some.inj hp'
  exact h

/-- The end of a line after which a leg follows. -/
theorem settles_leg {m b x : LngLat ℝ} (hx : front.getLast? = some x) (hspot : SameSpot x m)
    (hb : |b.2| < 90) (hopp : ¬ Opposite m b) : Settles (front ++ legPoints m b 1) := by
  have hend := sameSpot_legPoint_last hb hopp
  obtain ⟨k, hk⟩ := Nat.exists_eq_succ_of_ne_zero (legSteps_pos m b).ne'
  have hpoints : legPoints m b 1 =
      (List.range' 1 k).map (legPoint m b) ++ [legPoint m b (legSteps m b)] := by
    rw [legPoints, hk, Nat.succ_eq_add_one, Nat.add_sub_cancel, List.range'_concat, List.map_append,
      List.map_singleton, one_mul, Nat.add_comm 1 k]
  rw [hpoints, ← List.append_assoc]
  apply settles_concat
  intro p hp
  apply SameSpot.not_opposite (SameSpot.refl p) hend
  cases k with
  | zero =>
      rw [List.range'_zero, List.map_nil, List.append_nil, hx] at hp
      obtain rfl := Option.some.inj hp
      exact hspot.not_opposite (SameSpot.refl b) hopp
  | succ k =>
      rw [List.range'_concat, List.map_append, List.map_singleton, ← List.append_assoc,
        List.getLast?_concat, one_mul] at hp
      obtain rfl := Option.some.inj hp
      exact not_opposite_legPoint hopp (by omega) (by omega)

/-- All legs but for the first point. -/
theorem legs_eq (p q : LngLat ℝ) (qs : List (LngLat ℝ)) :
    legPoints p q 0 ++ laterLegs q qs = legPoint p q 0 :: laterLegs p (q :: qs) := by
  have hpoints : legPoints p q 0 = legPoint p q 0 :: legPoints p q 1 := by
    rw [legPoints, legPoints, Nat.sub_zero, Nat.add_sub_cancel, List.range'_succ]
    rfl
  rw [hpoints, laterLegs, List.cons_append]

theorem laterLegs_append (p : LngLat ℝ) (xs ys : List (LngLat ℝ)) :
    laterLegs p (xs ++ ys) =
      laterLegs p xs ++ laterLegs ((p :: xs).getLast (List.cons_ne_nil p xs)) ys := by
  induction xs generalizing p with
  | nil => rfl
  | cons x xs ih =>
      rw [List.cons_append, laterLegs, laterLegs, ih, List.append_assoc,
        List.getLast_cons (List.cons_ne_nil x xs)]

/-- The last leg ends where it should. -/
theorem getLast?_laterLegs_of_settles {p : LngLat ℝ} {qs : List (LngLat ℝ)} {z : LngLat ℝ}
    (h : Settles (p :: qs)) (hz : qs.getLast? = some z) (hlat : |z.2| < 90) :
    ∃ x, (laterLegs p qs).getLast? = some x ∧ SameSpot x z := by
  induction qs using List.reverseRecOn with
  | nil => cases hz
  | append_singleton qs q =>
      rw [List.getLast?_concat] at hz
      obtain rfl := Option.some.inj hz
      refine ⟨_, getLast?_laterLegs p q qs, sameSpot_legPoint_last hlat ?_⟩
      refine h _ _ (p :: qs).dropLast.reverse ?_
      have hsplit := congrArg List.reverse (List.dropLast_append_getLast (List.cons_ne_nil p qs))
      rw [List.reverse_append] at hsplit
      rw [← List.cons_append, List.reverse_append, ← hsplit]
      rfl

end Last

/-! ## The first step -/

/-- The second point is a place, or within a quarter turn of `a`. -/
def Departs (S : Set (LngLat ℝ)) (a : LngLat ℝ) (path : List (LngLat ℝ)) : Prop :=
  ∀ q, path[1]? = some q → AtPlace S q ∨ 0 ≤ (toXYZ q).dot (toXYZ a)

/-- A line from `a` to `b` that others can follow, and that can follow others. -/
structure DrawnLine (S : Set (LngLat ℝ)) (a b : LngLat ℝ) (path : List (LngLat ℝ)) : Prop where
  joins : Joins a b path
  length : 2 ≤ path.length
  settles : Settles path
  departs : Departs S a path

section First

variable {S : Set (LngLat ℝ)} {a m : LngLat ℝ} {path : List (LngLat ℝ)}

theorem Departs.sameSpot (h : Departs S a path) {path' : List (LngLat ℝ)}
    (hspot : List.Forall₂ SameSpot path' path) : Departs S a path' := by
  intro q' hq'
  have hlt := (List.getElem?_eq_some_iff.mp hq').1
  have hlt' : 1 < path.length := hspot.length_eq ▸ hlt
  have hsame : SameSpot q' path[1] := by
    have hget := hspot.get hlt hlt'
    rwa [List.get_eq_getElem, List.get_eq_getElem, (List.getElem?_eq_some_iff.mp hq').2] at hget
  rcases h _ (List.getElem?_eq_getElem hlt') with ⟨p, hp, hspotp⟩ | hdot
  · exact Or.inl ⟨p, hp, hsame.trans hspotp⟩
  · rw [← hsame.toXYZ_eq] at hdot
    exact Or.inr hdot

theorem departs_leg (hS : Spread S) (ha : AtPlace S a) (hm : AtPlace S m)
    (rest : List (LngLat ℝ)) : Departs S a (legPoints a m 0 ++ rest) := by
  have hopp := hS.not_opposite ha hm
  have hpoints : legPoints a m 0 =
      legPoint a m 0 :: legPoint a m 1 ::
        (List.range' 2 (legSteps a m - 1)).map (legPoint a m) := by
    obtain ⟨k, hk⟩ := Nat.exists_eq_succ_of_ne_zero (legSteps_pos a m).ne'
    rw [legPoints, hk]
    rfl
  intro q hq
  rw [hpoints, List.cons_append, List.cons_append, List.getElem?_cons_succ,
    List.getElem?_cons_zero] at hq
  obtain rfl := Option.some.inj hq
  by_cases hsteps : 2 ≤ legSteps a m
  · exact Or.inr (dot_legPoint_one_nonneg hopp hsteps)
  · have hone : legSteps a m = 1 := by
      have hpos := legSteps_pos a m
      omega
    have hend := sameSpot_legPoint_last (hS.lat_lt hm) hopp
    rw [hone] at hend
    obtain ⟨p, hp, hspot⟩ := hm
    exact Or.inl ⟨p, hp, hend.trans hspot⟩

end First

/-! ## What is drawn -/

section Drawn

variable {S : Set (LngLat ℝ)} {a b : LngLat ℝ}

theorem drawnLine_densifyGreatCircle (hS : Spread S) (ha : a ∈ S) (hb : b ∈ S) :
    DrawnLine S a b (densifyGreatCircle a b) := by
  have hopp := hS.opposite a ha b hb
  have hjoins := joins_densifyGreatCircle (hS.lat a ha) (hS.lat b hb) hopp
  by_cases hnear : Near a b
  · have hpath : densifyGreatCircle a b = [a, b] := if_pos hnear
    rw [hpath] at hjoins ⊢
    refine ⟨hjoins, le_rfl, ?_, ?_⟩
    · exact settles_pair hopp
    · intro q hq
      exact Or.inl (AtPlace.of_mem (Option.some.inj hq ▸ hb))
  · have hpath : densifyGreatCircle a b =
        unwrap ((List.range 25).map fun i : ℕ ↦ arcPoint a b (i / (24 : ℕ))) := if_neg hnear
    have hspot := sameSpot_unwrap ((List.range 25).map fun i : ℕ ↦ arcPoint a b (i / (24 : ℕ)))
    rw [← hpath] at hspot
    refine ⟨hjoins, ?_, Settles.sameSpot ?_ hspot, Departs.sameSpot ?_ hspot⟩
    · rw [hspot.length_eq, List.length_map, List.length_range]
      norm_num
    · have hend : SameSpot (arcPoint a b ((24 : ℕ) / (24 : ℕ))) b := by
        rw [div_self (by norm_num), arcPoint, slerp_one (sin_omegaOf_ne_zero hnear hopp)]
        exact sameSpot_toLngLat_toXYZ (hS.lat b hb)
      intro p q l heq
      obtain ⟨rfl, htail⟩ := List.cons.inj heq
      obtain ⟨rfl, -⟩ := List.cons.inj htail
      refine SameSpot.not_opposite (SameSpot.refl _) hend ?_
      exact not_opposite_arcPoint hnear hopp (by norm_num) (by norm_num)
    · intro q hq
      obtain rfl := Option.some.inj hq
      exact Or.inr (dot_arcPoint_nonneg hnear hopp (by norm_num) (by norm_num))

/-- The line through places. -/
theorem drawnLine_densifyPath (hS : Spread S) (ha : a ∈ S) (hb : b ∈ S)
    {mid : List (LngLat ℝ)} (hne : mid ≠ []) (hsettles : Settles (a :: mid))
    (hfirst : ∀ p, mid.head? = some p → AtPlace S p ∧ (Near a p → SameSpot p a))
    (hlast : ∀ p, mid.getLast? = some p → AtPlace S p) :
    DrawnLine S a b (densifyPath (a :: (mid ++ [b]))) := by
  have hplace : AtPlace S a := AtPlace.of_mem ha
  have hplaceb : AtPlace S b := AtPlace.of_mem hb
  have hjoins : Joins a b (densifyPath (a :: (mid ++ [b]))) := by
    apply joins_densifyPath (hS.lat a ha) (hS.lat b hb) hne
    · intro p hp
      exact ⟨hS.not_opposite hplace (hfirst p hp).1, (hfirst p hp).2⟩
    · intro p hp
      exact hS.not_opposite (hlast p hp) hplaceb
  cases mid with
  | nil => exact absurd rfl hne
  | cons m ms =>
      obtain ⟨z, hz⟩ : ∃ z, (m :: ms).getLast? = some z := ⟨_, List.getLast?_cons⟩
      have hplacez := hlast z hz
      have hpath : densifyPath (a :: (m :: ms ++ [b])) =
          unwrap ((legPoints a m 0 ++ laterLegs m ms) ++ legPoints z b 1) := by
        have hlastz : (m :: ms).getLast (List.cons_ne_nil m ms) = z := by
          rw [List.getLast?_eq_some_getLast (List.cons_ne_nil m ms)] at hz
          exact Option.some.inj hz
        rw [List.cons_append, densifyPath, laterLegs_append, hlastz, laterLegs, laterLegs,
          List.append_nil, List.append_assoc]
      have hspot := sameSpot_unwrap ((legPoints a m 0 ++ laterLegs m ms) ++ legPoints z b 1)
      rw [← hpath] at hspot
      obtain ⟨x, hx, hxz⟩ := getLast?_laterLegs_of_settles hsettles hz (hS.lat_lt hplacez)
      refine ⟨hjoins, ?_, Settles.sameSpot ?_ hspot, Departs.sameSpot ?_ hspot⟩
      · have hsteps := legSteps_pos a m
        have hlen : (legPoints a m 0).length = legSteps a m + 1 := by simp [legPoints]
        rw [hspot.length_eq, List.length_append, List.length_append, hlen]
        omega
      · refine settles_leg ?_ hxz (hS.lat b hb) (hS.not_opposite hplacez hplaceb)
        rw [legs_eq, List.getLast?_cons, hx]
        rfl
      · rw [List.append_assoc]
        exact departs_leg hS hplace (hfirst m rfl).1 _

end Drawn

/-! ## What `segmentPath` draws -/

namespace World

variable {w : World} {S : Set (LngLat ℝ)} {a b : LngLat ℝ}

/-- Everything drawn is within `S`, and no point of the data is just beside the start. -/
structure Asks (w : World) (S : Set (LngLat ℝ)) (a b : LngLat ℝ) : Prop where
  pool : ∀ p ∈ w.pool, p ∈ S
  start : a ∈ S
  finish : b ∈ S
  near : ∀ p ∈ w.pool, Near a p → SameSpot p a

theorem Asks.anchored (h : w.Asks S a b) (hS : Spread S) : w.Anchored a b where
  lat_a := hS.lat a h.start
  lat_b := hS.lat b h.finish
  opposite := by
    have hmem : ∀ p ∈ a :: b :: w.pool, p ∈ S := by
      intro p hp
      rcases List.mem_cons.mp hp with rfl | hp
      · exact h.start
      · rcases List.mem_cons.mp hp with rfl | hp
        · exact h.finish
        · exact h.pool p hp
    exact fun p hp q hq ↦ hS.opposite p (hmem p hp) q (hmem q hq)
  near := h.near

theorem Asks.atPlace (h : w.Asks S a b) {p : LngLat ℝ} (hp : OnPool w p) : AtPlace S p := by
  obtain ⟨q, hq, hspot⟩ := hp
  exact ⟨q, h.pool q hq, hspot⟩

theorem Asks.settles_of_subset (h : w.Asks S a b) (hS : Spread S) {path : List (LngLat ℝ)}
    (hpath : ∀ p ∈ path, p ∈ w.pool) : Settles path := by
  intro p q l heq
  have hmem : ∀ r ∈ q :: p :: l, AtPlace S r := by
    intro r hr
    rw [← heq] at hr
    exact AtPlace.of_mem (h.pool r (hpath r (List.mem_reverse.mp hr)))
  exact hS.not_opposite (hmem p (List.mem_cons_of_mem _ (List.mem_cons_self ..)))
    (hmem q (List.mem_cons_self ..))

theorem Asks.drawnLine (h : w.Asks S a b) (hS : Spread S) {mid : List (LngLat ℝ)}
    (hne : mid ≠ []) (hends : Ends w mid) (hsettles : Settles mid) :
    DrawnLine S a b (densifyPath (a :: (mid ++ [b]))) := by
  apply drawnLine_densifyPath hS h.start h.finish hne
  · by_cases hlen : 2 ≤ mid.length
    · exact hsettles.cons hlen a
    · obtain ⟨m, rfl⟩ := List.length_eq_one_iff.mp
        (le_antisymm (by omega) (List.length_pos_iff.mpr hne))
      exact settles_pair (hS.not_opposite (AtPlace.of_mem h.start) (h.atPlace (hends.head m rfl)))
  · intro p hp
    obtain ⟨q, hq, hspot⟩ := hends.head p hp
    refine ⟨h.atPlace (hends.head p hp), fun hnear ↦ ?_⟩
    exact hspot.trans (h.near q hq ((hspot.near_iff a).mp hnear))
  · exact fun p hp ↦ h.atPlace (hends.last p hp)

/-! ### Cables -/

theorem cableRoute_induction {P : List (LngLat ℝ) → Prop} (hnil : P [])
    (hnode : ∀ i < w.net.nodeCoord.length, P [nodeAt w.net.nodeCoord i])
    (hjoin : ∀ out hop, hop.1 < w.net.nodeCoord.length → hop.2.2 < w.net.nodeCoord.length →
      P out → P (joinSegment out (hopSegment w.net hop)))
    {route : List (LngLat ℝ)} (hroute : cableRoute w.net a b = some route) : P route := by
  rw [cableRoute] at hroute
  split at hroute
  · cases hroute
  · obtain ⟨cur, hcur, rfl⟩ := Option.map_eq_some_iff.mp hroute
    have hprev : EntryPrev w.net (startSweep w.net a) := by
      intro v u tag hprev
      cases hprev
    have hsweep := hprev.sweep w.net.nodeCoord.length
    generalize sweep w.net w.net.nodeCoord.length (startSweep w.net a) = s at hcur hsweep ⊢
    have hhops : ∀ hop ∈ Search.trail s.prev w.net.nodeCoord.length cur,
        hop.1 < w.net.nodeCoord.length ∧ hop.2.2 < w.net.nodeCoord.length := by
      rintro ⟨u, tag, v⟩ hmem
      obtain ⟨e, he, rfl, -⟩ := hsweep v u tag (Search.prev_of_mem_trail hmem)
      exact Links.bound_of_mem_rows w.net_connected.bound he
    split
    · exact hnode cur (lt_of_bestEnd hcur)
    · generalize Search.trail s.prev w.net.nodeCoord.length cur = hops at hhops
      rw [List.foldl_map]
      refine List.foldlRecOn hops _ hnil fun out hout hop hmem ↦ ?_
      exact hjoin out hop (hhops hop hmem).1 (hhops hop hmem).2 hout

theorem Asks.settles_hopSegment (h : w.Asks S a b) (hS : Spread S) {hop : ℕ × Branch × ℕ}
    (hu : hop.1 < w.net.nodeCoord.length) (hv : hop.2.2 < w.net.nodeCoord.length) :
    Settles (hopSegment w.net hop) := by
  rw [hopSegment]
  split
  · rename_i bi _
    apply h.settles_of_subset hS
    intro p hp
    split at hp
    · exact mem_pool_of_branch (List.mem_reverse.mp hp)
    · exact mem_pool_of_branch hp
  · exact (drawnLine_densifyGreatCircle hS (h.pool _ (nodeAt_onGlobe hu).1)
      (h.pool _ (nodeAt_onGlobe hv).1)).settles

theorem Asks.settles_joinSegment (h : w.Asks S a b) (hS : Spread S) {out seg : List (LngLat ℝ)}
    (hout : Ends w out) (hseg : Ends w seg) (hsettlesout : Settles out) (hsettles : Settles seg) :
    Settles (joinSegment out seg) := by
  rw [joinSegment]
  split
  · exact hsettles
  · rcases seg with _ | ⟨x, _ | ⟨y, _ | ⟨z, rest⟩⟩⟩
    · rwa [List.drop_nil, List.append_nil]
    · rwa [List.drop_one, List.tail_cons, List.append_nil]
    · refine settles_concat fun p hp ↦ ?_
      exact hS.not_opposite (h.atPlace (hout.last p hp)) (h.atPlace (hseg.last y rfl))
    · have hrest : Settles (y :: z :: rest) := hsettles.of_cons
      exact hrest.append (by rw [List.length_cons, List.length_cons]; omega)

theorem Asks.settles_cableRoute (h : w.Asks S a b) (hS : Spread S) {route : List (LngLat ℝ)}
    (hroute : cableRoute w.net a b = some route) : Ends w route ∧ Settles route := by
  refine cableRoute_induction (P := fun route ↦ Ends w route ∧ Settles route) ?_ ?_ ?_ hroute
  · exact ⟨Ends.of_subset fun p hp ↦ absurd hp List.not_mem_nil, settles_of_length_le (by simp)⟩
  · intro i hi
    refine ⟨Ends.of_subset fun p hp ↦ ?_, settles_of_length_le le_rfl⟩
    rw [List.mem_singleton.mp hp]
    exact (nodeAt_onGlobe hi).1
  · rintro out hop hu hv ⟨hends, hsettles⟩
    have hendsseg := (h.anchored hS).ends_hopSegment hu hv
    exact ⟨hends.joinSegment hendsseg,
      h.settles_joinSegment hS hends hendsseg hsettles (h.settles_hopSegment hS hu hv)⟩

/-! ### All ways -/

theorem Asks.drawnLine_viaCable (h : w.Asks S a b) (hS : Spread S) :
    DrawnLine S a b (w.viaCable a b).path := by
  rw [viaCable]
  split
  · rename_i jr hjr
    obtain ⟨mid, hne, rfl, hmid⟩ := jointRoute_eq (Option.filter_eq_some_iff.mp hjr).1
    exact h.drawnLine hS hne (Ends.of_subset hmid) (h.settles_of_subset hS hmid)
  · split
    · rename_i route hroute
      obtain ⟨hroute, hlen⟩ := Option.filter_eq_some_iff.mp hroute
      have hne : route ≠ [] := by
        rintro rfl
        exact absurd (of_decide_eq_true hlen) (by decide)
      obtain ⟨hends, hsettles⟩ := h.settles_cableRoute hS hroute
      rw [List.append_assoc, List.singleton_append]
      exact h.drawnLine hS hne hends hsettles
    · exact drawnLine_densifyGreatCircle hS h.start h.finish

theorem Asks.drawnLine_compute (h : w.Asks S a b) (hS : Spread S) :
    DrawnLine S a b (w.compute a b).path := by
  rw [compute]
  split
  · split
    · rename_i lr hlr
      obtain ⟨mid, hne, rfl, hmid⟩ := landRoute_eq hlr
      have hpool : ∀ p ∈ mid, p ∈ w.pool := fun p hp ↦ mem_pool_of_hub (hmid p hp)
      exact h.drawnLine hS hne (Ends.of_subset hpool) (h.settles_of_subset hS hpool)
    · exact h.drawnLine_viaCable hS
  · exact h.drawnLine_viaCable hS

end World

end TrafficMap.Web
