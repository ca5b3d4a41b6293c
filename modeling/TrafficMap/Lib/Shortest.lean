import TrafficMap.Lib.Search

/-!
# Shortest ways

When no weight is negative, the search settles the nodes by their distance, and
the way back from the target is a shortest way.
-/

namespace Search

open Links

variable {K τ : Type*} [AddCommMonoid K] [LinearOrder K]

/-! ## Ways -/

/-- A way from the source: where it ends, its length and the entries it follows. -/
inductive Way (adj : ℕ → List (Link K τ)) (source : ℕ) : ℕ → K → List (ℕ × τ × ℕ) → Prop
  | nil : Way adj source source 0 []
  | snoc {u : ℕ} {d : K} {hops : List (ℕ × τ × ℕ)} {e : Link K τ} (h : Way adj source u d hops)
      (he : e ∈ adj u) : Way adj source e.dest (d + e.w) (hops ++ [(u, e.tag, e.dest)])

section Ways

variable {adj : ℕ → List (Link K τ)} {s t u v : ℕ} {d d' : K} {hops hops' : List (ℕ × τ × ℕ)}

omit [LinearOrder K] in
theorem Way.single {e : Link K τ} (he : e ∈ adj u) :
    Way adj u e.dest e.w [(u, e.tag, e.dest)] := by
  have h : Way adj u e.dest (0 + e.w) ([] ++ [(u, e.tag, e.dest)]) := Way.nil.snoc he
  rwa [zero_add] at h

omit [LinearOrder K] in
theorem Way.eq_of_nil (h : Way adj s t d []) : t = s := by
  generalize hnil : [] = hops at h
  cases h with
  | nil => rfl
  | snoc _ _ => exact absurd hnil.symm (List.append_ne_nil_of_right_ne_nil _ (List.cons_ne_nil _ _))

omit [LinearOrder K] in
theorem Way.trans (h : Way adj s u d hops) (h' : Way adj u t d' hops') :
    Way adj s t (d + d') (hops ++ hops') := by
  induction h' with
  | nil => rwa [add_zero, List.append_nil]
  | @snoc v d' hops' e _ he ih =>
      rw [← add_assoc, ← List.append_assoc]
      exact ih.snoc he

omit [LinearOrder K] in
/-- What is written at both of the ends can be followed in both directions. -/
theorem Way.symm {ws : List (Wire K τ)} (h : Way (rows ws) s t d hops) :
    ∃ hops', Way (rows ws) t s d hops' := by
  induction h with
  | nil => exact ⟨[], Way.nil⟩
  | @snoc u d hops e _ he ih =>
      obtain ⟨hops', hback⟩ := ih
      have hentry : ∃ e' ∈ rows ws e.dest, e'.dest = u ∧ e'.w = e.w := by
        obtain ⟨x, hx, ⟨ha, rfl⟩ | ⟨hb, rfl⟩⟩ := mem_rows.mp he
        · exact ⟨_, mem_rows.mpr ⟨x, hx, Or.inr ⟨rfl, rfl⟩⟩, ha, rfl⟩
        · exact ⟨_, mem_rows.mpr ⟨x, hx, Or.inl ⟨rfl, rfl⟩⟩, hb, rfl⟩
      obtain ⟨e', he', rfl, hw⟩ := hentry
      rw [add_comm, ← hw]
      exact ⟨_, (Way.single he').trans hback⟩

omit [LinearOrder K] in
/-- An entry of a way, with what comes before and after it. -/
theorem Way.exists_of_mem {tag : τ} (h : Way adj s t d hops) (hmem : (u, tag, v) ∈ hops) :
    ∃ e ∈ adj u, e.dest = v ∧ e.tag = tag ∧ ∃ d₁ d₂ hops₁ hops₂,
      Way adj s u d₁ hops₁ ∧ Way adj v t d₂ hops₂ ∧ d = d₁ + e.w + d₂ := by
  induction h with
  | nil => cases hmem
  | @snoc u' d hops e h he ih =>
      rcases List.mem_append.mp hmem with hold | hlast
      · obtain ⟨e', he', hdest, htag, d₁, d₂, hops₁, hops₂, hto, hfrom, rfl⟩ := ih hold
        exact ⟨e', he', hdest, htag, d₁, d₂ + e.w, hops₁, _, hto, hfrom.snoc he, add_assoc _ _ _⟩
      · obtain ⟨rfl, hrest⟩ := Prod.mk.inj (List.mem_singleton.mp hlast)
        obtain ⟨rfl, rfl⟩ := Prod.mk.inj hrest
        exact ⟨e, he, rfl, rfl, d, 0, hops, [], h, Way.nil, (add_zero _).symm⟩

omit [LinearOrder K] in
theorem exists_way_iff : (∃ d hops, Way adj s t d hops) ↔ Reach adj s t := by
  constructor
  · rintro ⟨d, hops, h⟩
    induction h with
    | nil => exact .refl
    | @snoc u d hops e _ he ih => exact ih.tail ⟨e, he, rfl⟩
  · intro h
    induction h with
    | refl => exact ⟨0, [], Way.nil⟩
    | tail _ hstep ih =>
        obtain ⟨e, he, rfl⟩ := hstep
        obtain ⟨d, hops, hway⟩ := ih
        exact ⟨_, _, hway.snoc he⟩

theorem Way.nonneg [IsOrderedAddMonoid K] (h : Way adj s t d hops)
    (hw : ∀ u, ∀ e ∈ adj u, 0 ≤ e.w) : 0 ≤ d := by
  induction h with
  | nil => exact le_rfl
  | @snoc u _ _ e _ he ih => exact add_nonneg ih (hw u e he)

/-- A way of which there is no shorter one. -/
def Shortest (adj : ℕ → List (Link K τ)) (source v : ℕ) (d : K) (hops : List (ℕ × τ × ℕ)) : Prop :=
  Way adj source v d hops ∧ ∀ d' hops', Way adj source v d' hops' → d ≤ d'

/-- Each entry of a shortest way is one itself. -/
theorem Shortest.entry_le [IsOrderedCancelAddMonoid K] {tag : τ} (h : Shortest adj s t d hops)
    (hmem : (u, tag, v) ∈ hops) : ∃ e ∈ adj u, e.dest = v ∧ e.tag = tag ∧
      ∀ d' hops', Way adj u v d' hops' → e.w ≤ d' := by
  obtain ⟨e, he, hdest, htag, d₁, d₂, hops₁, hops₂, hto, hfrom, rfl⟩ := h.1.exists_of_mem hmem
  refine ⟨e, he, hdest, htag, ?_⟩
  intro d' hops' hway
  have hle := h.2 _ _ ((hto.trans hway).trans hfrom)
  exact le_of_add_le_add_left (le_of_add_le_add_right hle)

end Ways

/-! ## What the weights add -/

/-- The queue is in order, no settled node lies behind an entry of it, and each
distance is that of the predecessor and the entry from there. -/
structure Exact (adj : ℕ → List (Link K τ)) (source : ℕ) (s : State K τ) : Prop where
  ordered : Heap.Ordered s.heap
  entry : ∀ (d : K) v, (d, v) ∈ s.heap → s.dist v ≤ d
  queued : ∀ v (d : K), s.dist v = d → s.done v = true ∨ (d, v) ∈ s.heap
  floor : ∀ u, s.done u = true → ∀ (d : K) v, (d, v) ∈ s.heap → s.dist u ≤ d
  nonneg : ∀ v, 0 ≤ s.dist v
  start : s.dist source = 0
  root : s.prev source = none
  linked : ∀ v, s.dist v ≠ ⊤ → v = source ∨ ∃ p, s.prev v = some p
  prev : ∀ v u tag, s.prev v = some (u, tag) → s.done u = true ∧
    ∃ e ∈ adj u, e.dest = v ∧ e.tag = tag ∧ s.dist v = s.dist u + (e.w : WithTop K)

/-- No entry of a settled node leads on in a shorter way, but for the target's. -/
def Relaxed (adj : ℕ → List (Link K τ)) (target : ℕ) (s : State K τ) : Prop :=
  ∀ u, s.done u = true → u ≠ target → ∀ e ∈ adj u,
    s.dist e.dest ≤ s.dist u + (e.w : WithTop K)

/-- The nodes in the order in which they were settled, predecessors first. -/
def Ranked (N : ℕ) (s : State K τ) : Prop :=
  ∃ rank : ℕ → ℕ, (∀ u, s.done u = true → rank u < ((Finset.range N).filter (s.done ·)).card) ∧
    ∀ v u tag, s.done v = true → s.prev v = some (u, tag) → rank u < rank v

section Rounds

variable {adj : ℕ → List (Link K τ)} {source target u : ℕ} {d : K} {s : State K τ}

theorem exact_init (source : ℕ) : Exact adj source (init source) where
  ordered i := by
    refine le_of_le_of_eq le_top (Heap.keyAt_of_le ?_).symm
    exact Nat.succ_le_succ (Nat.zero_le i)
  entry d v hmem := by
    obtain ⟨rfl, rfl⟩ := Prod.mk.inj (List.mem_singleton.mp hmem)
    simp [init]
  queued v d hv := by
    right
    by_cases hsource : v = source
    · rw [hsource] at hv ⊢
      simp only [init, Function.update_self, WithTop.coe_eq_coe] at hv
      exact List.mem_singleton.mpr (by rw [← hv])
    · simp [init, hsource] at hv
  floor u hu := by cases hu
  nonneg v := by
    by_cases hsource : v = source
    · simp [init, hsource]
    · simp [init, hsource]
  start := by simp [init]
  root := rfl
  linked v hv := by
    by_cases hsource : v = source
    · exact Or.inl hsource
    · simp [init, hsource] at hv
  prev v u tag h := by cases h

/-! ### One entry -/

/-- The row of `u` is in turn: `u` is settled at the distance `d`, as the last. -/
structure Turn (s : State K τ) (u : ℕ) (d : K) : Prop where
  done : s.done u = true
  dist : s.dist u = d
  last : ∀ v, s.done v = true → s.dist v ≤ d

theorem Turn.nonneg (ht : Turn s u d) (hs : Exact adj source s) : 0 ≤ d := by
  have hdist := hs.nonneg u
  rw [ht.dist] at hdist
  exact WithTop.coe_nonneg.mp hdist

omit [AddCommMonoid K] [LinearOrder K] in
theorem ne_of_open {done : ℕ → Bool} {e : Link K τ} {v : ℕ} (hopen : done e.dest = false)
    (hv : done v = true) : v ≠ e.dest := by
  rintro rfl
  rw [hopen] at hv
  cases hv

omit [AddCommMonoid K] in
theorem dist_improve_of_ne {nd : K} {e : Link K τ} {v : ℕ} (hv : v ≠ e.dest) :
    (improve u nd s e).dist v = s.dist v :=
  Function.update_of_ne hv _ _

omit [AddCommMonoid K] in
theorem dist_improve_self (nd : K) (e : Link K τ) :
    (improve u nd s e).dist e.dest = (nd : WithTop K) :=
  Function.update_self _ _ _

omit [AddCommMonoid K] in
theorem dist_improve_le {nd : K} {e : Link K τ} (hlt : (nd : WithTop K) < s.dist e.dest) (v : ℕ) :
    (improve u nd s e).dist v ≤ s.dist v := by
  by_cases hv : v = e.dest
  · rw [hv, dist_improve_self]
    exact hlt.le
  · rw [dist_improve_of_ne hv]

variable [IsOrderedAddMonoid K]

/-- The settled nodes are no further than the next entry leads. -/
theorem Turn.le_step (ht : Turn s u d) {w : K} (hw : 0 ≤ w) {v : ℕ} (hv : s.done v = true) :
    s.dist v ≤ ((d + w : K) : WithTop K) :=
  (ht.last v hv).trans (WithTop.coe_le_coe.mpr (le_add_of_nonneg_right hw))

theorem Exact.improve (hs : Exact adj source s) (ht : Turn s u d) {e : Link K τ} (he : e ∈ adj u)
    (hw : 0 ≤ e.w) (hopen : s.done e.dest = false)
    (hlt : ((d + e.w : K) : WithTop K) < s.dist e.dest) :
    Exact adj source (improve u (d + e.w) s e) := by
  have hne : ∀ v, s.done v = true → v ≠ e.dest := fun v hv ↦ ne_of_open hopen hv
  have hnd : 0 ≤ d + e.w := add_nonneg (ht.nonneg hs) hw
  have hsource : source ≠ e.dest := by
    rintro heq
    rw [← heq, hs.start] at hlt
    exact absurd hlt (not_lt.mpr (WithTop.coe_nonneg.mpr hnd))
  constructor
  · exact Heap.ordered_push hs.ordered _
  · intro d' v hmem
    rcases Heap.mem_push.mp hmem with hnew | hold
    · obtain ⟨rfl, rfl⟩ := Prod.mk.inj hnew
      rw [dist_improve_self]
    · exact (dist_improve_le hlt v).trans (hs.entry d' v hold)
  · intro v d' hv
    by_cases hve : v = e.dest
    · rw [hve, dist_improve_self] at hv
      right
      rw [hve, ← WithTop.coe_eq_coe.mp hv]
      exact Heap.mem_push.mpr (Or.inl rfl)
    · rw [dist_improve_of_ne hve] at hv
      exact (hs.queued v d' hv).imp_right fun hmem ↦ Heap.mem_push.mpr (Or.inr hmem)
  · intro v hv d' v' hmem
    rw [dist_improve_of_ne (hne v hv)]
    rcases Heap.mem_push.mp hmem with hnew | hold
    · obtain ⟨rfl, rfl⟩ := Prod.mk.inj hnew
      exact ht.le_step hw hv
    · exact hs.floor v hv d' v' hold
  · intro v
    by_cases hv : v = e.dest
    · rw [hv, dist_improve_self]
      exact WithTop.coe_nonneg.mpr hnd
    · rw [dist_improve_of_ne hv]
      exact hs.nonneg v
  · rw [dist_improve_of_ne hsource, hs.start]
  · exact (Function.update_of_ne hsource _ _).trans hs.root
  · intro v hv
    by_cases hve : v = e.dest
    · exact Or.inr ⟨(u, e.tag), by rw [hve]; exact Function.update_self _ _ _⟩
    · rw [dist_improve_of_ne hve] at hv
      apply (hs.linked v hv).imp_right
      rintro ⟨p, hp⟩
      exact ⟨p, (Function.update_of_ne hve _ _).trans hp⟩
  · intro v u' tag hprev
    rcases prev_cases hprev with ⟨rfl, rfl, rfl⟩ | ⟨hv, hold⟩
    · refine ⟨ht.done, e, he, rfl, rfl, ?_⟩
      rw [dist_improve_self, dist_improve_of_ne (hne u' ht.done), ht.dist, WithTop.coe_add]
    · obtain ⟨hdone, e', he', hdest, htag, hdist⟩ := hs.prev v u' tag hold
      refine ⟨hdone, e', he', hdest, htag, ?_⟩
      rw [dist_improve_of_ne hv, dist_improve_of_ne (hne u' hdone), hdist]

omit [IsOrderedAddMonoid K] in
theorem relax_of_done {e : Link K τ} (hdone : s.done e.dest = true) : relax u d s e = s := by
  rw [relax, if_pos hdone]

/-- `t` knows ways no longer than `s`, of the entries' length at most, and those of
the settled nodes. -/
structure Shortens (s t : State K τ) (d : K) (es : List (Link K τ)) : Prop where
  done : t.done = s.done
  le : ∀ v, t.dist v ≤ s.dist v
  settled : ∀ v, s.done v = true → t.dist v = s.dist v
  kept : ∀ v, s.done v = true → t.prev v = s.prev v
  row : ∀ e ∈ es, t.dist e.dest ≤ ((d + e.w : K) : WithTop K)

theorem Exact.relax (hs : Exact adj source s) (ht : Turn s u d) {e : Link K τ} (he : e ∈ adj u)
    (hw : 0 ≤ e.w) :
    Exact adj source (Search.relax u d s e) ∧ Shortens s (Search.relax u d s e) d [e] := by
  cases hdone : s.done e.dest with
  | true =>
      rw [relax_of_done hdone]
      refine ⟨hs, rfl, fun v ↦ le_rfl, fun v _ ↦ rfl, fun v _ ↦ rfl, ?_⟩
      intro e' he'
      obtain rfl := List.mem_singleton.mp he'
      exact ht.le_step hw hdone
  | false =>
      rw [Search.relax, hdone, if_neg Bool.false_ne_true]
      by_cases hlt : ((d + e.w : K) : WithTop K) < s.dist e.dest
      · rw [if_pos hlt]
        have hne : ∀ v, s.done v = true → v ≠ e.dest := fun v hv ↦ ne_of_open hdone hv
        refine ⟨hs.improve ht he hw hdone hlt, rfl, dist_improve_le hlt, ?_, ?_, ?_⟩
        · exact fun v hv ↦ dist_improve_of_ne (hne v hv)
        · exact fun v hv ↦ Function.update_of_ne (hne v hv) _ _
        · intro e' he'
          obtain rfl := List.mem_singleton.mp he'
          rw [dist_improve_self]
      · rw [if_neg hlt]
        refine ⟨hs, rfl, fun v ↦ le_rfl, fun v _ ↦ rfl, fun v _ ↦ rfl, ?_⟩
        intro e' he'
        obtain rfl := List.mem_singleton.mp he'
        exact not_lt.mp hlt

/-! ### One row -/

omit [IsOrderedAddMonoid K] in
theorem Turn.shortens {t : State K τ} {es : List (Link K τ)} (ht : Turn s u d)
    (h : Shortens s t d es) : Turn t u d where
  done := by rw [h.done, ht.done]
  dist := by rw [h.settled u ht.done, ht.dist]
  last v hv := by
    rw [h.done] at hv
    rw [h.settled v hv]
    exact ht.last v hv

theorem Exact.foldl (hw : ∀ u, ∀ e ∈ adj u, 0 ≤ e.w) {es : List (Link K τ)} (hes : es ⊆ adj u)
    (hs : Exact adj source s) (ht : Turn s u d) :
    Exact adj source (es.foldl (Search.relax u d) s) ∧
      Shortens s (es.foldl (Search.relax u d) s) d es := by
  induction es generalizing s with
  | nil =>
      exact ⟨hs, rfl, fun v ↦ le_rfl, fun v _ ↦ rfl, fun v _ ↦ rfl,
        fun e he ↦ absurd he List.not_mem_nil⟩
  | cons e es ih =>
      obtain ⟨he, hes⟩ := List.cons_subset.mp hes
      obtain ⟨hone, hfirst⟩ := hs.relax ht he (hw u e he)
      obtain ⟨hall, hrest⟩ := ih hes hone (ht.shortens hfirst)
      have hdone : ∀ v, s.done v = true → (Search.relax u d s e).done v = true := by
        intro v hv
        rwa [hfirst.done]
      refine ⟨hall, hrest.done.trans hfirst.done, fun v ↦ (hrest.le v).trans (hfirst.le v),
        fun v hv ↦ (hrest.settled v (hdone v hv)).trans (hfirst.settled v hv),
        fun v hv ↦ (hrest.kept v (hdone v hv)).trans (hfirst.kept v hv), ?_⟩
      intro e' he'
      rcases List.mem_cons.mp he' with rfl | he'
      · exact (hrest.le e'.dest).trans (hfirst.row e' (List.mem_singleton_self e'))
      · exact hrest.row e' he'

/-! ### One round -/

section Pop

variable {heap : List (K × ℕ)} (hs : Exact adj source s)
  (hpop : Heap.pop s.heap = some ((d, u), heap))
include hs hpop

omit [IsOrderedAddMonoid K] in
/-- An outdated entry goes. -/
theorem Exact.drop (hdone : s.done u = true) : Exact adj source { s with heap := heap } where
  ordered := (Heap.ordered_pop hs.ordered hpop).1
  entry d' v hmem := hs.entry d' v ((Heap.pop_perm hpop).mem_iff.mpr (List.mem_cons_of_mem _ hmem))
  queued v d' hv := by
    apply (hs.queued v d' hv).elim Or.inl
    intro hmem
    rcases List.mem_cons.mp ((Heap.pop_perm hpop).mem_iff.mp hmem) with heq | hrest
    · exact Or.inl ((Prod.mk.inj heq).2 ▸ hdone)
    · exact Or.inr hrest
  floor v hv d' v' hmem :=
    hs.floor v hv d' v' ((Heap.pop_perm hpop).mem_iff.mpr (List.mem_cons_of_mem _ hmem))
  nonneg := hs.nonneg
  start := hs.start
  root := hs.root
  linked := hs.linked
  prev := hs.prev

omit [IsOrderedAddMonoid K] in
theorem Exact.turn (hopen : s.done u = false) : Turn (settle u heap s) u d where
  done := Function.update_self _ _ _
  dist := by
    have hmem : (d, u) ∈ s.heap := (Heap.pop_perm hpop).mem_iff.mpr (List.mem_cons_self ..)
    have hle := hs.entry d u hmem
    obtain ⟨d', hd'⟩ := WithTop.ne_top_iff_exists.mp (ne_top_of_le_ne_top WithTop.coe_ne_top hle)
    rcases hs.queued u d' hd'.symm with hdone | hqueued
    · rw [hopen] at hdone
      cases hdone
    · have hmin := (Heap.ordered_pop hs.ordered hpop).2 _ hqueued
      change s.dist u = d
      rw [← hd'] at hle ⊢
      exact congrArg _ (le_antisymm (WithTop.coe_le_coe.mp hle) hmin)
  last v hv := by
    have hmem : (d, u) ∈ s.heap := (Heap.pop_perm hpop).mem_iff.mpr (List.mem_cons_self ..)
    change Function.update s.done u true v = true at hv
    change s.dist v ≤ d
    by_cases hvu : v = u
    · rw [hvu]
      exact hs.entry d u hmem
    · rw [Function.update_of_ne hvu] at hv
      exact hs.floor v hv d u hmem

omit [IsOrderedAddMonoid K] in
theorem Exact.settle (hopen : s.done u = false) : Exact adj source (settle u heap s) where
  ordered := (Heap.ordered_pop hs.ordered hpop).1
  entry d' v hmem := hs.entry d' v ((Heap.pop_perm hpop).mem_iff.mpr (List.mem_cons_of_mem _ hmem))
  queued v d' hv := by
    change Function.update s.done u true v = true ∨ (d', v) ∈ heap
    by_cases hvu : v = u
    · exact Or.inl (by rw [hvu, Function.update_self])
    · rw [Function.update_of_ne hvu]
      apply (hs.queued v d' hv).imp_right
      intro hmem
      rcases List.mem_cons.mp ((Heap.pop_perm hpop).mem_iff.mp hmem) with heq | hrest
      · exact absurd (Prod.mk.inj heq).2 hvu
      · exact hrest
  floor v hv d' v' hmem := by
    have hmem' : (d', v') ∈ s.heap :=
      (Heap.pop_perm hpop).mem_iff.mpr (List.mem_cons_of_mem _ hmem)
    have hmin := (Heap.ordered_pop hs.ordered hpop).2 _ hmem'
    exact ((hs.turn hpop hopen).last v hv).trans (WithTop.coe_le_coe.mpr hmin)
  nonneg := hs.nonneg
  start := hs.start
  root := hs.root
  linked := hs.linked
  prev v u' tag hprev := by
    obtain ⟨hdone, hentry⟩ := hs.prev v u' tag hprev
    refine ⟨?_, hentry⟩
    change Function.update s.done u true u' = true
    by_cases hu : u' = u
    · rw [hu, Function.update_self]
    · rwa [Function.update_of_ne hu]

end Pop

/-! ### All rounds -/

omit [IsOrderedAddMonoid K] in
theorem Relaxed.expand (hrel : Relaxed adj target s) {heap : List (K × ℕ)} {t : State K τ}
    (ht : Turn (settle u heap s) u d) (h : Shortens (settle u heap s) t d (adj u)) :
    Relaxed adj target t := by
  intro v hv hvt e he
  rw [h.done] at hv
  rw [h.settled v hv]
  by_cases hvu : v = u
  · rw [hvu, ht.dist, ← WithTop.coe_add]
    exact h.row e (hvu ▸ he)
  · change Function.update s.done u true v = true at hv
    rw [Function.update_of_ne hvu] at hv
    exact (h.le e.dest).trans (hrel v hv hvt e he)

omit [LinearOrder K] [IsOrderedAddMonoid K] in
theorem ranked_init (N source : ℕ) : Ranked N (init source : State K τ) :=
  ⟨fun _ ↦ 0, ⟨fun _ hu ↦ absurd hu Bool.false_ne_true,
    fun _ _ _ hv ↦ absurd hv Bool.false_ne_true⟩⟩

section Rank

variable {N : ℕ} (hrank : Ranked N s)
include hrank

omit [IsOrderedAddMonoid K] in
theorem Ranked.settle (hs : Exact adj source s) (hopen : s.done u = false) (hu : u < N)
    (heap : List (K × ℕ)) : Ranked N (settle u heap s) := by
  obtain ⟨rank, hlt, hmono⟩ := hrank
  have hset : (Finset.range N).filter (Function.update s.done u true ·) =
      insert u ((Finset.range N).filter (s.done ·)) := by
    ext v
    by_cases hvu : v = u
    · simp [hvu, hu]
    · simp [hvu]
  have hcard : ((Finset.range N).filter (Function.update s.done u true ·)).card =
      ((Finset.range N).filter (s.done ·)).card + 1 := by
    rw [hset, Finset.card_insert_of_notMem (by simp [hopen])]
  refine ⟨Function.update rank u ((Finset.range N).filter (s.done ·)).card, ?_, ?_⟩
  · intro v hv
    change Function.update s.done u true v = true at hv
    change _ < ((Finset.range N).filter (Function.update s.done u true ·)).card
    rw [hcard]
    by_cases hvu : v = u
    · rw [hvu, Function.update_self]
      exact Nat.lt_succ_self _
    · rw [Function.update_of_ne hvu] at hv ⊢
      exact (hlt v hv).trans (Nat.lt_succ_self _)
  · intro v w tag hv hprev
    have hw := (hs.prev v w tag hprev).1
    have hwu : w ≠ u := by
      rintro rfl
      rw [hopen] at hw
      cases hw
    rw [Function.update_of_ne hwu]
    by_cases hvu : v = u
    · rw [hvu, Function.update_self]
      exact hlt w hw
    · change Function.update s.done u true v = true at hv
      rw [Function.update_of_ne hvu] at hv ⊢
      exact hmono v w tag hv hprev

omit [IsOrderedAddMonoid K] in
theorem Ranked.shortens {t : State K τ} {es : List (Link K τ)} (h : Shortens s t d es) :
    Ranked N t := by
  obtain ⟨rank, hlt, hmono⟩ := hrank
  refine ⟨rank, ?_, ?_⟩
  · rwa [h.done]
  · intro v w tag hv hprev
    rw [h.done] at hv
    rw [h.kept v hv] at hprev
    exact hmono v w tag hv hprev

end Rank

theorem run_exact {N : ℕ} (hbound : ∀ u, Reach adj source u → u < N)
    (hw : ∀ u, ∀ e ∈ adj u, 0 ≤ e.w) (target n : ℕ) (hsound : Sound adj source s)
    (hs : Exact adj source s) (hrel : Relaxed adj target s) (hrank : Ranked N s) :
    Exact adj source (run adj target n s) ∧ Relaxed adj target (run adj target n s) ∧
      Ranked N (run adj target n s) := by
  induction n generalizing s with
  | zero => exact ⟨hs, hrel, hrank⟩
  | succ n ih =>
      rw [run]
      cases hpop : Heap.pop s.heap with
      | none => exact ⟨hs, hrel, hrank⟩
      | some top =>
          obtain ⟨⟨d, u⟩, heap⟩ := top
          have hu := hsound.reach_of_pop hpop
          have hsettle := hsound.settle hpop
          dsimp only
          cases hdone : s.done u with
          | true =>
              rw [if_pos rfl]
              rw [settle_of_done hdone] at hsettle
              exact ih hsettle (hs.drop hpop hdone) hrel hrank
          | false =>
              rw [if_neg Bool.false_ne_true]
              have hturn := hs.turn hpop hdone
              have hexact := hs.settle hpop hdone
              have hranked := hrank.settle hs hdone (hbound u hu) heap
              by_cases hut : u = target
              · rw [if_pos hut]
                refine ⟨hexact, ?_, hranked⟩
                intro v hv hvt
                change Function.update s.done u true v = true at hv
                rw [Function.update_of_ne (hut ▸ hvt)] at hv
                exact hrel v hv hvt
              · rw [if_neg hut]
                obtain ⟨hall, hshort⟩ := hexact.foldl hw (List.Subset.refl _) hturn
                exact ih (hsettle.expand hu d).1 hall (hrel.expand hturn hshort)
                  (hranked.shortens hshort)

/-! ## The way back -/

omit [IsOrderedAddMonoid K] in
theorem Exact.way_of_root (hs : Exact adj source s) {v : ℕ} (hprev : s.prev v = none)
    (hd : s.dist v = d) : Way adj source v d [] := by
  obtain rfl : v = source := by
    apply (hs.linked v (hd ▸ WithTop.coe_ne_top)).resolve_right
    rintro ⟨p, hp⟩
    rw [hprev] at hp
    cases hp
  obtain rfl : d = 0 := WithTop.coe_eq_zero.mp (hd.symm.trans hs.start)
  exact Way.nil

omit [IsOrderedAddMonoid K] in
/-- The way back from a settled node leads to the source and has the distance of the
node as its length. -/
theorem Exact.way_trail (hs : Exact adj source s) {rank : ℕ → ℕ}
    (hmono : ∀ v u tag, s.done v = true → s.prev v = some (u, tag) → rank u < rank v) {n v : ℕ}
    (hv : s.done v = true) (hn : rank v < n) (hd : s.dist v = d) :
    Way adj source v d (trail s.prev n v) := by
  induction n generalizing v d with
  | zero => exact absurd hn (Nat.not_lt_zero _)
  | succ n ih =>
      rw [trail]
      cases hprev : s.prev v with
      | none => exact hs.way_of_root hprev hd
      | some p =>
          obtain ⟨u, tag⟩ := p
          obtain ⟨hu, e, he, rfl, rfl, hdist⟩ := hs.prev v u tag hprev
          have hlt := hmono _ u _ hv hprev
          have hne : s.dist u + (e.w : WithTop K) ≠ ⊤ := by
            rw [← hdist, hd]
            exact WithTop.coe_ne_top
          obtain ⟨d', hd'⟩ := WithTop.ne_top_iff_exists.mp (WithTop.add_ne_top.mp hne).1
          rw [hd, ← hd', ← WithTop.coe_add] at hdist
          rw [WithTop.coe_eq_coe.mp hdist]
          exact Way.snoc (ih hu (by omega) hd'.symm) he

/-- The nodes of a way that ends at `v`. -/
def nodesOf (hops : List (ℕ × τ × ℕ)) (v : ℕ) : List ℕ := hops.map Prod.fst ++ [v]

omit [IsOrderedAddMonoid K] in
/-- Every node on the way back was settled before the one it is followed from. -/
theorem Exact.nodup_trail (hs : Exact adj source s) {rank : ℕ → ℕ}
    (hmono : ∀ v u tag, s.done v = true → s.prev v = some (u, tag) → rank u < rank v) (n : ℕ)
    {v : ℕ} (hv : s.done v = true) : (nodesOf (trail s.prev n v) v).Nodup ∧
      ∀ w ∈ nodesOf (trail s.prev n v) v, rank w ≤ rank v := by
  have hroot : (nodesOf ([] : List (ℕ × τ × ℕ)) v).Nodup ∧
      ∀ w ∈ nodesOf ([] : List (ℕ × τ × ℕ)) v, rank w ≤ rank v := by
    refine ⟨List.nodup_singleton v, ?_⟩
    intro w hw
    rw [List.mem_singleton.mp hw]
  induction n generalizing v with
  | zero => exact hroot
  | succ n ih =>
      rw [trail]
      cases hprev : s.prev v with
      | none => exact hroot
      | some p =>
          obtain ⟨u, tag⟩ := p
          have hlt := hmono v u tag hv hprev
          have hu := (hs.prev v u tag hprev).1
          obtain ⟨hnodup, hle⟩ := ih hu ⟨List.nodup_singleton u, fun w hw ↦ by
            rw [List.mem_singleton.mp hw]⟩
          have hsplit : nodesOf (trail s.prev n u ++ [(u, tag, v)]) v =
              nodesOf (trail s.prev n u) u ++ [v] := by
            rw [nodesOf, nodesOf, List.map_append]
            rfl
          dsimp only
          rw [hsplit]
          constructor
          · rw [List.nodup_append]
            refine ⟨hnodup, List.nodup_singleton v, ?_⟩
            rintro w hw w' hw' rfl
            rw [List.mem_singleton.mp hw'] at hw
            exact absurd (hle v hw) (not_le.mpr hlt)
          · intro w hw
            rcases List.mem_append.mp hw with hold | hlast
            · exact (hle w hold).trans hlt.le
            · rw [List.mem_singleton.mp hlast]

omit [IsOrderedAddMonoid K] in
/-- The way back ends within as many steps as there are settled nodes. -/
theorem Exact.trail_of_le (hs : Exact adj source s) {rank : ℕ → ℕ}
    (hmono : ∀ v u tag, s.done v = true → s.prev v = some (u, tag) → rank u < rank v) {n m v : ℕ}
    (hv : s.done v = true) (hn : rank v < n) (hm : n ≤ m) :
    trail s.prev m v = trail s.prev n v := by
  induction n generalizing m v with
  | zero => exact absurd hn (Nat.not_lt_zero _)
  | succ n ih =>
      obtain ⟨m, rfl⟩ := Nat.exists_eq_add_one_of_ne_zero (Nat.ne_zero_of_lt hm)
      rw [trail, trail]
      cases hprev : s.prev v with
      | none => rfl
      | some p =>
          obtain ⟨u, tag⟩ := p
          have hlt := hmono v u tag hv hprev
          dsimp only
          rw [ih (hs.prev v u tag hprev).1 (by omega) (Nat.le_of_succ_le_succ hm)]

omit [IsOrderedAddMonoid K] in
theorem Exact.trail_of_keeps (hs : Exact adj source s) {t : State K τ} (h : Keeps s t) (n : ℕ)
    {v : ℕ} (hv : s.done v = true) : trail t.prev n v = trail s.prev n v := by
  induction n generalizing v with
  | zero => rfl
  | succ n ih =>
      rw [trail, trail, h.prev v hv]
      cases hprev : s.prev v with
      | none => rfl
      | some p =>
          obtain ⟨u, tag⟩ := p
          dsimp only
          rw [ih (hs.prev v u tag hprev).1]

/-- Along any way, the distances fall behind its length only once that of the settled
target has. -/
theorem Exact.le_of_way (hs : Exact adj source s) (hrel : Relaxed adj target s)
    (hw : ∀ u, ∀ e ∈ adj u, 0 ≤ e.w) (hdone : s.done target = true) {v : ℕ}
    {hops : List (ℕ × τ × ℕ)} (h : Way adj source v d hops) :
    s.dist v ≤ d ∨ s.dist target ≤ d := by
  induction h with
  | nil => exact Or.inl hs.start.le
  | @snoc u d hops e _ he ih =>
      have hstep : (d : WithTop K) ≤ ((d + e.w : K) : WithTop K) :=
        WithTop.coe_le_coe.mpr (le_add_of_nonneg_right (hw u e he))
      rcases ih with hle | htarget
      · by_cases hut : u = target
        · exact Or.inr ((hut ▸ hle).trans hstep)
        · cases hu : s.done u with
          | true =>
              left
              have hrow := hrel u hu hut e he
              rw [WithTop.coe_add]
              exact hrow.trans (add_le_add_left hle _)
          | false =>
              -- `u` waits in the queue, behind the target
              right
              obtain ⟨d', hd'⟩ := WithTop.ne_top_iff_exists.mp
                (ne_top_of_le_ne_top WithTop.coe_ne_top hle)
              have hqueued : (d', u) ∈ s.heap := by
                apply (hs.queued u d' hd'.symm).resolve_left
                rw [hu]
                exact Bool.false_ne_true
              calc s.dist target ≤ (d' : WithTop K) := hs.floor target hdone d' u hqueued
                _ = s.dist u := hd'
                _ ≤ d := hle
                _ ≤ ((d + e.w : K) : WithTop K) := hstep
      · exact Or.inr (htarget.trans hstep)

end Rounds

/-! ## The result -/

section Result

variable [IsOrderedAddMonoid K] {adj : ℕ → List (Link K τ)} {source N : ℕ}
  (hadj : ∀ u < N, ∀ e ∈ adj u, e.dest < N) (hsource : source < N)
include hadj hsource

omit [IsOrderedAddMonoid K] in
/-- More rounds change nothing. -/
theorem run_search (target : ℕ) {n : ℕ} (hn : rounds N adj ≤ n) :
    run adj target n (init source) = search N adj source target :=
  run_of_le hadj hsource target (sound_init source) (potential_init source) hn

variable (hw : ∀ u, ∀ e ∈ adj u, 0 ≤ e.w)
include hw

theorem exact_search (target : ℕ) : Exact adj source (search N adj source target) ∧
    Relaxed adj target (search N adj source target) ∧
    ∃ rank : ℕ → ℕ, (∀ u, (search N adj source target).done u = true → rank u < N) ∧
      ∀ v u tag, (search N adj source target).done v = true →
        (search N adj source target).prev v = some (u, tag) → rank u < rank v := by
  have hrun := run_exact (fun u hu ↦ lt_of_reach hadj hsource hu) hw target (rounds N adj)
    (sound_init source) (exact_init source) (fun _ hu ↦ absurd hu Bool.false_ne_true)
    (ranked_init N source)
  obtain ⟨hs, hrel, rank, hlt, hmono⟩ := hrun
  refine ⟨hs, hrel, rank, ?_, hmono⟩
  intro u hu
  calc rank u < _ := hlt u hu
    _ ≤ (Finset.range N).card := Finset.card_filter_le _ _
    _ = N := Finset.card_range N

theorem done_search {target : ℕ} (h : (search N adj source target).dist target ≠ ⊤) :
    (search N adj source target).done target = true := by
  obtain ⟨-, -, hend⟩ := run_spec hadj hsource target (rounds N adj) (sound_init source)
    (fun _ hu ↦ absurd hu Bool.false_ne_true) (potential_init source)
  obtain ⟨hs, -, -⟩ := exact_search hadj hsource hw target
  obtain ⟨d, hd⟩ := WithTop.ne_top_iff_exists.mp h
  rcases hend with hempty | hdone
  · apply (hs.queued target d hd.symm).resolve_right
    rw [show (search N adj source target).heap = [] from hempty]
    exact List.not_mem_nil
  · exact hdone

/-- The way back from a target that is reached is a shortest way. -/
theorem shortest_trail {target : ℕ} (h : (search N adj source target).dist target ≠ ⊤) :
    ∃ d : K, (search N adj source target).dist target = d ∧
      Shortest adj source target d (trail (search N adj source target).prev N target) := by
  obtain ⟨hs, hrel, rank, hlt, hmono⟩ := exact_search hadj hsource hw target
  have hdone := done_search hadj hsource hw h
  obtain ⟨d, hd⟩ := WithTop.ne_top_iff_exists.mp h
  refine ⟨d, hd.symm, hs.way_trail hmono hdone (hlt target hdone) hd.symm, ?_⟩
  intro d' hops hway
  have hle := (hs.le_of_way hrel hw hdone hway).elim id id
  rw [← hd] at hle
  exact WithTop.coe_le_coe.mp hle

/-- The way back does not come to a node twice, and more steps do not change it. -/
theorem trail_search {target : ℕ} (h : (search N adj source target).dist target ≠ ⊤) :
    (nodesOf (trail (search N adj source target).prev N target) target).Nodup ∧
      ∀ n ≥ N, trail (search N adj source target).prev n target =
        trail (search N adj source target).prev N target := by
  obtain ⟨hs, -, rank, hlt, hmono⟩ := exact_search hadj hsource hw target
  have hdone := done_search hadj hsource hw h
  refine ⟨(hs.nodup_trail hmono N hdone).1, ?_⟩
  exact fun n hn ↦ hs.trail_of_le hmono hdone (hlt target hdone) hn

/-- Stopping at the target changes neither its distance nor the way back from it. -/
theorem search_exhaustive (target : ℕ) :
    (search N adj source N).dist target = (search N adj source target).dist target ∧
      ((search N adj source target).dist target ≠ ⊤ →
        trail (search N adj source N).prev N target =
          trail (search N adj source target).prev N target) := by
  obtain ⟨hs, -, -⟩ := exact_search hadj hsource hw target
  have hsame := run_exhaustive (n := rounds N adj) (fun u hu ↦ lt_of_reach hadj hsource hu)
    (sound_init source) (show (init source : State K τ).done target = false from rfl)
  rcases hsame with heq | ⟨hdone, hkeeps⟩
  · have hsearch : search N adj source target = search N adj source N := heq
    rw [hsearch]
    exact ⟨rfl, fun _ ↦ rfl⟩
  · exact ⟨hkeeps.dist target hdone, fun _ ↦ hs.trail_of_keeps hkeeps N hdone⟩

end Result

end Search
