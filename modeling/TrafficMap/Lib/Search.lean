import TrafficMap.Lib.Heap
import TrafficMap.Lib.Links
import Mathlib.Algebra.BigOperators.Group.Finset.Basic
import Mathlib.Algebra.Order.BigOperators.Group.Finset
import Mathlib.Algebra.Order.Monoid.WithTop

/-!
# Search with a queue of distances

Dijkstra's algorithm with a binary heap in which outdated entries stay, stopped
when the target is settled.  Whatever the weights are, it finds the target
exactly if there is a way, and the predecessors are entries of the rows.
-/

namespace Search

open Links

variable {K τ : Type*} [LinearOrder K] [AddZeroClass K]

/-! ## The loop -/

structure State (K τ : Type*) where
  heap : List (K × ℕ)
  dist : ℕ → WithTop K
  prev : ℕ → Option (ℕ × τ)
  done : ℕ → Bool

def init (source : ℕ) : State K τ where
  heap := [(0, source)]
  dist := Function.update (fun _ ↦ ⊤) source ((0 : K) : WithTop K)
  prev _ := none
  done _ := false

/-- A shorter way to `e.dest`, from `u`. -/
def improve (u : ℕ) (nd : K) (s : State K τ) (e : Link K τ) : State K τ where
  heap := Heap.push s.heap (nd, e.dest)
  dist := Function.update s.dist e.dest (nd : WithTop K)
  prev := Function.update s.prev e.dest (some (u, e.tag))
  done := s.done

/-- One entry of the row of `u`, which lies at the distance `d`. -/
def relax (u : ℕ) (d : K) (s : State K τ) (e : Link K τ) : State K τ :=
  if s.done e.dest then s
  else if ((d + e.w : K) : WithTop K) < s.dist e.dest then improve u (d + e.w) s e
  else s

def settle (u : ℕ) (heap : List (K × ℕ)) (s : State K τ) : State K τ :=
  { s with heap := heap, done := Function.update s.done u true }

def expand (adj : ℕ → List (Link K τ)) (u : ℕ) (d : K) (s : State K τ) : State K τ :=
  (adj u).foldl (relax u d) s

/-- The loop, for a number of rounds. -/
def run (adj : ℕ → List (Link K τ)) (target : ℕ) : ℕ → State K τ → State K τ
  | 0, s => s
  | n + 1, s =>
      match Heap.pop s.heap with
      | none => s
      | some ((d, u), heap) =>
          if s.done u then run adj target n { s with heap := heap }
          else if u = target then settle u heap s
          else run adj target n (expand adj u d (settle u heap s))

/-- Every entry of a row is pushed at most once. -/
def rounds (N : ℕ) (adj : ℕ → List (Link K τ)) : ℕ := 1 + ∑ u ∈ Finset.range N, (adj u).length

def search (N : ℕ) (adj : ℕ → List (Link K τ)) (source target : ℕ) : State K τ :=
  run adj target (rounds N adj) (init source)

/-- The entries on the way back from a node, the first of the way in front. -/
def trail (prev : ℕ → Option (ℕ × τ)) : ℕ → ℕ → List (ℕ × τ × ℕ)
  | 0, _ => []
  | n + 1, v =>
      match prev v with
      | none => []
      | some (u, tag) => trail prev n u ++ [(u, tag, v)]

/-! ## What holds in every round -/

structure Sound (adj : ℕ → List (Link K τ)) (source : ℕ) (s : State K τ) : Prop where
  entry : ∀ x ∈ s.heap, s.dist x.2 ≠ ⊤
  settled : ∀ u, s.done u = true → s.dist u ≠ ⊤
  reach : ∀ u, s.dist u ≠ ⊤ → Reach adj source u
  queued : ∀ u, s.dist u ≠ ⊤ → s.done u = true ∨ ∃ d, (d, u) ∈ s.heap
  source : s.dist source ≠ ⊤
  prev : ∀ v u tag, s.prev v = some (u, tag) → ∃ e ∈ adj u, e.dest = v ∧ e.tag = tag

/-- The rows of the settled nodes are done, but for the target's. -/
def Closed (adj : ℕ → List (Link K τ)) (target : ℕ) (s : State K τ) : Prop :=
  ∀ u, s.done u = true → u ≠ target → ∀ e ∈ adj u, s.dist e.dest ≠ ⊤

section Rounds

variable {adj : ℕ → List (Link K τ)} {source target u : ℕ} {d : K} {s : State K τ}

omit [LinearOrder K] in
theorem sound_init (source : ℕ) : Sound adj source (init source) where
  entry x hx := by
    obtain rfl := List.mem_singleton.mp hx
    simp [init]
  settled u hu := by cases hu
  reach u hu := by
    by_cases hsource : u = source
    · rw [hsource]
      exact .refl
    · simp [init, hsource] at hu
  queued u hu := by
    by_cases hsource : u = source
    · exact Or.inr ⟨0, by simp [init, hsource]⟩
    · simp [init, hsource] at hu
  source := by simp [init]
  prev v u tag h := by cases h

/-! ### One entry -/

omit [AddZeroClass K] in
theorem dist_improve_ne_top_iff {nd : K} {e : Link K τ} {v : ℕ} :
    (improve u nd s e).dist v ≠ ⊤ ↔ v = e.dest ∨ s.dist v ≠ ⊤ := by
  by_cases hv : v = e.dest
  · simp [improve, hv]
  · simp [improve, hv]

theorem relax_cases (u : ℕ) (d : K) (s : State K τ) (e : Link K τ) :
    (s.done e.dest = true ∨ s.dist e.dest ≠ ⊤) ∧ relax u d s e = s ∨
      s.done e.dest = false ∧ relax u d s e = improve u (d + e.w) s e := by
  rw [relax]
  cases hdone : s.done e.dest with
  | true => exact Or.inl ⟨Or.inl rfl, rfl⟩
  | false =>
      by_cases hlt : ((d + e.w : K) : WithTop K) < s.dist e.dest
      · exact Or.inr ⟨rfl, if_pos hlt⟩
      · exact Or.inl ⟨Or.inr (ne_top_of_le_ne_top WithTop.coe_ne_top (not_lt.mp hlt)), if_neg hlt⟩

@[simp] theorem done_relax (e : Link K τ) : (relax u d s e).done = s.done := by
  obtain ⟨-, h⟩ | ⟨-, h⟩ := relax_cases u d s e
  · rw [h]
  · rw [h]
    rfl

theorem dist_relax_ne_top (e : Link K τ) {v : ℕ} (h : s.dist v ≠ ⊤) :
    (relax u d s e).dist v ≠ ⊤ := by
  obtain ⟨-, hrelax⟩ | ⟨-, hrelax⟩ := relax_cases u d s e
  · rwa [hrelax]
  · rw [hrelax, dist_improve_ne_top_iff]
    exact Or.inr h

theorem length_heap_relax (e : Link K τ) :
    (relax u d s e).heap.length ≤ s.heap.length + 1 := by
  obtain ⟨-, h⟩ | ⟨-, h⟩ := relax_cases u d s e
  · rw [h]
    omega
  · rw [h]
    exact (Heap.length_push _ _).le

theorem dist_to_relax_ne_top (hs : Sound adj source s) (e : Link K τ) :
    (relax u d s e).dist e.dest ≠ ⊤ := by
  obtain ⟨hknown, h⟩ | ⟨-, h⟩ := relax_cases u d s e
  · rw [h]
    exact hknown.elim (hs.settled e.dest) id
  · rw [h, dist_improve_ne_top_iff]
    exact Or.inl rfl

omit [LinearOrder K] [AddZeroClass K] in
/-- A noted predecessor is the new one or an old one. -/
theorem prev_cases {prev : ℕ → Option (ℕ × τ)} {e : Link K τ} {v u' : ℕ} {tag : τ}
    (h : Function.update prev e.dest (some (u, e.tag)) v = some (u', tag)) :
    v = e.dest ∧ u' = u ∧ tag = e.tag ∨ v ≠ e.dest ∧ prev v = some (u', tag) := by
  by_cases hv : v = e.dest
  · rw [hv, Function.update_self] at h
    obtain ⟨rfl, rfl⟩ := Prod.mk.inj (Option.some.inj h)
    exact Or.inl ⟨hv, rfl, rfl⟩
  · rw [Function.update_of_ne hv] at h
    exact Or.inr ⟨hv, h⟩

omit [AddZeroClass K] in
theorem Sound.improve (hs : Sound adj source s) (hu : Reach adj source u) {e : Link K τ}
    (he : e ∈ adj u) (nd : K) : Sound adj source (improve u nd s e) where
  entry x hx := by
    rw [dist_improve_ne_top_iff]
    rcases Heap.mem_push.mp hx with rfl | hold
    · exact Or.inl rfl
    · exact Or.inr (hs.entry x hold)
  settled v hv := dist_improve_ne_top_iff.mpr (Or.inr (hs.settled v hv))
  reach v hv := by
    rcases dist_improve_ne_top_iff.mp hv with rfl | hold
    · exact Relation.ReflTransGen.tail hu ⟨e, he, rfl⟩
    · exact hs.reach v hold
  queued v hv := by
    rcases dist_improve_ne_top_iff.mp hv with rfl | hold
    · exact Or.inr ⟨nd, Heap.mem_push.mpr (Or.inl rfl)⟩
    · obtain hdone | ⟨d, hd⟩ := hs.queued v hold
      · exact Or.inl hdone
      · exact Or.inr ⟨d, Heap.mem_push.mpr (Or.inr hd)⟩
  source := dist_improve_ne_top_iff.mpr (Or.inr hs.source)
  prev v u' tag hprev := by
    rcases prev_cases hprev with ⟨rfl, rfl, rfl⟩ | ⟨-, hold⟩
    · exact ⟨e, he, rfl, rfl⟩
    · exact hs.prev v u' tag hold

theorem Sound.relax (hs : Sound adj source s) (hu : Reach adj source u) {e : Link K τ}
    (he : e ∈ adj u) (d : K) : Sound adj source (relax u d s e) := by
  obtain ⟨-, h⟩ | ⟨-, h⟩ := relax_cases u d s e
  · rwa [h]
  · rw [h]
    exact hs.improve hu he (d + e.w)

/-! ### One row -/

/-- `t` knows the ways that `s` knows, and those to the ends of the entries. -/
structure Extends (s t : State K τ) (es : List (Link K τ)) : Prop where
  done : t.done = s.done
  dist : ∀ v, s.dist v ≠ ⊤ → t.dist v ≠ ⊤
  row : ∀ e ∈ es, t.dist e.dest ≠ ⊤
  length : t.heap.length ≤ s.heap.length + es.length

theorem Sound.foldl (hu : Reach adj source u) {es : List (Link K τ)} (hes : es ⊆ adj u)
    (hs : Sound adj source s) : Sound adj source (es.foldl (Search.relax u d) s) ∧
      Extends s (es.foldl (Search.relax u d) s) es := by
  induction es generalizing s with
  | nil => exact ⟨hs, rfl, fun _ h ↦ h, fun e he ↦ absurd he List.not_mem_nil, le_rfl⟩
  | cons e es ih =>
      obtain ⟨he, hes⟩ := List.cons_subset.mp hes
      obtain ⟨hsound, hext⟩ := ih hes (hs.relax hu he d)
      refine ⟨hsound, hext.done.trans (done_relax e),
        fun v hv ↦ hext.dist v (dist_relax_ne_top e hv), ?_, ?_⟩
      · intro e' he'
        rcases List.mem_cons.mp he' with rfl | he'
        · exact hext.dist e'.dest (dist_to_relax_ne_top hs e')
        · exact hext.row e' he'
      · have hone : (Search.relax u d s e).heap.length ≤ s.heap.length + 1 := length_heap_relax e
        have hrest := hext.length
        rw [List.foldl_cons, List.length_cons]
        omega

theorem Sound.expand (hs : Sound adj source s) (hu : Reach adj source u) (d : K) :
    Sound adj source (expand adj u d s) ∧ Extends s (expand adj u d s) (adj u) :=
  hs.foldl hu (List.Subset.refl _)

/-! ### One round -/

omit [AddZeroClass K] in
theorem Sound.settle (hs : Sound adj source s) {heap : List (K × ℕ)}
    (hpop : Heap.pop s.heap = some ((d, u), heap)) : Sound adj source (settle u heap s) := by
  have hmem : ∀ x, x ∈ s.heap ↔ x = (d, u) ∨ x ∈ heap := by
    intro x
    rw [(Heap.pop_perm hpop).mem_iff, List.mem_cons]
  refine ⟨fun x hx ↦ hs.entry x ((hmem x).mpr (Or.inr hx)), ?_, hs.reach, ?_, hs.source, hs.prev⟩
  · intro v hv
    change Function.update s.done u true v = true at hv
    by_cases hvu : v = u
    · rw [hvu]
      exact hs.entry (d, u) ((hmem _).mpr (Or.inl rfl))
    · rw [Function.update_of_ne hvu] at hv
      exact hs.settled v hv
  · intro v hv
    change Function.update s.done u true v = true ∨ ∃ d, (d, v) ∈ heap
    by_cases hvu : v = u
    · exact Or.inl (by rw [hvu, Function.update_self])
    · rw [Function.update_of_ne hvu]
      obtain hdone | ⟨d', hd'⟩ := hs.queued v hv
      · exact Or.inl hdone
      · rcases (hmem _).mp hd' with heq | hrest
        · exact absurd (Prod.mk.inj heq).2 hvu
        · exact Or.inr ⟨d', hrest⟩

omit [LinearOrder K] [AddZeroClass K] in
theorem settle_of_done (hdone : s.done u = true) (heap : List (K × ℕ)) :
    settle u heap s = { s with heap := heap } := by
  rw [settle, Function.update_eq_self_iff.mpr hdone.symm]

omit [AddZeroClass K] in
theorem Sound.reach_of_pop (hs : Sound adj source s) {heap : List (K × ℕ)}
    (hpop : Heap.pop s.heap = some ((d, u), heap)) : Reach adj source u := by
  have hmem : (d, u) ∈ s.heap := (Heap.pop_perm hpop).mem_iff.mpr (List.mem_cons_self ..)
  exact hs.reach u (hs.entry (d, u) hmem)

theorem Closed.expand (hclosed : Closed adj target s) (hu : Reach adj source u)
    {heap : List (K × ℕ)} (hsettle : Sound adj source (settle u heap s)) (d : K) :
    Closed adj target (expand adj u d (settle u heap s)) := by
  obtain ⟨-, hext⟩ := hsettle.expand hu d
  intro v hv hvt e he
  rw [hext.done] at hv
  change Function.update s.done u true v = true at hv
  by_cases hvu : v = u
  · exact hext.row e (hvu ▸ he)
  · rw [Function.update_of_ne hvu] at hv
    exact hext.dist e.dest (hclosed v hv hvt e he)

/-! ### All rounds -/

/-- How many entries may still be popped. -/
def potential (N : ℕ) (adj : ℕ → List (Link K τ)) (s : State K τ) : ℕ :=
  s.heap.length + ∑ u ∈ (Finset.range N).filter (s.done · = false), (adj u).length

omit [LinearOrder K] [AddZeroClass K] in
theorem potential_settle {N : ℕ} (adj : ℕ → List (Link K τ)) (hu : u < N)
    (hdone : s.done u = false) (heap : List (K × ℕ)) :
    potential N adj (settle u heap s) + (adj u).length + s.heap.length =
      potential N adj s + heap.length := by
  have hfilter : (Finset.range N).filter (Function.update s.done u true · = false) =
      ((Finset.range N).filter (s.done · = false)).erase u := by
    ext v
    by_cases hvu : v = u
    · simp [hvu]
    · simp [hvu]
  have hmem : u ∈ (Finset.range N).filter (s.done · = false) := by simp [hu, hdone]
  have hsum := Finset.sum_erase_add _ (fun v ↦ (adj v).length) hmem
  rw [potential, potential, settle, hfilter]
  dsimp only at hsum ⊢
  omega

omit [LinearOrder K] [AddZeroClass K] in
theorem lt_of_reach {N : ℕ} (hadj : ∀ u < N, ∀ e ∈ adj u, e.dest < N) (hsource : source < N)
    (h : Reach adj source u) : u < N := by
  induction h with
  | refl => exact hsource
  | tail _ hstep ih =>
      obtain ⟨e, he, rfl⟩ := hstep
      exact hadj _ ih e he

omit [AddZeroClass K] in
/-- An outdated entry is popped. -/
theorem potential_drop {N n : ℕ} {adj : ℕ → List (Link K τ)} {heap : List (K × ℕ)}
    (hpop : Heap.pop s.heap = some ((d, u), heap)) (hn : potential N adj s ≤ n + 1) :
    potential N adj { s with heap := heap } ≤ n := by
  have hlen : s.heap.length = heap.length + 1 := (Heap.pop_perm hpop).length_eq
  rw [potential] at hn ⊢
  dsimp only
  omega

/-- A node is settled, and its row is pushed. -/
theorem potential_expand {N n : ℕ} {heap : List (K × ℕ)}
    (hpop : Heap.pop s.heap = some ((d, u), heap)) (hu : u < N) (hdone : s.done u = false)
    (hext : Extends (settle u heap s) (expand adj u d (settle u heap s)) (adj u))
    (hn : potential N adj s ≤ n + 1) :
    potential N adj (expand adj u d (settle u heap s)) ≤ n := by
  have hlen : s.heap.length = heap.length + 1 := (Heap.pop_perm hpop).length_eq
  have hpot := potential_settle adj hu hdone heap
  have hgrow := hext.length
  rw [potential, hext.done]
  rw [potential] at hpot
  omega

theorem run_spec {N : ℕ} (hadj : ∀ u < N, ∀ e ∈ adj u, e.dest < N) (hsource : source < N)
    (target n : ℕ) (hs : Sound adj source s) (hclosed : Closed adj target s)
    (hn : potential N adj s ≤ n) :
    Sound adj source (run adj target n s) ∧ Closed adj target (run adj target n s) ∧
      ((run adj target n s).heap = [] ∨ (run adj target n s).done target = true) := by
  induction n generalizing s with
  | zero =>
      have hempty : s.heap.length = 0 := by
        rw [potential] at hn
        omega
      exact ⟨hs, hclosed, Or.inl (List.length_eq_zero_iff.mp hempty)⟩
  | succ n ih =>
      rw [run]
      cases hpop : Heap.pop s.heap with
      | none => exact ⟨hs, hclosed, Or.inl (Heap.pop_eq_none.mp hpop)⟩
      | some top =>
          obtain ⟨⟨d, u⟩, heap⟩ := top
          have hu := hs.reach_of_pop hpop
          have hsettle := hs.settle hpop
          dsimp only
          cases hdone : s.done u with
          | true =>
              -- an outdated entry
              rw [if_pos rfl]
              rw [settle_of_done hdone] at hsettle
              exact ih hsettle hclosed (potential_drop hpop hn)
          | false =>
              rw [if_neg Bool.false_ne_true]
              by_cases hut : u = target
              · rw [if_pos hut]
                refine ⟨hsettle, ?_, Or.inr ?_⟩
                · intro v hv hvt
                  change Function.update s.done u true v = true at hv
                  rw [Function.update_of_ne (hut ▸ hvt)] at hv
                  exact hclosed v hv hvt
                · change Function.update s.done u true target = true
                  rw [hut, Function.update_self]
              · rw [if_neg hut]
                obtain ⟨hsound, hext⟩ := hsettle.expand hu d
                apply ih hsound (hclosed.expand hu hsettle d)
                exact potential_expand hpop (lt_of_reach hadj hsource hu) hdone hext hn

/-- Rounds beyond those change nothing. -/
theorem run_of_le {N : ℕ} (hadj : ∀ u < N, ∀ e ∈ adj u, e.dest < N) (hsource : source < N)
    (target : ℕ) {n m : ℕ} (hs : Sound adj source s) (hn : potential N adj s ≤ n) (hm : n ≤ m) :
    run adj target m s = run adj target n s := by
  induction n generalizing s m with
  | zero =>
      have hempty : s.heap = [] := by
        apply List.length_eq_zero_iff.mp
        rw [potential] at hn
        omega
      cases m with
      | zero => rfl
      | succ m =>
          rw [run, run, Heap.pop_eq_none.mpr hempty]
  | succ n ih =>
      obtain ⟨m, rfl⟩ := Nat.exists_eq_add_one_of_ne_zero (Nat.ne_zero_of_lt hm)
      have hm := Nat.le_of_succ_le_succ hm
      rw [run, run]
      cases hpop : Heap.pop s.heap with
      | none => rfl
      | some top =>
          obtain ⟨⟨d, u⟩, heap⟩ := top
          have hu := hs.reach_of_pop hpop
          have hsettle := hs.settle hpop
          dsimp only
          cases hdone : s.done u with
          | true =>
              rw [settle_of_done hdone] at hsettle
              exact ih hsettle (potential_drop hpop hn) hm
          | false =>
              obtain ⟨hsound, hext⟩ := hsettle.expand hu d
              rw [if_neg Bool.false_ne_true, if_neg Bool.false_ne_true]
              by_cases hut : u = target
              · rw [if_pos hut, if_pos hut]
              · rw [if_neg hut, if_neg hut]
                apply ih hsound ?_ hm
                exact potential_expand hpop (lt_of_reach hadj hsource hu) hdone hext hn

/-! ### Without a target -/

/-- What `s` has settled is left alone. -/
structure Keeps (s t : State K τ) : Prop where
  done : ∀ v, s.done v = true → t.done v = true
  dist : ∀ v, s.done v = true → t.dist v = s.dist v
  prev : ∀ v, s.done v = true → t.prev v = s.prev v

omit [LinearOrder K] [AddZeroClass K] in
theorem Keeps.refl (s : State K τ) : Keeps s s := ⟨fun _ h ↦ h, fun _ _ ↦ rfl, fun _ _ ↦ rfl⟩

omit [LinearOrder K] [AddZeroClass K] in
theorem Keeps.trans {t r : State K τ} (h : Keeps s t) (h' : Keeps t r) : Keeps s r where
  done v hv := h'.done v (h.done v hv)
  dist v hv := (h'.dist v (h.done v hv)).trans (h.dist v hv)
  prev v hv := (h'.prev v (h.done v hv)).trans (h.prev v hv)

theorem keeps_relax (u : ℕ) (d : K) (s : State K τ) (e : Link K τ) : Keeps s (relax u d s e) := by
  obtain ⟨-, h⟩ | ⟨hopen, h⟩ := relax_cases u d s e
  · rw [h]
    exact Keeps.refl s
  · have hne : ∀ v, s.done v = true → v ≠ e.dest := by
      rintro v hv rfl
      exact Bool.false_ne_true (hopen.symm.trans hv)
    rw [h]
    refine ⟨fun v hv ↦ hv, ?_, ?_⟩
    · exact fun v hv ↦ Function.update_of_ne (hne v hv) _ _
    · exact fun v hv ↦ Function.update_of_ne (hne v hv) _ _

theorem keeps_expand (adj : ℕ → List (Link K τ)) (u : ℕ) (d : K) (s : State K τ) :
    Keeps s (expand adj u d s) := by
  rw [expand]
  generalize adj u = es
  induction es generalizing s with
  | nil => exact Keeps.refl s
  | cons e es ih => exact (keeps_relax u d s e).trans (ih _)

omit [LinearOrder K] [AddZeroClass K] in
theorem keeps_settle (u : ℕ) (heap : List (K × ℕ)) (s : State K τ) :
    Keeps s (settle u heap s) := by
  refine ⟨?_, fun _ _ ↦ rfl, fun _ _ ↦ rfl⟩
  intro v hv
  change Function.update s.done u true v = true
  by_cases hvu : v = u
  · rw [hvu, Function.update_self]
  · rwa [Function.update_of_ne hvu]

theorem keeps_run (adj : ℕ → List (Link K τ)) (target n : ℕ) (s : State K τ) :
    Keeps s (run adj target n s) := by
  induction n generalizing s with
  | zero => exact Keeps.refl s
  | succ n ih =>
      rw [run]
      cases Heap.pop s.heap with
      | none => exact Keeps.refl s
      | some top =>
          obtain ⟨⟨d, u⟩, heap⟩ := top
          dsimp only
          split
          · have hdrop : Keeps s { s with heap := heap } :=
              ⟨fun _ h ↦ h, fun _ _ ↦ rfl, fun _ _ ↦ rfl⟩
            exact hdrop.trans (ih _)
          · split
            · exact keeps_settle u heap s
            · exact ((keeps_settle u heap s).trans (keeps_expand adj u d _)).trans (ih _)

/-- The run that does not stop at the target leaves what the other has settled. -/
theorem run_exhaustive {N : ℕ} (hbound : ∀ u, Reach adj source u → u < N) {target n : ℕ}
    (hs : Sound adj source s) (hopen : s.done target = false) :
    run adj target n s = run adj N n s ∨
      (run adj target n s).done target = true ∧ Keeps (run adj target n s) (run adj N n s) := by
  induction n generalizing s with
  | zero => exact Or.inl rfl
  | succ n ih =>
      rw [run, run]
      cases hpop : Heap.pop s.heap with
      | none => exact Or.inl rfl
      | some top =>
          obtain ⟨⟨d, u⟩, heap⟩ := top
          have hu := hs.reach_of_pop hpop
          have hsettle := hs.settle hpop
          dsimp only
          cases hdone : s.done u with
          | true =>
              rw [settle_of_done hdone] at hsettle
              exact ih hsettle hopen
          | false =>
              rw [if_neg Bool.false_ne_true, if_neg Bool.false_ne_true, if_neg (hbound u hu).ne]
              by_cases hut : u = target
              · rw [if_pos hut]
                refine Or.inr ⟨?_, (keeps_expand adj u d _).trans (keeps_run adj N n _)⟩
                rw [← hut]
                exact Function.update_self ..
              · rw [if_neg hut]
                obtain ⟨hsound, hext⟩ := hsettle.expand hu d
                apply ih hsound
                rw [hext.done]
                exact (Function.update_of_ne (Ne.symm hut) _ _).trans hopen

omit [LinearOrder K] in
theorem potential_init {N : ℕ} (source : ℕ) :
    potential N adj (init source) ≤ rounds N adj := by
  rw [potential, rounds]
  refine add_le_add le_rfl (Finset.sum_le_sum_of_subset ?_)
  exact Finset.filter_subset _ _

section Result

variable {N : ℕ} (hadj : ∀ u < N, ∀ e ∈ adj u, e.dest < N) (hsource : source < N)
include hadj hsource

theorem sound_search (target : ℕ) : Sound adj source (search N adj source target) :=
  (run_spec hadj hsource target _ (sound_init source) (fun u hu ↦ by cases hu)
    (potential_init source)).1

/-- The target gets a distance exactly if there is a way to it. -/
theorem dist_search_ne_top_iff :
    (search N adj source target).dist target ≠ ⊤ ↔ Reach adj source target := by
  obtain ⟨hsound, hclosed, hend⟩ := run_spec hadj hsource target (rounds N adj)
    (sound_init source) (fun u hu ↦ by cases hu) (potential_init source)
  constructor
  · exact hsound.reach target
  · intro hreach
    by_cases htarget : (search N adj source target).done target = true
    · exact hsound.settled target htarget
    · have hempty : (search N adj source target).heap = [] := hend.resolve_right htarget
      have hall : ∀ v, Reach adj source v → (search N adj source target).dist v ≠ ⊤ := by
        intro v hv
        induction hv with
        | refl => exact hsound.source
        | @tail u v _ hstep ih =>
            obtain ⟨e, he, rfl⟩ := hstep
            obtain hdone | ⟨d, hd⟩ := hsound.queued u ih
            · refine hclosed u hdone ?_ e he
              rintro rfl
              exact htarget hdone
            · rw [show (run adj target _ _).heap = [] from hempty] at hd
              cases hd
      exact hall target hreach

end Result

end Rounds

/-! ## The way back -/

theorem prev_of_mem_trail {prev : ℕ → Option (ℕ × τ)} {n w u v : ℕ} {tag : τ}
    (h : (u, tag, v) ∈ trail prev n w) : prev v = some (u, tag) := by
  induction n generalizing w with
  | zero => cases h
  | succ n ih =>
      rw [trail] at h
      cases hw : prev w with
      | none =>
          rw [hw] at h
          cases h
      | some p =>
          rw [hw] at h
          rcases List.mem_append.mp h with hfront | hlast
          · exact ih hfront
          · obtain ⟨rfl, hrest⟩ := Prod.mk.inj (List.mem_singleton.mp hlast)
            obtain ⟨rfl, rfl⟩ := Prod.mk.inj hrest
            exact hw

omit [LinearOrder K] [AddZeroClass K] in
/-- Every step of the way back is an entry of a row. -/
theorem Sound.step_of_mem_trail {adj : ℕ → List (Link K τ)} {source n w u v : ℕ} {tag : τ}
    {s : State K τ} (hs : Sound adj source s) (h : (u, tag, v) ∈ trail s.prev n w) :
    ∃ e ∈ adj u, e.dest = v ∧ e.tag = tag :=
  hs.prev v u tag (prev_of_mem_trail h)

end Search
