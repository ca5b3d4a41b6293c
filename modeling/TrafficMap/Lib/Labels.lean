import TrafficMap.Lib.Shortest

/-!
# Labels of a search from several sources

Every source starts with a cost of its own.  A search that always settles the open
node with the least label, in whatever it keeps the labels, ends with the cost of a
cheapest way at each node, and the way back ends at a source whose label is its own
cost.
-/

namespace Labels

open Links Search

variable {K τ : Type*} [AddCommMonoid K] [LinearOrder K]

/-- Each label is the cost of its node as a source, or that of the predecessor and the
entry from there, and no settled node lies behind an open one. -/
structure Ok (adj : ℕ → List (Link K τ)) (start dist : ℕ → WithTop K)
    (prev : ℕ → Option (ℕ × τ)) (done : ℕ → Bool) : Prop where
  le_start : ∀ v, dist v ≤ start v
  root : ∀ v, prev v = none → dist v = start v
  prev : ∀ v u tag, prev v = some (u, tag) → done u = true ∧
    ∃ e ∈ adj u, e.dest = v ∧ e.tag = tag ∧ dist v = dist u + (e.w : WithTop K)
  floor : ∀ u v, done u = true → done v = false → dist u ≤ dist v

/-- No entry of a settled node leads on in a cheaper way. -/
def Relaxed (adj : ℕ → List (Link K τ)) (dist : ℕ → WithTop K) (done : ℕ → Bool) : Prop :=
  ∀ u, done u = true → ∀ e ∈ adj u, dist e.dest ≤ dist u + (e.w : WithTop K)

/-- The row of `u` is in turn, as the last one to be settled. -/
structure Turn (dist : ℕ → WithTop K) (done : ℕ → Bool) (u : ℕ) : Prop where
  settled : done u = true
  last : ∀ v, done v = true → dist v ≤ dist u

/-- Only open nodes get lower labels. -/
structure Lowers (done : ℕ → Bool) (dist dist' : ℕ → WithTop K) : Prop where
  le : ∀ v, dist' v ≤ dist v
  settled : ∀ v, done v = true → dist' v = dist v

section Rounds

variable {adj : ℕ → List (Link K τ)} {start dist dist' dist'' : ℕ → WithTop K}
  {prev : ℕ → Option (ℕ × τ)} {done : ℕ → Bool} {u v : ℕ}

theorem ok_start (adj : ℕ → List (Link K τ)) (start : ℕ → WithTop K) :
    Ok adj start start (fun _ ↦ none) (fun _ ↦ false) where
  le_start _ := le_rfl
  root _ _ := rfl
  prev v u tag h := by cases h
  floor u v h := by cases h

theorem relaxed_start (adj : ℕ → List (Link K τ)) (start : ℕ → WithTop K) :
    Relaxed adj start (fun _ ↦ false) :=
  fun _ h ↦ absurd h Bool.false_ne_true

omit [AddCommMonoid K] in
theorem Lowers.refl (done : ℕ → Bool) (dist : ℕ → WithTop K) : Lowers done dist dist :=
  ⟨fun _ ↦ le_rfl, fun _ _ ↦ rfl⟩

omit [AddCommMonoid K] in
theorem Lowers.trans (h : Lowers done dist dist') (h' : Lowers done dist' dist'') :
    Lowers done dist dist'' where
  le v := (h'.le v).trans (h.le v)
  settled v hv := (h'.settled v hv).trans (h.settled v hv)

omit [AddCommMonoid K] in
theorem Turn.lowers (ht : Turn dist done u) (h : Lowers done dist dist') :
    Turn dist' done u where
  settled := ht.settled
  last v hv := by
    rw [h.settled v hv, h.settled u ht.settled]
    exact ht.last v hv

/-! ### The next node -/

section Settle

variable (h : Ok adj start dist prev done) (hu : done u = false)
  (hmin : ∀ v, done v = false → dist u ≤ dist v)
include h hu hmin

theorem Ok.settle : Ok adj start dist prev (Function.update done u true) where
  le_start := h.le_start
  root := h.root
  prev v w tag hprev := by
    obtain ⟨hw, hentry⟩ := h.prev v w tag hprev
    refine ⟨?_, hentry⟩
    rw [Function.update_of_ne, hw]
    rintro rfl
    rw [hu] at hw
    cases hw
  floor w v hw hv := by
    have hvu : v ≠ u := by
      rintro rfl
      rw [Function.update_self] at hv
      cases hv
    rw [Function.update_of_ne hvu] at hv
    by_cases hwu : w = u
    · rw [hwu]
      exact hmin v hv
    · rw [Function.update_of_ne hwu] at hw
      exact h.floor w v hw hv

omit hmin in
theorem Ok.turn : Turn dist (Function.update done u true) u where
  settled := Function.update_self ..
  last v hv := by
    by_cases hvu : v = u
    · rw [hvu]
    · rw [Function.update_of_ne hvu] at hv
      exact h.floor v u hv hu

end Settle

/-! ### An entry of its row -/

section Entry

variable {e : Link K τ}

omit [AddCommMonoid K] in
theorem lowers_update {d : WithTop K} (hopen : done e.dest = false) (hlt : d < dist e.dest) :
    Lowers done dist (Function.update dist e.dest d) where
  le v := by
    by_cases hv : v = e.dest
    · rw [hv, Function.update_self]
      exact hlt.le
    · rw [Function.update_of_ne hv]
  settled v hv := Function.update_of_ne (ne_of_open hopen hv) _ _

variable [IsOrderedAddMonoid K]

theorem Turn.le_of_done (ht : Turn dist done u) (hw : 0 ≤ e.w) (hdone : done v = true) :
    dist v ≤ dist u + (e.w : WithTop K) := by
  apply (ht.last v hdone).trans
  exact le_add_of_nonneg_right (WithTop.coe_nonneg.mpr hw)

theorem Ok.lower (h : Ok adj start dist prev done) (ht : Turn dist done u) (hw : 0 ≤ e.w)
    (he : e ∈ adj u) (hopen : done e.dest = false)
    (hlt : dist u + (e.w : WithTop K) < dist e.dest) :
    Ok adj start (Function.update dist e.dest (dist u + (e.w : WithTop K)))
      (Function.update prev e.dest (some (u, e.tag))) done := by
  have hlow := lowers_update hopen hlt
  constructor
  · exact fun v ↦ (hlow.le v).trans (h.le_start v)
  · intro v hprev
    by_cases hv : v = e.dest
    · rw [hv, Function.update_self] at hprev
      cases hprev
    · rw [Function.update_of_ne hv] at hprev ⊢
      exact h.root v hprev
  · intro v u' tag hprev
    by_cases hv : v = e.dest
    · rw [hv, Function.update_self] at hprev
      obtain ⟨rfl, rfl⟩ := Prod.mk.inj (Option.some.inj hprev)
      refine ⟨ht.settled, e, he, hv.symm, rfl, ?_⟩
      rw [hv, Function.update_self, hlow.settled u ht.settled]
    · rw [Function.update_of_ne hv] at hprev
      obtain ⟨hdone, e', he', hdest, htag, hdist⟩ := h.prev v u' tag hprev
      refine ⟨hdone, e', he', hdest, htag, ?_⟩
      rw [Function.update_of_ne hv, hlow.settled u' hdone, hdist]
  · intro w v hdone hv
    rw [hlow.settled w hdone]
    by_cases hve : v = e.dest
    · rw [hve, Function.update_self]
      exact ht.le_of_done hw hdone
    · rw [Function.update_of_ne hve]
      exact h.floor w v hdone hv

end Entry

theorem Relaxed.settle (h : Relaxed adj dist done)
    (hlow : Lowers (Function.update done u true) dist dist')
    (hrow : ∀ e ∈ adj u, dist' e.dest ≤ dist u + (e.w : WithTop K)) :
    Relaxed adj dist' (Function.update done u true) := by
  intro w hw e he
  rw [hlow.settled w hw]
  by_cases hwu : w = u
  · subst hwu
    exact hrow e he
  · rw [Function.update_of_ne hwu] at hw
    exact (hlow.le e.dest).trans (h w hw e he)

end Rounds

/-! ## The result -/

section Result

variable {adj : ℕ → List (Link K τ)} {start dist : ℕ → WithTop K} {prev : ℕ → Option (ℕ × τ)}
  {done : ℕ → Bool} {u v : ℕ} (h : Ok adj start dist prev done)
include h

/-- As many steps back as are taken make a way, and only from a source there is none more. -/
theorem Ok.exists_way_trail (n v : ℕ) : ∃ s d, Way adj s v d (trail prev n v) ∧
    dist v = dist s + (d : WithTop K) ∧
      (trail prev (n + 1) v = trail prev n v → prev s = none) := by
  induction n generalizing v with
  | zero =>
      refine ⟨v, 0, Way.nil, (add_zero _).symm, ?_⟩
      intro hend
      rw [trail, trail] at hend
      cases hprev : prev v with
      | none => rfl
      | some p =>
          rw [hprev] at hend
          exact absurd hend (List.append_ne_nil_of_right_ne_nil _ (List.cons_ne_nil _ _))
  | succ n ih =>
      cases hprev : prev v with
      | none =>
          refine ⟨v, 0, ?_, (add_zero _).symm, fun _ ↦ hprev⟩
          rw [trail, hprev]
          exact Way.nil
      | some p =>
          obtain ⟨u, tag⟩ := p
          obtain ⟨s, d, hway, hdist, hroot⟩ := ih u
          obtain ⟨-, e, he, rfl, rfl, hlabel⟩ := h.prev v u tag hprev
          refine ⟨s, d + e.w, ?_, ?_, ?_⟩
          · rw [trail, hprev]
            exact hway.snoc he
          · rw [hlabel, hdist, WithTop.coe_add, add_assoc]
          · intro hend
            rw [trail, hprev, trail, hprev] at hend
            exact hroot (List.append_cancel_right hend)

/-- The way back ends at a source with its own cost. -/
theorem Ok.way_trail {n : ℕ} (hend : trail prev (n + 1) v = trail prev n v) :
    ∃ s d, Way adj s v d (trail prev n v) ∧ prev s = none ∧ dist s = start s ∧
      dist v = start s + (d : WithTop K) := by
  obtain ⟨s, d, hway, hdist, hroot⟩ := h.exists_way_trail n v
  have hstart := h.root s (hroot hend)
  refine ⟨s, d, hway, hroot hend, hstart, ?_⟩
  rw [hdist, hstart]

variable (hrel : Relaxed adj dist done) (hall : ∀ v, dist v ≠ ⊤ → done v = true)
include hrel hall

/-- No way is cheaper than the label. -/
theorem Ok.le_of_way [IsOrderedAddMonoid K] {s : ℕ} {d : K} {hops : List (ℕ × τ × ℕ)}
    (hway : Way adj s v d hops) : dist v ≤ start s + (d : WithTop K) := by
  induction hway with
  | nil => exact (h.le_start s).trans_eq (add_zero _).symm
  | @snoc u d hops e _ he ih =>
      rw [WithTop.coe_add, ← add_assoc]
      by_cases htop : dist u = ⊤
      · rw [htop, top_le_iff] at ih
        rw [ih, WithTop.top_add]
        exact le_top
      · exact (hrel u (hall u htop) e he).trans (add_le_add_left ih _)

end Result

end Labels
