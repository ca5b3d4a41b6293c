import Mathlib.Data.List.Nodup
import Mathlib.Data.List.Induction

/-!
# Greedy passes

Passes over a list of items, each item taken as soon as it may be after those that are
taken already, until a pass takes nothing.  What is taken in the end depends on the
order of the list, unless every item that may be taken stays in reach.
-/

namespace Greedy

variable {α : Type*} (may : List α → α → Bool)

/-- One pass: what it leaves, and what is taken after it. -/
def pass : List α → List α → List α × List α
  | taken, [] => ([], taken)
  | taken, x :: items =>
      if may taken x then pass (taken ++ [x]) items
      else
        let (left, taken) := pass taken items
        (x :: left, taken)

/-- Passes until one takes nothing. -/
def passes : ℕ → List α → List α → List α
  | 0, taken, _ => taken
  | n + 1, taken, items =>
      let (left, taken) := pass may taken items
      if left.length = items.length then taken else passes n taken left

/-- What is taken of the items in the end. -/
def run (items : List α) : List α := passes may items.length [] items

/-- The items may be taken one after the other. -/
def Legal : List α → List α → Prop
  | _, [] => True
  | taken, x :: items => may taken x = true ∧ Legal (taken ++ [x]) items

/-- Items that may be taken in this order, each once. -/
structure Sequence (items σ : List α) : Prop where
  legal : Legal may [] σ
  nodup : σ.Nodup
  subset : σ ⊆ items

/-- What may be taken after some items can still be taken, then or later, after these and
more. -/
def StaysInReach (items : List α) : Prop :=
  ∀ σ x τ, Sequence may items (σ ++ [x]) → Sequence may items τ → σ ⊆ τ →
    ∃ ρ, Sequence may items (τ ++ ρ) ∧ x ∈ τ ++ ρ

section Pass

variable {may} {taken items : List α}

theorem legal_append {σ τ : List α} :
    Legal may taken (σ ++ τ) ↔ Legal may taken σ ∧ Legal may (taken ++ σ) τ := by
  induction σ generalizing taken with
  | nil => simp [Legal]
  | cons x σ ih =>
      rw [List.cons_append, Legal, Legal, ih, and_assoc, List.append_assoc, List.singleton_append]

theorem pass_append (taken σ τ : List α) : pass may taken (σ ++ τ) =
    ((pass may taken σ).1 ++ (pass may (pass may taken σ).2 τ).1,
      (pass may (pass may taken σ).2 τ).2) := by
  induction σ generalizing taken with
  | nil => rfl
  | cons x σ ih =>
      rw [List.cons_append, pass, pass]
      split
      · exact ih _
      · rw [ih]
        rfl

theorem pass_of_legal {σ : List α} (h : Legal may taken σ) :
    pass may taken σ = ([], taken ++ σ) := by
  induction σ generalizing taken with
  | nil => rw [pass, List.append_nil]
  | cons x σ ih =>
      obtain ⟨hx, hrest⟩ := h
      rw [pass, if_pos hx, ih hrest, List.append_assoc, List.singleton_append]

variable (may) in
theorem pass_spec (taken items : List α) : ∃ new, Legal may taken new ∧
    (pass may taken items).2 = taken ++ new ∧
      (new ++ (pass may taken items).1).Perm items := by
  induction items generalizing taken with
  | nil => exact ⟨[], trivial, (List.append_nil _).symm, List.Perm.refl _⟩
  | cons x items ih =>
      rw [pass]
      split
      · rename_i hx
        obtain ⟨new, hlegal, htaken, hperm⟩ := ih (taken ++ [x])
        refine ⟨x :: new, ⟨hx, hlegal⟩, ?_, hperm.cons x⟩
        rw [htaken, List.append_assoc, List.singleton_append]
      · obtain ⟨new, hlegal, htaken, hperm⟩ := ih taken
        exact ⟨new, hlegal, htaken, List.perm_middle.trans (hperm.cons x)⟩

variable (may) in
theorem length_pass_le (taken items : List α) :
    (pass may taken items).1.length ≤ items.length := by
  obtain ⟨new, -, -, hperm⟩ := pass_spec may taken items
  rw [← hperm.length_eq, List.length_append]
  omega

/-- A pass that takes nothing finds nothing to take. -/
theorem pass_fixed (h : (pass may taken items).1.length = items.length) :
    pass may taken items = (items, taken) ∧ ∀ x ∈ items, may taken x = false := by
  induction items generalizing taken with
  | nil => exact ⟨rfl, fun x hx ↦ absurd hx List.not_mem_nil⟩
  | cons x items ih =>
      cases hx : may taken x with
      | true =>
          rw [pass, if_pos hx, List.length_cons] at h
          have hle := length_pass_le may (taken ++ [x]) items
          omega
      | false =>
          rw [pass, hx, if_neg Bool.false_ne_true] at h ⊢
          obtain ⟨hpass, hnone⟩ := ih (Nat.succ.inj h)
          rw [hpass]
          refine ⟨rfl, ?_⟩
          intro y hy
          rcases List.mem_cons.mp hy with rfl | hy
          · exact hx
          · exact hnone y hy

variable (may) in
theorem passes_spec (n : ℕ) (taken items : List α) (hn : items.length ≤ n) :
    ∃ new left, Legal may taken new ∧ passes may n taken items = taken ++ new ∧
      (new ++ left).Perm items ∧ ∀ x ∈ left, may (taken ++ new) x = false := by
  induction n generalizing taken items with
  | zero =>
      obtain rfl := List.length_eq_zero_iff.mp (Nat.le_zero.mp hn)
      exact ⟨[], [], trivial, (List.append_nil _).symm, List.Perm.refl _,
        fun x hx ↦ absurd hx List.not_mem_nil⟩
  | succ n ih =>
      rw [passes]
      dsimp only
      split
      · rename_i hlength
        obtain ⟨hpass, hnone⟩ := pass_fixed hlength
        rw [hpass]
        refine ⟨[], items, trivial, (List.append_nil _).symm, List.Perm.refl _, ?_⟩
        rwa [List.append_nil]
      · rename_i hlength
        have hle := length_pass_le may taken items
        obtain ⟨new, hlegal, htaken, hperm⟩ := pass_spec may taken items
        obtain ⟨new', left, hlegal', htaken', hperm', hnone⟩ :=
          ih (pass may taken items).2 (pass may taken items).1 (by omega)
        rw [htaken] at hlegal' htaken' hnone
        rw [htaken, htaken']
        refine ⟨new ++ new', left, legal_append.mpr ⟨hlegal, hlegal'⟩, List.append_assoc _ _ _, ?_,
          ?_⟩
        · rw [List.append_assoc]
          exact (hperm'.append_left new).trans hperm
        · rwa [← List.append_assoc]

/-- Items in front that may be taken in their order are taken first. -/
theorem passes_of_legal {σ τ : List α} (h : Legal may taken σ) : ∃ new left,
    Legal may taken (σ ++ new) ∧
      passes may (σ ++ τ).length taken (σ ++ τ) = taken ++ (σ ++ new) ∧
        (σ ++ new ++ left).Perm (σ ++ τ) := by
  cases σ with
  | nil =>
      obtain ⟨new, left, hlegal, htaken, hperm, -⟩ :=
        passes_spec may τ.length taken τ (Nat.le_refl _)
      exact ⟨new, left, hlegal, htaken, hperm⟩
  | cons x σ =>
      have hfirst : pass may taken (x :: σ ++ τ) = pass may (taken ++ (x :: σ)) τ := by
        rw [pass_append, pass_of_legal h]
        rfl
      have hle := length_pass_le may (taken ++ (x :: σ)) τ
      have hlength : (x :: σ ++ τ).length = (σ ++ τ).length + 1 := rfl
      obtain ⟨new, hlegal, htaken, hperm⟩ := pass_spec may (taken ++ (x :: σ)) τ
      obtain ⟨new', left, hlegal', htaken', hperm', -⟩ := passes_spec may (σ ++ τ).length
        (pass may (taken ++ (x :: σ)) τ).2 (pass may (taken ++ (x :: σ)) τ).1
        (by rw [List.length_append]; omega)
      rw [hlength, passes, hfirst]
      dsimp only
      rw [htaken] at hlegal' htaken' ⊢
      rw [if_neg (by rw [hlength, List.length_append]; omega), htaken']
      refine ⟨new ++ new', left, ?_, ?_, ?_⟩
      · exact legal_append.mpr ⟨h, legal_append.mpr ⟨hlegal, hlegal'⟩⟩
      · rw [List.append_assoc, List.append_assoc]
      · rw [List.append_assoc, List.append_assoc]
        exact ((hperm'.append_left new).trans hperm).append_left (x :: σ)

end Pass

/-! ## The order of the items -/

section Order

variable {may} {items order : List α}

theorem run_spec (may : List α → α → Bool) (items : List α) : ∃ left,
    Legal may [] (run may items) ∧ (run may items ++ left).Perm items ∧
      ∀ x ∈ left, may (run may items) x = false := by
  obtain ⟨new, left, hlegal, htaken, hperm, hnone⟩ :=
    passes_spec may items.length [] items (Nat.le_refl _)
  rw [List.nil_append] at htaken hnone
  rw [run, htaken]
  exact ⟨left, hlegal, hperm, hnone⟩

theorem sequence_of_perm (hnodup : items.Nodup) {σ left : List α} (hlegal : Legal may [] σ)
    (hperm : (σ ++ left).Perm items) : Sequence may items σ where
  legal := hlegal
  nodup := (List.nodup_append.mp (hperm.nodup_iff.mpr hnodup)).1
  subset _ hx := hperm.mem_iff.mp (List.mem_append_left left hx)

variable [DecidableEq α]

/-- A sequence is put in front. -/
theorem Sequence.run_front (hnodup : items.Nodup) {σ : List α} (hσ : Sequence may items σ) :
    ∃ order ρ, order.Perm items ∧ run may order = σ ++ ρ ∧ Sequence may items (σ ++ ρ) := by
  have hperm : (σ ++ items.filter (· ∉ σ)).Perm items := by
    rw [List.perm_ext_iff_of_nodup ?_ hnodup]
    · intro x
      by_cases hx : x ∈ σ
      · simp [hx, hσ.subset hx]
      · simp [hx]
    · rw [List.nodup_append]
      refine ⟨hσ.nodup, hnodup.filter _, ?_⟩
      rintro x hx y hy rfl
      have hnot : x ∉ σ := by simpa using List.of_mem_filter hy
      exact hnot hx
  obtain ⟨new, left, hlegal, htaken, hall⟩ := passes_of_legal (τ := items.filter (· ∉ σ)) hσ.legal
  rw [List.nil_append] at htaken
  exact ⟨_, new, hperm, htaken, sequence_of_perm hnodup hlegal (hall.trans hperm)⟩

omit [DecidableEq α] in
/-- What may be taken ever after stays in reach. -/
theorem staysInReach_of_mono (h : ∀ x ∈ items, ∀ σ τ, σ ⊆ τ → may σ x = true → may τ x = true) :
    StaysInReach may items := by
  intro σ x τ hσ hτ hsub
  have hx : x ∈ items := hσ.subset (List.mem_append_right σ (List.mem_singleton_self x))
  by_cases hmem : x ∈ τ
  · exact ⟨[], by rwa [List.append_nil], by rwa [List.append_nil]⟩
  · refine ⟨[x], ⟨?_, ?_, ?_⟩, List.mem_append_right τ (List.mem_singleton_self x)⟩
    · apply legal_append.mpr
      refine ⟨hτ.legal, ?_, trivial⟩
      rw [List.nil_append]
      apply h x hx σ τ hsub
      have hlast := (legal_append.mp hσ.legal).2.1
      rwa [List.nil_append] at hlast
    · apply List.nodup_append.mpr
      refine ⟨hτ.nodup, List.nodup_singleton x, ?_⟩
      rintro y hy z hz rfl
      exact hmem (List.mem_singleton.mp hz ▸ hy)
    · exact List.append_subset.mpr ⟨hτ.subset, List.cons_subset.mpr ⟨hx, List.nil_subset _⟩⟩

omit [DecidableEq α] in
/-- Nothing is missed that some order of the items takes. -/
theorem run_subset (hnodup : items.Nodup) (hreach : StaysInReach may items)
    (horder : order.Perm items) {order' : List α} (horder' : order'.Perm items) :
    run may order ⊆ run may order' := by
  obtain ⟨left, hlegal, hperm, -⟩ := run_spec may order
  obtain ⟨left', hlegal', hperm', hnone⟩ := run_spec may order'
  have hseq := sequence_of_perm hnodup hlegal (hperm.trans horder)
  have hseq' := sequence_of_perm hnodup hlegal' (hperm'.trans horder')
  have hprefix : ∀ σ, σ <+: run may order → σ ⊆ run may order' := by
    intro σ
    induction σ using List.reverseRecOn with
    | nil => exact fun _ ↦ List.nil_subset _
    | append_singleton σ x ih =>
        intro hpre
        have hσ := ih ((List.prefix_append σ [x]).trans hpre)
        have hx : Sequence may items (σ ++ [x]) := by
          obtain ⟨rest, hrest⟩ := hpre
          rw [← hrest] at hseq
          exact ⟨(legal_append.mp hseq.legal).1, (List.nodup_append.mp hseq.nodup).1,
            (List.append_subset.mp hseq.subset).1⟩
        obtain ⟨ρ, hρ, hmem⟩ := hreach σ x _ hx hseq' hσ
        have hnil : ρ = [] := by
          cases ρ with
          | nil => rfl
          | cons y ρ =>
              -- the run has stopped, so nothing can follow
              have hy := (legal_append.mp hρ.legal).2.1
              have hleft : y ∈ left' := by
                have hmem : y ∈ run may order' ++ left' :=
                  (hperm'.trans horder').mem_iff.mpr (hρ.subset (by simp))
                apply (List.mem_append.mp hmem).resolve_left
                intro hold
                exact (List.nodup_append.mp hρ.nodup).2.2 y hold y (by simp) rfl
              rw [List.nil_append, hnone y hleft] at hy
              cases hy
        rw [hnil, List.append_nil] at hmem
        exact List.append_subset.mpr ⟨hσ, List.cons_subset.mpr ⟨hmem, List.nil_subset _⟩⟩
  exact hprefix _ (List.prefix_refl _)

/-- The order of the items makes no difference exactly if what may be taken stays in
reach. -/
theorem run_order_iff (hnodup : items.Nodup) :
    (∀ order, order.Perm items → ∀ x, x ∈ run may order ↔ x ∈ run may items) ↔
      StaysInReach may items := by
  constructor
  · intro hsame σ x τ hσ hτ _
    obtain ⟨order, ρ, horder, hrun, -⟩ := hσ.run_front hnodup
    obtain ⟨order', ρ', horder', hrun', hseq'⟩ := hτ.run_front hnodup
    have hx : x ∈ run may order := by
      rw [hrun]
      simp
    refine ⟨ρ', hseq', ?_⟩
    rw [← hrun']
    exact (hsame order' horder' x).mpr ((hsame order horder x).mp hx)
  · intro hreach order horder x
    constructor
    · exact fun hx ↦ run_subset hnodup hreach horder (List.Perm.refl _) hx
    · exact fun hx ↦ run_subset hnodup hreach (List.Perm.refl _) horder hx

end Order

end Greedy
