import Mathlib.Data.List.Induction
import Mathlib.Logic.Basic

/-!
# Runs of a partial machine

A step function that refuses the actions a state does not allow, the run over a
list of actions, and properties of every step along a run.
-/

namespace Machine

variable {σ α β : Type*}

/-- The state after the actions, if each of them is allowed in turn. -/
def run (step : σ → α → Option σ) : σ → List α → Option σ
  | s, [] => some s
  | s, a :: as => (step s a).bind fun s' ↦ run step s' as

/-- `P` holds of every step of the run, up to the first that is refused. -/
def Along (step : σ → α → Option σ) (P : σ → α → Prop) : σ → List α → Prop
  | _, [] => True
  | s, a :: as => P s a ∧ ∀ s', step s a = some s' → Along step P s' as

/-- What the steps of the run put out, up to the first that is refused. -/
def outputs (step : σ → α → Option σ) (out : σ → α → List β) : σ → List α → List β
  | _, [] => []
  | s, a :: as => out s a ++ (step s a).elim [] fun s' ↦ outputs step out s' as

instance decidableAlong (step : σ → α → Option σ) (P : σ → α → Prop) [∀ s a, Decidable (P s a)] :
    ∀ s as, Decidable (Along step P s as)
  | _, [] => isTrue trivial
  | s, a :: as =>
      match h : step s a with
      | none => decidable_of_iff (P s a) (by simp [Along, h])
      | some s' =>
          have := decidableAlong step P s' as
          decidable_of_iff (P s a ∧ Along step P s' as) (by simp [Along, h])

section Run

variable {step : σ → α → Option σ}

@[simp] theorem run_nil (s : σ) : run step s [] = some s := rfl

theorem run_cons {s t : σ} {a : α} {as : List α} :
    run step s (a :: as) = some t ↔ ∃ s', step s a = some s' ∧ run step s' as = some t :=
  Option.bind_eq_some_iff

theorem run_cons_of_step {s s' : σ} {a : α} {as : List α} (h : step s a = some s') :
    run step s (a :: as) = run step s' as := by
  rw [run, h, Option.bind_some]

theorem run_append {s t : σ} {as bs : List α} :
    run step s (as ++ bs) = some t ↔ ∃ s', run step s as = some s' ∧ run step s' bs = some t := by
  induction as generalizing s with
  | nil => simp
  | cons a as ih =>
      rw [List.cons_append, run_cons]
      constructor
      · rintro ⟨s₁, hstep, hrun⟩
        obtain ⟨s', hrun', hlast⟩ := ih.mp hrun
        exact ⟨s', run_cons.mpr ⟨s₁, hstep, hrun'⟩, hlast⟩
      · rintro ⟨s', hrun, hlast⟩
        obtain ⟨s₁, hstep, hrun'⟩ := run_cons.mp hrun
        exact ⟨s₁, hstep, ih.mpr ⟨s', hrun', hlast⟩⟩

/-- A run of a part is one of the whole, if each of its steps is. -/
theorem run_lift {τ β : Type*} {step' : τ → β → Option τ} {f : σ → τ} {g : α → β} {s t : σ}
    {as : List α} (hlift : ∀ a ∈ as, ∀ s t, step s a = some t → step' (f s) (g a) = some (f t))
    (h : run step s as = some t) : run step' (f s) (as.map g) = some (f t) := by
  induction as generalizing s with
  | nil => exact congrArg (some ∘ f) (Option.some.inj h)
  | cons a as ih =>
      obtain ⟨s', hstep, hrest⟩ := run_cons.mp h
      obtain ⟨ha, has⟩ := List.forall_mem_cons.mp hlift
      exact run_cons.mpr ⟨f s', ha s s' hstep, ih has hrest⟩

/-- A run beside which something is recorded. -/
theorem run_recorded {ρ : Type*} {step' : ρ → α → Option ρ} {f : ρ → σ}
    (hstep : ∀ r a t, step (f r) a = some t → ∃ r', step' r a = some r' ∧ f r' = t) {r : ρ} {t : σ}
    {as : List α} (h : run step (f r) as = some t) : ∃ r', run step' r as = some r' ∧ f r' = t := by
  induction as generalizing r with
  | nil => exact ⟨r, rfl, Option.some.inj h⟩
  | cons a as ih =>
      obtain ⟨s', hs', hrest⟩ := run_cons.mp h
      obtain ⟨r₁, hr₁, rfl⟩ := hstep r a s' hs'
      obtain ⟨r', hrun, hlast⟩ := ih hrest
      exact ⟨r', run_cons.mpr ⟨r₁, hr₁, hrun⟩, hlast⟩

/-- What every allowed step preserves holds after every run. -/
theorem run_invariant {I : σ → Prop} (hstep : ∀ s a s', I s → step s a = some s' → I s') {s t : σ}
    {as : List α} (hs : I s) (h : run step s as = some t) : I t := by
  induction as generalizing s with
  | nil => exact Option.some.inj h ▸ hs
  | cons a as ih =>
      obtain ⟨s', hs', hrun⟩ := run_cons.mp h
      exact ih (hstep s a s' hs hs') hrun

/-- What every step extends by its output, a run extends by its outputs. -/
theorem run_outputs {out : σ → α → List β} {R : σ → List β → Prop}
    (hstep : ∀ s bs a s', R s bs → step s a = some s' → R s' (bs ++ out s a)) {s t : σ}
    {bs : List β} {as : List α} (hs : R s bs) (h : run step s as = some t) :
    R t (bs ++ outputs step out s as) := by
  induction as generalizing s bs with
  | nil =>
      rw [outputs, List.append_nil]
      exact Option.some.inj h ▸ hs
  | cons a as ih =>
      obtain ⟨s', hs', hrun⟩ := run_cons.mp h
      rw [outputs, hs', ← List.append_assoc]
      exact ih (hstep s bs a s' hs hs') hrun

/-- What every allowed step with `P` preserves holds after every run along
which `P` holds. -/
theorem run_invariant_along {I : σ → Prop} {P : σ → α → Prop}
    (hstep : ∀ s a s', I s → P s a → step s a = some s' → I s') {s t : σ} {as : List α} (hs : I s)
    (hP : Along step P s as) (h : run step s as = some t) : I t := by
  induction as generalizing s with
  | nil => exact Option.some.inj h ▸ hs
  | cons a as ih =>
      obtain ⟨s', hs', hrun⟩ := run_cons.mp h
      exact ih (hstep s a s' hs hP.1 hs') (hP.2 s' hs') hrun

theorem along_of_forall {P : σ → α → Prop} {as : List α} (h : ∀ a ∈ as, ∀ s, P s a) (s : σ) :
    Along step P s as := by
  induction as generalizing s with
  | nil => exact trivial
  | cons a as ih =>
      obtain ⟨ha, has⟩ := List.forall_mem_cons.mp h
      exact ⟨ha s, fun s' _ ↦ ih has s'⟩

theorem along_append {P : σ → α → Prop} {s : σ} {as bs : List α} :
    Along step P s (as ++ bs) ↔
      Along step P s as ∧ ∀ t, run step s as = some t → Along step P t bs := by
  induction as generalizing s with
  | nil => simp [Along]
  | cons a as ih =>
      simp only [List.cons_append, Along, ih, run_cons]
      constructor
      · rintro ⟨ha, has⟩
        refine ⟨⟨ha, fun s' hs' ↦ (has s' hs').1⟩, ?_⟩
        rintro t ⟨s', hs', hrun⟩
        exact (has s' hs').2 t hrun
      · rintro ⟨⟨ha, has⟩, hbs⟩
        exact ⟨ha, fun s' hs' ↦ ⟨has s' hs', fun t hrun ↦ hbs t ⟨s', hs', hrun⟩⟩⟩

theorem Along.and {P Q : σ → α → Prop} {s : σ} {as : List α} (hP : Along step P s as)
    (hQ : Along step Q s as) : Along step (fun s a ↦ P s a ∧ Q s a) s as := by
  induction as generalizing s with
  | nil => exact trivial
  | cons a as ih => exact ⟨⟨hP.1, hQ.1⟩, fun s' hs' ↦ ih (hP.2 s' hs') (hQ.2 s' hs')⟩

/-- Two properties of steps that agree under an invariant which the first of
them maintains agree along runs. -/
theorem along_congr_of_keeps {I : σ → Prop} {P Q : σ → α → Prop}
    (hstep : ∀ s a s', I s → P s a → step s a = some s' → I s')
    (hPQ : ∀ s a, I s → (P s a ↔ Q s a)) {s : σ} {as : List α} (hs : I s) :
    Along step P s as ↔ Along step Q s as := by
  induction as generalizing s with
  | nil => exact Iff.rfl
  | cons a as ih =>
      constructor
      · rintro ⟨ha, has⟩
        exact ⟨(hPQ s a hs).mp ha, fun s' hs' ↦ (ih (hstep s a s' hs ha hs')).mp (has s' hs')⟩
      · rintro ⟨ha, has⟩
        have hP := (hPQ s a hs).mpr ha
        exact ⟨hP, fun s' hs' ↦ (ih (hstep s a s' hs hP hs')).mpr (has s' hs')⟩

/-- Two properties of steps that agree under an invariant agree along runs. -/
theorem along_congr {I : σ → Prop} {P Q : σ → α → Prop}
    (hstep : ∀ s a s', I s → step s a = some s' → I s') (hPQ : ∀ s a, I s → (P s a ↔ Q s a)) {s : σ}
    {as : List α} (hs : I s) : Along step P s as ↔ Along step Q s as :=
  along_congr_of_keeps (fun s a s' hI _ ↦ hstep s a s' hI) hPQ hs

end Run

end Machine
