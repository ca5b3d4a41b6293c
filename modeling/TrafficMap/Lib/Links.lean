import Mathlib.Data.Nat.Notation
import Mathlib.Logic.Function.Basic
import Mathlib.Logic.Relation

/-!
# Adjacency lists of undirected graphs

The rows of a graph whose edges are written at both of their ends, in the order
in which the edges were added.
-/

/-- An entry of a row. -/
structure Link (K τ : Type*) where
  dest : ℕ
  w : K
  tag : τ

/-- An edge: what is written at `a` has the tag `out`, what is written at `b` has
the tag `back`. -/
structure Wire (K τ : Type*) where
  a : ℕ
  b : ℕ
  w : K
  out : τ
  back : τ

namespace Links

variable {K τ σ : Type*}

def Step (adj : ℕ → List (Link K τ)) (u v : ℕ) : Prop := ∃ e ∈ adj u, e.dest = v

def Reach (adj : ℕ → List (Link K τ)) : ℕ → ℕ → Prop := Relation.ReflTransGen (Step adj)

/-- What an edge writes in the row of `u`. -/
def entries (x : Wire K τ) (u : ℕ) : List (Link K τ) :=
  (if x.a = u then [⟨x.b, x.w, x.out⟩] else []) ++ if x.b = u then [⟨x.a, x.w, x.back⟩] else []

def rows (ws : List (Wire K τ)) (u : ℕ) : List (Link K τ) := ws.flatMap fun x ↦ entries x u

/-- The edge under other numbers and tags. -/
def relabel (f : ℕ → ℕ) (t : τ → σ) (x : Wire K τ) : Wire K σ :=
  ⟨f x.a, f x.b, x.w, t x.out, t x.back⟩

section Rows

variable {ws ws' : List (Wire K τ)} {u v : ℕ}

theorem mem_rows {e : Link K τ} : e ∈ rows ws u ↔
    ∃ x ∈ ws, x.a = u ∧ e = ⟨x.b, x.w, x.out⟩ ∨ x.b = u ∧ e = ⟨x.a, x.w, x.back⟩ := by
  rw [rows, List.mem_flatMap]
  apply exists_congr
  intro x
  apply and_congr_right
  intro _
  rw [entries, List.mem_append]
  by_cases ha : x.a = u
  · by_cases hb : x.b = u
    · simp [ha, hb]
    · simp [ha, hb]
  · by_cases hb : x.b = u
    · simp [ha, hb]
    · simp [ha, hb]

/-- Both ends of an entry are ends of an edge. -/
theorem bound_of_mem_rows {N : ℕ} (hws : ∀ x ∈ ws, x.a < N ∧ x.b < N) {e : Link K τ}
    (he : e ∈ rows ws u) : u < N ∧ e.dest < N := by
  obtain ⟨x, hx, ⟨rfl, rfl⟩ | ⟨rfl, rfl⟩⟩ := mem_rows.mp he
  · exact hws x hx
  · exact (hws x hx).symm

/-- The weight of an entry is that of its edge. -/
theorem weight_of_mem_rows {p : K → Prop} (hws : ∀ x ∈ ws, p x.w) {e : Link K τ}
    (he : e ∈ rows ws u) : p e.w := by
  obtain ⟨x, hx, ⟨-, rfl⟩ | ⟨-, rfl⟩⟩ := mem_rows.mp he
  · exact hws x hx
  · exact hws x hx

theorem step_rows_iff :
    Step (rows ws) u v ↔ ∃ x ∈ ws, x.a = u ∧ x.b = v ∨ x.b = u ∧ x.a = v := by
  constructor
  · rintro ⟨e, he, rfl⟩
    obtain ⟨x, hx, ⟨ha, rfl⟩ | ⟨hb, rfl⟩⟩ := mem_rows.mp he
    · exact ⟨x, hx, Or.inl ⟨ha, rfl⟩⟩
    · exact ⟨x, hx, Or.inr ⟨hb, rfl⟩⟩
  · rintro ⟨x, hx, ⟨ha, rfl⟩ | ⟨hb, rfl⟩⟩
    · exact ⟨_, mem_rows.mpr ⟨x, hx, Or.inl ⟨ha, rfl⟩⟩, rfl⟩
    · exact ⟨_, mem_rows.mpr ⟨x, hx, Or.inr ⟨hb, rfl⟩⟩, rfl⟩

theorem rows_append (u : ℕ) : rows (ws ++ ws') u = rows ws u ++ rows ws' u :=
  List.flatMap_append

theorem step_symm (h : Step (rows ws) u v) : Step (rows ws) v u := by
  obtain ⟨x, hx, ⟨ha, hb⟩ | ⟨hb, ha⟩⟩ := step_rows_iff.mp h
  · exact step_rows_iff.mpr ⟨x, hx, Or.inr ⟨hb, ha⟩⟩
  · exact step_rows_iff.mpr ⟨x, hx, Or.inl ⟨ha, hb⟩⟩

theorem reach_symm (h : Reach (rows ws) u v) : Reach (rows ws) v u := by
  induction h with
  | refl => exact .refl
  | tail _ hstep ih => exact Relation.ReflTransGen.head (step_symm hstep) ih

theorem reach_of_mem {x : Wire K τ} (hx : x ∈ ws) : Reach (rows ws) x.a x.b :=
  Relation.ReflTransGen.single (step_rows_iff.mpr ⟨x, hx, Or.inl ⟨rfl, rfl⟩⟩)

theorem Reach.of_subset (hsub : ws ⊆ ws') (h : Reach (rows ws) u v) : Reach (rows ws') u v := by
  refine Relation.ReflTransGen.mono ?_ _ _ h
  intro u' v' hstep
  obtain ⟨x, hx, hends⟩ := step_rows_iff.mp hstep
  exact step_rows_iff.mpr ⟨x, hsub hx, hends⟩

/-- What every edge joins stays together. -/
theorem Reach.invariant {p : ℕ → Prop} (hp : ∀ x ∈ ws, p x.a ↔ p x.b) (h : Reach (rows ws) u v) :
    p u ↔ p v := by
  induction h with
  | refl => exact Iff.rfl
  | tail _ hstep ih =>
      rw [ih]
      obtain ⟨x, hx, ⟨rfl, rfl⟩ | ⟨rfl, rfl⟩⟩ := step_rows_iff.mp hstep
      · exact hp x hx
      · exact (hp x hx).symm

theorem rows_eq_nil (h : ∀ x ∈ ws, x.a ≠ u ∧ x.b ≠ u) : rows ws u = [] := by
  rw [rows, List.flatMap_eq_nil_iff]
  intro x hx
  obtain ⟨ha, hb⟩ := h x hx
  rw [entries, if_neg ha, if_neg hb, List.append_nil]

theorem rows_relabel (ws : List (Wire K τ)) {f : ℕ → ℕ} (hf : Function.Injective f) (t : τ → σ)
    (u : ℕ) : rows (ws.map (relabel f t)) (f u) =
      (rows ws u).map fun e ↦ ⟨f e.dest, e.w, t e.tag⟩ := by
  rw [rows, rows, List.flatMap_map, List.map_flatMap]
  congr 1
  funext x
  rw [entries, entries, List.map_append]
  congr 1
  · by_cases ha : x.a = u
    · simp [relabel, ha]
    · simp [relabel, ha, hf.ne ha]
  · by_cases hb : x.b = u
    · simp [relabel, hb]
    · simp [relabel, hb, hf.ne hb]

theorem Reach.relabel (h : Reach (rows ws) u v) (f : ℕ → ℕ) (t : τ → σ) :
    Reach (rows (ws.map (Links.relabel f t))) (f u) (f v) := by
  induction h with
  | refl => exact .refl
  | tail _ hstep ih =>
      apply ih.tail
      obtain ⟨x, hx, hends⟩ := step_rows_iff.mp hstep
      refine step_rows_iff.mpr ⟨_, List.mem_map_of_mem hx, ?_⟩
      exact hends.imp (And.imp (congrArg f) (congrArg f)) (And.imp (congrArg f) (congrArg f))

end Rows

end Links
