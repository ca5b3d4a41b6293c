import Mathlib.Data.List.Basic
import Mathlib.Logic.Function.Basic

/-!
# Answers from a cache

A function that is asked through a cache which files its answers by a key of the
argument.  The cache goes unnoticed exactly if arguments with equal keys have
equal answers.
-/

namespace Memo

variable {α β κ : Type*} [DecidableEq κ] (key : α → κ) (f : α → β)

/-- The answer to `x`, and the cache that holds it. -/
def ask (cache : κ → Option β) (x : α) : β × (κ → Option β) :=
  match cache (key x) with
  | some hit => (hit, cache)
  | none => (f x, Function.update cache (key x) (some (f x)))

def answers : (κ → Option β) → List α → List β
  | _, [] => []
  | cache, x :: xs => (ask key f cache x).1 :: answers (ask key f cache x).2 xs

/-- The cache holds what was answered to `asked`, the first of each key. -/
def Holds (asked : List α) (cache : κ → Option β) : Prop :=
  ∀ k, cache k = (asked.find? fun x ↦ key x = k).map f

/-- Arguments that the key does not tell apart. -/
def Faithful (xs : List α) : Prop := ∀ x ∈ xs, ∀ y ∈ xs, key x = key y → f x = f y

variable {key f} {asked : List α} {cache : κ → Option β} {x : α}

theorem holds_nil : Holds key f [] fun _ ↦ none := fun _ ↦ rfl

theorem Holds.exists_of_hit (h : Holds key f asked cache) {hit : β}
    (hhit : cache (key x) = some hit) :
    ∃ y ∈ asked, key y = key x ∧ f y = hit := by
  rw [h] at hhit
  obtain ⟨y, hy, rfl⟩ := Option.map_eq_some_iff.mp hhit
  have hkey := List.find?_some hy
  exact ⟨y, List.mem_of_find?_eq_some hy, of_decide_eq_true hkey, rfl⟩

theorem Holds.ask (h : Holds key f asked cache) :
    Holds key f (asked ++ [x]) (Memo.ask key f cache x).2 := by
  intro k
  have hk := h k
  rw [Memo.ask, List.find?_append, Option.map_or, ← hk]
  cases hx : cache (key x) with
  | some hit =>
      dsimp only
      cases hck : cache k with
      | some y => rfl
      | none =>
          have hne : key x ≠ k := by
            rintro rfl
            rw [hck] at hx
            cases hx
          simp [hne]
  | none =>
      by_cases hkx : k = key x
      · rw [hkx, hx]
        simp
      · have hne : key x ≠ k := fun heq ↦ hkx heq.symm
        simp [hkx, hne]

theorem Holds.ask_eq (h : Holds key f asked cache) {xs : List α} (hxs : x ∈ xs)
    (hasked : asked ⊆ xs) (hf : Faithful key f xs) : (Memo.ask key f cache x).1 = f x := by
  rw [Memo.ask]
  cases hx : cache (key x) with
  | none => rfl
  | some hit =>
      obtain ⟨y, hy, hkey, rfl⟩ := h.exists_of_hit hx
      exact hf y (hasked hy) x hxs hkey

theorem Holds.answers_eq {xs : List α} (h : Holds key f asked cache)
    (hf : Faithful key f (asked ++ xs)) : answers key f cache xs = xs.map f := by
  induction xs generalizing asked cache with
  | nil => rfl
  | cons x xs ih =>
      rw [answers, List.map_cons]
      congr 1
      · refine h.ask_eq (List.mem_append_right _ (List.mem_cons_self ..)) ?_ hf
        exact List.subset_append_left _ _
      · exact ih h.ask (by rwa [List.append_assoc])

/-- An answer that is the right one is also that of the argument in the cache. -/
theorem Holds.faithful {xs : List α} (h : Holds key f asked cache) (hf : Faithful key f asked)
    (heq : answers key f cache xs = xs.map f) : Faithful key f (asked ++ xs) := by
  induction xs generalizing asked cache with
  | nil => rwa [List.append_nil]
  | cons x xs ih =>
      obtain ⟨hx, hxs⟩ := List.cons.inj heq
      rw [← List.singleton_append, ← List.append_assoc]
      refine ih h.ask ?_ hxs
      have hsame : ∀ y ∈ asked, key y = key x → f y = f x := by
        intro y hy hkey
        cases hhit : cache (key x) with
        | none =>
            rw [h, Option.map_eq_none_iff, List.find?_eq_none] at hhit
            exact absurd (decide_eq_true hkey) (hhit y hy)
        | some hit =>
            rw [Memo.ask, hhit] at hx
            obtain ⟨z, hz, hkeyz, rfl⟩ := h.exists_of_hit hhit
            rw [← hx]
            exact hf y hy z hz (hkey.trans hkeyz.symm)
      intro y hy z hz hkey
      rcases List.mem_append.mp hy with hy | hy
      · rcases List.mem_append.mp hz with hz | hz
        · exact hf y hy z hz hkey
        · rw [List.mem_singleton.mp hz] at hkey ⊢
          exact hsame y hy hkey
      · rw [List.mem_singleton.mp hy] at hkey ⊢
        rcases List.mem_append.mp hz with hz | hz
        · exact (hsame z hz hkey.symm).symm
        · rw [List.mem_singleton.mp hz]

/-- From an empty cache, all answers are right exactly if equal keys go with equal
answers. -/
theorem answers_eq_map_iff {xs : List α} :
    answers key f (fun _ ↦ none) xs = xs.map f ↔ Faithful key f xs := by
  constructor
  · intro heq
    have hnil : Faithful key f [] := fun y hy ↦ absurd hy List.not_mem_nil
    exact holds_nil.faithful hnil heq
  · intro hf
    exact holds_nil.answers_eq hf

end Memo
