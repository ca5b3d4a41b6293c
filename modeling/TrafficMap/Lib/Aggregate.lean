import Mathlib.Data.List.MinMax

/-!
# Aggregates that leave a choice

`mode()` and `DISTINCT ON` answer with one of the values that qualify, and
which one is up to the database.  Each is a structure with the function that
chooses and what its choices are known to satisfy.
-/

namespace Sql

section Mode

variable {α : Type*} [DecidableEq α]

/-- A value that none occurs more often than. -/
structure MostFrequent (l : List α) (a : α) : Prop where
  mem : a ∈ l
  count_le : ∀ b, l.count b ≤ l.count a

theorem MostFrequent.eq_of_only {l : List α} {a b : α} (h : MostFrequent l a)
    (hb : ∀ c ∈ l, l.count b ≤ l.count c → c = b) : a = b :=
  hb a h.mem (h.count_le b)

/-- `mode()`: a value that occurs most often, if there is a value. -/
structure Mode (α : Type*) [DecidableEq α] where
  run : List α → Option α
  run_eq_none : ∀ l, run l = none ↔ l = []
  count_le : ∀ l a, run l = some a → ∀ b, l.count b ≤ l.count a

namespace Mode

theorem mem_of_run (m : Mode α) {l : List α} {a : α} (h : m.run l = some a) : a ∈ l := by
  have hne : l ≠ [] := by
    intro hnil
    rw [(m.run_eq_none l).mpr hnil] at h
    cases h
  obtain ⟨b, hb⟩ := List.exists_mem_of_ne_nil l hne
  have hcount : 0 < l.count a := (List.count_pos_iff.mpr hb).trans_le (m.count_le l a h b)
  exact List.count_pos_iff.mp hcount

theorem mostFrequent_of_run (m : Mode α) {l : List α} {a : α} (h : m.run l = some a) :
    MostFrequent l a :=
  ⟨m.mem_of_run h, m.count_le l a h⟩

theorem run_isSome (m : Mode α) {l : List α} (h : l ≠ []) : ∃ a, m.run l = some a :=
  Option.ne_none_iff_exists'.mp ((m.run_eq_none l).not.mpr h)

/-- The first of the most frequent values. -/
def first : Mode α where
  run l := l.argmax l.count
  run_eq_none _ := List.argmax_eq_none
  count_le l a h b := by
    by_cases hb : b ∈ l
    · exact List.le_of_mem_argmax hb h
    · rw [List.count_eq_zero.mpr hb]
      exact Nat.zero_le _

/-- The choice changed to `a` for the values `l`. -/
def answering (m : Mode α) {l : List α} {a : α} (h : MostFrequent l a) : Mode α where
  run k := if k = l then some a else m.run k
  run_eq_none k := by
    by_cases hk : k = l
    · rw [if_pos hk, hk]
      simp [List.ne_nil_of_mem h.mem]
    · rw [if_neg hk]
      exact m.run_eq_none k
  count_le k b hb c := by
    by_cases hk : k = l
    · rw [if_pos hk] at hb
      obtain rfl := Option.some.inj hb
      rw [hk]
      exact h.count_le c
    · rw [if_neg hk] at hb
      exact m.count_le k b hb c

/-- Any two most frequent values may be the answers, unless the values are the same
twice. -/
theorem exists_run_eq {l l' : List α} {a a' : α} (h : MostFrequent l a) (h' : MostFrequent l' a')
    (hsame : l = l' → a = a') : ∃ m : Mode α, m.run l = some a ∧ m.run l' = some a' := by
  refine ⟨(first.answering h).answering h', ?_, if_pos rfl⟩
  by_cases hl : l = l'
  · obtain rfl := hsame hl
    exact if_pos hl
  · exact (if_neg hl).trans (if_pos rfl)

end Mode

end Mode

section Top

variable {α β : Type*} [LinearOrder β] {key : α → β}

/-- `DISTINCT ON … ORDER BY key DESC` within a group: an element whose key no
other exceeds. -/
structure Top (key : α → β) where
  run : List α → Option α
  run_eq_none : ∀ l, run l = none ↔ l = []
  mem_of_run : ∀ l a, run l = some a → a ∈ l
  key_le : ∀ l a, run l = some a → ∀ b ∈ l, key b ≤ key a

/-- The first of the elements with the largest key. -/
def Top.first : Top key where
  run l := l.argmax key
  run_eq_none _ := List.argmax_eq_none
  mem_of_run _ _ := List.argmax_mem
  key_le _ _ h _ hb := List.le_of_mem_argmax hb h

end Top

/-- `ORDER BY … LIMIT`: who is left out comes after all that are taken. -/
theorem rel_of_not_mem_take {α : Type*} {r : α → α → Prop} {l ordered : List α}
    (hperm : ordered.Perm l) (hsorted : ordered.Pairwise r) {n : ℕ} {a b : α}
    (ha : a ∈ ordered.take n) (hb : b ∈ l) (hout : b ∉ ordered.take n) : r a b := by
  have hdrop : b ∈ ordered.drop n := by
    have hmem := hperm.mem_iff.mpr hb
    rw [← List.take_append_drop n ordered] at hmem
    exact (List.mem_append.mp hmem).resolve_left hout
  rw [← List.take_append_drop n ordered] at hsorted
  exact (List.pairwise_append.mp hsorted).2.2 a ha b hdrop

/-- Who is left out of a limit finds it used up. -/
theorem length_take_of_not_mem {α : Type*} {l ordered : List α} (hperm : ordered.Perm l) {n : ℕ}
    {b : α} (hb : b ∈ l) (hout : b ∉ ordered.take n) : (ordered.take n).length = n := by
  rw [List.length_take, min_eq_left_iff]
  by_contra hlt
  rw [List.take_of_length_le (not_le.mp hlt).le] at hout
  exact hout (hperm.mem_iff.mpr hb)

end Sql
