import Mathlib.Algebra.Order.Group.Defs
import Mathlib.Algebra.Order.Sub.Basic
import Mathlib.Data.List.Infix
import Mathlib.Data.List.TakeDrop
import Mathlib.Data.List.TakeWhile

/-!
# A log that is trimmed from its front

A store that forgets old entries when it pleases, but keeps at least the newest
`n`: whoever asks for no more than these cannot tell it from the whole log.  A
log of times may forget in the same way what has fallen out of a window.
-/

namespace Retain

variable {α : Type*}

/-- `kept` is an end of the log with at least its newest `n` entries. -/
structure Retains (n : ℕ) (log kept : List α) : Prop where
  suffix : kept <:+ log
  enough : min n log.length ≤ kept.length

variable {n : ℕ} {log kept : List α}

theorem Retains.nil (n : ℕ) : Retains n ([] : List α) [] := ⟨List.suffix_rfl, Nat.min_le_right _ _⟩

/-- An entry is added, and of those kept some more may go. -/
theorem Retains.push (h : Retains n log kept) (a : α) {trim : ℕ}
    (htrim : trim ≤ kept.length + 1 - n) : Retains n (log ++ [a]) ((kept ++ [a]).drop trim) where
  suffix := by
    obtain ⟨front, hfront⟩ := h.suffix
    refine (List.drop_suffix trim _).trans ⟨front, ?_⟩
    rw [← List.append_assoc, hfront]
  enough := by
    have henough := h.enough
    simp only [List.length_drop, List.length_append, List.length_singleton]
    omega

/-- The newest entries are the newest of the log. -/
theorem Retains.newest (h : Retains n log kept) {k : ℕ} (hk : k ≤ n) :
    kept.reverse.take k = log.reverse.take k := by
  obtain ⟨front, hfront⟩ := h.suffix
  have henough := h.enough
  rw [← hfront, List.reverse_append]
  by_cases hlen : k ≤ kept.length
  · rw [List.take_append_of_le_length (by rwa [List.length_reverse])]
  · have hfull : front = [] := by
      rw [← hfront, List.length_append] at henough
      exact List.length_eq_zero_iff.mp (by omega)
    rw [hfull, List.reverse_nil, List.append_nil]

/-! ## The newest entries -/

/-- What a log of at most `n` entries holds. -/
def newest (n : ℕ) (l : List α) : List α := l.drop (l.length - n)

theorem length_newest_le (n : ℕ) (l : List α) : (newest n l).length ≤ n := by
  rw [newest, List.length_drop]
  omega

theorem newest_of_length_le {l : List α} (h : l.length ≤ n) : newest n l = l := by
  rw [newest, Nat.sub_eq_zero_of_le h, List.drop_zero]

/-- It does not matter what was forgotten before. -/
theorem newest_newest_append (n : ℕ) (l l' : List α) :
    newest n (newest n l ++ l') = newest n (l ++ l') := by
  have hle : l.length - n ≤ l.length := Nat.sub_le _ _
  rw [newest, newest, newest, ← List.drop_append_of_le_length hle, List.drop_drop, List.length_drop]
  congr 1
  rw [List.length_append]
  omega

/-! ## Times within a window -/

section Window

variable {τ : Type*} [AddCommGroup τ] [LinearOrder τ] {window now : τ} {times kept : List τ}

/-- Up to `now` there were the `times`, in order, and what is not `kept` of them
is out of the window. -/
structure Within (window now : τ) (times kept : List τ) : Prop where
  inOrder : times.Pairwise (· ≤ ·)
  past : ∀ t ∈ times, t ≤ now
  kept : ∃ old, times = old ++ kept ∧ ∀ t ∈ old, window < now - t

theorem Within.nil (window now : τ) : Within window now [] [] where
  inOrder := List.Pairwise.nil
  past _ h := absurd h List.not_mem_nil
  kept := ⟨[], rfl, fun _ h ↦ absurd h List.not_mem_nil⟩

theorem Within.concat (h : Within window now times kept) :
    Within window now (times ++ [now]) (kept ++ [now]) where
  inOrder := by
    refine List.pairwise_append.mpr ⟨h.inOrder, List.pairwise_singleton _ _, fun t ht u hu ↦ ?_⟩
    exact (h.past t ht).trans_eq (List.mem_singleton.mp hu).symm
  past t ht := by
    rcases List.mem_append.mp ht with hold | hnew
    · exact h.past t hold
    · exact (List.mem_singleton.mp hnew).le
  kept := by
    obtain ⟨old, heq, hold⟩ := h.kept
    exact ⟨old, by rw [heq, List.append_assoc], hold⟩

theorem Within.prune (h : Within window now times kept) :
    Within window now times (kept.dropWhile fun t ↦ window < now - t) where
  inOrder := h.inOrder
  past := h.past
  kept := by
    obtain ⟨old, heq, hold⟩ := h.kept
    refine ⟨old ++ kept.takeWhile fun t ↦ window < now - t, ?_, fun t ht ↦ ?_⟩
    · rw [List.append_assoc, List.takeWhile_append_dropWhile]
      exact heq
    · rcases List.mem_append.mp ht with ht | ht
      · exact hold t ht
      · have hlong := List.mem_takeWhile_imp ht
        exact of_decide_eq_true hlong

variable [IsOrderedAddMonoid τ]

theorem Within.later (h : Within window now times kept) {now' : τ} (hnow : now ≤ now') :
    Within window now' times kept where
  inOrder := h.inOrder
  past t ht := (h.past t ht).trans hnow
  kept := by
    obtain ⟨old, heq, hold⟩ := h.kept
    exact ⟨old, heq, fun t ht ↦ (hold t ht).trans_le (sub_le_sub_right hnow t)⟩

/-- Of times in order, the old ones are at the front. -/
theorem dropWhile_old (h : times.Pairwise (· ≤ ·)) :
    times.dropWhile (fun t ↦ window < now - t) = times.filter fun t ↦ now - t ≤ window := by
  induction times with
  | nil => rfl
  | cons t times ih =>
      obtain ⟨hfirst, hrest⟩ := List.pairwise_cons.mp h
      by_cases ht : window < now - t
      · have hout : ¬ now - t ≤ window := not_le.mpr ht
        rw [List.dropWhile_cons, if_pos (decide_eq_true ht), ih hrest, List.filter_cons,
          if_neg (mt of_decide_eq_true hout)]
      · rw [List.dropWhile_cons, if_neg (mt of_decide_eq_true ht)]
        refine (List.filter_eq_self.mpr fun u hu ↦ decide_eq_true ?_).symm
        rcases List.mem_cons.mp hu with rfl | hu
        · exact not_lt.mp ht
        · exact (sub_le_sub_left (hfirst u hu) now).trans (not_lt.mp ht)

/-- What a pruning leaves is the window. -/
theorem Within.prune_eq (h : Within window now times kept) :
    kept.dropWhile (fun t ↦ window < now - t) = times.filter fun t ↦ now - t ≤ window := by
  obtain ⟨old, heq, hold⟩ := h.kept
  have hsorted : kept.Pairwise (· ≤ ·) := (List.pairwise_append.mp (heq ▸ h.inOrder)).2.1
  have hnone : old.filter (fun t ↦ now - t ≤ window) = [] :=
    List.filter_eq_nil_iff.mpr fun t ht ↦ mt of_decide_eq_true (not_le.mpr (hold t ht))
  rw [dropWhile_old hsorted, heq, List.filter_append, hnone, List.nil_append]

end Window

end Retain
