import Mathlib.Data.Nat.Basic

/-!
# A ring of periods

A ring of `n` slots with a cursor, as a rolling window keeps them: the cursor
moves on by clearing the slot it moves to, and looks back by wrapping around.
Looking back at most `n - 1` periods, the ring shows a history that forgets
nothing.
-/

namespace RingWindow

structure Ring (n : ℕ) (α : Type*) where
  slots : Vector α n
  cur : ℕ
  cur_lt : cur < n

namespace Ring

variable {n : ℕ} {α : Type*}

/-- The slot `i` places behind the cursor. -/
def back (r : Ring n α) (i : ℕ) : α :=
  have hcur := r.cur_lt
  have hlt : (r.cur + n - i) % n < n := Nat.mod_lt _ (by omega)
  r.slots[(r.cur + n - i) % n]

def roll (clear : α) (r : Ring n α) : Ring n α :=
  have := r.cur_lt
  { slots := r.slots.set ((r.cur + 1) % n) clear (Nat.mod_lt _ (by omega))
    cur := (r.cur + 1) % n
    cur_lt := Nat.mod_lt _ (by omega) }

def modify (f : α → α) (r : Ring n α) : Ring n α :=
  have := r.cur_lt
  { r with slots := r.slots.set r.cur (f r.slots[r.cur]) }

/-- The ring shows the last `n` periods of a history. -/
def Shows (r : Ring n α) (hist : ℕ → α) : Prop := ∀ i, i < n → r.back i = hist i

theorem back_index {cur i : ℕ} (hcur : cur < n) (hi : i < n) :
    (cur + n - i) % n = if i ≤ cur then cur - i else cur + n - i := by
  split
  · next h =>
      rw [show cur + n - i = (cur - i) + n by omega, Nat.add_mod_right]
      exact Nat.mod_eq_of_lt (by omega)
  · exact Nat.mod_eq_of_lt (by omega)

theorem next_index {cur : ℕ} (hcur : cur < n) :
    (cur + 1) % n = if cur + 1 = n then 0 else cur + 1 := by
  split
  · next h => rw [h, Nat.mod_self]
  · exact Nat.mod_eq_of_lt (by omega)

theorem shows_modify {r : Ring n α} {hist hist' : ℕ → α} (h : r.Shows hist) {f : α → α}
    (hcur : hist' 0 = f (hist 0)) (hold : ∀ i, 0 < i → hist' i = hist i) :
    (r.modify f).Shows hist' := by
  intro i hi
  have hlt := r.cur_lt
  have hindex := back_index hlt hi
  cases i with
  | zero =>
      have hback := h 0 hi
      have hzero : (r.cur + n - 0) % n = r.cur := by simpa using hindex
      simp only [back, hzero] at hback
      simp only [back, modify, hzero, Vector.getElem_set_self, hback, hcur]
  | succ i =>
      have hne : r.cur ≠ (r.cur + n - (i + 1)) % n := by
        rw [hindex]
        split <;> omega
      have hback := h (i + 1) hi
      simp only [back] at hback
      simp only [back, modify, Vector.getElem_set_ne _ _ hne, hback]
      exact (hold (i + 1) (Nat.succ_pos i)).symm

theorem shows_roll {r : Ring n α} {hist hist' : ℕ → α} (h : r.Shows hist) {clear : α}
    (hcur : hist' 0 = clear) (hold : ∀ i, hist' (i + 1) = hist i) :
    (r.roll clear).Shows hist' := by
  intro i hi
  have hlt := r.cur_lt
  have hlt' : (r.cur + 1) % n < n := (r.roll clear).cur_lt
  cases i with
  | zero =>
      have hzero : ((r.cur + 1) % n + n - 0) % n = (r.cur + 1) % n := by simp
      simp only [back, roll, hzero, Vector.getElem_set_self, hcur]
  | succ i =>
      have hsame : ((r.cur + 1) % n + n - (i + 1)) % n = (r.cur + n - i) % n := by
        rw [back_index hlt' hi, back_index hlt (by omega)]
        rw [next_index hlt]
        split <;> split <;> split <;> omega
      have hne : (r.cur + 1) % n ≠ (r.cur + n - i) % n := by
        rw [next_index hlt, back_index hlt (by omega)]
        split <;> split <;> omega
      have hback := h i (by omega)
      simp only [back] at hback
      simp only [back, roll, hsame, Vector.getElem_set_ne _ _ hne, hback]
      exact (hold i).symm

theorem shows_replicate {clear : α} {hist : ℕ → α} (hn : 0 < n) (h : ∀ i, hist i = clear) :
    (⟨Vector.replicate n clear, 0, hn⟩ : Ring n α).Shows hist := by
  intro i _
  simp [back, h]

end Ring

end RingWindow
