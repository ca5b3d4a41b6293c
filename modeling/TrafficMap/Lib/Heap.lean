import Mathlib.Data.List.Perm.Basic
import Mathlib.Logic.Equiv.Basic
import Mathlib.Order.WithBot

/-!
# A binary heap in a list

Entries with a key, the children of place `i` at the places `2 * i + 1` and
`2 * i + 2`.  Pushing and popping keep the entries, whatever their order is, and
they keep the order: no entry has a smaller key than its parent.
-/

namespace Heap

variable {K ν : Type*} [LinearOrder K]

/-- The key at a place, infinite outside the heap. -/
def keyAt (h : List (K × ν)) (i : ℕ) : WithTop K := h[i]?.elim ⊤ fun x ↦ (x.1 : WithTop K)

theorem lt_length_of_keyAt_lt {h : List (K × ν)} {i : ℕ} {k : WithTop K} (hk : keyAt h i < k) :
    i < h.length := by
  by_contra hle
  rw [keyAt, List.getElem?_eq_none (Nat.le_of_not_lt hle)] at hk
  exact not_top_lt hk

def siftUp (h : List (K × ν)) : ℕ → List (K × ν)
  | 0 => h
  | i + 1 =>
      if keyAt h (i / 2) ≤ keyAt h (i + 1) then h else siftUp (h.swap (i / 2) (i + 1)) (i / 2)
termination_by i => i
decreasing_by omega

def push (h : List (K × ν)) (x : K × ν) : List (K × ν) := siftUp (h ++ [x]) h.length

/-- The place with the smaller key. -/
def smaller (h : List (K × ν)) (s c : ℕ) : ℕ := if keyAt h c < keyAt h s then c else s

def smallest (h : List (K × ν)) (i : ℕ) : ℕ := smaller h (smaller h i (2 * i + 1)) (2 * i + 2)

theorem smallest_bounds {h : List (K × ν)} {i : ℕ} (hi : smallest h i ≠ i) :
    i < smallest h i ∧ smallest h i < h.length := by
  rw [smallest, smaller] at hi ⊢
  split at hi
  · rename_i hlt
    rw [if_pos hlt]
    exact ⟨by omega, lt_length_of_keyAt_lt hlt⟩
  · rename_i hge
    rw [if_neg hge]
    rw [smaller] at hi ⊢
    split at hi
    · rename_i hlt
      rw [if_pos hlt]
      exact ⟨by omega, lt_length_of_keyAt_lt hlt⟩
    · exact absurd rfl hi

def siftDown (h : List (K × ν)) (i : ℕ) : List (K × ν) :=
  if smallest h i = i then h else siftDown (h.swap (smallest h i) i) (smallest h i)
termination_by h.length - i
decreasing_by
  rename_i hi
  obtain ⟨hlt, hlen⟩ := smallest_bounds hi
  rw [List.length_swap]
  omega

/-- The top, and the heap that the last entry is sifted into in its place. -/
def pop : List (K × ν) → Option ((K × ν) × List (K × ν))
  | [] => none
  | top :: rest =>
      some (top, if h : rest = [] then [] else siftDown (rest.getLast h :: rest.dropLast) 0)

theorem siftUp_perm (h : List (K × ν)) (i : ℕ) : (siftUp h i).Perm h := by
  induction h, i using siftUp.induct with
  | case1 h =>
      rw [siftUp]
  | case2 h i hle =>
      rw [siftUp, if_pos hle]
  | case3 h i hgt ih =>
      rw [siftUp, if_neg hgt]
      exact ih.trans (List.swap_perm h _ _)

theorem push_perm (h : List (K × ν)) (x : K × ν) : (push h x).Perm (x :: h) :=
  (siftUp_perm _ _).trans (List.perm_append_singleton x h)

theorem siftDown_perm (h : List (K × ν)) (i : ℕ) : (siftDown h i).Perm h := by
  induction h, i using siftDown.induct with
  | case1 h i hi =>
      rw [siftDown, if_pos hi]
  | case2 h i hi ih =>
      rw [siftDown, if_neg hi]
      exact ih.trans (List.swap_perm h _ _)

theorem pop_eq_none {h : List (K × ν)} : pop h = none ↔ h = [] := by
  cases h with
  | nil => exact iff_of_true rfl rfl
  | cons top rest => exact iff_of_false (Option.some_ne_none _) (List.cons_ne_nil _ _)

theorem pop_perm {h h' : List (K × ν)} {x : K × ν} (hpop : pop h = some (x, h')) :
    h.Perm (x :: h') := by
  cases h with
  | nil => cases hpop
  | cons top rest =>
      obtain ⟨rfl, rfl⟩ := Prod.mk.inj (Option.some.inj hpop)
      by_cases hrest : rest = []
      · rw [dif_pos hrest, hrest]
      · rw [dif_neg hrest]
        have hlast : (rest.getLast hrest :: rest.dropLast).Perm rest := by
          calc (rest.getLast hrest :: rest.dropLast).Perm (rest.dropLast ++ [rest.getLast hrest]) :=
                (List.perm_append_singleton _ _).symm
            _ = rest := List.dropLast_append_getLast hrest
        exact ((siftDown_perm _ 0).trans hlast).symm.cons top

theorem length_push (h : List (K × ν)) (x : K × ν) : (push h x).length = h.length + 1 :=
  (push_perm h x).length_eq

@[simp] theorem mem_push {h : List (K × ν)} {x y : K × ν} : y ∈ push h x ↔ y = x ∨ y ∈ h :=
  (push_perm h x).mem_iff.trans List.mem_cons

/-! ## The order -/

/-- No key is smaller than that of the parent. -/
def Ordered (h : List (K × ν)) : Prop := ∀ i, keyAt h (i / 2) ≤ keyAt h (i + 1)

/-- Only the entry at `i` may be smaller than its parent, and its children are in
order with that parent. -/
structure UpReady (h : List (K × ν)) (i : ℕ) : Prop where
  but : ∀ j, j + 1 ≠ i → keyAt h (j / 2) ≤ keyAt h (j + 1)
  skip : ∀ k j, i = k + 1 → j / 2 = i → keyAt h (k / 2) ≤ keyAt h (j + 1)

/-- Only the entry at `i` may be larger than its children, and these are in order
with its parent. -/
structure DownReady (h : List (K × ν)) (i : ℕ) : Prop where
  but : ∀ j, j / 2 ≠ i → keyAt h (j / 2) ≤ keyAt h (j + 1)
  skip : ∀ k j, i = k + 1 → j / 2 = i → keyAt h (k / 2) ≤ keyAt h (j + 1)

variable {h : List (K × ν)} {i : ℕ}

omit [LinearOrder K] in
theorem keyAt_of_le (hi : h.length ≤ i) : keyAt h i = ⊤ := by
  rw [keyAt, List.getElem?_eq_none hi]
  rfl

omit [LinearOrder K] in
theorem keyAt_swap {a b : ℕ} (ha : a < h.length) (hb : b < h.length) (i : ℕ) :
    keyAt (h.swap a b) i = keyAt h (Equiv.swap a b i) := by
  rcases lt_or_ge i h.length with hi | hi
  · have hget : (h.swap a b)[i]? = h[Equiv.swap a b i]? := by
      rw [List.getElem?_eq_getElem (by rwa [List.length_swap]), List.getElem_swap,
        Equiv.swap_apply_def]
      by_cases hia : i = a
      · simp [hia, hb]
      · by_cases hib : i = b
        · simp [hib, ha, hib ▸ hia]
        · simp [hia, hib, hi]
    rw [keyAt, keyAt, hget]
  · have hsame : Equiv.swap a b i = i := Equiv.swap_apply_of_ne_of_ne (by omega) (by omega)
    rw [hsame, keyAt_of_le hi, keyAt_of_le (by rwa [List.length_swap])]

theorem UpReady.swap (hup : UpReady h (i + 1)) (hgt : keyAt h (i + 1) < keyAt h (i / 2)) :
    UpReady (h.swap (i / 2) (i + 1)) (i / 2) := by
  have hi : i + 1 < h.length := lt_length_of_keyAt_lt hgt
  have hkey := keyAt_swap (show i / 2 < h.length by omega) hi
  have hparent := hkey (i / 2)
  have hplace := hkey (i + 1)
  rw [Equiv.swap_apply_left] at hparent
  rw [Equiv.swap_apply_right] at hplace
  have hother : ∀ j, j ≠ i / 2 → j ≠ i + 1 → keyAt (h.swap (i / 2) (i + 1)) j = keyAt h j := by
    intro j hj hj'
    rw [hkey, Equiv.swap_apply_of_ne_of_ne hj hj']
  constructor
  · intro j hj
    by_cases hji : j = i
    · rw [hji, hparent, hplace]
      exact hgt.le
    · have hold := hup.but j (by omega)
      rw [hother (j + 1) hj (by omega)]
      by_cases hsibling : j / 2 = i / 2
      · rw [hsibling, hparent]
        exact hgt.le.trans (hsibling ▸ hold)
      · by_cases hchild : j / 2 = i + 1
        · rw [hchild, hplace]
          exact hup.skip i j rfl hchild
        · rwa [hother (j / 2) hsibling hchild]
  · intro k j hk hj
    have hgrand := hup.but k (by omega)
    rw [← hk] at hgrand
    rw [hother (k / 2) (by omega) (by omega)]
    by_cases hji : j = i
    · rwa [hji, hplace]
    · rw [hother (j + 1) (by omega) (by omega)]
      exact hgrand.trans (hj ▸ hup.but j (by omega))

theorem ordered_siftUp (hup : UpReady h i) : Ordered (siftUp h i) := by
  induction h, i using siftUp.induct with
  | case1 h =>
      rw [siftUp]
      exact fun j ↦ hup.but j (Nat.succ_ne_zero j)
  | case2 h i hle =>
      rw [siftUp, if_pos hle]
      intro j
      by_cases hji : j = i
      · rwa [hji]
      · exact hup.but j (by omega)
  | case3 h i hgt ih =>
      rw [siftUp, if_neg hgt]
      exact ih (hup.swap (not_le.mp hgt))

theorem ordered_push (hord : Ordered h) (x : K × ν) : Ordered (push h x) := by
  have hkeep : ∀ j < h.length, keyAt (h ++ [x]) j = keyAt h j := by
    intro j hj
    rw [keyAt, keyAt, List.getElem?_append_left hj]
  have hout : ∀ j, h.length < j → keyAt (h ++ [x]) j = ⊤ := by
    intro j hj
    exact keyAt_of_le (by rwa [List.length_append, List.length_singleton])
  apply ordered_siftUp
  constructor
  · intro j hj
    rcases lt_or_ge (j + 1) h.length with hlt | hge
    · rw [hkeep (j / 2) (by omega), hkeep (j + 1) hlt]
      exact hord j
    · rw [hout (j + 1) (by omega)]
      exact le_top
  · intro k j _ hj
    rw [hout (j + 1) (by omega)]
    exact le_top

theorem keyAt_smaller_le (h : List (K × ν)) (s c : ℕ) :
    keyAt h (smaller h s c) ≤ keyAt h s ∧ keyAt h (smaller h s c) ≤ keyAt h c := by
  rw [smaller]
  split
  · rename_i hlt
    exact ⟨hlt.le, le_rfl⟩
  · rename_i hge
    exact ⟨le_rfl, not_lt.mp hge⟩

/-- The chosen place has no larger key than the entry and its children. -/
theorem keyAt_smallest_le (h : List (K × ν)) (i : ℕ) :
    keyAt h (smallest h i) ≤ keyAt h i ∧
      ∀ j, j / 2 = i → keyAt h (smallest h i) ≤ keyAt h (j + 1) := by
  obtain ⟨hleft, hright⟩ := keyAt_smaller_le h (smaller h i (2 * i + 1)) (2 * i + 2)
  obtain ⟨hself, hchild⟩ := keyAt_smaller_le h i (2 * i + 1)
  refine ⟨hleft.trans hself, ?_⟩
  intro j hj
  rcases Nat.mod_two_eq_zero_or_one j with heven | hodd
  · obtain rfl : j = 2 * i := by omega
    exact hleft.trans hchild
  · obtain rfl : j = 2 * i + 1 := by omega
    exact hright

theorem smallest_cases (h : List (K × ν)) (i : ℕ) (hi : smallest h i ≠ i) :
    ∃ k, smallest h i = k + 1 ∧ k / 2 = i := by
  have hplace : ∀ s c, smaller h s c = s ∨ smaller h s c = c := by
    intro s c
    rw [smaller]
    split
    · exact Or.inr rfl
    · exact Or.inl rfl
  rcases hplace (smaller h i (2 * i + 1)) (2 * i + 2) with hs | hs
  · rcases hplace i (2 * i + 1) with hs' | hs'
    · exact absurd (hs.trans hs') hi
    · exact ⟨2 * i, hs.trans hs', by omega⟩
  · exact ⟨2 * i + 1, hs, by omega⟩

theorem DownReady.swap (hdown : DownReady h i) (hi : smallest h i ≠ i) :
    DownReady (h.swap (smallest h i) i) (smallest h i) := by
  obtain ⟨hlt, hlen⟩ := smallest_bounds hi
  obtain ⟨hself, hchildren⟩ := keyAt_smallest_le h i
  obtain ⟨c, hc, hci⟩ := smallest_cases h i hi
  generalize smallest h i = s at hlt hlen hself hchildren hc
  have hkey := keyAt_swap hlen (hlt.trans hlen)
  have hplace := hkey s
  have hparent := hkey i
  rw [Equiv.swap_apply_left] at hplace
  rw [Equiv.swap_apply_right] at hparent
  have hother : ∀ j, j ≠ s → j ≠ i → keyAt (h.swap s i) j = keyAt h j := by
    intro j hj hj'
    rw [hkey, Equiv.swap_apply_of_ne_of_ne hj hj']
  constructor
  · intro j hj
    by_cases hji : j / 2 = i
    · rw [hji, hparent]
      by_cases hjs : j + 1 = s
      · rw [hjs, hplace]
        exact hself
      · rw [hother (j + 1) hjs (by omega)]
        exact hchildren j hji
    · rw [hother (j / 2) hj hji]
      by_cases hup : j + 1 = i
      · rw [hup, hparent, hc]
        exact hdown.skip j c hup.symm hci
      · rw [hother (j + 1) (by omega) hup]
        exact hdown.but j hji
  · intro k j hk hj
    obtain rfl : k = c := by omega
    rw [hci, hparent, hother (j + 1) (by omega) (by omega)]
    have hbelow := hdown.but j (by omega)
    rwa [hj] at hbelow

theorem ordered_siftDown (hdown : DownReady h i) : Ordered (siftDown h i) := by
  induction h, i using siftDown.induct with
  | case1 h i hi =>
      rw [siftDown, if_pos hi]
      intro j
      by_cases hji : j / 2 = i
      · have hle := (keyAt_smallest_le h i).2 j hji
        rwa [hi, ← hji] at hle
      · exact hdown.but j hji
  | case2 h i hi ih =>
      rw [siftDown, if_neg hi]
      exact ih (hdown.swap hi)

theorem Ordered.top_le (hord : Ordered h) (i : ℕ) : keyAt h 0 ≤ keyAt h i := by
  induction i using Nat.strong_induction_on with
  | h i ih =>
      cases i with
      | zero => exact le_rfl
      | succ i => exact (ih (i / 2) (by omega)).trans (hord i)

/-- Popping takes an entry with the smallest key, and what is left is in order. -/
theorem ordered_pop {h' : List (K × ν)} {x : K × ν} (hord : Ordered h)
    (hpop : pop h = some (x, h')) : Ordered h' ∧ ∀ y ∈ h, x.1 ≤ y.1 := by
  cases h with
  | nil => cases hpop
  | cons top rest =>
      obtain ⟨rfl, rfl⟩ := Prod.mk.inj (Option.some.inj hpop)
      constructor
      · by_cases hrest : rest = []
        · rw [dif_pos hrest]
          exact fun j ↦ le_top
        · rw [dif_neg hrest]
          have hkeep : ∀ j, 0 < j → j < rest.length →
              keyAt (rest.getLast hrest :: rest.dropLast) j = keyAt (top :: rest) j := by
            intro j hpos hj
            obtain ⟨m, rfl⟩ := Nat.exists_eq_succ_of_ne_zero hpos.ne'
            rw [keyAt, keyAt, List.getElem?_cons_succ, List.getElem?_cons_succ,
              List.getElem?_dropLast, if_pos (by omega)]
          apply ordered_siftDown
          constructor
          · intro j hj
            rcases lt_or_ge (j + 1) rest.length with hlt | hge
            · rw [hkeep (j / 2) (by omega) (by omega), hkeep (j + 1) (Nat.succ_pos j) hlt]
              exact hord j
            · refine le_of_le_of_eq le_top (keyAt_of_le ?_).symm
              rw [List.length_cons, List.length_dropLast]
              omega
          · exact fun k j hk ↦ absurd hk.symm (Nat.succ_ne_zero k)
      · intro y hy
        obtain ⟨i, hi, rfl⟩ := List.mem_iff_getElem.mp hy
        have htop := hord.top_le i
        rw [keyAt, keyAt, List.getElem?_cons_zero, List.getElem?_eq_getElem hi] at htop
        exact WithTop.coe_le_coe.mp htop

end Heap
