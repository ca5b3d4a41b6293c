import Mathlib.Algebra.BigOperators.Group.List.Basic
import Mathlib.Data.List.Induction
import Mathlib.Data.List.Nodup
import Mathlib.Data.Rat.Floor
import Mathlib.Tactic.FieldSimp
import Mathlib.Tactic.Linarith

/-!
# Bars of a time series

Times are numbered by their distance back from now in buckets of one width, and
a series of bars is filled from rows that each bring the value of one bucket.  A
number below zero counts as zero, so several rows can be meant for the newest
bar, of which the last one stays.
-/

namespace Buckets

/-! ## Numbering -/

section Index

variable {now width t : ℚ}

/-- `floor((now - t) / width)`. -/
def index (now width t : ℚ) : ℤ := ⌊(now - t) / width⌋

theorem index_le_iff (hwidth : 0 < width) (k : ℤ) :
    index now width t ≤ k ↔ now - (k + 1) * width < t := by
  rw [index, ← Int.lt_add_one_iff, Int.floor_lt, div_lt_iff₀ hwidth]
  push_cast
  constructor
  · intro h
    linarith
  · intro h
    linarith

theorem le_index_iff (hwidth : 0 < width) (k : ℤ) :
    k ≤ index now width t ↔ t ≤ now - k * width := by
  rw [index, Int.le_floor, le_div_iff₀ hwidth]
  constructor
  · intro h
    linarith
  · intro h
    linarith

/-- A bucket is open at its older end and closed at its newer one. -/
theorem index_eq_iff (hwidth : 0 < width) (k : ℤ) :
    index now width t = k ↔ now - (k + 1) * width < t ∧ t ≤ now - k * width := by
  rw [le_antisymm_iff, index_le_iff hwidth, le_index_iff hwidth]

/-- Two intervals select the same times unless one lies in the gap before or in
the overhang behind. -/
theorem shifted_iff {u v gap extra : ℚ} (huv : u ≤ v) (hgap : 0 < gap) (hextra : 0 < extra) :
    ((u < t ∧ t ≤ v + extra) ↔ (u - gap < t ∧ t ≤ v)) ↔
      ¬ (u - gap < t ∧ t ≤ u) ∧ ¬ (v < t ∧ t ≤ v + extra) := by
  constructor
  · intro hiff
    constructor
    · rintro ⟨hlow, hhigh⟩
      exact not_lt.mpr hhigh (hiff.mpr ⟨hlow, hhigh.trans huv⟩).1
    · rintro ⟨hlow, hhigh⟩
      exact not_le.mpr hlow (hiff.mp ⟨huv.trans_lt hlow, hhigh⟩).2
  · rintro ⟨hbefore, hbehind⟩
    constructor
    · rintro ⟨hlow, hhigh⟩
      refine ⟨by linarith, ?_⟩
      by_contra hlt
      exact hbehind ⟨not_le.mp hlt, hhigh⟩
    · rintro ⟨hlow, hhigh⟩
      refine ⟨?_, by linarith⟩
      by_contra hle
      exact hbefore ⟨hlow, not_lt.mp hle⟩

end Index

/-! ## Filling -/

section Fill

variable {α β : Type*}

/-- Each row is written to the bar of its number, if there is one. -/
def fill (n : ℕ) (empty : α) (rows : List (ℤ × α)) : List α :=
  rows.foldl (fun bars row ↦ bars.set row.1.toNat row.2) (List.replicate n empty)

/-- The row that stays in a bar. -/
def kept (empty : α) (rows : List (ℤ × α)) (k : ℕ) : α :=
  ((rows.filter fun row ↦ row.1.toNat = k).getLast?.map Prod.snd).getD empty

theorem fill_concat (n : ℕ) (empty : α) (rows : List (ℤ × α)) (row : ℤ × α) :
    fill n empty (rows ++ [row]) = (fill n empty rows).set row.1.toNat row.2 := by
  rw [fill, List.foldl_append]
  rfl

@[simp] theorem length_fill (n : ℕ) (empty : α) (rows : List (ℤ × α)) :
    (fill n empty rows).length = n := by
  induction rows using List.reverseRecOn with
  | nil => exact List.length_replicate
  | append_singleton rows row ih => rw [fill_concat, List.length_set, ih]

theorem kept_concat (empty : α) (rows : List (ℤ × α)) (row : ℤ × α) (k : ℕ) :
    kept empty (rows ++ [row]) k = if row.1.toNat = k then row.2 else kept empty rows k := by
  rw [kept, List.filter_append]
  split
  · rename_i hrow
    simp [hrow]
  · rename_i hrow
    have hnone : ([row].filter fun row ↦ row.1.toNat = k) = [] := by simp [hrow]
    rw [hnone, List.append_nil, kept]

theorem getElem?_fill {n k : ℕ} (hk : k < n) (empty : α) (rows : List (ℤ × α)) :
    (fill n empty rows)[k]? = some (kept empty rows k) := by
  induction rows using List.reverseRecOn with
  | nil => exact List.getElem?_replicate_of_lt hk
  | append_singleton rows row ih =>
      have hlength : k < (fill n empty rows).length := by rwa [length_fill]
      rw [fill_concat, kept_concat]
      split
      · rename_i hrow
        rw [hrow, List.getElem?_set_self hlength]
      · rename_i hrow
        rw [List.getElem?_set_ne hrow, ih]

theorem fill_map (n : ℕ) (f : α → β) (empty : α) (rows : List (ℤ × α)) :
    fill n (f empty) (rows.map fun row ↦ (row.1, f row.2)) = (fill n empty rows).map f := by
  induction rows using List.reverseRecOn with
  | nil => exact List.map_replicate.symm
  | append_singleton rows row ih =>
      rw [List.map_append, List.map_singleton, fill_concat, fill_concat, ih, List.map_set]

theorem kept_cases (empty : α) (rows : List (ℤ × α)) (k : ℕ) :
    kept empty rows k = empty ∨ ∃ row ∈ rows, row.1.toNat = k ∧ kept empty rows k = row.2 := by
  rw [kept]
  cases h : (rows.filter fun row ↦ row.1.toNat = k).getLast? with
  | none => exact Or.inl rfl
  | some row =>
      obtain ⟨hrow, hkey⟩ := List.mem_filter.mp (List.mem_of_getLast? h)
      exact Or.inr ⟨row, hrow, of_decide_eq_true hkey, rfl⟩

/-- The only row for a bar is the one that stays. -/
theorem kept_eq_of_forall (empty : α) {rows : List (ℤ × α)} {k : ℕ} {row : ℤ × α}
    (hrow : row ∈ rows) (hkey : row.1.toNat = k)
    (hall : ∀ row' ∈ rows, row'.1.toNat = k → row' = row) : kept empty rows k = row.2 := by
  have hmem : row ∈ rows.filter fun row ↦ row.1.toNat = k :=
    List.mem_filter.mpr ⟨hrow, decide_eq_true hkey⟩
  have hne := List.ne_nil_of_mem hmem
  rw [kept, List.getLast?_eq_some_getLast hne]
  obtain ⟨hlast, hlastKey⟩ := List.mem_filter.mp (List.getLast_mem hne)
  rw [hall _ hlast (of_decide_eq_true hlastKey)]
  rfl

/-- The bar does not depend on which of its rows comes last, if they bring the same. -/
theorem kept_perm (empty : α) {rows rows' : List (ℤ × α)} (h : rows.Perm rows') {k : ℕ}
    (hsame : ∀ row ∈ rows, ∀ row' ∈ rows, row.1.toNat = k → row'.1.toNat = k → row.2 = row'.2) :
    kept empty rows k = kept empty rows' k := by
  have hfilter := h.filter fun row ↦ decide (row.1.toNat = k)
  rw [kept, kept]
  cases hlast : (rows.filter fun row ↦ row.1.toNat = k).getLast? with
  | none =>
      rw [List.getLast?_eq_none_iff] at hlast
      rw [hlast, List.nil_perm] at hfilter
      rw [hfilter]
      rfl
  | some row =>
      have hrow := List.mem_filter.mp (List.mem_of_getLast? hlast)
      have hne : (rows'.filter fun row ↦ row.1.toNat = k) ≠ [] :=
        List.ne_nil_of_mem (hfilter.mem_iff.mp (List.mem_of_getLast? hlast))
      have hrow' := List.mem_filter.mp (hfilter.mem_iff.mpr (List.getLast_mem hne))
      rw [List.getLast?_eq_some_getLast hne]
      exact hsame row hrow.1 _ hrow'.1 (of_decide_eq_true hrow.2) (of_decide_eq_true hrow'.2)

end Fill

/-! ## Sums -/

section Sum

variable {n : ℕ}

/-- Only rows for the newest bar can go missing. -/
theorem sum_fill {α : Type*} [AddCommGroup α] {rows : List (ℤ × α)}
    (hlt : ∀ row ∈ rows, row.1.toNat < n) (hnodup : (rows.map Prod.fst).Nodup) :
    (fill n 0 rows).sum + ((rows.filter fun row ↦ row.1 ≤ 0).map Prod.snd).sum =
      kept 0 rows 0 + (rows.map Prod.snd).sum := by
  induction rows using List.reverseRecOn with
  | nil => simp [fill, kept]
  | append_singleton rows row ih =>
      rw [List.map_append, List.map_singleton, List.nodup_append] at hnodup
      obtain ⟨hnodup, -, hfresh⟩ := hnodup
      have hold := ih (fun r hr ↦ hlt r (List.mem_append_left _ hr)) hnodup
      have hn : row.1.toNat < n := hlt row (List.mem_append_right _ (List.mem_singleton_self row))
      have hbar : row.1.toNat < (fill n 0 rows).length := by rwa [length_fill]
      have hwas : (fill n 0 rows)[row.1.toNat] = kept 0 rows row.1.toNat := by
        have hget := getElem?_fill hn (0 : α) rows
        rwa [List.getElem?_eq_getElem hbar, Option.some_inj] at hget
      rw [fill_concat, List.sum_set', dif_pos hbar, hwas, kept_concat, List.filter_append,
        List.map_append, List.map_append, List.sum_append, List.sum_append]
      by_cases hnew : row.1 ≤ 0
      · have hzero : row.1.toNat = 0 := Int.toNat_of_nonpos hnew
        rw [hzero, if_pos rfl]
        simp only [hnew, decide_true, List.filter_cons_of_pos, List.filter_nil, List.map_cons,
          List.map_nil, List.sum_cons, List.sum_nil, add_zero]
        calc _ = ((fill n 0 rows).sum + ((rows.filter fun row ↦ row.1 ≤ 0).map Prod.snd).sum) -
              kept 0 rows 0 + row.2 + row.2 := by abel
          _ = _ := by rw [hold]; abel
      · have hempty : kept 0 rows row.1.toNat = 0 := by
          rcases kept_cases 0 rows row.1.toNat with hnone | ⟨row', hrow', hkey, -⟩
          · exact hnone
          · have hkeys := hfresh _ (List.mem_map_of_mem hrow') _ (List.mem_singleton_self _)
            omega
        rw [hempty, if_neg (by omega)]
        simp only [hnew, decide_false, Bool.false_eq_true, not_false_eq_true,
          List.filter_cons_of_neg, List.filter_nil, List.map_nil, List.sum_nil, List.map_cons,
          List.sum_cons, add_zero, neg_zero, zero_add]
        rw [← add_assoc, ← hold]
        abel

/-- The rows that are meant for the newest bar. -/
def forNewest (rows : List (ℤ × ℤ)) : List (ℤ × ℤ) := rows.filter fun row ↦ row.1 ≤ 0

variable {rows : List (ℤ × ℤ)}

theorem mem_forNewest {row : ℤ × ℤ} : row ∈ forNewest rows ↔ row ∈ rows ∧ row.1 ≤ 0 := by
  rw [forNewest, List.mem_filter, decide_eq_true_eq]

theorem sum_forNewest_perm {rows' : List (ℤ × ℤ)} (h : rows'.Perm rows) :
    ((forNewest rows').map Prod.snd).sum = ((forNewest rows).map Prod.snd).sum :=
  ((h.filter _).map Prod.snd).sum_eq

/-- At most one row for the newest bar, or nothing in any of them. -/
def NewestKept (rows : List (ℤ × ℤ)) : Prop :=
  (∀ row ∈ rows, ∀ row' ∈ rows, row.1 ≤ 0 → row'.1 ≤ 0 → row = row') ∨
    ∀ row ∈ rows, row.1 ≤ 0 → row.2 = 0

theorem NewestKept.perm {rows' : List (ℤ × ℤ)} (h : NewestKept rows) (hperm : rows'.Perm rows) :
    NewestKept rows' := by
  simpa only [NewestKept, hperm.mem_iff] using h

theorem NewestKept.kept_eq (h : NewestKept rows) (hnodup : (rows.map Prod.fst).Nodup) :
    kept 0 rows 0 = ((forNewest rows).map Prod.snd).sum := by
  rcases h with hone | hzero
  · have hkeys : (fun row : ℤ × ℤ ↦ decide (row.1.toNat = 0)) = fun row ↦ decide (row.1 ≤ 0) := by
      funext row
      rw [decide_eq_decide]
      omega
    rw [kept, hkeys, ← forNewest]
    cases hrows : forNewest rows with
    | nil => rfl
    | cons row rest =>
        cases rest with
        | nil => simp
        | cons row' rest =>
            have hmem := mem_forNewest.mp (hrows ▸ List.mem_cons_self : row ∈ forNewest rows)
            have hmem' := mem_forNewest.mp
              (hrows ▸ List.mem_cons_of_mem _ List.mem_cons_self : row' ∈ forNewest rows)
            have hsub : (forNewest rows).Nodup := (List.Nodup.of_map Prod.fst hnodup).filter _
            rw [hrows, hone row hmem.1 row' hmem'.1 hmem.2 hmem'.2] at hsub
            exact absurd List.mem_cons_self (List.nodup_cons.mp hsub).1
  · have hsum : ((forNewest rows).map Prod.snd).sum = 0 := by
      apply List.sum_eq_zero
      intro x hx
      obtain ⟨row, hrow, rfl⟩ := List.mem_map.mp hx
      exact hzero row (mem_forNewest.mp hrow).1 (mem_forNewest.mp hrow).2
    rw [hsum]
    rcases kept_cases 0 rows 0 with hnone | ⟨row, hrow, hkey, hkept⟩
    · exact hnone
    · rw [hkept, hzero row hrow (by omega)]

/-- The bars do not depend on the order of the rows. -/
theorem NewestKept.fill_eq (h : NewestKept rows) (hnodup : (rows.map Prod.fst).Nodup)
    {rows' : List (ℤ × ℤ)} (hperm : rows.Perm rows') : fill n 0 rows = fill n 0 rows' := by
  apply List.ext_getElem?
  intro k
  by_cases hk : k < n
  · rw [getElem?_fill hk, getElem?_fill hk]
    congr 1
    apply kept_perm 0 hperm
    intro row hrow row' hrow' hkey hkey'
    by_cases hzero : k = 0
    · rcases h with hone | hnothing
      · rw [hone row hrow row' hrow' (by omega) (by omega)]
      · rw [hnothing row hrow (by omega), hnothing row' hrow' (by omega)]
    · rw [List.inj_on_of_nodup_map hnodup hrow hrow' (by omega)]
  · rw [List.getElem?_eq_none (by rw [length_fill]; omega),
      List.getElem?_eq_none (by rw [length_fill]; omega)]

/-- Nothing goes missing when the newest bar has the sum of its rows. -/
theorem sum_fill_eq_iff (hlt : ∀ row ∈ rows, row.1.toNat < n)
    (hnodup : (rows.map Prod.fst).Nodup) :
    (fill n 0 rows).sum = (rows.map Prod.snd).sum ↔
      kept 0 rows 0 = ((forNewest rows).map Prod.snd).sum := by
  have hsum := sum_fill hlt hnodup
  rw [forNewest]
  constructor
  · intro h
    linarith
  · intro h
    linarith

/-- In every order of the rows the bars hold the whole sum, if and only if no two rows
are meant for the newest bar, or those that are bring nothing. -/
theorem sum_fill_perm_iff (hlt : ∀ row ∈ rows, row.1.toNat < n)
    (hnodup : (rows.map Prod.fst).Nodup) :
    (∀ rows', rows'.Perm rows → (fill n 0 rows').sum = (rows.map Prod.snd).sum) ↔
      NewestKept rows := by
  have hkept : ∀ rows', rows'.Perm rows → ((fill n 0 rows').sum = (rows.map Prod.snd).sum ↔
      kept 0 rows' 0 = ((forNewest rows).map Prod.snd).sum) := by
    intro rows' hperm
    have hiff := sum_fill_eq_iff (fun row hrow ↦ hlt row (hperm.mem_iff.mp hrow))
      ((hperm.map Prod.fst).nodup_iff.mpr hnodup)
    rwa [(hperm.map Prod.snd).sum_eq, sum_forNewest_perm hperm] at hiff
  constructor
  · intro hall
    -- any of the rows for the newest bar can be the last one
    have heach : ∀ row ∈ forNewest rows, row.2 = ((forNewest rows).map Prod.snd).sum := by
      intro row hrow
      obtain ⟨hmem, hnew⟩ := mem_forNewest.mp hrow
      have hperm : (rows.erase row ++ [row]).Perm rows :=
        (List.perm_append_singleton _ _).trans (List.perm_cons_erase hmem).symm
      have hlast := (hkept _ hperm).mp (hall _ hperm)
      rwa [kept_concat, if_pos (Int.toNat_of_nonpos hnew)] at hlast
    have hsum : ((forNewest rows).map Prod.snd).sum =
        (forNewest rows).length * ((forNewest rows).map Prod.snd).sum := by
      have hcard := List.sum_eq_card_nsmul ((forNewest rows).map Prod.snd) _ fun x hx ↦ by
        obtain ⟨row, hrow, rfl⟩ := List.mem_map.mp hx
        exact heach row hrow
      rw [List.length_map, nsmul_eq_mul] at hcard
      exact hcard
    by_cases hzero : ((forNewest rows).map Prod.snd).sum = 0
    · right
      intro row hrow hnew
      rw [heach row (mem_forNewest.mpr ⟨hrow, hnew⟩), hzero]
    · left
      have hlength : (forNewest rows).length = 1 := by
        have hone := mul_right_cancel₀ hzero ((one_mul _).trans hsum)
        exact_mod_cast hone.symm
      obtain ⟨only, honly⟩ := List.length_eq_one_iff.mp hlength
      have heq : ∀ row ∈ rows, row.1 ≤ 0 → row = only := by
        intro row hrow hnew
        rw [← List.mem_singleton, ← honly]
        exact mem_forNewest.mpr ⟨hrow, hnew⟩
      intro row hrow row' hrow' hnew hnew'
      rw [heq row hrow hnew, heq row' hrow' hnew']
  · intro hcond rows' hperm
    rw [hkept rows' hperm, ← sum_forNewest_perm hperm]
    exact (hcond.perm hperm).kept_eq ((hperm.map Prod.fst).nodup_iff.mpr hnodup)

end Sum

end Buckets
