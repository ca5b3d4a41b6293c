import Mathlib.Algebra.BigOperators.Group.Finset.Piecewise
import Mathlib.Algebra.BigOperators.Group.List.Basic
import Mathlib.Data.List.AList
import Mathlib.Data.List.Dedup
import Mathlib.Order.Lattice

/-!
# Keyed totals

A hash map whose values accumulate, against the list of the contributions that
went into it.  A map counts a list when at each key it holds the sum of the
contributions to that key, and holds no other keys.  Counting survives one more
contribution, merging another map in any order of its entries, and a cap on the
number of keys that the contributions do not exceed; and the entries of largest
weight are the keys of largest total.
-/

namespace Tally

abbrev Map (K E : Type*) := AList fun _ : K ↦ E

variable {K E V : Type*} [DecidableEq K]

def upsert (k : K) (new : E) (f : E → E) (m : Map K E) : Map K E :=
  m.insert k (f ((m.lookup k).getD new))

/-! ## Totals of a list -/

theorem filter_key_eq_nil {l : List (K × V)} {k : K} (h : k ∉ l.map Prod.fst) :
    (l.filter fun p ↦ p.1 = k) = [] := by
  rw [List.filter_eq_nil_iff]
  rintro p hp hkey
  exact h (List.mem_map.mpr ⟨p, hp, by simpa using hkey⟩)

section Total

variable [AddCommMonoid V]

/-- The sum of the contributions to `k`, if there are any. -/
def total (l : List (K × V)) (k : K) : Option V :=
  if k ∈ l.map Prod.fst then some ((l.filter fun p ↦ p.1 = k).map Prod.snd).sum else none

@[simp] theorem total_nil (k : K) : total ([] : List (K × V)) k = none := rfl

theorem total_isSome {l : List (K × V)} {k : K} : (total l k).isSome ↔ k ∈ l.map Prod.fst := by
  rw [total]
  split <;> simp_all

theorem total_append (l l' : List (K × V)) (k : K) :
    total (l ++ l') k = Option.merge (· + ·) (total l k) (total l' k) := by
  simp only [total, List.map_append, List.mem_append, List.filter_append, List.sum_append]
  by_cases h : k ∈ l.map Prod.fst <;> by_cases h' : k ∈ l'.map Prod.fst
  · simp [h, h']
  · simp [h, h', filter_key_eq_nil h']
  · simp [h, h', filter_key_eq_nil h]
  · simp [h, h']

theorem total_singleton (j k : K) (x : V) :
    total [(j, x)] k = if j = k then some x else none := by
  by_cases h : j = k
  · simp [total, h]
  · simp [total, h, Ne.symm h]

theorem total_cons (p : K × V) (l : List (K × V)) (k : K) :
    total (p :: l) k = Option.merge (· + ·) (if p.1 = k then some p.2 else none) (total l k) := by
  rw [← total_singleton, ← total_append]
  rfl

theorem total_perm {l l' : List (K × V)} (h : l.Perm l') (k : K) : total l k = total l' k := by
  simp only [total, (h.map Prod.fst).mem_iff, ((h.filter _).map Prod.snd).sum_eq]

theorem total_entries (π : E → V) (m : Map K E) (k : K) :
    total (m.entries.map fun e ↦ (e.1, π e.2)) k = (m.lookup k).map π := by
  obtain ⟨entries, hnodup⟩ := m
  change _ = (List.dlookup k entries).map π
  induction entries with
  | nil => rfl
  | cons e entries ih =>
      obtain ⟨hnot, hnodup⟩ := List.nodupKeys_cons.mp hnodup
      rw [List.map_cons, total_cons, ih hnodup]
      by_cases h : e.1 = k
      · subst h
        have hnone : List.dlookup e.1 entries = none := List.dlookup_eq_none.mpr hnot
        rw [if_pos rfl, hnone, List.dlookup_cons_eq]
        rfl
      · rw [if_neg h, List.dlookup_cons_ne _ _ (Ne.symm h)]
        simp

theorem total_cons_getD (p : K × V) (l : List (K × V)) (k : K) :
    (total (p :: l) k).getD 0 = (if p.1 = k then p.2 else 0) + (total l k).getD 0 := by
  rw [total_cons]
  by_cases h : p.1 = k
  · rw [if_pos h, if_pos h]
    cases total l k with
    | none => exact (add_zero p.2).symm
    | some x => rfl
  · rw [if_neg h, if_neg h, zero_add]
    cases total l k with
    | none => rfl
    | some x => rfl

/-- The contributions add up to the totals of their keys. -/
theorem sum_total (s : Finset K) {l : List (K × V)} (h : ∀ p ∈ l, p.1 ∈ s) :
    ∑ k ∈ s, (total l k).getD 0 = (l.map Prod.snd).sum := by
  induction l with
  | nil => exact Finset.sum_eq_zero fun _ _ ↦ rfl
  | cons p l ih =>
      obtain ⟨hp, hl⟩ := List.forall_mem_cons.mp h
      simp only [total_cons_getD, Finset.sum_add_distrib, List.map_cons, List.sum_cons, ih hl]
      rw [Finset.sum_ite_eq, if_pos hp]

/-- Lists with the same totals add up to the same. -/
theorem sum_eq_of_total_eq {l l' : List (K × V)} (h : ∀ k, total l k = total l' k) :
    (l.map Prod.snd).sum = (l'.map Prod.snd).sum := by
  have hmem : ∀ (l : List (K × V)), ∀ p ∈ l, p.1 ∈ (l.map Prod.fst).toFinset :=
    fun l p hp ↦ List.mem_toFinset.mpr (List.mem_map_of_mem hp)
  have hkeys : (l.map Prod.fst).toFinset = (l'.map Prod.fst).toFinset := by
    ext k
    rw [List.mem_toFinset, List.mem_toFinset, ← total_isSome, ← total_isSome, h]
  rw [← sum_total _ (hmem l), ← sum_total _ (hmem l'), hkeys]
  exact Finset.sum_congr rfl fun k _ ↦ by rw [h k]

end Total

/-! ## Counting -/

section Counts

variable [AddCommMonoid V] {π : E → V}

/-- `m` holds at each key the total of `l` there, as `π` reads it off. -/
def Counts (π : E → V) (m : Map K E) (l : List (K × V)) : Prop :=
  ∀ k, (m.lookup k).map π = total l k

theorem counts_empty (π : E → V) : Counts π (∅ : Map K E) [] := fun _ ↦ rfl

theorem Counts.mem_iff {m : Map K E} {l : List (K × V)} (h : Counts π m l) (k : K) :
    k ∈ m ↔ k ∈ l.map Prod.fst := by
  rw [← AList.lookup_isSome, ← total_isSome, ← h k, Option.isSome_map]

theorem Counts.length_keys {m : Map K E} {l : List (K × V)} (h : Counts π m l) :
    m.keys.length = (l.map Prod.fst).dedup.length := by
  have hperm : m.keys.Perm (l.map Prod.fst).dedup := by
    rw [List.perm_ext_iff_of_nodup m.keys_nodup (List.nodup_dedup _)]
    intro k
    rw [← AList.mem_keys, h.mem_iff, List.mem_dedup]
  exact hperm.length_eq

/-- What a map holds adds up to what went into it. -/
theorem Counts.sum_entries {m : Map K E} {l : List (K × V)} (h : Counts π m l) :
    (m.entries.map fun e ↦ π e.2).sum = (l.map Prod.snd).sum := by
  have htotal : ∀ k, total (m.entries.map fun e ↦ (e.1, π e.2)) k = total l k :=
    fun k ↦ (total_entries π m k).trans (h k)
  rw [← sum_eq_of_total_eq htotal, List.map_map]
  rfl

theorem Counts.congr {m : Map K E} {l l' : List (K × V)} (h : Counts π m l)
    (hl : ∀ k, total l k = total l' k) : Counts π m l' :=
  fun k ↦ (h k).trans (hl k)

/-- The total of one more amount. -/
theorem map_lookup_upsert {m : Map K E} {l : List (K × V)} {k : K} {new : E} {f : E → E} {x : V}
    (hk : (m.lookup k).map π = total l k) (hnew : π new = 0) (hf : ∀ e, π (f e) = π e + x) :
    ((Tally.upsert k new f m).lookup k).map π = total (l ++ [(k, x)]) k := by
  rw [total_append, total_singleton, if_pos rfl, ← hk, Tally.upsert, AList.lookup_insert,
    Option.map_some, hf]
  cases m.lookup k with
  | none => simp [hnew]
  | some e => rfl

theorem total_append_ne {j k : K} (hjk : j ≠ k) (l : List (K × V)) (x : V) :
    total (l ++ [(k, x)]) j = total l j := by
  rw [total_append, total_singleton, if_neg hjk.symm]
  simp

theorem Counts.upsert {m : Map K E} {l : List (K × V)} (h : Counts π m l) (k : K) {new : E}
    {f : E → E} {x : V} (hnew : π new = 0) (hf : ∀ e, π (f e) = π e + x) :
    Counts π (upsert k new f m) (l ++ [(k, x)]) := by
  intro j
  by_cases hjk : j = k
  · subst hjk
    exact map_lookup_upsert (h j) hnew hf
  · rw [total_append_ne hjk, ← h j, Tally.upsert, AList.lookup_insert_ne hjk]

theorem Counts.foldl {σ : Type*} {m : Map K E} {l : List (K × V)} (h : Counts π m l)
    (xs : List σ) (key : σ → K) (amount : σ → V) {new : σ → E} {f : σ → E → E}
    (hnew : ∀ s, π (new s) = 0) (hf : ∀ s e, π (f s e) = π e + amount s) :
    Counts π (xs.foldl (fun m s ↦ Tally.upsert (key s) (new s) (f s) m) m)
      (l ++ xs.map fun s ↦ (key s, amount s)) := by
  induction xs generalizing m l with
  | nil => simpa using h
  | cons s xs ih =>
      have := ih (h.upsert (key s) (hnew s) (hf s))
      simpa using this

theorem Counts.merge {E' : Type*} {π' : E' → V} {m : Map K E} {m' : Map K E'}
    {l l' : List (K × V)} (h : Counts π m l) (h' : Counts π' m' l')
    {xs : List ((_ : K) × E')} (hxs : xs.Perm m'.entries)
    {new : ((_ : K) × E') → E} {f : ((_ : K) × E') → E → E}
    (hnew : ∀ s, π (new s) = 0) (hf : ∀ s e, π (f s e) = π e + π' s.2) :
    Counts π (xs.foldl (fun m s ↦ Tally.upsert s.1 (new s) (f s) m) m) (l ++ l') := by
  refine (h.foldl xs (fun s ↦ s.1) (fun s ↦ π' s.2) hnew hf).congr fun k ↦ ?_
  rw [total_append, total_append, total_perm (hxs.map fun s ↦ (s.1, π' s.2)), total_entries, h' k]

theorem Counts.upsert_capped {m : Map K E} {l : List (K × V)} (h : Counts π m l) (k : K) {new : E}
    {f : E → E} {x : V} (hnew : π new = 0) (hf : ∀ e, π (f e) = π e + x) {cap : ℕ}
    (hcap : ((l ++ [(k, x)]).map Prod.fst).dedup.length ≤ cap) :
    Counts π (if m.keys.length < cap ∨ k ∈ m then Tally.upsert k new f m else m)
      (l ++ [(k, x)]) := by
  have haccept : m.keys.length < cap ∨ k ∈ m := by
    rw [h.length_keys, h.mem_iff]
    by_contra hnot
    rw [not_or] at hnot
    obtain ⟨hfull, hnew⟩ := hnot
    have hsub : (l.map Prod.fst).dedup ++ [k] ⊆ ((l ++ [(k, x)]).map Prod.fst).dedup := by
      intro j hj
      simpa [List.mem_dedup] using hj
    have hnodup : ((l.map Prod.fst).dedup ++ [k]).Nodup := by
      rw [List.nodup_append]
      refine ⟨List.nodup_dedup _, List.nodup_singleton _, ?_⟩
      intro j hj i hi hji
      rw [hji, List.mem_singleton.mp hi, List.mem_dedup] at hj
      exact hnew hj
    have hlen := (List.subperm_of_subset hnodup hsub).length_le
    rw [List.length_append, List.length_singleton] at hlen
    omega
  rw [if_pos haccept]
  exact h.upsert k hnew hf

end Counts

/-! ## Counting up to a number of keys -/

section Capped

variable [AddCommMonoid V] {π : E → V} {cap : ℕ} {m : Map K E} {l : List (K × V)}

/-- `m` holds no more than `cap` keys, each with its whole total, and a key of `l` is
left out only when `m` is full. -/
structure CountsCapped (cap : ℕ) (π : E → V) (m : Map K E) (l : List (K × V)) : Prop where
  length_le : m.keys.length ≤ cap
  total_eq : ∀ k ∈ m, (m.lookup k).map π = total l k
  full : ∀ k, k ∉ m → m.keys.length < cap → total l k = none

theorem countsCapped_empty (cap : ℕ) (π : E → V) : CountsCapped cap π (∅ : Map K E) [] where
  length_le := Nat.zero_le cap
  total_eq _ hk := absurd hk (AList.notMem_empty _)
  full _ _ _ := rfl

theorem length_keys_upsert (k : K) (new : E) (f : E → E) (m : Map K E) :
    (Tally.upsert k new f m).keys.length = if k ∈ m then m.keys.length else m.keys.length + 1 := by
  rw [Tally.upsert, AList.keys_insert, List.length_cons]
  split
  · rename_i hk
    have hpos : 0 < m.keys.length := List.length_pos_of_mem (AList.mem_keys.mp hk)
    rw [List.length_erase_of_mem (AList.mem_keys.mp hk)]
    omega
  · rename_i hk
    rw [List.erase_of_not_mem fun hmem ↦ hk (AList.mem_keys.mpr hmem)]

theorem CountsCapped.upsert (h : CountsCapped cap π m l) (k : K) {new : E} {f : E → E} {x : V}
    (hnew : π new = 0) (hf : ∀ e, π (f e) = π e + x) :
    CountsCapped cap π (if m.keys.length < cap ∨ k ∈ m then Tally.upsert k new f m else m)
      (l ++ [(k, x)]) := by
  by_cases hroom : m.keys.length < cap ∨ k ∈ m
  · rw [if_pos hroom]
    have htotal : (m.lookup k).map π = total l k := by
      by_cases hk : k ∈ m
      · exact h.total_eq k hk
      · rw [AList.lookup_eq_none.mpr hk, h.full k hk (hroom.resolve_right hk)]
        rfl
    have hmem : ∀ j, j ∈ Tally.upsert k new f m ↔ j = k ∨ j ∈ m := fun j ↦ AList.mem_insert m
    constructor
    · rw [length_keys_upsert]
      split
      · exact h.length_le
      · rename_i hk
        exact hroom.resolve_right hk
    · intro j hj
      by_cases hjk : j = k
      · rw [hjk]
        exact map_lookup_upsert htotal hnew hf
      · rw [total_append_ne hjk, ← h.total_eq j (((hmem j).mp hj).resolve_left hjk), Tally.upsert,
          AList.lookup_insert_ne hjk]
    · intro j hj hlength
      rw [hmem, not_or] at hj
      rw [total_append_ne hj.1, h.full j hj.2]
      rw [length_keys_upsert] at hlength
      split at hlength
      · exact hlength
      · exact (Nat.lt_succ_self _).trans hlength
  · rw [if_neg hroom]
    rw [not_or] at hroom
    constructor
    · exact h.length_le
    · intro j hj
      have hjk : j ≠ k := fun heq ↦ hroom.2 (heq ▸ hj)
      rw [total_append_ne hjk, h.total_eq j hj]
    · exact fun j _ hlength ↦ absurd hlength hroom.1

end Capped

/-! ## The largest totals -/

section Top

variable [AddCommMonoid V] {W : Type*} [LinearOrder W]

/-- `top` lists `n` keys of `l`, or all there are, with their totals, in
descending order, and no other key has a larger total. -/
structure IsTop (weight : V → W) (n : ℕ) (l top : List (K × V)) : Prop where
  length_eq : top.length = min n (l.map Prod.fst).dedup.length
  nodup : (top.map Prod.fst).Nodup
  total_eq : ∀ row ∈ top, total l row.1 = some row.2
  descending : top.Pairwise fun a b ↦ weight b.2 ≤ weight a.2
  largest : ∀ k x, total l k = some x → k ∉ top.map Prod.fst → ∀ row ∈ top, weight x ≤ weight row.2

theorem IsTop.congr {weight : V → W} {n : ℕ} {l l' top : List (K × V)} (h : IsTop weight n l top)
    (hl : ∀ k, total l k = total l' k) : IsTop weight n l' top := by
  have hkeys : (l.map Prod.fst).dedup.Perm (l'.map Prod.fst).dedup := by
    rw [List.perm_ext_iff_of_nodup (List.nodup_dedup _) (List.nodup_dedup _)]
    intro k
    rw [List.mem_dedup, List.mem_dedup, ← total_isSome, ← total_isSome, hl]
  refine ⟨h.length_eq.trans (by rw [hkeys.length_eq]), h.nodup, ?_, h.descending, ?_⟩
  · exact fun row hrow ↦ (hl row.1).symm.trans (h.total_eq row hrow)
  · exact fun k x hk ↦ h.largest k x ((hl k).trans hk)

def topBy (weight : E → W) (n : ℕ) (entries : List ((_ : K) × E)) : List ((_ : K) × E) :=
  (entries.mergeSort fun a b ↦ decide (weight b.2 ≤ weight a.2)).take n

/-- The first entries of a sorted map are the keys of largest total. -/
theorem isTop_topBy {π : E → V} {m : Map K E} {l : List (K × V)} (h : Counts π m l)
    (weight : V → W) (n : ℕ) {entries : List ((_ : K) × E)} (hentries : entries.Perm m.entries) :
    IsTop weight n l ((topBy (weight ∘ π) n entries).map fun e ↦ (e.1, π e.2)) := by
  have hperm : (entries.mergeSort fun a b ↦ decide (weight (π b.2) ≤ weight (π a.2))).Perm
      m.entries := (List.mergeSort_perm _ _).trans hentries
  have hsorted : (entries.mergeSort fun a b ↦
      decide (weight (π b.2) ≤ weight (π a.2))).Pairwise
        fun a b ↦ weight (π b.2) ≤ weight (π a.2) := by
    refine (List.pairwise_mergeSort ?_ ?_ entries).imp fun hab ↦ of_decide_eq_true hab
    · intro a b c hab hbc
      exact decide_eq_true ((of_decide_eq_true hbc).trans (of_decide_eq_true hab))
    · intro a b
      simpa using le_total (weight (π b.2)) (weight (π a.2))
  simp only [topBy, Function.comp_apply]
  generalize entries.mergeSort (fun a b ↦ decide (weight (π b.2) ≤ weight (π a.2))) = sorted
    at hperm hsorted
  have hnodup : (sorted.map Sigma.fst).Nodup :=
    (hperm.map Sigma.fst).nodup_iff.mpr m.keys_nodup
  have hlookup : ∀ e ∈ sorted, m.lookup e.1 = some e.2 := fun e he ↦
    AList.mem_lookup_iff.mpr (hperm.mem_iff.mp he)
  constructor
  · rw [List.length_map, List.length_take, hperm.length_eq, ← h.length_keys]
    simp [AList.keys, List.keys]
  · rw [List.map_map, List.map_take]
    exact hnodup.sublist (List.take_sublist n _)
  · rintro row hrow
    obtain ⟨e, he, rfl⟩ := List.mem_map.mp hrow
    rw [← h e.1, hlookup e (List.mem_of_mem_take he)]
    rfl
  · exact List.pairwise_map.mpr (hsorted.sublist (List.take_sublist n sorted))
  · intro k x hk hnot row hrow
    obtain ⟨e, he, rfl⟩ := List.mem_map.mp hrow
    rw [← h k] at hk
    obtain ⟨y, hy, rfl⟩ := Option.map_eq_some_iff.mp hk
    have hmem : (⟨k, y⟩ : (_ : K) × E) ∈ sorted :=
      hperm.mem_iff.mpr (AList.mem_lookup_iff.mp hy)
    rw [← List.take_append_drop n sorted] at hmem hsorted
    rcases List.mem_append.mp hmem with hfirst | hrest
    · refine absurd ?_ hnot
      exact List.mem_map.mpr ⟨_, List.mem_map.mpr ⟨_, hfirst, rfl⟩, rfl⟩
    · exact (List.pairwise_append.mp hsorted).2.2 e he _ hrest

end Top

end Tally
