import Mathlib.Data.List.AList
import Mathlib.Data.List.Dedup

/-!
# Keyed tables

A table with a primary key is a finite map from keys to rows.  The statements
that read and write tables (a select that keeps the key, grouping, an update
with a condition, an insert that updates on conflict) are functions on such
maps, each specified by what it leaves at a key.
-/

namespace Sql

abbrev Table (κ ρ : Type*) := AList fun _ : κ ↦ ρ

namespace Table

variable {κ ρ σ ν α : Type*}

/-! ## One element for each row -/

section Listing

variable {t : Table κ ρ} {f : (Sigma fun _ : κ ↦ ρ) → α} {key : α → κ}

theorem map_key_entries (hkey : ∀ e ∈ t.entries, key (f e) = e.1) :
    (t.entries.map f).map key = t.keys := by
  rw [List.map_map]
  exact List.map_congr_left hkey

theorem nodup_map_entries (hkey : ∀ e ∈ t.entries, key (f e) = e.1) :
    ((t.entries.map f).map key).Nodup := by
  rw [map_key_entries hkey]
  exact t.keys_nodup

theorem exists_mem_map_entries_iff [DecidableEq κ] (hkey : ∀ e ∈ t.entries, key (f e) = e.1)
    {k : κ} : (∃ a ∈ t.entries.map f, key a = k) ↔ (t.lookup k).isSome := by
  rw [← List.mem_map, map_key_entries hkey, ← AList.mem_keys, AList.lookup_isSome]

end Listing

variable [DecidableEq κ]

theorem entries_eq_nil {t : Table κ ρ} (h : ∀ k, t.lookup k = none) : t.entries = [] := by
  rw [List.eq_nil_iff_forall_not_mem]
  intro p hp
  have hsome := AList.mem_lookup_iff.mpr hp
  rw [h] at hsome
  cases hsome

/-! ## Selecting -/

def entry (k : κ) (r : ρ) : Sigma fun _ : κ ↦ ρ := ⟨k, r⟩

/-- The rows that `f` keeps, under their keys. -/
def select (f : κ → ρ → Option σ) (t : Table κ ρ) : Table κ σ where
  entries := t.entries.filterMap fun e ↦ (f e.1 e.2).map (entry e.1)
  nodupKeys := by
    have hkeys : ∀ l : List (Sigma fun _ : κ ↦ ρ),
        List.Sublist (l.filterMap fun e ↦ (f e.1 e.2).map (entry e.1)).keys l.keys := by
      intro l
      induction l with
      | nil => exact List.Sublist.refl _
      | cons e l ih =>
          rw [List.filterMap_cons]
          cases f e.1 e.2 with
          | none => exact ih.cons _
          | some s => exact ih.cons_cons _
    exact List.Sublist.nodup (hkeys t.entries) t.nodupKeys

theorem lookup_select (f : κ → ρ → Option σ) (t : Table κ ρ) (k : κ) :
    (t.select f).lookup k = (t.lookup k).bind (f k) := by
  obtain ⟨entries, hnodup⟩ := t
  change List.dlookup k (entries.filterMap fun e ↦ (f e.1 e.2).map (entry e.1)) =
    (List.dlookup k entries).bind (f k)
  induction entries with
  | nil => rfl
  | cons e entries ih =>
      obtain ⟨hnot, hnodup⟩ := List.nodupKeys_cons.mp hnodup
      have hrest := ih hnodup
      rw [List.filterMap_cons]
      by_cases hk : e.1 = k
      · subst hk
        have hnone : List.dlookup e.1 entries = none := List.dlookup_eq_none.mpr hnot
        rw [List.dlookup_cons_eq]
        cases hf : f e.1 e.2 with
        | none => simpa [hnone, hf] using hrest
        | some s => simp [hf, entry]
      · rw [List.dlookup_cons_ne _ _ (Ne.symm hk)]
        cases f e.1 e.2 with
        | none => exact hrest
        | some s => exact (List.dlookup_cons_ne _ ⟨e.1, s⟩ (Ne.symm hk)).trans hrest

/-- `UPDATE … SET … WHERE`: the rows that `f` has a new value for. -/
def update (f : κ → ρ → Option ρ) (t : Table κ ρ) : Table κ ρ :=
  t.select fun k r ↦ some ((f k r).getD r)

theorem lookup_update (f : κ → ρ → Option ρ) (t : Table κ ρ) (k : κ) :
    (t.update f).lookup k = (t.lookup k).map fun r ↦ (f k r).getD r := by
  rw [update, lookup_select]
  cases t.lookup k <;> rfl

/-! ## Inserting -/

/-- One row of `INSERT … ON CONFLICT DO UPDATE … WHERE`. -/
def insertOne (insert : ν → ρ) (onConflict : ν → ρ → Option ρ) (t : Table κ ρ)
    (e : Sigma fun _ : κ ↦ ν) : Table κ ρ :=
  match t.lookup e.1 with
  | none => t.insert e.1 (insert e.2)
  | some r =>
      match onConflict e.2 r with
      | none => t
      | some r' => t.insert e.1 r'

def upsert (insert : ν → ρ) (onConflict : ν → ρ → Option ρ) (news : Table κ ν) (t : Table κ ρ) :
    Table κ ρ :=
  news.entries.foldl (insertOne insert onConflict) t

/-- The row that an upsert leaves, from the one before it and the new one. -/
def merged (insert : ν → ρ) (onConflict : ν → ρ → Option ρ) (v : ν) : Option ρ → ρ
  | none => insert v
  | some r => (onConflict v r).getD r

theorem lookup_insertOne (insert : ν → ρ) (onConflict : ν → ρ → Option ρ) (t : Table κ ρ)
    (e : Sigma fun _ : κ ↦ ν) (k : κ) :
    (insertOne insert onConflict t e).lookup k =
      if e.1 = k then some (merged insert onConflict e.2 (t.lookup k)) else t.lookup k := by
  rw [insertOne]
  by_cases hk : e.1 = k
  · subst hk
    rw [if_pos rfl]
    cases ht : t.lookup e.1 with
    | none => simp [merged]
    | some r =>
        cases hr : onConflict e.2 r with
        | none => simp [merged, ht, hr]
        | some r' => simp [merged, hr]
  · rw [if_neg hk]
    cases t.lookup e.1 with
    | none => exact AList.lookup_insert_ne (Ne.symm hk)
    | some r =>
        dsimp only
        cases onConflict e.2 r with
        | none => rfl
        | some r' => exact AList.lookup_insert_ne (Ne.symm hk)

theorem lookup_upsert (insert : ν → ρ) (onConflict : ν → ρ → Option ρ) (news : Table κ ν)
    (t : Table κ ρ) (k : κ) :
    (upsert insert onConflict news t).lookup k =
      match news.lookup k with
      | none => t.lookup k
      | some v => some (merged insert onConflict v (t.lookup k)) := by
  obtain ⟨entries, hnodup⟩ := news
  change (entries.foldl (insertOne insert onConflict) t).lookup k =
    match List.dlookup k entries with
    | none => t.lookup k
    | some v => some (merged insert onConflict v (t.lookup k))
  induction entries generalizing t with
  | nil => rfl
  | cons e entries ih =>
      obtain ⟨hnot, hnodup⟩ := List.nodupKeys_cons.mp hnodup
      rw [List.foldl_cons, ih _ hnodup, lookup_insertOne]
      by_cases hk : e.1 = k
      · subst hk
        have hnone : List.dlookup e.1 entries = none := List.dlookup_eq_none.mpr hnot
        rw [hnone, List.dlookup_cons_eq, if_pos rfl]
      · rw [List.dlookup_cons_ne _ _ (Ne.symm hk), if_neg hk]

/-! ## Grouping -/

/-- `GROUP BY key`: the rows of each key that occurs. -/
def groupBy (key : α → κ) (l : List α) : Table κ (List α) where
  entries := (l.map key).dedup.map fun k ↦ ⟨k, l.filter fun a ↦ key a = k⟩
  nodupKeys := by
    rw [List.NodupKeys, List.keys, List.map_map]
    exact (List.map_id _).symm ▸ List.nodup_dedup _

theorem lookup_groupBy (key : α → κ) (l : List α) (k : κ) :
    (groupBy key l).lookup k =
      if k ∈ l.map key then some (l.filter fun a ↦ key a = k) else none := by
  split
  · rename_i hk
    rw [← Option.mem_def, AList.mem_lookup_iff]
    exact List.mem_map.mpr ⟨k, List.mem_dedup.mpr hk, rfl⟩
  · rename_i hk
    rw [AList.lookup_eq_none, AList.mem_keys, groupBy, AList.keys, List.keys, List.map_map]
    simpa using hk

theorem mem_groupBy {key : α → κ} {l : List α} {k : κ} {g : List α} :
    (⟨k, g⟩ : Sigma fun _ : κ ↦ List α) ∈ (groupBy key l).entries ↔
      k ∈ l.map key ∧ g = l.filter fun a ↦ key a = k := by
  rw [← AList.mem_lookup_iff, lookup_groupBy, Option.mem_def, Option.ite_none_right_eq_some,
    Option.some.injEq, eq_comm (a := g)]

theorem perm_flatMap_filter (key : α → κ) {ks : List κ} (hks : ks.Nodup) {l : List α}
    (hl : ∀ a ∈ l, key a ∈ ks) : (ks.flatMap fun k ↦ l.filter fun a ↦ key a = k).Perm l := by
  induction ks generalizing l with
  | nil =>
      have hnil : l = [] := List.eq_nil_iff_forall_not_mem.mpr fun a ha ↦ List.not_mem_nil (hl a ha)
      rw [hnil]
      exact List.Perm.nil
  | cons k ks ih =>
      obtain ⟨hk, hks⟩ := List.nodup_cons.mp hks
      have hrest : ∀ a ∈ l.filter (fun a ↦ !decide (key a = k)), key a ∈ ks := by
        intro a ha
        obtain ⟨hmem, hne⟩ := List.mem_filter.mp ha
        rcases List.mem_cons.mp (hl a hmem) with heq | hmem
        · simp [heq] at hne
        · exact hmem
      have hsame : (ks.flatMap fun k' ↦ l.filter fun a ↦ key a = k') =
          ks.flatMap fun k' ↦ (l.filter fun a ↦ !decide (key a = k)).filter fun a ↦ key a = k' := by
        apply List.flatMap_congr
        intro k' hk'
        rw [List.filter_filter]
        apply List.filter_congr
        intro a _
        by_cases ha : key a = k'
        · have hne : k' ≠ k := fun heq ↦ hk (heq ▸ hk')
          simp [ha, hne]
        · simp [ha]
      rw [List.flatMap_cons, hsame]
      exact ((ih hks hrest).append_left _).trans (List.filter_append_perm _ l)

/-- The groups hold every row. -/
theorem perm_groupBy (key : α → κ) (l : List α) :
    ((groupBy key l).entries.flatMap fun e ↦ e.2).Perm l := by
  rw [groupBy, List.flatMap_map]
  apply perm_flatMap_filter key (List.nodup_dedup _)
  intro a ha
  exact List.mem_dedup.mpr (List.mem_map_of_mem ha)

end Table

end Sql
