import TrafficMap.Lib.Table
import Mathlib.Algebra.Order.Group.Defs
import Mathlib.Data.Finset.Card

/-!
# Keys seen of late

A table of the times at which keys were last seen.  Each sighting is entered and
what has fallen out of the window is pruned.  As long as time does not run
backwards, the table holds after a sighting exactly the keys of the window.
-/

namespace Recent

open Sql

variable {κ τ : Type*} [DecidableEq κ] [AddCommGroup τ] [LinearOrder τ]

/-- A sighting of `k`. -/
def touch (window : τ) (k : κ) (now : τ) (t : Table κ τ) : Table κ τ :=
  Table.select (fun _ s ↦ if window < now - s then none else some s) (t.insert k now)

def track (window : τ) (seen : List (κ × τ)) : Table κ τ :=
  seen.foldl (fun t e ↦ touch window e.1 e.2 t) ∅

theorem track_concat (window : τ) (seen : List (κ × τ)) (e : κ × τ) :
    track window (seen ++ [e]) = touch window e.1 e.2 (track window seen) := by
  rw [track, List.foldl_append]
  rfl

/-- The keys seen within the window before `now`. -/
def recentKeys (window now : τ) (seen : List (κ × τ)) : Finset κ :=
  ((seen.filter fun e ↦ now - e.2 ≤ window).map Prod.fst).toFinset

theorem mem_recentKeys {window now : τ} {seen : List (κ × τ)} {k : κ} :
    k ∈ recentKeys window now seen ↔ ∃ s, (k, s) ∈ seen ∧ now - s ≤ window := by
  simp [recentKeys]

/-- The table has nothing but sightings, and the last of each key as long as it
is within the window. -/
structure Tracks (window : τ) (seen : List (κ × τ)) (t : Table κ τ) : Prop where
  mem : ∀ k s, t.lookup k = some s → (k, s) ∈ seen
  recent : ∀ e ∈ seen, ∀ now, (∀ e' ∈ seen, e'.2 ≤ now) → now - e.2 ≤ window →
    ∃ s, t.lookup e.1 = some s ∧ e.2 ≤ s

theorem lookup_touch (window : τ) (k : κ) (now : τ) (t : Table κ τ) (k' : κ) :
    (touch window k now t).lookup k' = (if k' = k then some now else t.lookup k').bind
      fun s ↦ if window < now - s then none else some s := by
  rw [touch, Table.lookup_select]
  split
  · rename_i hk
    rw [hk, AList.lookup_insert]
  · rename_i hk
    rw [AList.lookup_insert_ne hk]

theorem lookup_touch_eq_some {window : τ} {k : κ} {now : τ} {t : Table κ τ} {k' : κ} {s : τ} :
    (touch window k now t).lookup k' = some s ↔
      (if k' = k then some now else t.lookup k') = some s ∧ now - s ≤ window := by
  rw [lookup_touch, Option.bind_eq_some_iff]
  constructor
  · rintro ⟨s', hs', hs⟩
    obtain ⟨hle, hs⟩ := Option.ite_none_left_eq_some.mp hs
    obtain rfl := Option.some.inj hs
    exact ⟨hs', not_lt.mp hle⟩
  · rintro ⟨hs, hle⟩
    exact ⟨s, hs, if_neg (not_lt.mpr hle)⟩

theorem tracks_nil (window : τ) : Tracks window ([] : List (κ × τ)) ∅ where
  mem _ _ h := by cases h
  recent _ h := absurd h List.not_mem_nil

variable [IsOrderedAddMonoid τ]

section Touch

variable {window : τ} {seen : List (κ × τ)} {t : Table κ τ} {k : κ} {now : τ}

theorem Tracks.touch (h : Tracks window seen t) (hwindow : 0 ≤ window)
    (hle : ∀ e ∈ seen, e.2 ≤ now) :
    Tracks window (seen ++ [(k, now)]) (Recent.touch window k now t) where
  mem k' s hs := by
    obtain ⟨hs, -⟩ := lookup_touch_eq_some.mp hs
    split at hs
    · rename_i hk
      obtain rfl := Option.some.inj hs
      exact List.mem_append_right _ (List.mem_singleton.mpr (by rw [hk]))
    · exact List.mem_append_left _ (h.mem k' s hs)
  recent e he later hlater hrecent := by
    have hnow : now ≤ later := hlater (k, now) (by simp)
    by_cases hk : e.1 = k
    · refine ⟨now, ?_, ?_⟩
      · rw [lookup_touch_eq_some, if_pos hk, sub_self]
        exact ⟨rfl, hwindow⟩
      · rcases List.mem_append.mp he with hold | hnew
        · exact hle e hold
        · rw [List.mem_singleton.mp hnew]
    · rcases List.mem_append.mp he with hold | hnew
      · -- what stays within the window until later is within it now
        have hwithin : now - e.2 ≤ window := (sub_le_sub_right hnow _).trans hrecent
        obtain ⟨s, hs, hes⟩ := h.recent e hold now hle hwithin
        refine ⟨s, ?_, hes⟩
        rw [lookup_touch_eq_some, if_neg hk]
        exact ⟨hs, (sub_le_sub_left hes now).trans hwithin⟩
      · exact absurd (congrArg Prod.fst (List.mem_singleton.mp hnew)) hk

/-- After a sighting the table holds the keys of the window. -/
theorem Tracks.length_keys_touch (h : Tracks window seen t) (hwindow : 0 ≤ window)
    (hle : ∀ e ∈ seen, e.2 ≤ now) : (Recent.touch window k now t).keys.length =
      (recentKeys window now (seen ++ [(k, now)])).card := by
  have htouch := h.touch (k := k) hwindow hle
  have hkeys : (Recent.touch window k now t).keys.toFinset =
      recentKeys window now (seen ++ [(k, now)]) := by
    ext k'
    rw [List.mem_toFinset, ← AList.mem_keys, ← AList.lookup_isSome, mem_recentKeys,
      Option.isSome_iff_exists]
    constructor
    · rintro ⟨s, hs⟩
      exact ⟨s, htouch.mem k' s hs, (lookup_touch_eq_some.mp hs).2⟩
    · rintro ⟨s, hs, hrecent⟩
      have hlater : ∀ e ∈ seen ++ [(k, now)], e.2 ≤ now := by
        intro e he
        rcases List.mem_append.mp he with hold | hnew
        · exact hle e hold
        · rw [List.mem_singleton.mp hnew]
      obtain ⟨s', hs', -⟩ := htouch.recent (k', s) hs now hlater hrecent
      exact ⟨s', hs'⟩
  rw [← hkeys, List.toFinset_card_of_nodup (Recent.touch window k now t).keys_nodup]

end Touch

theorem tracks_track {window : τ} (hwindow : 0 ≤ window) {seen : List (κ × τ)}
    (hsorted : seen.Pairwise fun e e' ↦ e.2 ≤ e'.2) : Tracks window seen (track window seen) := by
  induction seen using List.reverseRecOn with
  | nil => exact tracks_nil window
  | append_singleton seen e ih =>
      obtain ⟨hseen, -, hle⟩ := List.pairwise_append.mp hsorted
      rw [track_concat]
      exact (ih hseen).touch hwindow fun e' he' ↦ hle e' he' e (List.mem_singleton_self e)

end Recent
