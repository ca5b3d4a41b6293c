import Mathlib.Data.List.Nodup
import Mathlib.Logic.Function.Basic
import TrafficMap.Lib.Machine

/-!
# Journals

A log of changes to a keyed store, each with the value before and after.  Replaying
it from where the store began gives the store as it is, exactly or up to changes that
are not logged.
-/

namespace Journal

variable {κ ν : Type*}

structure Entry (κ ν : Type*) where
  key : κ
  before : ν
  after : ν

variable [DecidableEq κ] {ok : ν → ν → Prop} [DecidableRel ok]

/-- An entry that finds what it says, or what has come of it unlogged. -/
def step (ok : ν → ν → Prop) [DecidableRel ok] (m : κ → ν) (e : Entry κ ν) : Option (κ → ν) :=
  if ok (m e.key) e.before then some (Function.update m e.key e.after) else none

/-- The entries take the store from `m` to `c`. -/
def Accounts (ok : ν → ν → Prop) [DecidableRel ok] (m : κ → ν) (es : List (Entry κ ν))
    (c : κ → ν) : Prop :=
  ∃ m', Machine.run (step ok) m es = some m' ∧ ∀ k, ok (m' k) (c k)

/-- The value of a key after its last entry. -/
def last (m : κ → ν) (es : List (Entry κ ν)) (k : κ) : ν :=
  ((es.filter fun e ↦ e.key = k).getLast?.map Entry.after).getD (m k)

variable {m c c' : κ → ν} {es new : List (Entry κ ν)}

theorem last_cons (m : κ → ν) (e : Entry κ ν) (es : List (Entry κ ν)) :
    last m (e :: es) = last (Function.update m e.key e.after) es := by
  funext k
  rw [last, last, List.filter_cons]
  by_cases hk : e.key = k
  · subst hk
    rw [if_pos (decide_eq_true rfl), Function.update_self, List.getLast?_cons]
    cases (es.filter fun e' ↦ e'.key = e.key).getLast? <;> rfl
  · rw [if_neg (by simpa using hk), Function.update_of_ne (Ne.symm hk)]

theorem run_eq_last {m' : κ → ν} (h : Machine.run (step ok) m es = some m') : m' = last m es := by
  induction es generalizing m with
  | nil => exact (Option.some.inj h).symm
  | cons e es ih =>
      obtain ⟨m₁, hstep, hrun⟩ := Machine.run_cons.mp h
      obtain ⟨-, hm₁⟩ := Option.ite_none_right_eq_some.mp hstep
      obtain rfl := Option.some.inj hm₁
      rw [last_cons]
      exact ih hrun

/-- A key has the value that its last entry has left, up to what is not logged. -/
theorem Accounts.last (h : Accounts ok m es c) (k : κ) : ok (last m es k) (c k) := by
  obtain ⟨m', hrun, hok⟩ := h
  rw [← run_eq_last hrun]
  exact hok k

theorem Accounts.nil (hrefl : ∀ v, ok v v) (m : κ → ν) : Accounts ok m [] m :=
  ⟨m, rfl, fun k ↦ hrefl (m k)⟩

theorem Accounts.concat (h : Accounts ok m es c) (hrefl : ∀ v, ok v v) {e : Entry κ ν}
    (hbefore : e.before = c e.key) :
    Accounts ok m (es ++ [e]) (Function.update c e.key e.after) := by
  obtain ⟨m', hrun, hok⟩ := h
  have hstep : step ok m' e = some (Function.update m' e.key e.after) := by
    rw [step, if_pos]
    rw [hbefore]
    exact hok e.key
  refine ⟨_, Machine.run_append.mpr ⟨m', hrun, Machine.run_cons.mpr ⟨_, hstep, rfl⟩⟩, ?_⟩
  intro k
  by_cases hk : k = e.key
  · subst hk
    rw [Function.update_self, Function.update_self]
    exact hrefl _
  · rw [Function.update_of_ne hk, Function.update_of_ne hk]
    exact hok k

/-- What is not logged may happen at any time. -/
theorem Accounts.silently (h : Accounts ok m es c) (hc : ∀ v k, ok v (c k) → ok v (c' k)) :
    Accounts ok m es c' := by
  obtain ⟨m', hrun, hok⟩ := h
  exact ⟨m', hrun, fun k ↦ hc _ k (hok k)⟩

/-- The entries of one statement, which are about different keys and all see the store
as it was before. -/
theorem Accounts.batch (h : Accounts ok m es c) (hrefl : ∀ v, ok v v)
    (hnodup : (new.map Entry.key).Nodup) (hbefore : ∀ e ∈ new, e.before = c e.key) :
    ∃ c₁, Accounts ok m (es ++ new) c₁ ∧ (∀ e ∈ new, c₁ e.key = e.after) ∧
      ∀ k, (∀ e ∈ new, e.key ≠ k) → c₁ k = c k := by
  induction new using List.reverseRecOn with
  | nil => exact ⟨c, (List.append_nil es).symm ▸ h, nofun, fun _ _ ↦ rfl⟩
  | append_singleton new e ih =>
      rw [List.map_append, List.nodup_append] at hnodup
      obtain ⟨hnodup, -, hdisjoint⟩ := hnodup
      have hfresh : ∀ e' ∈ new, e'.key ≠ e.key := fun e' he' ↦
        hdisjoint _ (List.mem_map_of_mem he') _ (List.mem_singleton_self _)
      obtain ⟨c₁, hc₁, hafter, hkept⟩ :=
        ih hnodup fun e' he' ↦ hbefore e' (List.mem_append_left _ he')
      have hfound : e.before = c₁ e.key := by
        rw [hkept e.key hfresh]
        exact hbefore e (List.mem_append_right _ (List.mem_singleton_self e))
      refine ⟨_, List.append_assoc es new [e] ▸ hc₁.concat hrefl hfound, ?_, ?_⟩
      · intro e' he'
        rcases List.mem_append.mp he' with hold | hnew
        · rw [Function.update_of_ne (hfresh e' hold)]
          exact hafter e' hold
        · rw [List.mem_singleton.mp hnew, Function.update_self]
      · intro k hk
        rw [Function.update_of_ne (hk e (List.mem_append_right _ (List.mem_singleton_self e))).symm]
        exact hkept k fun e' he' ↦ hk e' (List.mem_append_left _ he')

/-- Records that are no entries. -/
theorem Accounts.unread {δ : Type*} {read : δ → Option (Entry κ ν)} {ds new : List δ}
    (h : Accounts ok m (ds.filterMap read) c) (hnew : ∀ d ∈ new, read d = none) :
    Accounts ok m ((ds ++ new).filterMap read) c := by
  rw [List.filterMap_append, List.filterMap_eq_nil_iff.mpr hnew, List.append_nil]
  exact h

omit [DecidableEq κ] in
/-- Entries read from records under the same keys. -/
theorem keys_sublist {δ : Type*} {read : δ → Option (Entry κ ν)} {key : δ → κ}
    (hkey : ∀ d e, read d = some e → e.key = key d) (ds : List δ) :
    ((ds.filterMap read).map Entry.key).Sublist (ds.map key) := by
  induction ds with
  | nil => exact List.Sublist.refl _
  | cons d ds ih =>
      rw [List.filterMap_cons]
      cases hread : read d with
      | none => exact ih.cons _
      | some e =>
          rw [List.map_cons, hkey d e hread]
          exact ih.cons_cons _

end Journal
