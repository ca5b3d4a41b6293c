import Mathlib.Data.List.Basic

/-!
# Pull iterators

An iterator is a state with a `next` function that hands out an item or
`none`.  `Yields next s xs` says that repeated calls hand out exactly the items
`xs`, in order, and `none` on every later call.
-/

namespace Pull

variable {S A : Type*} (next : S → Option A × S)

/-- What the call number `n` (counted from zero) hands out. -/
def nth : ℕ → S → Option A
  | 0, s => (next s).1
  | n + 1, s => nth n (next s).2

/-- The calls hand out `xs` and then `none` for ever. -/
def Yields (s : S) (xs : List A) : Prop :=
  ∀ n, nth next n s = xs[n]?

variable {next}

theorem yields_nil_of_invariant {quiet : S → Prop}
    (hquiet : ∀ s, quiet s → (next s).1 = none ∧ quiet (next s).2)
    {s : S} (hs : quiet s) : Yields next s [] := by
  intro n
  induction n generalizing s with
  | zero => exact (hquiet s hs).1
  | succ n ih => simpa [nth] using ih (hquiet s hs).2

theorem yields_cons_iff {s : S} {a : A} {xs : List A} :
    Yields next s (a :: xs) ↔
      (next s).1 = some a ∧ Yields next (next s).2 xs := by
  constructor
  · intro h
    exact ⟨h 0, fun n ↦ h (n + 1)⟩
  · rintro ⟨hhead, htail⟩ n
    cases n with
    | zero => exact hhead
    | succ n => exact htail n

theorem yields_nil_iff {s : S} :
    Yields next s [] ↔ (next s).1 = none ∧ Yields next (next s).2 [] := by
  constructor
  · intro h
    exact ⟨h 0, fun n ↦ by simpa [nth] using h (n + 1)⟩
  · rintro ⟨hhead, htail⟩ n
    cases n with
    | zero => exact hhead
    | succ n => simpa [nth] using htail n

theorem Yields.cons {s s' : S} {a : A} {xs : List A}
    (hnext : next s = (some a, s')) (h : Yields next s' xs) :
    Yields next s (a :: xs) := by
  rw [yields_cons_iff, hnext]
  exact ⟨rfl, h⟩

theorem Yields.unique {s : S} {xs ys : List A}
    (hx : Yields next s xs) (hy : Yields next s ys) : xs = ys :=
  List.ext_getElem? fun n ↦ (hx n).symm.trans (hy n)

end Pull
