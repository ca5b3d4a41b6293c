import Mathlib.Data.List.DropRight

/-!
# Fields of a line

Text is read by cutting it at a separator and dropping the blanks around each
piece.  Both are described by the text they are inverse to: pieces without the
separator, and a core without blanks at its ends.
-/

namespace Fields

variable {α : Type*}

/-! ## Cutting -/

section Split

variable [DecidableEq α] {sep : α} {l : List α}

theorem notMem_of_mem_splitOn {piece : List α} (h : piece ∈ l.splitOn sep) : sep ∉ piece := by
  induction l generalizing piece with
  | nil =>
      rw [List.splitOn_nil, List.mem_singleton] at h
      rw [h]
      exact List.not_mem_nil
  | cons a l ih =>
      rw [List.splitOn_cons_eq_if_modifyHead] at h
      split at h
      · rcases List.mem_cons.mp h with rfl | htail
        · exact List.not_mem_nil
        · exact ih htail
      · rename_i hne
        obtain ⟨p, ps, hps⟩ := List.exists_cons_of_ne_nil (List.splitOn_ne_nil sep l)
        rw [hps] at h ih
        rw [List.modifyHead_cons] at h
        rcases List.mem_cons.mp h with rfl | htail
        · rw [List.mem_cons, not_or]
          exact ⟨fun hsep ↦ hne (by simp [hsep]), ih List.mem_cons_self⟩
        · exact ih (List.mem_cons_of_mem p htail)

theorem splitOn_eq_pair_iff {x y : List α} :
    l.splitOn sep = [x, y] ↔ sep ∉ x ∧ sep ∉ y ∧ l = x ++ sep :: y := by
  constructor
  · intro h
    have hjoin : [sep].intercalate (l.splitOn sep) = l := List.intercalate_splitOn sep
    rw [h] at hjoin
    have hmem : ∀ piece ∈ [x, y], sep ∉ piece := fun piece hpiece ↦
      notMem_of_mem_splitOn (h ▸ hpiece)
    refine ⟨hmem x (by simp), hmem y (by simp), ?_⟩
    simpa [List.intercalate] using hjoin.symm
  · rintro ⟨hx, hy, rfl⟩
    rw [List.splitOn_append_cons_self_of_not_mem hx, List.splitOn_eq_singleton hy]

end Split

/-! ## Trimming -/

section Trim

variable (blank : α → Bool)

def trim (l : List α) : List α := (l.dropWhile blank).rdropWhile blank

def Blank (l : List α) : Prop := ∀ a ∈ l, blank a = true

/-- No blank at either end. -/
structure Tight (l : List α) : Prop where
  head : ∀ a ∈ l.head?, blank a = false
  last : ∀ a ∈ l.getLast?, blank a = false

variable {blank} {l core w w' : List α}

theorem dropWhile_append_of_blank (hw : Blank blank w) (l : List α) :
    (w ++ l).dropWhile blank = l.dropWhile blank := by
  induction w with
  | nil => rfl
  | cons a w ih =>
      obtain ⟨ha, hw⟩ := List.forall_mem_cons.mp hw
      rw [List.cons_append, List.dropWhile_cons_of_pos ha, ih hw]

theorem rdropWhile_append_of_blank (hw : Blank blank w) (l : List α) :
    (l ++ w).rdropWhile blank = l.rdropWhile blank := by
  have hreverse : Blank blank w.reverse := fun a ha ↦ hw a (List.mem_reverse.mp ha)
  rw [List.rdropWhile, List.reverse_append, dropWhile_append_of_blank hreverse, List.rdropWhile]

theorem trim_of_tight (h : Tight blank core) : trim blank core = core := by
  have hleft : core.dropWhile blank = core := by
    cases core with
    | nil => rfl
    | cons a l =>
        have ha := h.head a rfl
        rw [List.dropWhile_cons_of_neg (by simp [ha])]
  rw [trim, hleft, List.rdropWhile_eq_self_iff]
  intro hne
  rw [h.last _ (List.getLast?_eq_some_getLast hne)]
  exact Bool.false_ne_true

/-- Only the core is left. -/
theorem trim_within (hw : Blank blank w) (hw' : Blank blank w') (h : Tight blank core) :
    trim blank (w ++ core ++ w') = core := by
  rw [trim, List.append_assoc, dropWhile_append_of_blank hw]
  by_cases hcore : core = []
  · subst hcore
    have hnil : w'.dropWhile blank = [] := List.dropWhile_eq_nil_iff.mpr hw'
    rw [List.nil_append, hnil]
    rfl
  · obtain ⟨a, l, rfl⟩ := List.exists_cons_of_ne_nil hcore
    have ha := h.head a rfl
    rw [List.cons_append, List.dropWhile_cons_of_neg (by simp [ha]), ← List.cons_append,
      rdropWhile_append_of_blank hw']
    have htrim := trim_of_tight h
    rwa [trim, List.dropWhile_cons_of_neg (by simp [ha])] at htrim

theorem tight_of_forall (h : ∀ a ∈ l, blank a = false) : Tight blank l where
  head a ha := h a (List.mem_of_mem_head? ha)
  last a ha := h a (List.mem_of_getLast? ha)

/-- What stands between the ends does not matter. -/
theorem Tight.append (h : Tight blank core) (hne : core ≠ []) (w : List α) (h' : Tight blank l)
    (hne' : l ≠ []) : Tight blank (core ++ w ++ l) where
  head a ha := by
    rw [List.append_assoc, List.head?_append_of_ne_nil _ hne] at ha
    exact h.head a ha
  last a ha := by
    rw [List.getLast?_append_of_ne_nil _ hne'] at ha
    exact h'.last a ha

theorem Tight.nil_of_starts (h : Tight blank l) (hw : Blank blank w) (hpre : w <+: l) :
    w = [] := by
  obtain ⟨rest, rfl⟩ := hpre
  cases w with
  | nil => rfl
  | cons a w =>
      have ha := h.head a rfl
      rw [hw a List.mem_cons_self] at ha
      cases ha

theorem tight_trim (blank : α → Bool) (l : List α) : Tight blank (trim blank l) where
  head a ha := by
    obtain ⟨rest, hrest⟩ : ∃ rest, trim blank l = a :: rest :=
      ⟨_, (List.cons_head?_tail ha).symm⟩
    obtain ⟨tail, htail⟩ := List.rdropWhile_prefix blank (l := l.dropWhile blank)
    rw [← trim, hrest, List.cons_append] at htail
    have hne : l.dropWhile blank ≠ [] := by
      rw [← htail]
      exact List.cons_ne_nil _ _
    have hdrop := List.head_dropWhile_not blank hne
    simpa only [← htail, List.head_cons] using hdrop
  last a ha := by
    have hne : trim blank l ≠ [] := by
      rintro hnil
      rw [hnil] at ha
      cases ha
    have hlast := List.rdropWhile_last_not blank (l.dropWhile blank) hne
    rw [List.getLast?_eq_some_getLast hne] at ha
    obtain rfl := Option.some.inj ha
    exact Bool.eq_false_iff.mpr hlast

theorem exists_within (blank : α → Bool) (l : List α) : ∃ w w', Blank blank w ∧ Blank blank w' ∧
    l = w ++ trim blank l ++ w' := by
  refine ⟨l.takeWhile blank, (l.dropWhile blank).rtakeWhile blank, ?_, ?_, ?_⟩
  · exact fun a ha ↦ List.mem_takeWhile_imp ha
  · exact fun a ha ↦ List.mem_rtakeWhile_imp ha
  · rw [trim, List.append_assoc, List.rdropWhile_append_rtakeWhile, List.takeWhile_append_dropWhile]

end Trim

end Fields
