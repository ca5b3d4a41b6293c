import Mathlib.Data.Finset.Card
import Mathlib.Data.Finset.Range
import Mathlib.Data.List.Basic

/-!
# Disjoint sets with path halving

Parents in a list, a root its own parent.
-/

namespace UnionFind

/-- Every node on the way points to its grandparent afterwards.  A way is no
longer than the list. -/
def find : ℕ → List ℕ → ℕ → ℕ × List ℕ
  | 0, p, x => (x, p)
  | n + 1, p, x =>
      if p.getD x x = x then (x, p)
      else
        let g := p.getD (p.getD x x) (p.getD x x)
        find n (p.set x g) g

def root (p : List ℕ) (x : ℕ) : ℕ × List ℕ := find p.length p x

/-- `parent[find(a)] = find(b)`. -/
def union (p : List ℕ) (a b : ℕ) : List ℕ :=
  let (ra, p) := root p a
  let (rb, p) := root p b
  p.set ra rb

/-- A member joins the class of its root, classes in the order of their first
members. -/
def insertMember (r i : ℕ) : List (ℕ × List ℕ) → List (ℕ × List ℕ)
  | [] => [(r, [i])]
  | (r', ms) :: cs => if r' = r then (r', ms ++ [i]) :: cs else (r', ms) :: insertMember r i cs

/-- The classes of the first `n` nodes. -/
def classes (n : ℕ) (p : List ℕ) : List (List ℕ) × List ℕ :=
  let (cs, p) := (List.range n).foldl (fun (cs, p) i ↦
    let (r, p) := root p i
    (insertMember r i cs, p)) (([] : List (ℕ × List ℕ)), p)
  (cs.map Prod.snd, p)

def roots (n : ℕ) (p : List ℕ) : List ℕ := (List.range n).map fun i ↦ (root p i).1

theorem mem_insertMember {r i : ℕ} {cs : List (ℕ × List ℕ)} {c : ℕ × List ℕ} {x : ℕ}
    (hc : c ∈ insertMember r i cs) (hx : x ∈ c.2) : x = i ∨ ∃ c' ∈ cs, x ∈ c'.2 := by
  induction cs with
  | nil =>
      obtain rfl := List.mem_singleton.mp hc
      exact Or.inl (List.mem_singleton.mp hx)
  | cons c' cs ih =>
      obtain ⟨r', ms⟩ := c'
      rw [insertMember] at hc
      split at hc
      · rcases List.mem_cons.mp hc with rfl | hc
        · rcases List.mem_append.mp hx with hold | hnew
          · exact Or.inr ⟨_, List.mem_cons_self .., hold⟩
          · exact Or.inl (List.mem_singleton.mp hnew)
        · exact Or.inr ⟨c, List.mem_cons_of_mem _ hc, hx⟩
      · rcases List.mem_cons.mp hc with rfl | hc
        · exact Or.inr ⟨_, List.mem_cons_self .., hx⟩
        · rcases ih hc with hi | ⟨c'', hc'', hx''⟩
          · exact Or.inl hi
          · exact Or.inr ⟨c'', List.mem_cons_of_mem _ hc'', hx''⟩

theorem lt_of_mem_classes {n : ℕ} {p ms : List ℕ} {x : ℕ} (hms : ms ∈ (classes n p).1)
    (hx : x ∈ ms) : x < n := by
  have hfold : ∀ (is : List ℕ) (s : List (ℕ × List ℕ) × List ℕ),
      (∀ c ∈ s.1, ∀ x ∈ c.2, x < n) → (∀ i ∈ is, i < n) →
      ∀ c ∈ (is.foldl (fun (s : List (ℕ × List ℕ) × List ℕ) i ↦
        (insertMember (root s.2 i).1 i s.1, (root s.2 i).2)) s).1, ∀ x ∈ c.2, x < n := by
    intro is
    induction is with
    | nil => exact fun s hs _ ↦ hs
    | cons i is ih =>
        intro s hs his
        refine ih _ ?_ fun i' hi' ↦ his i' (List.mem_cons_of_mem _ hi')
        intro c hc x hx
        rcases mem_insertMember hc hx with rfl | ⟨c', hc', hx'⟩
        · exact his x (List.mem_cons_self ..)
        · exact hs c' hc' x hx'
  obtain ⟨c, hc, rfl⟩ := List.mem_map.mp hms
  exact hfold (List.range n) ([], p) (fun c hc ↦ absurd hc List.not_mem_nil)
    (fun i hi ↦ List.mem_range.mp hi) c hc x hx

theorem insertMember_spec (r i : ℕ) (cs : List (ℕ × List ℕ)) :
    ((insertMember r i cs).map Prod.snd).flatten.Perm ((cs.map Prod.snd).flatten ++ [i]) ∧
      ((∀ c ∈ cs, c.2 ≠ []) → ∀ c ∈ insertMember r i cs, c.2 ≠ []) := by
  induction cs with
  | nil =>
      refine ⟨List.Perm.refl _, ?_⟩
      intro _ c hc
      rw [List.mem_singleton.mp hc]
      exact List.cons_ne_nil i []
  | cons c' cs ih =>
      obtain ⟨r', ms⟩ := c'
      obtain ⟨hperm, hne⟩ := ih
      rw [insertMember]
      split
      · constructor
        · rw [List.map_cons, List.map_cons, List.flatten_cons, List.flatten_cons,
            List.append_assoc, List.append_assoc]
          exact List.perm_append_comm.append_left ms
        · intro h c hc
          rcases List.mem_cons.mp hc with rfl | hc
          · exact List.append_ne_nil_of_right_ne_nil ms (List.cons_ne_nil i [])
          · exact h c (List.mem_cons_of_mem _ hc)
      · constructor
        · rw [List.map_cons, List.map_cons, List.flatten_cons, List.flatten_cons,
            List.append_assoc]
          exact hperm.append_left ms
        · intro h c hc
          obtain ⟨hms, hcs⟩ := List.forall_mem_cons.mp h
          rcases List.mem_cons.mp hc with rfl | hc
          · exact hms
          · exact hne hcs c hc

/-- Each node is in one class, and no class is empty. -/
theorem classes_spec (n : ℕ) (p : List ℕ) :
    (classes n p).1.flatten.Perm (List.range n) ∧ [] ∉ (classes n p).1 := by
  have hfold : ∀ (is : List ℕ) (s : List (ℕ × List ℕ) × List ℕ), (∀ c ∈ s.1, c.2 ≠ []) →
      (((is.foldl (fun (s : List (ℕ × List ℕ) × List ℕ) i ↦
        (insertMember (root s.2 i).1 i s.1, (root s.2 i).2)) s).1.map Prod.snd).flatten.Perm
          ((s.1.map Prod.snd).flatten ++ is)) ∧
      ∀ c ∈ (is.foldl (fun (s : List (ℕ × List ℕ) × List ℕ) i ↦
        (insertMember (root s.2 i).1 i s.1, (root s.2 i).2)) s).1, c.2 ≠ [] := by
    intro is
    induction is with
    | nil => exact fun s hs ↦ ⟨by rw [List.append_nil]; exact List.Perm.refl _, hs⟩
    | cons i is ih =>
        intro s hs
        obtain ⟨hperm, hne⟩ := insertMember_spec (root s.2 i).1 i s.1
        obtain ⟨hperm', hne'⟩ := ih (insertMember (root s.2 i).1 i s.1, (root s.2 i).2) (hne hs)
        refine ⟨hperm'.trans ?_, hne'⟩
        rw [← List.singleton_append, ← List.append_assoc]
        exact hperm.append_right is
  obtain ⟨hperm, hne⟩ := hfold (List.range n) ([], p) fun c hc ↦ absurd hc List.not_mem_nil
  refine ⟨hperm, ?_⟩
  intro hnil
  obtain ⟨c, hc, hempty⟩ := List.mem_map.mp hnil
  exact hne c hc hempty

/-! ## The forest -/

def parent (p : List ℕ) (x : ℕ) : ℕ := p.getD x x

/-- The ways up lead down the ranks. -/
def Descends (rank : ℕ → ℕ) (p : List ℕ) : Prop := ∀ i < p.length, parent p i < p.length ∧
  (parent p i ≠ i → rank (parent p i) < rank i)

/-- The ways up end. -/
def Forest (p : List ℕ) : Prop := ∃ rank, Descends rank p

/-- The root above a node. -/
inductive Root (p : List ℕ) : ℕ → ℕ → Prop
  | self {r : ℕ} (h : parent p r = r) : Root p r r
  | up {x r : ℕ} (hx : parent p x ≠ x) (h : Root p (parent p x) r) : Root p x r

/-- Nodes under one root. -/
def Joined (p : List ℕ) (x y : ℕ) : Prop := ∃ r, Root p x r ∧ Root p y r

section Forest

variable {p : List ℕ} {x y r s : ℕ}

theorem parent_of_le (hx : p.length ≤ x) : parent p x = x := by
  rw [parent, List.getD_eq_getElem?_getD, List.getElem?_eq_none hx, Option.getD_none]

theorem parent_set_self (hx : x < p.length) (v : ℕ) : parent (p.set x v) x = v := by
  rw [parent, List.getD_eq_getElem?_getD, List.getElem?_set_self hx, Option.getD_some]

theorem parent_set_of_ne (hxy : x ≠ y) (v : ℕ) : parent (p.set x v) y = parent p y := by
  rw [parent, parent, List.getD_eq_getElem?_getD, List.getD_eq_getElem?_getD,
    List.getElem?_set_ne hxy]

theorem Root.parent_eq (h : Root p x r) : parent p r = r := by
  induction h with
  | self h => exact h
  | up _ _ ih => exact ih

theorem Root.unique (h : Root p x r) (h' : Root p x s) : r = s := by
  induction h with
  | self h =>
      cases h' with
      | self => rfl
      | up hx => exact absurd h hx
  | up hx _ ih =>
      cases h' with
      | self h => exact absurd h hx
      | up _ h' => exact ih h'

/-- A node and its parent have the same root. -/
theorem root_parent_iff : Root p (parent p x) r ↔ Root p x r := by
  by_cases hx : parent p x = x
  · rw [hx]
  · constructor
    · exact Root.up hx
    · intro h
      cases h with
      | self h => exact absurd h hx
      | up _ h => exact h

theorem Forest.parent_lt (hp : Forest p) (hx : x < p.length) : parent p x < p.length := by
  obtain ⟨rank, hrank⟩ := hp
  exact (hrank x hx).1

theorem Forest.exists_root (hp : Forest p) (x : ℕ) : ∃ r, Root p x r := by
  obtain ⟨rank, hrank⟩ := hp
  induction hn : rank x using Nat.strong_induction_on generalizing x with
  | _ n ih =>
      by_cases hx : parent p x = x
      · exact ⟨x, Root.self hx⟩
      · have hlt : x < p.length := not_le.mp fun hle ↦ hx (parent_of_le hle)
        obtain ⟨r, hr⟩ := ih _ (hn ▸ (hrank x hlt).2 hx) _ rfl
        exact ⟨r, Root.up hx hr⟩

theorem Forest.root_lt (hp : Forest p) (hx : x < p.length) (h : Root p x r) : r < p.length := by
  induction h with
  | self => exact hx
  | up _ _ ih => exact ih (hp.parent_lt hx)

/-- The ways up are no longer than the list. -/
theorem Forest.bounded (hp : Forest p) :
    ∃ rank, Descends rank p ∧ ∀ i < p.length, rank i < p.length := by
  obtain ⟨rank, hrank⟩ := hp
  refine ⟨fun i ↦ ((Finset.range p.length).filter fun j ↦ rank j < rank i).card, ?_, ?_⟩
  · intro i hi
    refine ⟨(hrank i hi).1, fun hne ↦ ?_⟩
    obtain ⟨hlt, hup⟩ := hrank i hi
    apply Finset.card_lt_card
    rw [Finset.ssubset_iff_of_subset]
    · exact ⟨parent p i, by simp [hlt, hup hne], by simp⟩
    · intro j hj
      obtain ⟨hj, hlt'⟩ := Finset.mem_filter.mp hj
      exact Finset.mem_filter.mpr ⟨hj, hlt'.trans (hup hne)⟩
  · intro i hi
    calc ((Finset.range p.length).filter fun j ↦ rank j < rank i).card
        < (Finset.range p.length).card := by
          apply Finset.card_lt_card
          rw [Finset.ssubset_iff_of_subset (Finset.filter_subset _ _)]
          exact ⟨i, Finset.mem_range.mpr hi, by simp⟩
      _ = p.length := Finset.card_range _

theorem Joined.refl (hp : Forest p) (x : ℕ) : Joined p x x := by
  obtain ⟨r, hr⟩ := hp.exists_root x
  exact ⟨r, hr, hr⟩

theorem Joined.symm (h : Joined p x y) : Joined p y x := by
  obtain ⟨r, hx, hy⟩ := h
  exact ⟨r, hy, hx⟩

theorem Joined.trans {z : ℕ} (h : Joined p x y) (h' : Joined p y z) : Joined p x z := by
  obtain ⟨r, hx, hy⟩ := h
  obtain ⟨s, hy', hz⟩ := h'
  obtain rfl := hy.unique hy'
  exact ⟨r, hx, hz⟩

theorem Root.joined_iff (hx : Root p x r) (hy : Root p y s) : Joined p x y ↔ r = s := by
  constructor
  · rintro ⟨t, hx', hy'⟩
    exact (hx.unique hx').trans (hy'.unique hy)
  · rintro rfl
    exact ⟨r, hx, hy⟩

end Forest

/-! ## Its operations -/

/-- The same nodes under the same roots. -/
structure SameRoots (p p' : List ℕ) : Prop where
  length : p'.length = p.length
  forest : Forest p'
  root_iff : ∀ x r, Root p' x r ↔ Root p x r

section Operations

variable {p p' : List ℕ} {x : ℕ}

theorem SameRoots.refl (hp : Forest p) : SameRoots p p := ⟨rfl, hp, fun _ _ ↦ Iff.rfl⟩

theorem SameRoots.trans {q : List ℕ} (h : SameRoots p p') (h' : SameRoots p' q) :
    SameRoots p q where
  length := h'.length.trans h.length
  forest := h'.forest
  root_iff x r := (h'.root_iff x r).trans (h.root_iff x r)

theorem Root.joined_right_iff {a ra y : ℕ} (ha : Root p a ra) : Joined p y a ↔ Root p y ra := by
  constructor
  · rintro ⟨r, hy, ha'⟩
    rwa [ha.unique ha']
  · exact fun hy ↦ ⟨ra, hy, ha⟩

theorem SameRoots.joined_iff {y : ℕ} (h : SameRoots p p') : Joined p' x y ↔ Joined p x y := by
  apply exists_congr
  intro r
  rw [h.root_iff, h.root_iff]

section Halve

variable {rank : ℕ → ℕ} (hp : Descends rank p) (hx : parent p x ≠ x)
include hp hx

theorem Descends.grandparent : parent p (parent p x) < p.length ∧
    rank (parent p (parent p x)) < rank x := by
  have hlt : x < p.length := not_le.mp fun hle ↦ hx (parent_of_le hle)
  obtain ⟨hlt', hup⟩ := hp x hlt
  refine ⟨(hp _ hlt').1, ?_⟩
  by_cases hroot : parent p (parent p x) = parent p x
  · rw [hroot]
    exact hup hx
  · exact ((hp _ hlt').2 hroot).trans (hup hx)

/-- A node is put under its grandparent. -/
theorem Descends.halve : Descends rank (p.set x (parent p (parent p x))) := by
  have hlt : x < p.length := not_le.mp fun hle ↦ hx (parent_of_le hle)
  intro i hi
  rw [List.length_set] at hi ⊢
  by_cases hix : i = x
  · rw [hix, parent_set_self hlt]
    exact ⟨(hp.grandparent hx).1, fun _ ↦ (hp.grandparent hx).2⟩
  · rw [parent_set_of_ne (Ne.symm hix)]
    exact hp i hi

theorem sameRoots_halve : SameRoots p (p.set x (parent p (parent p x))) := by
  have hlt : x < p.length := not_le.mp fun hle ↦ hx (parent_of_le hle)
  have hforest : Forest (p.set x (parent p (parent p x))) := ⟨rank, hp.halve hx⟩
  have hroot : ∀ y r, Root (p.set x (parent p (parent p x))) y r → Root p y r := by
    intro y r h
    induction h with
    | @self r h =>
        apply Root.self
        by_cases hrx : r = x
        · rw [hrx, parent_set_self hlt] at h
          exact absurd (hp.grandparent hx).2 (by rw [h]; exact lt_irrefl _)
        · rwa [parent_set_of_ne (Ne.symm hrx)] at h
    | @up y r _ _ ih =>
        by_cases hyx : y = x
        · rw [hyx, parent_set_self hlt] at ih
          rw [hyx]
          exact root_parent_iff.mp (root_parent_iff.mp ih)
        · rw [parent_set_of_ne (Ne.symm hyx)] at ih
          exact root_parent_iff.mp ih
  refine ⟨List.length_set, hforest, fun y r ↦ ⟨hroot y r, ?_⟩⟩
  intro h
  obtain ⟨s, hs⟩ := hforest.exists_root y
  obtain rfl := (hroot y s hs).unique h
  exact hs

end Halve

theorem find_succ (n : ℕ) (p : List ℕ) (x : ℕ) :
    find (n + 1) p x = if parent p x = x then (x, p)
      else find n (p.set x (parent p (parent p x))) (parent p (parent p x)) := rfl

theorem find_spec {rank : ℕ → ℕ} {n : ℕ} (hp : Descends rank p) (hn : rank x < n) :
    Root p x (find n p x).1 ∧ SameRoots p (find n p x).2 := by
  induction n generalizing p x with
  | zero => exact absurd hn (Nat.not_lt_zero _)
  | succ n ih =>
      rw [find_succ]
      by_cases hx : parent p x = x
      · rw [if_pos hx]
        exact ⟨Root.self hx, SameRoots.refl ⟨rank, hp⟩⟩
      · rw [if_neg hx]
        have hup := (hp.grandparent hx).2
        obtain ⟨hroot, hsame⟩ := ih (hp.halve hx) (x := parent p (parent p x)) (by omega)
        have hhalve := sameRoots_halve hp hx
        refine ⟨?_, hhalve.trans hsame⟩
        exact root_parent_iff.mp (root_parent_iff.mp ((hhalve.root_iff _ _).mp hroot))

theorem root_spec (hp : Forest p) (hx : x < p.length) :
    Root p x (root p x).1 ∧ SameRoots p (root p x).2 := by
  obtain ⟨rank, hrank, hlt⟩ := hp.bounded
  exact find_spec hrank (hlt x hx)

section Link

variable {ra rb : ℕ} (ha : ra < p.length) (hra : parent p ra = ra) (hrb : parent p rb = rb)
include ha

theorem parent_link (y : ℕ) : parent (p.set ra rb) y = if y = ra then rb else parent p y := by
  by_cases hy : y = ra
  · rw [if_pos hy, hy, parent_set_self ha]
  · rw [if_neg hy, parent_set_of_ne (Ne.symm hy)]

include hra hrb

/-- A root is put under another. -/
theorem Forest.link (hp : Forest p) (hb : rb < p.length) : Forest (p.set ra rb) := by
  classical
  obtain ⟨rank, hrank⟩ := hp
  refine ⟨fun i ↦ if Root p i ra then rank i + rank rb + 1 else rank i, ?_⟩
  intro i hi
  rw [List.length_set] at hi ⊢
  rw [parent_link ha]
  by_cases hia : i = ra
  · rw [if_pos hia]
    refine ⟨hb, fun hne ↦ ?_⟩
    have hroot : Root p i ra := by
      rw [hia]
      exact Root.self hra
    have hother : ¬ Root p rb ra := by
      intro h
      have heq := (Root.self hrb).unique h
      exact hne (heq.trans hia.symm)
    dsimp only
    rw [if_pos hroot, if_neg hother]
    omega
  · rw [if_neg hia]
    obtain ⟨hlt, hup⟩ := hrank i hi
    refine ⟨hlt, fun hne ↦ ?_⟩
    have hrank' := hup hne
    simp only [root_parent_iff]
    split
    · omega
    · exact hrank'

theorem root_link_iff (hp : Forest p) (y s : ℕ) : Root (p.set ra rb) y s ↔
    Root p y ra ∧ s = rb ∨ ¬ Root p y ra ∧ Root p y s := by
  have hset : ∀ y, parent (p.set ra rb) y = if y = ra then rb else parent p y := parent_link ha
  have hnew : Root (p.set ra rb) ra rb := by
    apply root_parent_iff.mp
    rw [hset, if_pos rfl]
    apply Root.self
    rw [hset, hrb, ite_self]
  have hup : ∀ {y t}, parent p y ≠ y → Root (p.set ra rb) (parent p y) t →
      Root (p.set ra rb) y t := by
    intro y t hy h
    apply root_parent_iff.mp
    rwa [hset, if_neg]
    rintro rfl
    exact hy hra
  have hunder : ∀ {y t}, t = ra → Root p y t → Root (p.set ra rb) y rb := by
    intro y t ht h
    induction h with
    | self => rwa [ht]
    | up hy _ ih => exact hup hy (ih ht)
  have hother : ∀ {y t}, t ≠ ra → Root p y t → Root (p.set ra rb) y t := by
    intro y t ht h
    induction h with
    | self h =>
        apply Root.self
        rwa [hset, if_neg ht]
    | up hy _ ih => exact hup hy (ih ht)
  constructor
  · intro h
    by_cases hy : Root p y ra
    · exact Or.inl ⟨hy, h.unique (hunder rfl hy)⟩
    · obtain ⟨t, ht⟩ := hp.exists_root y
      have hne : t ≠ ra := by
        rintro rfl
        exact hy ht
      obtain rfl := h.unique (hother hne ht)
      exact Or.inr ⟨hy, ht⟩
  · rintro (⟨hy, rfl⟩ | ⟨hy, h⟩)
    · exact hunder rfl hy
    · apply hother ?_ h
      rintro rfl
      exact hy h

end Link

/-- The classes of `a` and `b` become one. -/
theorem union_spec {a b : ℕ} (hp : Forest p) (ha : a < p.length) (hb : b < p.length) :
    Forest (union p a b) ∧ (union p a b).length = p.length ∧ ∀ x y, Joined (union p a b) x y ↔
      Joined p x y ∨ (Joined p x a ∧ Joined p y b) ∨ (Joined p x b ∧ Joined p y a) := by
  obtain ⟨hra, hsame⟩ := root_spec hp ha
  obtain ⟨hrb, hsame'⟩ := root_spec hsame.forest (hsame.length.symm ▸ hb)
  rw [union]
  generalize root p a = s at hra hsame hrb hsame' ⊢
  obtain ⟨ra, q⟩ := s
  dsimp only at hra hsame hrb hsame' ⊢
  generalize root q b = s at hrb hsame' ⊢
  obtain ⟨rb, q'⟩ := s
  dsimp only at hrb hsame' ⊢
  have hall := hsame.trans hsame'
  have hrb := (hsame.root_iff b rb).mp hrb
  have hself : ∀ {x r}, Root p x r → parent q' r = r := by
    intro x r h
    exact ((hall.root_iff r r).mpr (Root.self h.parent_eq)).parent_eq
  have hra' : ra < q'.length := hall.length.symm ▸ hp.root_lt ha hra
  have hrb' : rb < q'.length := hall.length.symm ▸ hp.root_lt hb hrb
  have hlink := root_link_iff hra' (hself hra) (hself hrb) hall.forest
  refine ⟨hall.forest.link hra' (hself hra) (hself hrb) hrb',
    (List.length_set).trans hall.length, ?_⟩
  intro x y
  rw [hra.joined_right_iff, hra.joined_right_iff, hrb.joined_right_iff, hrb.joined_right_iff]
  simp only [hall.root_iff] at hlink
  constructor
  · rintro ⟨r, hx, hy⟩
    rw [hlink] at hx hy
    rcases hx with ⟨hx, rfl⟩ | ⟨-, hx⟩
    · rcases hy with ⟨hy, -⟩ | ⟨-, hy⟩
      · exact Or.inl ⟨ra, hx, hy⟩
      · exact Or.inr (Or.inl ⟨hx, hy⟩)
    · rcases hy with ⟨hy, rfl⟩ | ⟨-, hy⟩
      · exact Or.inr (Or.inr ⟨hx, hy⟩)
      · exact Or.inl ⟨r, hx, hy⟩
  · have hunder : ∀ {z}, Root p z ra → Root (q'.set ra rb) z rb :=
      fun hz ↦ (hlink _ _).mpr (Or.inl ⟨hz, rfl⟩)
    have hover : ∀ {z r}, Root p z r → ¬ Root p z ra → Root (q'.set ra rb) z r :=
      fun hz hne ↦ (hlink _ _).mpr (Or.inr ⟨hne, hz⟩)
    have hstay : ∀ {z}, Root p z rb → Root (q'.set ra rb) z rb := by
      intro z hz
      by_cases hza : Root p z ra
      · exact hunder hza
      · exact hover hz hza
    rintro (⟨r, hx, hy⟩ | ⟨hx, hy⟩ | ⟨hx, hy⟩)
    · by_cases hxa : Root p x ra
      · obtain rfl := hx.unique hxa
        exact ⟨rb, hunder hx, hunder hy⟩
      · have hya : ¬ Root p y ra := by
          intro hya
          obtain rfl := hy.unique hya
          exact hxa hx
        exact ⟨r, hover hx hxa, hover hy hya⟩
    · exact ⟨rb, hunder hx, hstay hy⟩
    · exact ⟨rb, hstay hx, hunder hy⟩

end Operations

/-! ## Stars -/

/-- The classes of `a` and `b` have become one. -/
structure Merged (p : List ℕ) (a b : ℕ) (p' : List ℕ) : Prop where
  forest : Forest p'
  length : p'.length = p.length
  joined_iff : ∀ x y, Joined p' x y ↔
    Joined p x y ∨ (Joined p x a ∧ Joined p y b) ∨ (Joined p x b ∧ Joined p y a)

/-- Under the root of one of the nodes. -/
def JoinedTo (p : List ℕ) (zs : List ℕ) (x : ℕ) : Prop := ∃ z ∈ zs, Joined p x z

/-- The classes of the nodes have become one. -/
structure Gathered (p : List ℕ) (zs : List ℕ) (p' : List ℕ) : Prop where
  forest : Forest p'
  length : p'.length = p.length
  joined_iff : ∀ x y, Joined p' x y ↔ Joined p x y ∨ (JoinedTo p zs x ∧ JoinedTo p zs y)

section Star

variable {p p' p'' zs : List ℕ} {a b x y : ℕ}

theorem merged_union (hp : Forest p) (ha : a < p.length) (hb : b < p.length) :
    Merged p a b (union p a b) := by
  obtain ⟨hforest, hlength, hjoined⟩ := union_spec hp ha hb
  exact ⟨hforest, hlength, hjoined⟩

/-- Nothing is left to do for a pair that is joined. -/
theorem SameRoots.merged (h : SameRoots p p') (hab : Joined p a b) : Merged p a b p' := by
  refine ⟨h.forest, h.length, ?_⟩
  intro x y
  rw [h.joined_iff]
  constructor
  · exact Or.inl
  · rintro (hxy | ⟨hx, hy⟩ | ⟨hx, hy⟩)
    · exact hxy
    · exact (hx.trans hab).trans hy.symm
    · exact (hx.trans hab.symm).trans hy.symm

theorem SameRoots.merged_trans (h : SameRoots p p') (h' : Merged p' a b p'') :
    Merged p a b p'' := by
  refine ⟨h'.forest, h'.length.trans h.length, ?_⟩
  intro x y
  rw [h'.joined_iff]
  simp only [h.joined_iff]

theorem Merged.mono (h : Merged p a b p') (hxy : Joined p x y) : Joined p' x y :=
  (h.joined_iff x y).mpr (Or.inl hxy)

theorem JoinedTo.of_joined (h : JoinedTo p zs y) (hxy : Joined p x y) : JoinedTo p zs x := by
  obtain ⟨z, hz, hyz⟩ := h
  exact ⟨z, hz, hxy.trans hyz⟩

theorem joinedTo_concat : JoinedTo p (zs ++ [b]) x ↔ JoinedTo p zs x ∨ Joined p x b := by
  simp only [JoinedTo, List.mem_append, List.mem_singleton, or_and_right, exists_or,
    exists_eq_left]

theorem Gathered.single (hp : Forest p) (a : ℕ) : Gathered p [a] p := by
  refine ⟨hp, rfl, ?_⟩
  intro x y
  simp only [JoinedTo, List.mem_singleton, exists_eq_left]
  constructor
  · exact Or.inl
  · rintro (hxy | ⟨hx, hy⟩)
    · exact hxy
    · exact hx.trans hy.symm

/-- One more ray of the star. -/
theorem Gathered.merged (hp : Forest p) (h : Gathered p zs p') (ha : a ∈ zs)
    (h' : Merged p' a b p'') : Gathered p (zs ++ [b]) p'' := by
  refine ⟨h'.forest, h'.length.trans h.length, ?_⟩
  have hself : JoinedTo p zs a := ⟨a, ha, Joined.refl hp a⟩
  have hstar : ∀ {x}, Joined p' x a ↔ JoinedTo p zs x := by
    intro x
    rw [h.joined_iff]
    constructor
    · rintro (hx | ⟨hx, -⟩)
      · exact hself.of_joined hx
      · exact hx
    · exact fun hx ↦ Or.inr ⟨hx, hself⟩
  have hray : ∀ {x}, Joined p' x b → JoinedTo p zs x ∨ Joined p x b := by
    intro x hx
    rcases (h.joined_iff x b).mp hx with hx | ⟨hx, -⟩
    · exact Or.inr hx
    · exact Or.inl hx
  intro x y
  rw [h'.joined_iff, joinedTo_concat, joinedTo_concat, hstar, hstar]
  constructor
  · rintro (hxy | ⟨hx, hy⟩ | ⟨hx, hy⟩)
    · rcases (h.joined_iff x y).mp hxy with hxy | ⟨hx, hy⟩
      · exact Or.inl hxy
      · exact Or.inr ⟨Or.inl hx, Or.inl hy⟩
    · exact Or.inr ⟨Or.inl hx, hray hy⟩
    · exact Or.inr ⟨hray hx, Or.inl hy⟩
  · have hold : ∀ {x y}, Joined p x y → Joined p' x y :=
      fun hxy ↦ (h.joined_iff _ _).mpr (Or.inl hxy)
    rintro (hxy | ⟨hx | hx, hy | hy⟩)
    · exact Or.inl (hold hxy)
    · exact Or.inl ((h.joined_iff x y).mpr (Or.inr ⟨hx, hy⟩))
    · exact Or.inr (Or.inl ⟨hx, hold hy⟩)
    · exact Or.inr (Or.inr ⟨hold hx, hy⟩)
    · exact Or.inl (hold (hx.trans hy.symm))

end Star

end UnionFind
