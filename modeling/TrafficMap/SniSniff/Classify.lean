import TrafficMap.Lib.BigEndian
import Mathlib.Data.Finmap
import Mathlib.Data.Rat.Init

/-!
# Classifying names

`classify` of `crates/sni-sniff`: the rule of the longest suffix of a name,
cut at its dots, that has one.
-/

namespace TrafficMap.SniSniff

open Wire

structure AppRule where
  app : String
  category : Option String
  confidence : ℚ
deriving DecidableEq

/-- Rules by the bytes of their suffix. -/
abbrev RuleMap := Finmap fun _ : Bytes ↦ AppRule

def dot : UInt8 := 0x2E

def trimEndDots (sni : Bytes) : Bytes := (sni.reverse.dropWhile (· == dot)).reverse

/-- What follows the first dot. -/
def afterDot : Bytes → Option Bytes
  | [] => none
  | b :: bs => if b = dot then some bs else afterDot bs

theorem length_lt_of_afterDot {s t : Bytes} (h : afterDot s = some t) : t.length < s.length := by
  induction s with
  | nil => cases h
  | cons b bs ih =>
      rw [afterDot] at h
      split at h
      · obtain rfl := Option.some.inj h
        simp
      · exact (ih h).trans (by simp)

/-- The loop of `classify`, on the suffix that starts at `start`. -/
def classifyFrom (rules : RuleMap) (cand : Bytes) : Option (AppRule × Bytes) :=
  match rules.lookup cand with
  | some rule => some (rule, cand)
  | none =>
      match _h : afterDot cand with
      | some shorter => classifyFrom rules shorter
      | none => none
termination_by cand.length
decreasing_by exact length_lt_of_afterDot _h

def classify (sni : Bytes) (rules : RuleMap) : Option (AppRule × Bytes) :=
  classifyFrom rules (trimEndDots sni)

theorem trimEndDots_spec (sni : Bytes) :
    (∃ n, sni = trimEndDots sni ++ List.replicate n dot) ∧
      (trimEndDots sni).getLast? ≠ some dot := by
  constructor
  · refine ⟨(sni.reverse.takeWhile (· == dot)).length, ?_⟩
    have hdots : sni.reverse.takeWhile (· == dot) =
        List.replicate (sni.reverse.takeWhile (· == dot)).length dot := by
      apply List.eq_replicate_of_mem
      intro b hb
      exact eq_of_beq (List.all_eq_true.mp (List.all_takeWhile ..) b hb)
    rw [← List.reverse_replicate, ← hdots, trimEndDots, ← List.reverse_append,
      List.takeWhile_append_dropWhile, List.reverse_reverse]
  · rw [trimEndDots, List.getLast?_reverse]
    intro hlast
    have hhead := List.head?_dropWhile_not (· == dot) sni.reverse
    rw [hlast] at hhead
    simp at hhead

/-! ## Suffixes at the dots -/

/-- The whole name, or what follows one of its dots. -/
def LabelSuffix (k s : Bytes) : Prop := k = s ∨ ∃ front, s = front ++ dot :: k

theorem LabelSuffix.refl (s : Bytes) : LabelSuffix s s := Or.inl rfl

theorem LabelSuffix.length_le {k s : Bytes} (h : LabelSuffix k s) : k.length ≤ s.length := by
  rcases h with rfl | ⟨front, rfl⟩
  · exact le_rfl
  · rw [List.length_append, List.length_cons]
    omega

theorem LabelSuffix.eq_of_length {k k' s : Bytes} (h : LabelSuffix k s) (h' : LabelSuffix k' s)
    (hlen : k.length = k'.length) : k = k' := by
  have hsuffix : ∀ t, LabelSuffix t s → t <:+ s := by
    rintro t (rfl | ⟨front, rfl⟩)
    · exact List.suffix_refl t
    · exact ⟨front ++ [dot], by simp⟩
  exact List.IsSuffix.eq_of_length (List.suffix_of_suffix_length_le (hsuffix k h) (hsuffix k' h')
    hlen.le) hlen

/-- What follows some dot follows the first one or a dot behind it. -/
theorem follows_dot_iff {k s : Bytes} : (∃ front, s = front ++ dot :: k) ↔
    ∃ shorter, afterDot s = some shorter ∧ LabelSuffix k shorter := by
  induction s with
  | nil => simp [afterDot]
  | cons b bs ih =>
      have hcons : (∃ front, b :: bs = front ++ dot :: k) ↔
          b = dot ∧ bs = k ∨ ∃ front, bs = front ++ dot :: k := by
        constructor
        · rintro ⟨front, hfront⟩
          cases front with
          | nil => exact Or.inl (List.cons.inj hfront)
          | cons c front => exact Or.inr ⟨front, (List.cons.inj hfront).2⟩
        · rintro (⟨rfl, rfl⟩ | ⟨front, rfl⟩)
          · exact ⟨[], rfl⟩
          · exact ⟨b :: front, rfl⟩
      rw [hcons, afterDot]
      by_cases hb : b = dot
      · rw [if_pos hb]
        constructor
        · rintro (⟨-, rfl⟩ | hfront)
          · exact ⟨bs, rfl, LabelSuffix.refl bs⟩
          · exact ⟨bs, rfl, Or.inr hfront⟩
        · rintro ⟨shorter, hshorter, hk⟩
          obtain rfl := Option.some.inj hshorter
          rcases hk with rfl | hfront
          · exact Or.inl ⟨hb, rfl⟩
          · exact Or.inr hfront
      · rw [if_neg hb, ih]
        simp [hb]

theorem labelSuffix_iff {k s : Bytes} : LabelSuffix k s ↔
    k = s ∨ ∃ shorter, afterDot s = some shorter ∧ LabelSuffix k shorter :=
  or_congr_right follows_dot_iff

/-! ## The longest key -/

/-- The rule of the longest key among the suffixes of the name. -/
structure Longest (rules : RuleMap) (s : Bytes) (rule : AppRule) (k : Bytes) : Prop where
  rule : rules.lookup k = some rule
  isSuffix : LabelSuffix k s
  longest : ∀ k' ∈ rules, LabelSuffix k' s → k'.length ≤ k.length

section Longest

variable {rules : RuleMap} {s k : Bytes} {rule : AppRule}

theorem Longest.unique {k' : Bytes} {rule' : AppRule} (h : Longest rules s rule k)
    (h' : Longest rules s rule' k') : rule = rule' ∧ k = k' := by
  have hmem := Finmap.mem_of_lookup_eq_some h.rule
  have hmem' := Finmap.mem_of_lookup_eq_some h'.rule
  have hlen := le_antisymm (h'.longest k hmem h.isSuffix) (h.longest k' hmem' h'.isSuffix)
  obtain rfl := h.isSuffix.eq_of_length h'.isSuffix hlen
  exact ⟨Option.some.inj (h.rule.symm.trans h'.rule), rfl⟩

/-- The first suffix that is a key is the longest one. -/
theorem classifyFrom_spec (rules : RuleMap) (cand : Bytes) :
    (∃ rule k, classifyFrom rules cand = some (rule, k) ∧ Longest rules cand rule k) ∨
      classifyFrom rules cand = none ∧ ∀ k, LabelSuffix k cand → k ∉ rules := by
  induction cand using classifyFrom.induct rules with
  | case1 cand rule hrule =>
      rw [classifyFrom, hrule]
      exact Or.inl ⟨rule, cand, rfl, hrule, LabelSuffix.refl cand, fun k' _ hk' ↦ hk'.length_le⟩
  | case2 cand hrule shorter hshorter ih =>
      have hcand : cand ∉ rules := Finmap.lookup_eq_none.mp hrule
      have hsplit : ∀ k, LabelSuffix k cand ↔ k = cand ∨ LabelSuffix k shorter := by
        intro k
        rw [labelSuffix_iff, hshorter]
        simp
      rw [classifyFrom, hrule, hshorter]
      rcases ih with ⟨rule, k, hfrom, hlongest⟩ | ⟨hfrom, hnone⟩
      · refine Or.inl ⟨rule, k, hfrom, hlongest.rule, (hsplit k).mpr (Or.inr hlongest.isSuffix), ?_⟩
        intro k' hmem hk'
        rcases (hsplit k').mp hk' with rfl | hk'
        · exact absurd hmem hcand
        · exact hlongest.longest k' hmem hk'
      · refine Or.inr ⟨hfrom, ?_⟩
        intro k hk
        rcases (hsplit k).mp hk with rfl | hk
        · exact hcand
        · exact hnone k hk
  | case3 cand hrule hend =>
      rw [classifyFrom, hrule, hend]
      refine Or.inr ⟨rfl, ?_⟩
      intro k hk
      rcases labelSuffix_iff.mp hk with rfl | ⟨shorter, hshorter, -⟩
      · exact Finmap.lookup_eq_none.mp hrule
      · rw [hend] at hshorter
        cases hshorter

theorem classify_eq_some_iff {sni : Bytes} : classify sni rules = some (rule, k) ↔
    Longest rules (trimEndDots sni) rule k := by
  rw [classify]
  rcases classifyFrom_spec rules (trimEndDots sni) with
    ⟨rule', k', hfrom, hlongest⟩ | ⟨hfrom, hnone⟩
  · rw [hfrom]
    constructor
    · intro h
      obtain ⟨rfl, rfl⟩ := Prod.mk.inj (Option.some.inj h)
      exact hlongest
    · intro h
      obtain ⟨rfl, rfl⟩ := hlongest.unique h
      rfl
  · rw [hfrom]
    constructor
    · intro h
      cases h
    · intro h
      exact absurd (Finmap.mem_of_lookup_eq_some h.rule) (hnone k h.isSuffix)

theorem classify_eq_none_iff {sni : Bytes} : classify sni rules = none ↔
    ∀ k, LabelSuffix k (trimEndDots sni) → k ∉ rules := by
  rw [classify]
  rcases classifyFrom_spec rules (trimEndDots sni) with ⟨rule, k, hfrom, hlongest⟩ | ⟨hfrom, hnone⟩
  · rw [hfrom]
    constructor
    · intro h
      cases h
    · intro h
      exact absurd (Finmap.mem_of_lookup_eq_some hlongest.rule) (h k hlongest.isSuffix)
  · rw [hfrom]
    exact iff_of_true rfl hnone

/-- A match stays when the rules change at another key, unless that key comes to be the
match. -/
theorem Longest.transfer {rules' : RuleMap} {key : Bytes} (h : Longest rules s rule k)
    (hk : k ≠ key) (hsame : ∀ k, k ≠ key → rules'.lookup k = rules.lookup k)
    (hkey : ∀ rule, ¬ Longest rules' s rule key) : Longest rules' s rule k := by
  have hrule : rules'.lookup k = some rule := (hsame k hk).trans h.rule
  refine ⟨hrule, h.isSuffix, ?_⟩
  intro k' hmem' hk'
  rcases classifyFrom_spec rules' s with ⟨rule₀, k₀, -, hlongest⟩ | ⟨-, hnone⟩
  · have hne : k₀ ≠ key := by
      rintro rfl
      exact hkey rule₀ hlongest
    have hmem₀ : k₀ ∈ rules :=
      Finmap.mem_of_lookup_eq_some ((hsame k₀ hne).symm.trans hlongest.rule)
    exact (hlongest.longest k' hmem' hk').trans (h.longest k₀ hmem₀ hlongest.isSuffix)
  · exact absurd hmem' (hnone k' hk')

theorem classify_congr {rules' : RuleMap} {key sni : Bytes}
    (hsame : ∀ k, k ≠ key → rules'.lookup k = rules.lookup k)
    (hbefore : ∀ rule, ¬ Longest rules (trimEndDots sni) rule key)
    (hafter : ∀ rule, ¬ Longest rules' (trimEndDots sni) rule key) :
    classify sni rules' = classify sni rules := by
  cases hrules : classify sni rules with
  | some answer =>
      have hlongest := classify_eq_some_iff.mp hrules
      have hne : answer.2 ≠ key := fun heq ↦ hbefore answer.1 (heq ▸ hlongest)
      exact classify_eq_some_iff.mpr (hlongest.transfer hne hsame hafter)
  | none =>
      rw [classify_eq_none_iff] at hrules ⊢
      intro k hk hmem
      rcases classifyFrom_spec rules' (trimEndDots sni) with ⟨rule, k₀, -, hlongest⟩ | ⟨-, hnone⟩
      · have hne : k₀ ≠ key := by
          rintro rfl
          exact hafter rule hlongest
        have hmem₀ := Finmap.mem_of_lookup_eq_some ((hsame k₀ hne).symm.trans hlongest.rule)
        exact hrules k₀ hlongest.isSuffix hmem₀
      · exact hnone k hk hmem

end Longest

/-- `classify` matches the longest suffix, of the name without its final dots, that is a
key, and a rule counts only while it is that match. -/
theorem classify_longest (rules : RuleMap) (sni : Bytes) :
    ((∃ n, sni = trimEndDots sni ++ List.replicate n dot) ∧
      (trimEndDots sni).getLast? ≠ some dot) ∧
    (∀ rule k, classify sni rules = some (rule, k) ↔ Longest rules (trimEndDots sni) rule k) ∧
    (classify sni rules = none ↔ ∀ k, LabelSuffix k (trimEndDots sni) → k ∉ rules) ∧
    (∀ key rule, classify sni (rules.insert key rule) ≠ classify sni rules →
      Longest (rules.insert key rule) (trimEndDots sni) rule key) ∧
    (∀ key, classify sni (rules.erase key) ≠ classify sni rules →
      ∃ rule, Longest rules (trimEndDots sni) rule key) := by
  refine ⟨trimEndDots_spec sni, fun rule k ↦ classify_eq_some_iff, classify_eq_none_iff, ?_, ?_⟩
  · intro key rule hne
    by_contra hnot
    have hlookup : (rules.insert key rule).lookup key = some rule := Finmap.lookup_insert rules
    refine hne (classify_congr (fun k hk ↦ Finmap.lookup_insert_of_ne rules hk) ?_ ?_)
    · intro rule' h
      refine hnot ⟨hlookup, h.isSuffix, ?_⟩
      intro k' hmem hk'
      rcases Finmap.mem_insert.mp hmem with rfl | hmem
      · exact le_rfl
      · exact h.longest k' hmem hk'
    · intro rule' h
      obtain rfl : rule = rule' := Option.some.inj (hlookup.symm.trans h.rule)
      exact hnot h
  · intro key hne
    by_contra hnot
    refine hne (classify_congr (fun k hk ↦ Finmap.lookup_erase_ne hk) ?_ ?_)
    · exact fun rule h ↦ hnot ⟨rule, h⟩
    · intro rule h
      exact Finmap.notMem_erase_self (Finmap.mem_of_lookup_eq_some h.rule)

end TrafficMap.SniSniff
