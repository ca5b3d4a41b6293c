import TrafficMap.Api.History
import TrafficMap.Lib.Buckets
import TrafficMap.Lib.Table

/-!
# The timeline

`/api/timeline` of `crates/api`: the octets of a look-back window by buckets
counted back from now, as a series of bars from the oldest to the newest.  Each
bar is labelled with the newer end of its bucket.  The arithmetic is exact: the
rounding of floats is left out of the buckets, the labels and the bars.
-/

namespace TrafficMap.Api

open Ingestor Sql

structure TimelineQuery where
  sinceS : Option ℚ
  buckets : Option ℤ

namespace TimelineQuery

variable (q : TimelineQuery)

def since : ℚ := clamp (q.sinceS.getD 900) 60 (366 * 24 * 3600)

/-- The number of bars. -/
def n : ℕ := (clamp (q.buckets.getD 120) 10 600).toNat

def bucketS : ℚ := q.since / q.n

end TimelineQuery

/-! ## The query -/

section Query

variable (q : TimelineQuery) (now : ℚ)

def bucketNo (f : FlowRow) : ℤ := Buckets.index now q.bucketS (epoch f.recvTime)

/-- The flows of each group.  Their order is the database's. -/
def timelineGroups (flows : List FlowRow) : List (ℤ × List FlowRow) :=
  (Table.groupBy (bucketNo q now)
    (flows.filter fun f ↦ now - q.since < epoch f.recvTime)).entries.map fun e ↦ (e.1, e.2)

def sumOctets (fs : List FlowRow) : ℤ := ((fs.filterMap FlowRow.octets).map Int64.toInt).sum

def timelineRow (group : ℤ × List FlowRow) : ℤ × ℤ := (group.1, sumOctets group.2)

/-! ## The series -/

structure Pt where
  t : ℚ
  bps : Int64

def truncate (x : ℚ) : ℤ := if 0 ≤ x then ⌊x⌋ else ⌈x⌉

/-- The quotient is not rounded to a float before it is cut. -/
def bpsOf (bytes : ℤ) : Int64 := satI64 (truncate (bytes * 8 / q.bucketS))

def timelineHandler (rows : Except String (List (ℤ × ℤ))) : List Pt :=
  let bps := Buckets.fill q.n 0 ((unwrapOrDefault rows).map fun row ↦ (row.1, bpsOf q row.2))
  (List.range q.n).reverse.map fun i : ℕ ↦ ⟨now - i * q.bucketS, bps.getD i 0⟩

/-- The flows that the bar at place `p` counts. -/
def counted (groups : List (ℤ × List FlowRow)) (p : ℕ) : List FlowRow :=
  Buckets.kept [] groups (q.n - 1 - p)

/-- The label of the bar at place `p`. -/
def labelAt (p : ℕ) : ℚ := now - (q.n - 1 - p) * q.bucketS

end Query

section Series

variable {q : TimelineQuery} {now : ℚ}

theorem n_pos : 10 ≤ q.n := by
  have hle : (10 : ℤ) ≤ clamp (q.buckets.getD 120) 10 600 := le_max_left _ _
  rw [TimelineQuery.n]
  omega

theorem bucketS_pos : 0 < q.bucketS := by
  have hsince : (60 : ℚ) ≤ q.since := le_max_left _ _
  have hn : (10 : ℚ) ≤ q.n := by exact_mod_cast n_pos
  exact div_pos (by linarith) (by linarith)

theorem n_mul_bucketS : q.n * q.bucketS = q.since := by
  have hn : (10 : ℚ) ≤ q.n := by exact_mod_cast n_pos
  exact mul_div_cancel₀ _ (by linarith)

/-- A bar shows the octets of the flows that it counts, under its label. -/
theorem getElem?_timelineHandler {p : ℕ} (hp : p < q.n) (groups : List (ℤ × List FlowRow)) :
    (timelineHandler q now (.ok (groups.map timelineRow)))[p]? =
      some ⟨labelAt q now p, bpsOf q (sumOctets (counted q groups p))⟩ := by
  have hk : q.n - 1 - p < q.n := by omega
  have hcast : ((q.n - 1 - p : ℕ) : ℚ) = q.n - 1 - p := by
    rw [Nat.sub_sub, Nat.cast_sub (by omega)]
    push_cast
    ring
  have hzero : bpsOf q (sumOctets []) = 0 := by
    simp [bpsOf, sumOctets, truncate, satI64]
  have hfill : Buckets.fill q.n 0 (((unwrapOrDefault (.ok (groups.map timelineRow))).map
      fun row ↦ (row.1, bpsOf q row.2))) =
      (Buckets.fill q.n [] groups).map fun fs ↦ bpsOf q (sumOctets fs) := by
    rw [← Buckets.fill_map, hzero, unwrapOrDefault, List.map_map]
    rfl
  have hrange : (List.range q.n).reverse[p]? = some (q.n - 1 - p) := by
    rw [List.getElem?_reverse (by rwa [List.length_range]), List.length_range,
      List.getElem?_range hk]
  rw [timelineHandler, hfill, List.getElem?_map, hrange, Option.map_some, labelAt, hcast,
    List.getD_eq_getElem?_getD, List.getElem?_map, Buckets.getElem?_fill hk]
  rfl

/-! ## What a bar counts -/

variable {flows : List FlowRow} {groups : List (ℤ × List FlowRow)}

theorem mem_timelineGroups {k : ℤ} {g : List FlowRow} (h : (k, g) ∈ timelineGroups q now flows)
    (f : FlowRow) :
    f ∈ g ↔ f ∈ flows ∧ now - q.since < epoch f.recvTime ∧ bucketNo q now f = k := by
  obtain ⟨⟨k', g'⟩, hmem, heq⟩ := List.mem_map.mp h
  obtain ⟨rfl, rfl⟩ := Prod.mk.inj heq
  obtain ⟨-, hg⟩ := Table.mem_groupBy.mp hmem
  dsimp only
  rw [hg, List.mem_filter, List.mem_filter, decide_eq_true_eq, decide_eq_true_eq, and_assoc]

theorem exists_timelineGroup {f : FlowRow} (hf : f ∈ flows)
    (hsince : now - q.since < epoch f.recvTime) :
    ∃ g, (bucketNo q now f, g) ∈ timelineGroups q now flows := by
  refine ⟨_, List.mem_map.mpr ⟨⟨bucketNo q now f, _⟩, Table.mem_groupBy.mpr ⟨?_, rfl⟩, rfl⟩⟩
  exact List.mem_map_of_mem (List.mem_filter.mpr ⟨hf, decide_eq_true hsince⟩)

theorem timelineGroups_inj {k : ℤ} {g g' : List FlowRow}
    (h : (k, g) ∈ timelineGroups q now flows) (h' : (k, g') ∈ timelineGroups q now flows) :
    g = g' := by
  obtain ⟨⟨k₁, g₁⟩, hmem, heq⟩ := List.mem_map.mp h
  obtain ⟨⟨k₂, g₂⟩, hmem', heq'⟩ := List.mem_map.mp h'
  obtain ⟨rfl, rfl⟩ := Prod.mk.inj heq
  obtain ⟨hk, rfl⟩ := Prod.mk.inj heq'
  obtain ⟨-, hg⟩ := Table.mem_groupBy.mp hmem
  obtain ⟨-, hg'⟩ := Table.mem_groupBy.mp hmem'
  dsimp only at hk hg hg' ⊢
  rw [hg, hg', hk]

/-- The bar of a group that is not of the newest bucket counts the flows of the
group. -/
theorem kept_timelineGroups {k : ℕ} (hk : 0 < k) {g : List FlowRow}
    (hgroups : groups.Perm (timelineGroups q now flows))
    (hg : ((k : ℤ), g) ∈ timelineGroups q now flows) : Buckets.kept [] groups k = g := by
  have hmem : ((k : ℤ), g) ∈ groups := hgroups.mem_iff.mpr hg
  refine Buckets.kept_eq_of_forall [] hmem (Int.toNat_natCast k) ?_
  rintro ⟨k', g'⟩ hmem hkey
  have hk' : k' = k := by
    dsimp only at hkey
    omega
  subst hk'
  rw [timelineGroups_inj hg (hgroups.mem_iff.mp hmem)]

theorem mem_kept_iff {k : ℕ} (hk : 0 < k) (hkn : k < q.n)
    (hgroups : groups.Perm (timelineGroups q now flows)) (f : FlowRow) :
    f ∈ Buckets.kept [] groups k ↔ f ∈ flows ∧ bucketNo q now f = k := by
  constructor
  · intro hf
    rcases Buckets.kept_cases [] groups k with hnil | ⟨⟨k', g⟩, hmem, hkey, hkept⟩
    · rw [hnil] at hf
      cases hf
    · rw [hkept] at hf
      obtain ⟨hflow, -, hbucket⟩ := (mem_timelineGroups (hgroups.mem_iff.mp hmem) f).mp hf
      dsimp only at hkey
      exact ⟨hflow, by omega⟩
  · rintro ⟨hf, hbucket⟩
    have hlow := ((Buckets.index_eq_iff bucketS_pos k).mp hbucket).1
    have hle : ((k : ℚ) + 1) * q.bucketS ≤ q.n * q.bucketS := by
      refine mul_le_mul_of_nonneg_right ?_ bucketS_pos.le
      exact_mod_cast hkn
    have hsince : now - q.since < epoch f.recvTime := by
      rw [← n_mul_bucketS]
      push_cast at hlow
      linarith
    obtain ⟨g, hg⟩ := exists_timelineGroup hf hsince
    rw [hbucket] at hg
    rw [kept_timelineGroups hk hgroups hg, mem_timelineGroups hg]
    exact ⟨hf, hsince, hbucket⟩

/-- The flows of the newest bar, if one of several rows for it is the last. -/
def newest (groups : List (ℤ × List FlowRow)) : List FlowRow :=
  ((groups.filter fun g ↦ g.1 ≤ 0).getLast?.map Prod.snd).getD []

theorem kept_zero (groups : List (ℤ × List FlowRow)) :
    Buckets.kept [] groups 0 = newest groups := by
  have hkey : ∀ g : ℤ × List FlowRow, decide (g.1.toNat = 0) = decide (g.1 ≤ 0) := fun g ↦ by
    rw [decide_eq_decide]
    omega
  simp only [Buckets.kept, newest, hkey]

theorem bucketNo_of_mem_newest (hgroups : groups.Perm (timelineGroups q now flows)) {f : FlowRow}
    (hf : f ∈ newest groups) : bucketNo q now f ≤ 0 := by
  rw [← kept_zero] at hf
  rcases Buckets.kept_cases [] groups 0 with hnil | ⟨⟨k, g⟩, hmem, hkey, hkept⟩
  · rw [hnil] at hf
    cases hf
  · rw [hkept] at hf
    obtain ⟨-, -, hbucket⟩ := (mem_timelineGroups (hgroups.mem_iff.mp hmem) f).mp hf
    dsimp only at hkey
    omega

/-- A bar but the newest counts the flows up to its label. -/
theorem mem_counted_iff {p : ℕ} (hp : p + 1 < q.n)
    (hgroups : groups.Perm (timelineGroups q now flows)) (f : FlowRow) :
    f ∈ counted q groups p ↔ f ∈ flows ∧ bucketNo q now f = (q.n - 1 - p : ℕ) :=
  mem_kept_iff (by omega) (by omega) hgroups f

theorem counted_newest {p : ℕ} (hp : p + 1 = q.n) : counted q groups p = newest groups := by
  rw [counted, ← kept_zero, ← hp]
  congr 1
  omega

theorem lt_epoch_iff (p : ℕ) (f : FlowRow) :
    labelAt q now p - q.bucketS < epoch f.recvTime ↔ bucketNo q now f ≤ q.n - 1 - p := by
  rw [bucketNo, Buckets.index_le_iff bucketS_pos, labelAt]
  push_cast
  ring_nf

theorem epoch_le_iff (p : ℕ) (f : FlowRow) :
    epoch f.recvTime ≤ labelAt q now p ↔ (q.n - 1 - p : ℤ) ≤ bucketNo q now f := by
  rw [bucketNo, Buckets.le_index_iff bucketS_pos, labelAt]
  push_cast
  rfl

theorem newest_iff {f : FlowRow} :
    bucketNo q now f ≤ 0 ↔ now - q.bucketS < epoch f.recvTime := by
  rw [bucketNo, Buckets.index_le_iff bucketS_pos]
  simp

/-- The bars from `i` to `j` count the flows of the newest bucket if `j` is the
newest bar. -/
theorem counted_new_iff (hgroups : groups.Perm (timelineGroups q now flows)) {i j : ℕ}
    (hij : i ≤ j) (hj : j < q.n) {f : FlowRow} (hf : bucketNo q now f ≤ 0) :
    (∃ p, i ≤ p ∧ p ≤ j ∧ f ∈ counted q groups p) ↔ j + 1 = q.n ∧ f ∈ newest groups := by
  constructor
  · rintro ⟨p, -, hpj, hmem⟩
    by_cases hp : p + 1 < q.n
    · obtain ⟨-, hbucket⟩ := (mem_counted_iff hp hgroups f).mp hmem
      omega
    · have hpn : p + 1 = q.n := by omega
      rw [counted_newest hpn] at hmem
      exact ⟨by omega, hmem⟩
  · rintro ⟨hjn, hmem⟩
    exact ⟨j, hij, le_rfl, by rwa [counted_newest hjn]⟩

/-- They count the older flows from the older end of `i` to the label of `j`. -/
theorem counted_old_iff (hgroups : groups.Perm (timelineGroups q now flows)) {i j : ℕ}
    (hj : j < q.n) {f : FlowRow} (hmem : f ∈ flows) (hf : 0 < bucketNo q now f) :
    (∃ p, i ≤ p ∧ p ≤ j ∧ f ∈ counted q groups p) ↔
      labelAt q now i - q.bucketS < epoch f.recvTime ∧ epoch f.recvTime ≤ labelAt q now j := by
  rw [lt_epoch_iff, epoch_le_iff]
  constructor
  · rintro ⟨p, hip, hpj, hcounted⟩
    by_cases hp : p + 1 < q.n
    · obtain ⟨-, hbucket⟩ := (mem_counted_iff hp hgroups f).mp hcounted
      omega
    · rw [counted_newest (by omega)] at hcounted
      have hbucket := bucketNo_of_mem_newest hgroups hcounted
      omega
  · rintro ⟨hlow, hhigh⟩
    obtain ⟨k, hk⟩ := Int.eq_ofNat_of_zero_le hf.le
    refine ⟨q.n - 1 - k, by omega, by omega, ?_⟩
    rw [mem_counted_iff (by omega) hgroups]
    exact ⟨hmem, by omega⟩

theorem labelAt_mono {i j : ℕ} (hij : i ≤ j) : labelAt q now i ≤ labelAt q now j := by
  have hcast : (i : ℚ) ≤ j := by exact_mod_cast hij
  have hle : (q.n - 1 - j : ℚ) * q.bucketS ≤ (q.n - 1 - i) * q.bucketS :=
    mul_le_mul_of_nonneg_right (by linarith) bucketS_pos.le
  rw [labelAt, labelAt]
  linarith

end Series

end TrafficMap.Api
