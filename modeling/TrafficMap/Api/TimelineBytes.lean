import TrafficMap.Api.Apps
import Mathlib.Algebra.BigOperators.Ring.Finset

/-!
# The bytes of the timeline

Whether the bars of `/api/timeline`, before they are cut to whole numbers, hold the
octets of the look-back window, in whatever order the rows of the query arrive.
-/

namespace TrafficMap.Api

open Ingestor Sql

section Query

variable (q : TimelineQuery) (now : ℚ) (flows : List FlowRow)

def windowed : List FlowRow := flows.filter fun f ↦ now - q.since < epoch f.recvTime

/-- The rows in an order of the groups. -/
def timelineRows : List (ℤ × ℤ) := (timelineGroups q now flows).map timelineRow

/-- A sum that is no `bigint` fails the query. -/
def timelineReply (rows : List (ℤ × ℤ)) : Except String (List (ℤ × ℤ)) :=
  if ∀ row ∈ rows, InBigint row.2 then .ok rows else .error "bigint out of range"

/-- The bars before they are cut to whole numbers. -/
def rawBps (rows : Except String (List (ℤ × ℤ))) : List ℚ :=
  Buckets.fill q.n 0 ((unwrapOrDefault rows).map fun row ↦ (row.1, row.2 * 8 / q.bucketS))

/-- The bars hold the octets of the window, and no order of the rows changes the series. -/
structure Conserves : Prop where
  sum : ∀ rows, rows.Perm (timelineRows q now flows) →
    ((rawBps q (timelineReply rows)).map fun x ↦ x * q.bucketS / 8).sum =
      sumOctets (windowed q now flows)
  series : ∀ rows rows', rows.Perm (timelineRows q now flows) →
    rows'.Perm (timelineRows q now flows) →
    timelineHandler q now (timelineReply rows) = timelineHandler q now (timelineReply rows')

/-- The octets of the flows in the bucket `k`. -/
def bucketOctets (k : ℤ) : ℤ :=
  sumOctets ((windowed q now flows).filter fun f ↦ bucketNo q now f = k)

/-- No two buckets count for the newest bar, unless there is nothing in them. -/
def OneNewest : Prop :=
  (∀ f ∈ windowed q now flows, ∀ f' ∈ windowed q now flows, bucketNo q now f ≤ 0 →
    bucketNo q now f' ≤ 0 → bucketNo q now f = bucketNo q now f') ∨
  ∀ f ∈ windowed q now flows, bucketNo q now f ≤ 0 → bucketOctets q now flows (bucketNo q now f) = 0

end Query

section Series

variable {q : TimelineQuery} {now : ℚ} {flows : List FlowRow} {rows rows' : List (ℤ × ℤ)}

/-- The series is what the handler cuts. -/
theorem bps_timelineHandler (reply : Except String (List (ℤ × ℤ))) :
    (timelineHandler q now reply).map Pt.bps =
      ((rawBps q reply).map fun x ↦ satI64 (truncate x)).reverse := by
  have hzero : satI64 (truncate 0) = 0 := by simp [truncate, satI64]
  have hcut : Buckets.fill q.n 0 ((unwrapOrDefault reply).map fun row ↦ (row.1, bpsOf q row.2)) =
      (rawBps q reply).map fun x ↦ satI64 (truncate x) := by
    rw [rawBps, ← Buckets.fill_map, hzero, List.map_map]
    rfl
  have hlist : ∀ l : List Int64, l.length = q.n →
      (List.range q.n).map (fun i ↦ l.getD i 0) = l := by
    intro l hl
    apply List.ext_getElem
    · simp [hl]
    · intro i hi hi'
      simp [hi']
  have hlength : ((rawBps q reply).map fun x ↦ satI64 (truncate x)).length = q.n := by
    simp [rawBps]
  rw [timelineHandler, hcut, List.map_map, List.map_reverse]
  exact congrArg List.reverse (hlist _ hlength)

theorem mem_timelineRows {row : ℤ × ℤ} : row ∈ timelineRows q now flows ↔
    ∃ f ∈ windowed q now flows,
      row = (bucketNo q now f, bucketOctets q now flows (bucketNo q now f)) := by
  rw [timelineRows, timelineGroups, List.map_map, List.mem_map]
  constructor
  · rintro ⟨⟨k, g⟩, hmem, rfl⟩
    obtain ⟨hk, rfl⟩ := Table.mem_groupBy.mp hmem
    obtain ⟨f, hf, rfl⟩ := List.mem_map.mp hk
    exact ⟨f, hf, rfl⟩
  · rintro ⟨f, hf, rfl⟩
    exact ⟨⟨bucketNo q now f, _⟩, Table.mem_groupBy.mpr ⟨List.mem_map_of_mem hf, rfl⟩, rfl⟩

theorem nodup_timelineRows : ((timelineRows q now flows).map Prod.fst).Nodup := by
  rw [timelineRows, timelineGroups, List.map_map, List.map_map]
  exact (Table.groupBy (bucketNo q now) (windowed q now flows)).nodupKeys

theorem bucketNo_lt {f : FlowRow} (hf : f ∈ windowed q now flows) : bucketNo q now f < q.n := by
  have hsince := of_decide_eq_true (List.mem_filter.mp hf).2
  rw [← n_mul_bucketS] at hsince
  have hle : bucketNo q now f ≤ q.n - 1 := by
    rw [bucketNo, Buckets.index_le_iff bucketS_pos]
    push_cast
    linarith
  omega

theorem lt_of_mem_timelineRows : ∀ row ∈ timelineRows q now flows, row.1.toNat < q.n := by
  intro row hrow
  obtain ⟨f, hf, rfl⟩ := mem_timelineRows.mp hrow
  have hlt := bucketNo_lt hf
  have hn := n_pos (q := q)
  dsimp only
  omega

theorem sumOctets_append (fs gs : List FlowRow) :
    sumOctets (fs ++ gs) = sumOctets fs + sumOctets gs := by
  simp [sumOctets]

theorem sum_timelineRows :
    ((timelineRows q now flows).map Prod.snd).sum = sumOctets (windowed q now flows) := by
  have hgroups := Table.perm_groupBy (bucketNo q now) (windowed q now flows)
  have hsum : sumOctets ((Table.groupBy (bucketNo q now)
      (windowed q now flows)).entries.flatMap fun e ↦ e.2) = sumOctets (windowed q now flows) :=
    ((hgroups.filterMap _).map _).sum_eq
  rw [← hsum, timelineRows, timelineGroups, List.map_map, List.map_map, ← windowed]
  generalize (Table.groupBy (bucketNo q now) (windowed q now flows)).entries = entries
  induction entries with
  | nil => rfl
  | cons e entries ih =>
      rw [List.flatMap_cons, sumOctets_append, ← ih]
      rfl

theorem newestKept_timelineRows : Buckets.NewestKept (timelineRows q now flows) ↔
    OneNewest q now flows := by
  refine or_congr ⟨fun h f hf f' hf' hnew hnew' ↦ ?_, fun h row hrow row' hrow' hnew hnew' ↦ ?_⟩
    ⟨fun h f hf hnew ↦ ?_, fun h row hrow hnew ↦ ?_⟩
  · exact congrArg Prod.fst (h _ (mem_timelineRows.mpr ⟨f, hf, rfl⟩) _
      (mem_timelineRows.mpr ⟨f', hf', rfl⟩) hnew hnew')
  · obtain ⟨f, hf, rfl⟩ := mem_timelineRows.mp hrow
    obtain ⟨f', hf', rfl⟩ := mem_timelineRows.mp hrow'
    rw [h f hf f' hf' hnew hnew']
  · exact h _ (mem_timelineRows.mpr ⟨f, hf, rfl⟩) hnew
  · obtain ⟨f, hf, rfl⟩ := mem_timelineRows.mp hrow
    exact h f hf hnew

theorem sum_rawBps_ok (rows : List (ℤ × ℤ)) :
    ((rawBps q (.ok rows)).map fun x ↦ x * q.bucketS / 8).sum =
      ((Buckets.fill q.n 0 rows).sum : ℤ) := by
  have hwidth := (bucketS_pos (q := q)).ne'
  have hfill : rawBps q (.ok rows) =
      (Buckets.fill q.n 0 rows).map fun bytes : ℤ ↦ (bytes : ℚ) * 8 / q.bucketS := by
    rw [rawBps, unwrapOrDefault, ← Buckets.fill_map, Int.cast_zero, zero_mul, zero_div]
  have hbytes : (fun x : ℚ ↦ x * q.bucketS / 8) ∘ (fun bytes : ℤ ↦ (bytes : ℚ) * 8 / q.bucketS) =
      fun bytes : ℤ ↦ (bytes : ℚ) := by
    funext bytes
    rw [Function.comp_apply]
    field_simp
  rw [hfill, List.map_map, hbytes, Int.cast_list_sum]

theorem sum_rawBps_error (e : String) :
    ((rawBps q (.error e)).map fun x ↦ x * q.bucketS / 8).sum = 0 := by
  simp [rawBps, unwrapOrDefault, Buckets.fill]

theorem timelineHandler_congr (h : Buckets.fill q.n 0 rows = Buckets.fill q.n 0 rows') :
    timelineHandler q now (.ok rows) = timelineHandler q now (.ok rows') := by
  have hzero : bpsOf q 0 = 0 := by simp [bpsOf, truncate, satI64]
  have hfill : ∀ rows : List (ℤ × ℤ),
      Buckets.fill q.n 0 (rows.map fun row ↦ (row.1, bpsOf q row.2)) =
        (Buckets.fill q.n 0 rows).map (bpsOf q) := by
    intro rows
    rw [← Buckets.fill_map, hzero]
  rw [timelineHandler, timelineHandler, unwrapOrDefault, unwrapOrDefault, hfill, hfill, h]

theorem conserves_of_fits (hfits : ∀ row ∈ timelineRows q now flows, InBigint row.2) :
    Conserves q now flows ↔ Buckets.NewestKept (timelineRows q now flows) := by
  have hreply : ∀ rows, rows.Perm (timelineRows q now flows) → timelineReply rows = .ok rows :=
    fun rows hperm ↦ if_pos fun row hrow ↦ hfits row (hperm.mem_iff.mp hrow)
  have hbound : ∀ row ∈ timelineRows q now flows, row.1.toNat < q.n := lt_of_mem_timelineRows
  have hkept := Buckets.sum_fill_perm_iff hbound nodup_timelineRows
  rw [sum_timelineRows] at hkept
  constructor
  · rintro ⟨hsum, -⟩
    refine hkept.mp fun rows hperm ↦ ?_
    have htotal := hsum rows hperm
    rw [hreply rows hperm, sum_rawBps_ok] at htotal
    exact_mod_cast htotal
  · intro hnewest
    refine ⟨fun rows hperm ↦ ?_, fun rows rows' hperm hperm' ↦ ?_⟩
    · rw [hreply rows hperm, sum_rawBps_ok, hkept.mpr hnewest rows hperm]
    · rw [hreply rows hperm, hreply rows' hperm']
      apply timelineHandler_congr
      exact (hnewest.perm hperm).fill_eq ((hperm.map Prod.fst).nodup_iff.mpr nodup_timelineRows)
        (hperm.trans hperm'.symm)

theorem conserves_of_error (herror : ¬ ∀ row ∈ timelineRows q now flows, InBigint row.2) :
    Conserves q now flows ↔ sumOctets (windowed q now flows) = 0 := by
  have hreply : ∀ rows, rows.Perm (timelineRows q now flows) →
      timelineReply rows = .error "bigint out of range" :=
    fun rows hperm ↦ if_neg fun h ↦ herror fun row hrow ↦ h row (hperm.mem_iff.mpr hrow)
  constructor
  · rintro ⟨hsum, -⟩
    have htotal := hsum _ (List.Perm.refl _)
    rw [hreply _ (List.Perm.refl _), sum_rawBps_error] at htotal
    exact_mod_cast htotal.symm
  · intro hzero
    refine ⟨fun rows hperm ↦ ?_, fun rows rows' hperm hperm' ↦ ?_⟩
    · rw [hreply rows hperm, sum_rawBps_error, hzero, Int.cast_zero]
    · rw [hreply rows hperm, hreply rows' hperm']

/-- Every sum is a `bigint`. -/
def TimelineFits (q : TimelineQuery) (now : ℚ) (flows : List FlowRow) : Prop :=
  ∀ f ∈ windowed q now flows, InBigint (bucketOctets q now flows (bucketNo q now f))

theorem timelineFits_iff :
    TimelineFits q now flows ↔ ∀ row ∈ timelineRows q now flows, InBigint row.2 := by
  constructor
  · intro h row hrow
    obtain ⟨f, hf, rfl⟩ := mem_timelineRows.mp hrow
    exact h f hf
  · exact fun h f hf ↦ h _ (mem_timelineRows.mpr ⟨f, hf, rfl⟩)

/-- Bytes are conserved if and only if every sum is a `bigint` and one bucket at most
counts for the newest bar, or the query fails on a window without octets. -/
theorem conserves_iff (q : TimelineQuery) (now : ℚ) (flows : List FlowRow) :
    Conserves q now flows ↔ TimelineFits q now flows ∧ OneNewest q now flows ∨
      ¬ TimelineFits q now flows ∧ sumOctets (windowed q now flows) = 0 := by
  by_cases hfits : TimelineFits q now flows
  · rw [conserves_of_fits (timelineFits_iff.mp hfits), newestKept_timelineRows]
    simp [hfits]
  · rw [conserves_of_error fun h ↦ hfits (timelineFits_iff.mpr h)]
    simp [hfits]

end Series

def exchangeAt (secs : ℤ) : FlowRow := { exchange laptop google with recvTime := ⟨secs, 0⟩ }

/-- A flow that is received now, and one that is a second ahead of the clock. -/
theorem ahead_lost : ¬ Conserves ⟨none, none⟩ 0 [exchangeAt 0, exchangeAt 1] := by
  have hfits : TimelineFits ⟨none, none⟩ 0 [exchangeAt 0, exchangeAt 1] := by
    rw [TimelineFits]
    decide +kernel
  have htwo : ¬ OneNewest ⟨none, none⟩ 0 [exchangeAt 0, exchangeAt 1] := by
    rw [OneNewest]
    decide +kernel
  rw [conserves_iff]
  rintro (⟨-, hone⟩ | ⟨hover, -⟩)
  · exact htwo hone
  · exact hover hfits

end TrafficMap.Api
