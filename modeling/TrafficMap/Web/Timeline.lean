import TrafficMap.Api.Timeline

/-!
# Brushing the timeline

`Timeline.tsx`: a drag across the bars asks `/api/history` for the time from the
label of its first bar to a bar's width past the label of its last.  The server
labels a bar with its newer end, so what is asked for lies one bar later than
what is brushed.
-/

namespace TrafficMap.Web

open Api Ingestor

/-! ## The component -/

section Component

variable (pts : List Pt) (windowS : ℚ)

/-- The label of the bar under a fraction of the width. -/
def tAt (f : ℚ) : ℚ :=
  if pts.isEmpty then 0
  else (pts[min (pts.length - 1) ⌊f * pts.length⌋.toNat]?.map Pt.t).getD 0

def bucketS : ℚ := windowS / (max 1 pts.length : ℕ)

/-- The interval passed to `onBrush` when the button that went down at `start`
comes up at `f`. -/
def up (start f : ℚ) : Option (ℚ × ℚ) :=
  let a := min start f
  let b := max start f
  if pts.isEmpty then none
  -- drag: replay the brushed window
  else if 1 / 100 < b - a then some (tAt pts a, tAt pts b + bucketS pts windowS)
  -- single click: a window centred on the clicked bucket
  else
    let t := tAt pts f
    let win := max (windowS / 12) (bucketS pts windowS * 3)
    some (t - win / 2, t + win / 2 + bucketS pts windowS)

end Component

/-- What the component asks for. -/
def timelineQuery (windowS : ℚ) (buckets : ℤ) : TimelineQuery := ⟨some windowS, some buckets⟩

def onBrush (w : ℚ × ℚ) : HistQuery := ⟨none, some w.1, some w.2, some 8000⟩

def Asked (now : ℚ) (w : ℚ × ℚ) (f : FlowRow) : Prop :=
  (histWindow (onBrush w) now).1 < epoch f.recvTime ∧
    epoch f.recvTime ≤ (histWindow (onBrush w) now).2

/-! ## A drag -/

/-- The fraction is inside the bar at place `p` of `n`. -/
def Inside (n p : ℕ) (f : ℚ) : Prop := p ≤ f * n ∧ f * n < p + 1

section Drag

/-- The series that the component holds. -/
def series (q : TimelineQuery) (now : ℚ) (groups : List (ℤ × List FlowRow)) : List Pt :=
  timelineHandler q now (.ok (groups.map timelineRow))

variable {q : TimelineQuery} {windowS now : ℚ} {groups : List (ℤ × List FlowRow)} {i j : ℕ}
  {a b : ℚ}

theorem length_series : (series q now groups).length = q.n := by
  rw [series, timelineHandler, List.length_map, List.length_reverse, List.length_range]

theorem isEmpty_series : (series q now groups).isEmpty = false := by
  have hn : 10 ≤ q.n := n_pos
  rw [Bool.eq_false_iff, Ne, List.isEmpty_iff_length_eq_zero, length_series]
  omega

theorem tAt_series {p : ℕ} {f : ℚ} (hp : p < q.n) (hf : Inside q.n p f) :
    tAt (series q now groups) f = labelAt q now p := by
  have hfloor : ⌊f * q.n⌋ = p := Int.floor_eq_iff.mpr hf
  have hmin : min (q.n - 1) p = p := by omega
  rw [tAt, isEmpty_series, length_series, hfloor, Int.toNat_natCast, hmin, series,
    getElem?_timelineHandler hp]
  rfl

theorem up_series (hi : i < q.n) (hj : j < q.n) (ha : Inside q.n i a) (hb : Inside q.n j b)
    (hdrag : 1 / 100 < b - a) :
    up (series q now groups) windowS a b =
      some (labelAt q now i, labelAt q now j + windowS / q.n) := by
  have hab : a ≤ b := by linarith
  have hmax : max 1 q.n = q.n := by
    have hn : 10 ≤ q.n := n_pos
    omega
  rw [up, isEmpty_series, min_eq_left hab, max_eq_right hab, if_neg Bool.false_ne_true,
    if_pos hdrag, tAt_series hi ha, tAt_series hj hb, bucketS, length_series, hmax]

/-- What is asked for with a drag. -/
theorem asked_iff {u v : ℚ} (h : u < v) (f : FlowRow) :
    Asked now (u, v) f ↔ u < epoch f.recvTime ∧ epoch f.recvTime ≤ v := by
  rw [Asked, histWindow, onBrush]
  simp only [if_pos h]

/-- The drag asks for the times of the flows that the bars from `i` to `j` have
counted. -/
def BrushExact (q : TimelineQuery) (windowS now : ℚ) (flows : List FlowRow)
    (groups : List (ℤ × List FlowRow)) (i j : ℕ) (a b : ℚ) : Prop :=
  ∃ w, up (series q now groups) windowS a b = some w ∧
    ∀ f ∈ flows, Asked now w f ↔ ∃ p, i ≤ p ∧ p ≤ j ∧ f ∈ counted q groups p

/-- An older flow is neither in the first bar nor within a bar's width past the
last; a flow of the newest bucket is in the row that stays in the newest bar,
and that bar is the last, exactly if it is asked for. -/
def ShiftSpares (q : TimelineQuery) (windowS now : ℚ) (groups : List (ℤ × List FlowRow))
    (i j : ℕ) (f : FlowRow) : Prop :=
  let r := epoch f.recvTime
  let u := labelAt q now i
  let v := labelAt q now j
  let extra := windowS / q.n
  if now - q.bucketS < r then (u < r ∧ r ≤ v + extra) ↔ j + 1 = q.n ∧ f ∈ newest groups
  else ¬ (u - q.bucketS < r ∧ r ≤ u) ∧ ¬ (v < r ∧ r ≤ v + extra)

/-- At one flow. -/
theorem asked_iff_counted_iff {flows : List FlowRow} (hextra : 0 < windowS / q.n)
    (hgroups : groups.Perm (timelineGroups q now flows)) (hij : i ≤ j) (hj : j < q.n)
    {f : FlowRow} (hf : f ∈ flows) :
    (Asked now (labelAt q now i, labelAt q now j + windowS / q.n) f ↔
        ∃ p, i ≤ p ∧ p ≤ j ∧ f ∈ counted q groups p) ↔
      ShiftSpares q windowS now groups i j f := by
  have hle : labelAt q now i ≤ labelAt q now j := labelAt_mono hij
  rw [asked_iff (by linarith), ShiftSpares]
  by_cases hnew : bucketNo q now f ≤ 0
  · rw [counted_new_iff hgroups hij hj hnew, if_pos (newest_iff.mp hnew)]
  · rw [counted_old_iff hgroups hj hf (not_le.mp hnew), if_neg (newest_iff.not.mp hnew)]
    exact Buckets.shifted_iff hle bucketS_pos hextra

theorem extra_pos (hwindow : 0 < windowS) : 0 < windowS / q.n := by
  have hn : 10 ≤ q.n := n_pos
  have hcast : (10 : ℚ) ≤ q.n := by exact_mod_cast hn
  exact div_pos hwindow (by linarith)

theorem brushExact_iff {buckets : ℤ} {flows : List FlowRow} (hwindow : 0 < windowS)
    (hgroups : groups.Perm (timelineGroups (timelineQuery windowS buckets) now flows))
    (hij : i ≤ j) (hj : j < (timelineQuery windowS buckets).n)
    (ha : Inside (timelineQuery windowS buckets).n i a)
    (hb : Inside (timelineQuery windowS buckets).n j b) (hdrag : 1 / 100 < b - a) :
    BrushExact (timelineQuery windowS buckets) windowS now flows groups i j a b ↔
      ∀ f ∈ flows, ShiftSpares (timelineQuery windowS buckets) windowS now groups i j f := by
  have hextra : 0 < windowS / (timelineQuery windowS buckets).n := extra_pos hwindow
  constructor
  · rintro ⟨w, hw, hexact⟩ f hf
    obtain rfl := Option.some.inj ((up_series (hij.trans_lt hj) hj ha hb hdrag).symm.trans hw)
    exact (asked_iff_counted_iff hextra hgroups hij hj hf).mp (hexact f hf)
  · intro hspares
    refine ⟨_, up_series (hij.trans_lt hj) hj ha hb hdrag, fun f hf ↦ ?_⟩
    exact (asked_iff_counted_iff hextra hgroups hij hj hf).mpr (hspares f hf)

end Drag

/-! ## Ten bars of a minute -/

theorem minutes_n : (timelineQuery 600 10).n = 10 := rfl

theorem minutes_bucketS : (timelineQuery 600 10).bucketS = 60 := by
  have hsince : (timelineQuery 600 10).since = 600 := by
    norm_num [timelineQuery, TimelineQuery.since, clamp]
  rw [TimelineQuery.bucketS, hsince, minutes_n]
  norm_num

theorem exists_lan_row :
    ∃ row, toRow plainOutside plainGeo lan = some row ∧ epoch row.recvTime = 5 := by
  obtain ⟨row, hrow⟩ : ∃ row, toRow plainOutside plainGeo lan = some row := ⟨_, rfl⟩
  have hrecv := recvTime_of_toRow plainOutside hrow
  have hfive : recvTime plainOutside lan = some ⟨5, 0⟩ := by
    simp [recvTime, lan, discover, plainOutside]
  rw [hfive] at hrecv
  refine ⟨row, hrow, ?_⟩
  rw [epoch, ← Option.some.inj hrecv]
  norm_num

/-- A flow in the fifth bar, with the bars on both sides of it brushed. -/
theorem brushExact_around : ∃ row, toRow plainOutside plainGeo lan = some row ∧
    BrushExact (timelineQuery 600 10) 600 335 [row]
      (timelineGroups (timelineQuery 600 10) 335 [row]) 3 5 (7 / 20) (11 / 20) := by
  obtain ⟨row, hrow, hepoch⟩ := exists_lan_row
  refine ⟨row, hrow, (brushExact_iff (by norm_num) (List.Perm.refl _) ?_ ?_ ?_ ?_ ?_).mpr ?_⟩
  · omega
  · rw [minutes_n]
    omega
  · rw [minutes_n, Inside]
    norm_num
  · rw [minutes_n, Inside]
    norm_num
  · norm_num
  · intro f hf
    obtain rfl := List.mem_singleton.mp hf
    rw [ShiftSpares, hepoch, minutes_bucketS, labelAt, labelAt, minutes_bucketS, minutes_n]
    norm_num

/-- With the fifth bar alone brushed, the sixth is replayed. -/
theorem not_brushExact_alone : ∃ row, toRow plainOutside plainGeo lan = some row ∧
    ¬ BrushExact (timelineQuery 600 10) 600 335 [row]
      (timelineGroups (timelineQuery 600 10) 335 [row]) 4 4 (41 / 100) (48 / 100) := by
  obtain ⟨row, hrow, hepoch⟩ := exists_lan_row
  refine ⟨row, hrow, ?_⟩
  rintro ⟨w, hw, hexact⟩
  have hfour : 4 < (timelineQuery 600 10).n := by
    rw [minutes_n]
    omega
  have hinside : ∀ x : ℚ, 2 / 5 ≤ x → x < 1 / 2 → Inside (timelineQuery 600 10).n 4 x := by
    intro x hlow hhigh
    rw [minutes_n, Inside]
    push_cast
    exact ⟨by linarith, by linarith⟩
  rw [up_series hfour hfour (hinside _ (by norm_num) (by norm_num))
    (hinside _ (by norm_num) (by norm_num)) (by norm_num)] at hw
  obtain rfl := Option.some.inj hw
  have hspares := (asked_iff_counted_iff (extra_pos (by norm_num)) (List.Perm.refl _) le_rfl hfour
    (List.mem_singleton_self row)).mp (hexact row (List.mem_singleton_self row))
  rw [ShiftSpares, hepoch, minutes_bucketS, labelAt, minutes_bucketS, minutes_n] at hspares
  norm_num at hspares

end TrafficMap.Web
