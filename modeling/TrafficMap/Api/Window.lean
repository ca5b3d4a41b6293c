import Mathlib.Data.List.Induction
import TrafficMap.Api.Reference

/-!
# The window against the reference

After any sequence of records and ticks the ring holds, bucket by bucket, the
sums of the last periods of the reference, and a snapshot's merged maps and top
lists are those of the flows in its window.
-/

namespace TrafficMap.Api

open Tally RingWindow

/-! ## Periods -/

namespace Reference

/-- No flow comes from a period that has not begun. -/
def Past (r : Reference) : Prop := ∀ f ∈ r.flows, f.1 ≤ r.ticks

theorem past_apply {r : Reference} (h : r.Past) (op : Op) : (r.apply op).Past := by
  cases op with
  | record v =>
      intro f hf
      rcases List.mem_append.mp hf with hold | hnew
      · exact h f hold
      · rw [List.mem_singleton.mp hnew]
        exact le_rfl
  | tick => exact fun f hf ↦ (h f hf).trans (Nat.le_succ _)

theorem period_record_zero (r : Reference) (v : Json) :
    (r.apply (.record v)).period 0 = r.period 0 ++ [v] := by
  simp [apply, period]

theorem period_record_succ (r : Reference) (v : Json) {i : ℕ} (hi : 0 < i) :
    (r.apply (.record v)).period i = r.period i := by
  have hnone : ([(r.ticks, v)].filter fun f ↦ f.1 + i = r.ticks) = [] := by
    simp [hi.ne']
  change ((r.flows ++ [(r.ticks, v)]).filter fun f ↦ f.1 + i = r.ticks).map Prod.snd = r.period i
  rw [List.filter_append, hnone, List.append_nil]
  rfl

theorem period_tick_zero {r : Reference} (h : r.Past) : (r.apply .tick).period 0 = [] := by
  have hnone : (r.flows.filter fun f ↦ f.1 + 0 = r.ticks + 1) = [] := by
    rw [List.filter_eq_nil_iff]
    intro f hf
    have := h f hf
    simp
    omega
  rw [period, apply, hnone, List.map_nil]

theorem period_tick_succ (r : Reference) (i : ℕ) :
    (r.apply .tick).period (i + 1) = r.period i := by
  have hshift (f : ℕ × Json) : f.1 + (i + 1) = r.ticks + 1 ↔ f.1 + i = r.ticks := by omega
  simp only [period, apply, hshift]

theorem inWindow_succ_perm (r : Reference) (w : ℕ) :
    (r.inWindow w ++ r.period w).Perm (r.inWindow (w + 1)) := by
  have hold : ((r.flows.filter fun f ↦ r.ticks < f.1 + (w + 1)).filter fun f ↦ r.ticks < f.1 + w) =
      r.flows.filter fun f ↦ r.ticks < f.1 + w := by
    rw [List.filter_filter]
    apply List.filter_congr
    intro f _
    rw [← Bool.decide_and]
    exact decide_eq_decide.mpr (by omega)
  have hnew : ((r.flows.filter fun f ↦ r.ticks < f.1 + (w + 1)).filter
      fun f ↦ !decide (r.ticks < f.1 + w)) = r.flows.filter fun f ↦ f.1 + w = r.ticks := by
    rw [List.filter_filter]
    apply List.filter_congr
    intro f _
    rw [← decide_not, ← Bool.decide_and]
    exact decide_eq_decide.mpr (by omega)
  have hsplit := List.filter_append_perm (fun f : ℕ × Json ↦ decide (r.ticks < f.1 + w))
    (r.flows.filter fun f ↦ r.ticks < f.1 + (w + 1))
  rw [hold, hnew] at hsplit
  simpa [inWindow, period] using hsplit.map Prod.snd

/-- The window is made of its periods. -/
theorem periods_perm_inWindow {r : Reference} (h : r.Past) (w : ℕ) :
    ((List.range w).flatMap r.period).Perm (r.inWindow w) := by
  induction w with
  | zero =>
      have hnone : (r.flows.filter fun f ↦ r.ticks < f.1 + 0) = [] := by
        rw [List.filter_eq_nil_iff]
        intro f hf
        have := h f hf
        simp
        omega
      rw [inWindow, hnone]
      exact List.Perm.nil
  | succ w ih =>
      rw [List.range_succ, List.flatMap_append, List.flatMap_singleton]
      exact (ih.append_right _).trans (r.inWindow_succ_perm w)

end Reference

/-! ## The ring holds the periods -/

def bucketOf (vs : List Json) : Bucket := vs.foldl (fun b v ↦ b.record v) Bucket.empty

theorem bucketOf_append (vs : List Json) (v : Json) :
    bucketOf (vs ++ [v]) = (bucketOf vs).record v := by
  simp [bucketOf]

theorem counted_bucketOf (vs : List Json) :
    Counted (peerCount vs ≤ DST_CAP) (bucketOf vs) vs := by
  induction vs using List.reverseRecOn with
  | nil => exact counted_empty _
  | append_singleton vs v ih =>
      rw [bucketOf_append]
      exact ih.record v (fun h ↦ (peerCount_le_append vs [v]).trans h) id

/-- The ring shows the buckets of the reference's periods. -/
def Refines (a : Aggregator) (r : Reference) : Prop :=
  r.Past ∧ a.buckets.Shows fun i ↦ bucketOf (r.period i)

theorem refines_new : Refines Aggregator.new Reference.new := by
  refine ⟨fun f hf ↦ absurd hf (by simp [Reference.new]), ?_⟩
  exact Ring.shows_replicate (by decide) fun _ ↦ rfl

theorem refines_apply {a : Aggregator} {r : Reference} (h : Refines a r) (op : Op) :
    Refines (a.apply op) (r.apply op) := by
  refine ⟨Reference.past_apply h.1 op, ?_⟩
  cases op with
  | record v =>
      refine Ring.shows_modify h.2 ?_ fun i hi ↦ ?_
      · rw [Reference.period_record_zero, bucketOf_append]
      · rw [Reference.period_record_succ r v hi]
  | tick =>
      refine Ring.shows_roll h.2 ?_ fun i ↦ ?_
      · rw [Reference.period_tick_zero h.1]
        rfl
      · rw [Reference.period_tick_succ]

theorem refines_run (ops : List Op) : Refines (Aggregator.run ops) (Reference.run ops) := by
  induction ops using List.reverseRecOn with
  | nil => exact refines_new
  | append_singleton ops op ih =>
      rw [Aggregator.run, Reference.run, List.foldl_append, List.foldl_append]
      exact refines_apply ih op

/-! ## Merging the window -/

section Merge

variable (it : IterOrder) {a : Aggregator} {r : Reference}

theorem counts_mergeAxis {K : Type} [DecidableEq K] {acc m : Map K DataInfo}
    {l l' : List (K × DataInfo)} (h : Counts id acc l) (h' : Counts id m l') (axis : Axis) (i : ℕ) :
    Counts id (mergeAxis acc (it.visit axis i m.entries)) (l ++ l') :=
  h.merge h' (it.perm axis i m.entries) (fun _ ↦ rfl) fun _ _ ↦ rfl

theorem counts_mergeDst {acc m : Map String (DataInfo × Option String)}
    {l l' : List (String × DataInfo)} (h : Counts Prod.fst acc l) (h' : Counts Prod.fst m l')
    (axis : Axis) (i : ℕ) :
    Counts Prod.fst (mergeDst acc (it.visit axis i m.entries)) (l ++ l') :=
  h.merge h' (it.perm axis i m.entries) (fun _ ↦ rfl) fun _ _ ↦ rfl

theorem counted_mergeBack {whole whole' : Prop} {acc : Bucket} {vs vs' : List Json} {i : ℕ}
    (h : Counted whole acc vs) (h' : Counted whole' (a.buckets.back i) vs') :
    Counted (whole ∧ whole') (a.mergeBack it acc i) (vs ++ vs') := by
  constructor <;> simp only [contributions_append, totalOf_append]
  · rw [← h.total, ← h'.total]
    rfl
  · exact counts_mergeAxis it h.country h'.country _ _
  · exact counts_mergeAxis it h.src h'.src _ _
  · exact counts_mergeAxis it h.service h'.service _ _
  · exact counts_mergeAxis it h.host h'.host _ _
  · exact fun hw ↦ counts_mergeDst it (h.dst hw.1) (h'.dst hw.2) _ _

theorem counted_merged (h : Refines a r) {w : ℕ} (hw : w ≤ BUCKETS) :
    Counted (∀ i < w, peerCount (r.period i) ≤ DST_CAP) (a.merged it w)
      ((List.range w).flatMap r.period) := by
  induction w with
  | zero => exact counted_empty _
  | succ w ih =>
      have hback : a.buckets.back w = bucketOf (r.period w) := h.2 w hw
      have hcount := counted_bucketOf (r.period w)
      rw [← hback] at hcount
      have hstep := counted_mergeBack it (ih (Nat.le_of_succ_le hw)) hcount
      rw [Aggregator.merged, List.range_succ, List.foldl_append, List.flatMap_append,
        List.flatMap_singleton]
      refine ⟨hstep.total, hstep.country, hstep.src, hstep.service, hstep.host, fun hall ↦ ?_⟩
      exact hstep.dst ⟨fun i hi ↦ hall i (Nat.lt_succ_of_lt hi), hall w (Nat.lt_succ_self w)⟩

end Merge

/-! ## The snapshot -/

theorem contributions_perm {K : Type} (key : Flow → Option K) {vs vs' : List Json}
    (h : vs.Perm vs') : (contributions key vs).Perm (contributions key vs') :=
  h.flatMap_right _

theorem totalOf_perm {vs vs' : List Json} (h : vs.Perm vs') : totalOf vs = totalOf vs' :=
  (h.flatMap_right _).sum_eq

theorem Counted.perm {whole : Prop} {b : Bucket} {vs vs' : List Json} (h : Counted whole b vs)
    (hperm : vs.Perm vs') : Counted whole b vs' where
  total := h.total.trans (totalOf_perm hperm)
  country := h.country.congr (total_perm (contributions_perm _ hperm))
  src := h.src.congr (total_perm (contributions_perm _ hperm))
  service := h.service.congr (total_perm (contributions_perm _ hperm))
  host := h.host.congr (total_perm (contributions_perm _ hperm))
  dst := fun hw ↦ (h.dst hw).congr (total_perm (contributions_perm _ hperm))

theorem counts_entries {K E : Type} [DecidableEq K] (π : E → DataInfo) (m : Map K E) :
    Counts π m (m.entries.map fun e ↦ (e.1, π e.2)) :=
  fun k ↦ (total_entries π m k).symm

/-- The rows of an axis are its keys of largest total. -/
theorem isTop_top {K E : Type} [DecidableEq K] (it : IterOrder) (axis : Axis) {π : E → DataInfo}
    (n : ℕ) {m : Map K E} {l : List (K × DataInfo)} (h : Counts π m l) :
    IsTop DataInfo.weight n l ((top it axis π n m).map fun row ↦ (row.1, π row.2)) := by
  rw [top, List.map_map]
  exact isTop_topBy h DataInfo.weight n (it.perm axis BUCKETS m.entries)

theorem windowBuckets_natCast {w : ℕ} (hw : 1 ≤ w) (hw' : w ≤ BUCKETS) :
    Aggregator.windowBuckets w = w := by
  rw [Aggregator.windowBuckets, roundHalfAway_natCast, Int.toNat_natCast]
  omega

/-- The merged maps `m` and the emitted rows `s` are the totals of the flows
`vs`; on the destination axis if `whole` says that nothing was left out. -/
structure Agrees (whole : Prop) (m : Bucket) (s : Stats) (vs : List Json) : Prop where
  total : s.total = totalOf vs
  country : ∀ c, m.country.lookup c = Tally.total (contributions Flow.countryKey vs) c
  src : ∀ ip, m.src.lookup ip = Tally.total (contributions Flow.lan vs) ip
  service : ∀ svc, m.service.lookup svc = Tally.total (contributions Flow.service vs) svc
  host : ∀ key, m.host.lookup key = Tally.total (contributions Flow.hostKey vs) key
  dst : whole → ∀ ip,
    (m.dst.lookup ip).map Prod.fst = Tally.total (contributions Flow.dstKey vs) ip
  topCountries : IsTop DataInfo.weight 6 (contributions Flow.countryKey vs) s.topCountries
  topSrc : IsTop DataInfo.weight 6 (contributions Flow.lan vs) s.topSrc
  topServices : IsTop DataInfo.weight 8 (contributions Flow.service vs) s.topServices
  topHosts : IsTop DataInfo.weight 6 (contributions Flow.hostKey vs) s.topHosts
  topKept : IsTop DataInfo.weight 8 (m.dst.entries.map fun e ↦ (e.1, e.2.1))
    (s.topDst.map fun row ↦ (row.1, row.2.1))
  topDst : whole → IsTop DataInfo.weight 8 (contributions Flow.dstKey vs)
    (s.topDst.map fun row ↦ (row.1, row.2.1))

theorem agrees_stats (it : IterOrder) (ops : List Op) {w : ℕ} (hw : 1 ≤ w) (hw' : w ≤ BUCKETS) :
    Agrees (∀ i < w, peerCount ((Reference.run ops).period i) ≤ DST_CAP)
      ((Aggregator.run ops).merged it w) ((Aggregator.run ops).stats it w)
      ((Reference.run ops).inWindow w) := by
  have hrefines := refines_run ops
  have hcount := (counted_merged it hrefines hw').perm
    (Reference.periods_perm_inWindow hrefines.1 w)
  have hlookup {K : Type} [DecidableEq K] {m : Map K DataInfo} {l : List (K × DataInfo)}
      (h : Counts id m l) (k : K) : m.lookup k = Tally.total l k := by
    rw [← h k, Option.map_id]
    rfl
  have htop {K : Type} [DecidableEq K] (axis : Axis) (n : ℕ) {m : Map K DataInfo}
      {l : List (K × DataInfo)} (h : Counts id m l) :
      IsTop DataInfo.weight n l (top it axis id n m) := by
    simpa using isTop_top it axis n h
  rw [Aggregator.stats, windowBuckets_natCast hw hw']
  exact
    { total := hcount.total
      country := hlookup hcount.country
      src := hlookup hcount.src
      service := hlookup hcount.service
      host := hlookup hcount.host
      dst := fun hwhole ↦ hcount.dst hwhole
      topCountries := htop .country 6 hcount.country
      topSrc := htop .src 6 hcount.src
      topServices := htop .service 8 hcount.service
      topHosts := htop .host 6 hcount.host
      topKept := isTop_top it .dst 8 (counts_entries Prod.fst _)
      topDst := fun hwhole ↦ isTop_top it .dst 8 (hcount.dst hwhole) }

/-! ## The members of the snapshot -/

/-- `key` has a list with an item for each row, which holds the row's labels and its
sums. -/
def Lists {ρ : Type} (j : Json) (key : String) (labels : ρ → List (String × Json))
    (amount : ρ → DataInfo) (rows : List ρ) : Prop :=
  ∃ items, j.get key = some (.array items) ∧
    List.Forall₂ (fun item row ↦
      (∀ p ∈ labels row, item.get p.1 = some p.2) ∧
        item.get "bytes" = some (.ofU64 ((amount row).inBytes + (amount row).outBytes)) ∧
        item.get "bytes_in" = some (.ofU64 (amount row).inBytes) ∧
        item.get "bytes_out" = some (.ofU64 (amount row).outBytes)) items rows

/-- Everything that is in the emitted object. -/
structure Emits (fl : ℚ → ℚ) (w : ℕ) (s : Stats) (j : Json) : Prop where
  window : j.get "window" = some (.number (.float w))
  rates : ∀ p ∈ [("bps", s.total.inBytes + s.total.outBytes), ("bps_in", s.total.inBytes),
      ("bps_out", s.total.outBytes)],
    j.get p.1 = some (.ofI64 (satI64 (roundHalfAway (fl (fl (fl p.2.toNat * 8) / w)))))
  topDst : Lists j "top_dst"
    (fun row ↦ [("ip", .string row.1), ("country", .ofOption .string row.2.2)])
    (fun row ↦ row.2.1) s.topDst
  topCountries : Lists j "top_countries" (fun row ↦ [("country", .string row.1)]) Prod.snd
    s.topCountries
  topSrc : Lists j "top_src" (fun row ↦ [("ip", .string row.1)]) Prod.snd s.topSrc
  topServices : Lists j "top_services" (fun row ↦ [("service", .string row.1)]) Prod.snd
    s.topServices
  topHosts : Lists j "top_hosts"
    (fun row ↦ [("label", .string row.1.1), ("asn", .string row.1.2.1),
      ("country", .string row.1.2.2)]) Prod.snd s.topHosts

/-- A row shows its labels, whose keys are not those of its sums. -/
theorem get_rowJson {labels : List (String × Json)} {keys : List String}
    (hkeys : labels.map Prod.fst = keys)
    (hdistinct : (keys ++ ["bytes", "bytes_in", "bytes_out"]).Nodup) (d : DataInfo) :
    (∀ p ∈ labels, (rowJson labels d).get p.1 = some p.2) ∧
      (rowJson labels d).get "bytes" = some (.ofU64 (d.inBytes + d.outBytes)) ∧
      (rowJson labels d).get "bytes_in" = some (.ofU64 d.inBytes) ∧
      (rowJson labels d).get "bytes_out" = some (.ofU64 d.outBytes) := by
  have hnodup : ((labels ++ [("bytes", .ofU64 d.total), ("bytes_in", .ofU64 d.inBytes),
      ("bytes_out", .ofU64 d.outBytes)] : List (String × Json)).map Prod.fst).Nodup := by
    rw [List.map_append, hkeys]
    exact hdistinct
  refine ⟨fun p hp ↦ Json.get_object_of_mem hnodup (List.mem_append_left _ hp), ?_, ?_, ?_⟩
  · exact Json.get_object_of_mem hnodup (p := ("bytes", .ofU64 d.total)) (by simp)
  · exact Json.get_object_of_mem hnodup (p := ("bytes_in", .ofU64 d.inBytes)) (by simp)
  · exact Json.get_object_of_mem hnodup (p := ("bytes_out", .ofU64 d.outBytes)) (by simp)

theorem lists_map {ρ : Type} {j : Json} {key : String} {labels : ρ → List (String × Json)}
    {amount : ρ → DataInfo} {rows : List ρ} (keys : List String)
    (hget : j.get key = some (.array (rows.map fun row ↦ rowJson (labels row) (amount row))))
    (hkeys : ∀ row, (labels row).map Prod.fst = keys)
    (hdistinct : (keys ++ ["bytes", "bytes_in", "bytes_out"]).Nodup) :
    Lists j key labels amount rows := by
  refine ⟨_, hget, ?_⟩
  rw [List.forall₂_map_left_iff, List.forall₂_same]
  exact fun row _ ↦ get_rowJson (hkeys row) hdistinct (amount row)

theorem emits_toJson (fl : ℚ → ℚ) {w : ℕ} {s : Stats} (hw : s.window = w) :
    Emits fl w s (s.toJson fl) where
  window := by
    rw [← hw]
    rfl
  rates := by
    rw [← hw]
    simp only [List.forall_mem_cons]
    exact ⟨rfl, rfl, rfl, fun p hp ↦ nomatch hp⟩
  topDst := lists_map ["ip", "country"] rfl (fun _ ↦ rfl) (by decide)
  topCountries := lists_map ["country"] rfl (fun _ ↦ rfl) (by decide)
  topSrc := lists_map ["ip"] rfl (fun _ ↦ rfl) (by decide)
  topServices := lists_map ["service"] rfl (fun _ ↦ rfl) (by decide)
  topHosts := lists_map ["label", "asn", "country"] rfl (fun _ ↦ rfl) (by decide)

/-- A snapshot emits its sums and rows, and they agree with the reference, on every
window, after any run of records and ticks and in any order of iteration. -/
theorem snapshot_agrees_reference (it : IterOrder) (fl : ℚ → ℚ) (ops : List Op) (w : ℕ)
    (hw : 1 ≤ w) (hw' : w ≤ BUCKETS) :
    ∃ s : Stats, (Aggregator.run ops).snapshot it fl w = s.toJson fl ∧ s.window = w ∧
      Emits fl w s ((Aggregator.run ops).snapshot it fl w) ∧
      Agrees (∀ i < w, peerCount ((Reference.run ops).period i) ≤ DST_CAP)
        ((Aggregator.run ops).merged it w) s ((Reference.run ops).inWindow w) :=
  ⟨(Aggregator.run ops).stats it w, rfl, rfl, emits_toJson fl rfl, agrees_stats it ops hw hw'⟩

def outgoingFlow : Json :=
  .object [("src_addr", .string "192.0.2.10"), ("dst_addr", .string "8.8.8.8"),
    ("octets", .ofU64 1000), ("packets", .ofU64 1),
    ("src_geo", .object [("is_home", .bool true), ("country", .string "CN")]),
    ("dst_geo", .object [("is_home", .bool false), ("country", .string "US")]),
    ("service", .string "https"), ("dst_as", .ofU64 15169), ("src_as", .ofU64 4134)]

def flowTwice : List Op := [.record outgoingFlow, .tick, .record outgoingFlow]

/-- A flow before a tick and one behind it, in a window of two seconds. -/
theorem snapshot_agrees_reference_two :
    ∃ s : Stats, (Aggregator.run flowTwice).snapshot inOrder id 2 = s.toJson id ∧ s.window = 2 ∧
      Emits id 2 s ((Aggregator.run flowTwice).snapshot inOrder id 2) ∧
      Agrees (∀ i < 2, peerCount ((Reference.run flowTwice).period i) ≤ DST_CAP)
        ((Aggregator.run flowTwice).merged inOrder 2) s ((Reference.run flowTwice).inWindow 2) :=
  snapshot_agrees_reference inOrder id flowTwice 2 (by decide) (by decide)

end TrafficMap.Api
