import TrafficMap.Api.Window

/-!
# The cap on remote addresses

`DST_CAP` bounds the destination axis of a bucket.  The host axis takes a remote address
for the label of a flow without an application, and no cap applies there.
-/

namespace TrafficMap.Api

open Tally RingWindow

/-! ## The destination axis -/

section Dst

variable {b : Bucket} {vs : List Json}

theorem capped_record (h : CountsCapped DST_CAP Prod.fst b.dst (contributions Flow.dstKey vs))
    (v : Json) : CountsCapped DST_CAP Prod.fst (b.record v).dst
      (contributions Flow.dstKey (vs ++ [v])) := by
  rw [contributions_append, contributions_singleton, Flow.contribution]
  by_cases hbytes : (flowOf v).bytes = 0
  · rw [if_pos hbytes, List.append_nil, Bucket.record_of_empty v b hbytes]
    exact h
  · have hrecord := Bucket.record_eq v b
    rw [if_neg hbytes] at hrecord
    simp only [Bucket.recordService_eq, Bucket.recordLan_eq, Bucket.recordRemote_eq] at hrecord
    rw [hrecord, if_neg hbytes, Flow.dstKey]
    cases (flowOf v).peer with
    | none => simpa using h
    | some p => exact h.upsert p.1 rfl fun e ↦ DataInfo.add_eq e.1 _ _ _

theorem capped_bucketOf (vs : List Json) :
    CountsCapped DST_CAP Prod.fst (bucketOf vs).dst (contributions Flow.dstKey vs) := by
  induction vs using List.reverseRecOn with
  | nil => exact countsCapped_empty DST_CAP Prod.fst
  | append_singleton vs v ih =>
      rw [bucketOf_append]
      exact capped_record ih v

end Dst

/-! ## The host axis -/

/-- The address of the remote peer where it is the label. -/
def Flow.fallback (f : Flow) : Option String := if f.app.isSome then none else f.dstKey

/-- The remote addresses that stand for flows without an application. -/
def fallbackIps (vs : List Json) : List String :=
  ((contributions Flow.fallback vs).map Prod.fst).dedup

/-- The labels of the host axis that are such addresses. -/
def hostPeers (b : Bucket) (vs : List Json) : List String :=
  (b.host.keys.map Prod.fst).dedup.filter fun label ↦ label ∈ fallbackIps vs

theorem mem_contributions {K : Type} {key : Flow → Option K} {vs : List Json} {k : K} :
    k ∈ (contributions key vs).map Prod.fst ↔
      ∃ v ∈ vs, (flowOf v).bytes ≠ 0 ∧ key (flowOf v) = some k := by
  rw [contributions, List.mem_map]
  constructor
  · rintro ⟨⟨k', d⟩, hmem, rfl⟩
    obtain ⟨v, hv, hcontribution⟩ := List.mem_flatMap.mp hmem
    rw [Flow.contribution] at hcontribution
    split at hcontribution
    · cases hcontribution
    · rename_i hbytes
      obtain ⟨k'', hk'', heq⟩ := List.mem_map.mp hcontribution
      obtain ⟨rfl, -⟩ := Prod.mk.inj heq
      exact ⟨v, hv, hbytes, Option.mem_toList.mp hk''⟩
  · rintro ⟨v, hv, hbytes, hkey⟩
    refine ⟨(k, (flowOf v).amount), List.mem_flatMap.mpr ⟨v, hv, ?_⟩, rfl⟩
    rw [Flow.contribution, if_neg hbytes, hkey]
    exact List.mem_singleton_self _

theorem hostPeers_bucketOf (vs : List Json) :
    (hostPeers (bucketOf vs) vs).Perm (fallbackIps vs) := by
  have hcounts := (counted_bucketOf vs).host
  apply (List.perm_ext_iff_of_nodup ((List.nodup_dedup _).filter _) (List.nodup_dedup _)).mpr
  intro ip
  rw [← fallbackIps, List.mem_filter, decide_eq_true_eq, List.mem_dedup, and_iff_right_iff_imp]
  intro hip
  obtain ⟨v, hv, hbytes, hkey⟩ := mem_contributions.mp (List.mem_dedup.mp hip)
  obtain ⟨happ, hdst⟩ := Option.ite_none_left_eq_some.mp hkey
  obtain ⟨⟨addr, remote⟩, hpeer, rfl⟩ := Option.map_eq_some_iff.mp hdst
  have hhost : (flowOf v).hostKey = some ((flowOf v).hostOf addr remote) := by
    rw [Flow.hostKey, hpeer]
    rfl
  have hlabel : ((flowOf v).hostOf addr remote).1 = addr := by
    rw [Flow.hostOf, Option.not_isSome_iff_eq_none.mp happ]
    rfl
  refine List.mem_map.mpr ⟨(flowOf v).hostOf addr remote, ?_, hlabel⟩
  rw [← AList.mem_keys, hcounts.mem_iff]
  exact mem_contributions.mpr ⟨v, hv, hbytes, hhost⟩

/-! ## Every bucket of every run -/

/-- The two axes of the remote peer hold no more addresses than the cap, and those of
the destination axis have their whole totals. -/
structure PeersBounded (b : Bucket) (vs : List Json) : Prop where
  dst : b.dst.keys.length ≤ DST_CAP
  host : (hostPeers b vs).length ≤ DST_CAP
  exact : ∀ ip ∈ b.dst, (b.dst.lookup ip).map Prod.fst =
    Tally.total (contributions Flow.dstKey vs) ip

theorem peersBounded_bucketOf_iff (vs : List Json) :
    PeersBounded (bucketOf vs) vs ↔ (fallbackIps vs).length ≤ DST_CAP := by
  rw [← (hostPeers_bucketOf vs).length_eq]
  constructor
  · exact fun h ↦ h.host
  · exact fun h ↦ ⟨(capped_bucketOf vs).length_le, h, (capped_bucketOf vs).total_eq⟩

/-- An older period is the current one of an earlier state. -/
theorem exists_prefix_period (ops : List Op) (i : ℕ) : ∃ pre, pre <+: ops ∧
    (Reference.run ops).period i = (Reference.run pre).period 0 := by
  induction ops using List.reverseRecOn generalizing i with
  | nil => exact ⟨[], List.prefix_refl _, rfl⟩
  | append_singleton ops op ih =>
      have hrun : Reference.run (ops ++ [op]) = (Reference.run ops).apply op := by
        rw [Reference.run, List.foldl_append]
        rfl
      cases i with
      | zero => exact ⟨ops ++ [op], List.prefix_refl _, rfl⟩
      | succ i =>
          cases op with
          | record v =>
              obtain ⟨pre, hpre, hperiod⟩ := ih (i + 1)
              refine ⟨pre, hpre.trans (List.prefix_append _ _), ?_⟩
              rw [hrun, Reference.period_record_succ _ _ i.succ_pos, hperiod]
          | tick =>
              obtain ⟨pre, hpre, hperiod⟩ := ih i
              refine ⟨pre, hpre.trans (List.prefix_append _ _), ?_⟩
              rw [hrun, Reference.period_tick_succ, hperiod]

/-- In every bucket of every state of a run the two axes are bounded, if and only if no
period has more remote addresses without an application than the cap. -/
theorem peersBounded_iff (ops : List Op) :
    (∀ pre, pre <+: ops → ∀ i < BUCKETS,
      PeersBounded ((Aggregator.run pre).buckets.back i) ((Reference.run pre).period i)) ↔
    ∀ pre, pre <+: ops → (fallbackIps ((Reference.run pre).period 0)).length ≤ DST_CAP := by
  have hback : ∀ pre, ∀ i < BUCKETS, (Aggregator.run pre).buckets.back i =
      bucketOf ((Reference.run pre).period i) := fun pre ↦ (refines_run pre).2
  constructor
  · intro h pre hpre
    have hcur := h pre hpre 0 (by decide)
    rw [hback pre 0 (by decide)] at hcur
    exact (peersBounded_bucketOf_iff _).mp hcur
  · intro h pre hpre i hi
    obtain ⟨pre', hpre', hperiod⟩ := exists_prefix_period pre i
    rw [hback pre i hi, peersBounded_bucketOf_iff, hperiod]
    exact h pre' (hpre'.trans hpre)

/-! ## A scan -/

def scanAddr (i : ℕ) : String := "2001:db8::" ++ toString i

/-- A flow from home without an application, to one address after the other. -/
def scanFlow (i : ℕ) : Json :=
  .object [("dst_addr", .string (scanAddr i)), ("octets", .ofU64 40),
    ("src_geo", .object [("is_home", .bool true)])]

theorem scanAddr_injective : Function.Injective scanAddr := by
  intro i j h
  have hlist := congrArg String.toList h
  rw [scanAddr, scanAddr, String.toList_append, String.toList_append,
    List.append_cancel_left_eq, Nat.toString_eq_repr, Nat.toString_eq_repr, Nat.toList_repr,
    Nat.toList_repr] at hlist
  rw [← Nat.ofDigitChars_ten_toDigits (n := i), hlist, Nat.ofDigitChars_ten_toDigits]

theorem contribution_scanFlow (i : ℕ) : (flowOf (scanFlow i)).contribution Flow.fallback =
    [(scanAddr i, (flowOf (scanFlow i)).amount)] := rfl

theorem fallbackIps_scan (n : ℕ) :
    fallbackIps ((List.range n).map scanFlow) = (List.range n).map scanAddr := by
  have hips : (contributions Flow.fallback ((List.range n).map scanFlow)).map Prod.fst =
      (List.range n).map scanAddr := by
    rw [contributions, List.flatMap_map]
    simp only [contribution_scanFlow]
    rw [List.map_flatMap, List.map_eq_flatMap]
    rfl
  rw [fallbackIps, hips]
  exact List.dedup_eq_self.mpr (List.nodup_range.map scanAddr_injective)

theorem period_records (vs : List Json) :
    (Reference.run (vs.map Op.record)).period 0 = vs := by
  have hrun : Reference.run (vs.map Op.record) = ⟨0, vs.map fun v ↦ (0, v)⟩ := by
    induction vs using List.reverseRecOn with
    | nil => rfl
    | append_singleton vs v ih =>
        rw [List.map_append, Reference.run, List.foldl_append, ← Reference.run, ih,
          List.map_append]
        rfl
  rw [hrun, Reference.period, List.filter_eq_self.mpr (by simp), List.map_map]
  exact List.map_id vs

/-- A scan of one address more than the cap, within a second. -/
theorem scan_unbounded : ¬ ∀ pre, pre <+: ((List.range 4001).map scanFlow).map Op.record →
    ∀ i < BUCKETS, PeersBounded ((Aggregator.run pre).buckets.back i)
      ((Reference.run pre).period i) := by
  intro h
  have hlength := (peersBounded_iff _).mp h _ (List.prefix_refl _)
  rw [period_records, fallbackIps_scan, List.length_map, List.length_range] at hlength
  exact absurd hlength (by decide)

end TrafficMap.Api
