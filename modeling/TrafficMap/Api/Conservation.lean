import TrafficMap.Api.Window

/-!
# What the axes add up to

The aggregator folds a flow into a total and into maps of its own keys.  In a
window the rows of a map, before the largest are picked, add up to the total less
the flows that have no key there: bytes are neither lost between the maps nor
counted in one of them twice.
-/

namespace TrafficMap.Api

open Tally

/-- The sum over the rows of an axis. -/
def axisSum {K E : Type} (π : E → DataInfo) (m : Map K E) : DataInfo :=
  (m.entries.map fun e ↦ π e.2).sum

/-- The flows that have no key on an axis. -/
def keyless {K : Type} (key : Flow → Option K) (vs : List Json) : List Json :=
  vs.filter fun v ↦ (key (flowOf v)).isNone

section Sums

variable {K : Type} (key : Flow → Option K)

/-- A flow counts with its key, or else among the flows without one. -/
theorem contribution_sum (v : Json) :
    (((flowOf v).contribution key).map Prod.snd).sum + totalOf (keyless key [v]) =
      totalOf [v] := by
  rw [Flow.contribution, keyless, totalOf, totalOf, List.flatMap_singleton, Flow.totalContribution]
  by_cases hbytes : (flowOf v).bytes = 0
  · cases hkey : (key (flowOf v)).isNone <;> simp [hkey, hbytes, Flow.totalContribution]
  · cases hkey : key (flowOf v) with
    | none => simp [hkey, hbytes, Flow.totalContribution]
    | some k => simp [hkey, hbytes]

theorem totalOf_eq_contributions (vs : List Json) :
    totalOf vs = ((contributions key vs).map Prod.snd).sum + totalOf (keyless key vs) := by
  induction vs with
  | nil => rfl
  | cons v vs ih =>
      have hsplit : keyless key (v :: vs) = keyless key [v] ++ keyless key vs :=
        List.filter_append [v] vs
      have hhead : contributions key (v :: vs) =
          (flowOf v).contribution key ++ contributions key vs := List.flatMap_cons
      calc totalOf (v :: vs) = totalOf [v] + totalOf vs := totalOf_append [v] vs
        _ = ((((flowOf v).contribution key).map Prod.snd).sum + totalOf (keyless key [v])) +
            (((contributions key vs).map Prod.snd).sum + totalOf (keyless key vs)) := by
          rw [contribution_sum, ih]
        _ = _ := by
          rw [hsplit, hhead, totalOf_append, List.map_append, List.sum_append, add_add_add_comm]

variable [DecidableEq K]

theorem totalOf_eq_axisSum {E : Type} {π : E → DataInfo} {m : Map K E} {vs : List Json}
    (h : Counts π m (contributions key vs)) :
    totalOf vs = axisSum π m + totalOf (keyless key vs) := by
  rw [axisSum, h.sum_entries, ← totalOf_eq_contributions]

end Sums

/-- The destination and host axes name the same peers. -/
theorem contributions_dstKey (vs : List Json) :
    (contributions Flow.dstKey vs).map Prod.snd = (contributions Flow.hostKey vs).map Prod.snd := by
  rw [contributions, contributions, List.map_flatMap, List.map_flatMap]
  apply List.flatMap_congr
  intro v _
  rw [Flow.contribution, Flow.contribution]
  split
  · rfl
  · rw [Flow.dstKey, Flow.hostKey]
    cases (flowOf v).peer with
    | none => rfl
    | some p => rfl

/-! ## Flows inside the home network -/

/-- Both ends have addresses. -/
def Addressed (v : Json) : Prop :=
  (flowOf v).src.addr.isSome ∧ (flowOf v).dst.addr.isSome

def internal (vs : List Json) : List Json :=
  vs.filter fun v ↦ (flowOf v).src.isHome && (flowOf v).dst.isHome

theorem peer_isNone {f : Flow} (hsrc : f.src.addr.isSome) (hdst : f.dst.addr.isSome) :
    f.peer.isNone = (f.src.isHome && f.dst.isHome) := by
  rw [Flow.peer]
  split
  · rename_i h
    rw [h]
    rfl
  · rename_i h
    rw [Bool.eq_false_of_not_eq_true h, Option.isNone_map]
    split
    · exact Option.isNone_eq_false_iff.mpr hsrc
    · exact Option.isNone_eq_false_iff.mpr hdst

theorem keyless_hostKey {vs : List Json} (h : ∀ v ∈ vs, Addressed v) :
    keyless Flow.hostKey vs = internal vs := by
  apply List.filter_congr
  intro v hv
  rw [Flow.hostKey, Option.isNone_map]
  exact peer_isNone (h v hv).1 (h v hv).2

theorem inBytes_add (d o : DataInfo) : (d + o).inBytes = d.inBytes + o.inBytes := rfl

theorem inPkts_add (d o : DataInfo) : (d + o).inPkts = d.inPkts + o.inPkts := rfl

theorem totalOf_internal_singleton (v : Json) :
    (totalOf (internal [v])).inBytes = 0 ∧ (totalOf (internal [v])).inPkts = 0 := by
  rw [internal]
  by_cases hhome : ((flowOf v).src.isHome && (flowOf v).dst.isHome) = true
  · have hincoming : (flowOf v).incoming = false := by
      rw [Flow.incoming, (Bool.and_eq_true_iff.mp hhome).1, Bool.not_true, Bool.and_false]
    have hone : totalOf [v] = ((flowOf v).totalContribution).sum := by
      rw [totalOf, List.flatMap_singleton]
    rw [List.filter_cons, if_pos hhome, List.filter_nil, hone, Flow.totalContribution]
    split
    · exact ⟨rfl, rfl⟩
    · rw [List.sum_singleton, Flow.amount, hincoming]
      exact ⟨rfl, rfl⟩
  · rw [List.filter_cons, if_neg hhome, List.filter_nil]
    exact ⟨rfl, rfl⟩

/-- Nothing comes in by a flow inside the home network. -/
theorem totalOf_internal (vs : List Json) :
    (totalOf (internal vs)).inBytes = 0 ∧ (totalOf (internal vs)).inPkts = 0 := by
  induction vs with
  | nil => exact ⟨rfl, rfl⟩
  | cons v vs ih =>
      have hsplit : internal (v :: vs) = internal [v] ++ internal vs := List.filter_append [v] vs
      obtain ⟨hbytes, hpkts⟩ := totalOf_internal_singleton v
      rw [hsplit, totalOf_append, inBytes_add, inPkts_add, hbytes, hpkts, ih.1, ih.2]
      exact ⟨rfl, rfl⟩

/-! ## A window -/

/-- An axis and the flows without a key on it make up the total. -/
structure Conserved (m : Bucket) (vs : List Json) : Prop where
  country : m.total = axisSum id m.country + totalOf (keyless Flow.countryKey vs)
  src : m.total = axisSum id m.src + totalOf (keyless Flow.lan vs)
  service : m.total = axisSum id m.service + totalOf (keyless Flow.service vs)
  host : m.total = axisSum id m.host + totalOf (keyless Flow.hostKey vs)

section Window

variable (it : IterOrder) (ops : List Op) {w : ℕ} (hw : w ≤ BUCKETS)
include hw

theorem counted_window :
    Counted (∀ i < w, peerCount ((Reference.run ops).period i) ≤ DST_CAP)
      ((Aggregator.run ops).merged it w) ((Reference.run ops).inWindow w) :=
  (counted_merged it (refines_run ops) hw).perm
    (Reference.periods_perm_inWindow (refines_run ops).1 w)

theorem conserved_window :
    Conserved ((Aggregator.run ops).merged it w) ((Reference.run ops).inWindow w) :=
  have hcount := counted_window it ops hw
  { country := hcount.total.trans (totalOf_eq_axisSum _ hcount.country)
    src := hcount.total.trans (totalOf_eq_axisSum _ hcount.src)
    service := hcount.total.trans (totalOf_eq_axisSum _ hcount.service)
    host := hcount.total.trans (totalOf_eq_axisSum _ hcount.host) }

/-- With addresses, what comes in is on the host axis. -/
theorem inBytes_window (haddr : ∀ v ∈ (Reference.run ops).inWindow w, Addressed v) :
    ((Aggregator.run ops).merged it w).total.inBytes =
        (axisSum id ((Aggregator.run ops).merged it w).host).inBytes ∧
      ((Aggregator.run ops).merged it w).total.inPkts =
        (axisSum id ((Aggregator.run ops).merged it w).host).inPkts := by
  obtain ⟨hbytes, hpkts⟩ := totalOf_internal ((Reference.run ops).inWindow w)
  rw [(conserved_window it ops hw).host, keyless_hostKey haddr, inBytes_add, inPkts_add, hbytes,
    hpkts]
  simp

/-- In every window, after any run and in any order of iteration, each axis adds
up to the total less what has no key there, and the destination axis to the host
axis as long as no bucket has reached its cap; and if all flows have addresses,
every byte that came in is on the host axis. -/
theorem axes_conserve :
    Conserved ((Aggregator.run ops).merged it w) ((Reference.run ops).inWindow w) ∧
      ((∀ i < w, peerCount ((Reference.run ops).period i) ≤ DST_CAP) →
        axisSum Prod.fst ((Aggregator.run ops).merged it w).dst =
          axisSum id ((Aggregator.run ops).merged it w).host) ∧
      ((∀ v ∈ (Reference.run ops).inWindow w, Addressed v) →
        ((Aggregator.run ops).merged it w).total.inBytes =
            (axisSum id ((Aggregator.run ops).merged it w).host).inBytes ∧
          ((Aggregator.run ops).merged it w).total.inPkts =
            (axisSum id ((Aggregator.run ops).merged it w).host).inPkts) := by
  have hcount := counted_window it ops hw
  refine ⟨conserved_window it ops hw, fun hcap ↦ ?_, inBytes_window it ops hw⟩
  rw [axisSum, axisSum, (hcount.dst hcap).sum_entries, hcount.host.sum_entries,
    contributions_dstKey]

end Window

def incomingFlow : Json :=
  .object [("src_addr", .string "8.8.8.8"), ("dst_addr", .string "192.0.2.10"),
    ("octets", .ofU64 400), ("packets", .ofU64 2),
    ("src_geo", .object [("is_home", .bool false), ("country", .string "US")]),
    ("dst_geo", .object [("is_home", .bool true), ("country", .string "CN")]),
    ("dst_as", .ofU64 4134), ("src_as", .ofU64 15169)]

/-- A flow out of the home network, a tick and the answer, which has no service. -/
def thereAndBack : List Op := [.record outgoingFlow, .tick, .record incomingFlow]

theorem axes_conserve_both_ways :
    let m := (Aggregator.run thereAndBack).merged inOrder 2
    let vs := (Reference.run thereAndBack).inWindow 2
    Conserved m vs ∧ axisSum Prod.fst m.dst = axisSum id m.host ∧
      m.total.inBytes = (axisSum id m.host).inBytes ∧
      m.total.inPkts = (axisSum id m.host).inPkts ∧
      totalOf vs = ⟨400, 1000, 2, 1⟩ ∧ totalOf (keyless Flow.service vs) = ⟨400, 0, 2, 0⟩ := by
  obtain ⟨hconserved, hdst, hin⟩ := axes_conserve inOrder thereAndBack (w := 2) (by decide)
  have hcap : ∀ i < 2, peerCount ((Reference.run thereAndBack).period i) ≤ DST_CAP := by decide
  have haddr : ∀ v ∈ (Reference.run thereAndBack).inWindow 2, Addressed v := by
    intro v hv
    have hv : v ∈ [outgoingFlow, incomingFlow] := hv
    simp only [List.mem_cons, List.not_mem_nil, or_false] at hv
    rcases hv with rfl | rfl
    · exact ⟨rfl, rfl⟩
    · exact ⟨rfl, rfl⟩
  exact ⟨hconserved, hdst hcap, (hin haddr).1, (hin haddr).2, by decide, by decide⟩

end TrafficMap.Api
