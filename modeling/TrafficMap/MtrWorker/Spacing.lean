import Mathlib.Data.List.Sort
import TrafficMap.MtrWorker.Worker

/-!
# How often a destination is traced

Over every run of the worker, whatever the other services write meanwhile: the
routes of a destination are stored six hours apart, no more than a chunk of
traces is under way, and local destinations are left alone.
-/

namespace TrafficMap.MtrWorker

open Ingestor Geo GeoDoctor Sql

/-! ## What is pending -/

namespace Stage

/-- The destinations of the batch that are still to be stored. -/
def pending : Stage → List IpAddr
  | .asleep => []
  | .tracing slots rest => slots.map Slot.ip ++ rest.flatten
  | .storing results rest => results.map Prod.fst ++ rest.flatten

/-- The traces under way. -/
def underWay : Stage → List IpAddr
  | .tracing slots _ => (slots.filter fun slot ↦ slot.outcome.isNone).map Slot.ip
  | _ => []

/-- No chunk is larger than the concurrency. -/
def Chunked : Stage → Prop
  | .asleep => True
  | .tracing slots rest =>
      slots.length ≤ CONCURRENCY ∧ ∀ chunk ∈ rest, chunk.length ≤ CONCURRENCY
  | .storing _ rest => ∀ chunk ∈ rest, chunk.length ≤ CONCURRENCY

theorem pending_stageOf (cs : List (List IpAddr)) : (Worker.stageOf cs).pending = cs.flatten := by
  cases cs with
  | nil => rfl
  | cons chunk rest =>
      rw [Worker.stageOf, pending, Worker.start, List.map_map, List.flatten_cons]
      exact congrArg (· ++ rest.flatten) (List.map_id chunk)

theorem chunked_stageOf {cs : List (List IpAddr)} (h : ∀ chunk ∈ cs, chunk.length ≤ CONCURRENCY) :
    (Worker.stageOf cs).Chunked := by
  cases cs with
  | nil => trivial
  | cons chunk rest =>
      obtain ⟨hchunk, hrest⟩ := List.forall_mem_cons.mp h
      exact ⟨by rwa [Worker.start, List.length_map], hrest⟩

theorem length_underWay {s : Stage} (h : s.Chunked) : s.underWay.length ≤ CONCURRENCY := by
  cases s with
  | tracing slots rest =>
      rw [underWay, List.length_map]
      exact (List.length_filter_le _ _).trans h.1
  | asleep | storing => exact Nat.zero_le _

end Stage

/-- What holds of the pending destinations of a batch. -/
structure Due (stored : List (IpAddr × ℚ)) (clock : ℚ) (pending : List IpAddr) : Prop where
  nodup : pending.Nodup
  size : pending.length ≤ BATCH
  isPublic : ∀ ip ∈ pending, Api.privPred (toNet ip) = false
  waited : ∀ e ∈ stored, e.1 ∈ pending → e.2 + RETRACE_S ≤ clock

structure WorkerInv (w : Worker) : Prop where
  whole : ∀ f ∈ w.flows, Whole f.dstAddr
  due : Due w.stored w.clock w.stage.pending
  chunked : w.stage.Chunked
  kept : ∀ e ∈ w.stored, ∃ r, w.routes.lookup (toNet e.1) = some r ∧ e.2 ≤ Api.epoch r.tracedAt
  spaced : w.stored.Pairwise fun e e' ↦ e.1 = e'.1 → e.2 + RETRACE_S ≤ e'.2
  isPublic : ∀ e ∈ w.stored, Api.privPred (toNet e.1) = false

theorem Due.sublist {stored : List (IpAddr × ℚ)} {clock clock' : ℚ} {pending pending' : List IpAddr}
    (h : Due stored clock pending) (hsub : pending'.Sublist pending) (hclock : clock ≤ clock') :
    Due stored clock' pending' where
  nodup := h.nodup.sublist hsub
  size := hsub.length_le.trans h.size
  isPublic := fun ip hip ↦ h.isPublic ip (hsub.subset hip)
  waited := fun e he hmem ↦ (h.waited e he (hsub.subset hmem)).trans hclock

/-! ## One step -/

/-- The ingestor stores single addresses. -/
def WritesWhole (_ : Worker) : WorkerAct → Prop
  | .others flows _ => ∀ f ∈ flows, Whole f.dstAddr
  | _ => True

section Step

variable {order : CandidateOrder} {geo : GeoResolver} {w w' : Worker}

theorem joined_spec {slots : List Slot} {results : List (IpAddr × Option (List Hop))}
    (h : Worker.joined slots = some results) : results.map Prod.fst = slots.map Slot.ip := by
  induction slots generalizing results with
  | nil =>
      obtain rfl := Option.some.inj h
      rfl
  | cons slot slots ih =>
      rw [Worker.joined, List.mapM_cons] at h
      obtain ⟨result, hresult, h⟩ := Option.bind_eq_some_iff.mp h
      obtain ⟨rest, hrest, h⟩ := Option.bind_eq_some_iff.mp h
      obtain ⟨hops, -, rfl⟩ := Option.map_eq_some_iff.mp hresult
      obtain rfl := Option.some.inj h
      rw [List.map_cons, List.map_cons, ih hrest]

/-- The batch of a query is due. -/
theorem due_batch (hw : WorkerInv w) {now : ℚ} :
    Due w.stored now (batch order (candidates now w.flows w.ipGeo w.routes)) where
  nodup := by
    apply nodup_batch order nodup_candidates
    intro c hc
    obtain ⟨⟨f, hf, hdst⟩, -⟩ := mem_candidates hc
    rw [← hdst]
    exact hw.whole f hf
  size := length_batch order _
  isPublic := by
    intro ip hip
    obtain ⟨c, hc, rfl⟩ := mem_batch order hip
    obtain ⟨⟨f, hf, hdst⟩, hpublic, -⟩ := mem_candidates hc
    have hwhole : Whole c.ip := hdst ▸ hw.whole f hf
    rwa [← hwhole]
  waited := by
    intro e he hip
    obtain ⟨c, hc, hcip⟩ := mem_batch order hip
    obtain ⟨⟨f, hf, hdst⟩, -, hlately⟩ := mem_candidates hc
    have hwhole : Whole c.ip := hdst ▸ hw.whole f hf
    obtain ⟨r, hr, hle⟩ := hw.kept e he
    rw [hwhole, hcip, tracedLately, hr] at hlately
    have hold : Api.epoch r.tracedAt ≤ now - RETRACE_S := by simpa using hlately
    linarith

theorem invariant_query (hw : WorkerInv w) {now : ℚ} (h : w.stepQuery order now = some w') :
    WorkerInv w' := by
  rw [Worker.stepQuery] at h
  split at h
  · obtain ⟨-, ⟨⟩⟩ := Option.ite_none_right_eq_some.mp h
    refine ⟨hw.whole, ?_, ?_, hw.kept, hw.spaced, hw.isPublic⟩
    · rw [Stage.pending_stageOf, flatten_chunks]
      exact due_batch hw
    · exact Stage.chunked_stageOf fun chunk ↦ length_of_mem_chunks
  · cases h

theorem invariant_finish (hw : WorkerInv w) {i : ℕ} {report : Option Json}
    (h : w.stepFinish geo i report = some w') : WorkerInv w' := by
  rw [Worker.stepFinish] at h
  split at h
  · rename_i slots rest hstage
    split at h
    · rename_i ip hslot
      obtain rfl := Option.some.inj h
      have hdue := hw.due
      have hchunked := hw.chunked
      rw [hstage] at hdue hchunked
      have hips : (slots.set i ⟨ip, some (report.bind (trace geo))⟩).map Slot.ip =
          slots.map Slot.ip := by
        obtain ⟨hi, hget⟩ := List.getElem?_eq_some_iff.mp hslot
        have hlen : i < (slots.map Slot.ip).length := by rwa [List.length_map]
        have hself := List.set_getElem_self hlen
        rw [List.getElem_map, hget] at hself
        rw [List.map_set, hself]
      refine ⟨hw.whole, ?_, ⟨by rw [List.length_set]; exact hchunked.1, hchunked.2⟩, hw.kept,
        hw.spaced, hw.isPublic⟩
      rw [Stage.pending, hips]
      exact hdue
    · cases h
  · cases h

theorem invariant_join (hw : WorkerInv w) (h : w.stepJoin = some w') : WorkerInv w' := by
  rw [Worker.stepJoin] at h
  split at h
  · rename_i slots rest hstage
    obtain ⟨results, hresults, rfl⟩ := Option.map_eq_some_iff.mp h
    have hdue := hw.due
    have hchunked := hw.chunked
    rw [hstage] at hdue hchunked
    refine ⟨hw.whole, ?_, hchunked.2, hw.kept, hw.spaced, hw.isPublic⟩
    rw [Stage.pending, joined_spec hresults]
    exact hdue
  · cases h

theorem toNet_injective {ip ip' : IpAddr} (h : toNet ip = toNet ip') : ip = ip' := by
  rw [← ip_toNet ip, h, ip_toNet]

/-- A route is stored for a destination that is due. -/
theorem invariant_stored (hw : WorkerInv w) {ip : IpAddr} {hops : List Hop}
    {results : List (IpAddr × Option (List Hop))} {rest : List (List IpAddr)}
    (hstage : w.stage = .storing ((ip, some hops) :: results) rest) {now : DateTime}
    (hclock : w.clock ≤ Api.epoch now) :
    WorkerInv { w with
      clock := Api.epoch now
      routes := store now ip hops w.routes
      stage := .storing results rest
      stored := w.stored ++ [(ip, Api.epoch now)] } := by
  have hdue := hw.due
  have hchunked := hw.chunked
  rw [hstage, Stage.pending, List.map_cons, List.cons_append] at hdue
  rw [hstage] at hchunked
  have hwait : ∀ e ∈ w.stored, e.1 = ip → e.2 + RETRACE_S ≤ Api.epoch now := fun e he heq ↦
    (hdue.waited e he (by rw [heq]; exact List.mem_cons_self)).trans hclock
  have hrest := hdue.sublist (List.sublist_cons_self _ _) hclock
  refine ⟨hw.whole, ⟨hrest.nodup, hrest.size, hrest.isPublic, ?_⟩, hchunked, ?_, ?_, ?_⟩
  · intro e he hmem
    rcases List.mem_append.mp he with hold | hnew
    · exact hrest.waited e hold hmem
    · obtain rfl := List.mem_singleton.mp hnew
      exact absurd hmem (List.nodup_cons.mp hdue.nodup).1
  · intro e he
    rw [store]
    rcases List.mem_append.mp he with hold | hnew
    · by_cases heq : e.1 = ip
      · refine ⟨⟨now, hops.length, hops⟩, by rw [heq, AList.lookup_insert], ?_⟩
        have hle := hwait e hold heq
        dsimp only
        linarith
      · obtain ⟨r, hr, hle⟩ := hw.kept e hold
        refine ⟨r, ?_, hle⟩
        rwa [AList.lookup_insert_ne fun hnet ↦ heq (toNet_injective hnet)]
    · obtain rfl := List.mem_singleton.mp hnew
      exact ⟨_, AList.lookup_insert _, le_rfl⟩
  · rw [List.pairwise_append]
    refine ⟨hw.spaced, List.pairwise_singleton _ _, fun e he e' he' heq ↦ ?_⟩
    obtain rfl := List.mem_singleton.mp he'
    exact hwait e he heq
  · intro e he
    rcases List.mem_append.mp he with hold | hnew
    · exact hw.isPublic e hold
    · obtain rfl := List.mem_singleton.mp hnew
      exact hdue.isPublic ip List.mem_cons_self

/-- A result goes without a route. -/
theorem invariant_dropped (hw : WorkerInv w) {result : IpAddr × Option (List Hop)}
    {results : List (IpAddr × Option (List Hop))} {rest : List (List IpAddr)}
    (hstage : w.stage = .storing (result :: results) rest) {clock : ℚ} (hclock : w.clock ≤ clock) :
    WorkerInv { w with clock := clock, stage := .storing results rest } := by
  have hdue := hw.due
  have hchunked := hw.chunked
  rw [hstage] at hdue hchunked
  exact ⟨hw.whole, hdue.sublist (List.sublist_cons_self _ _) hclock, hchunked, hw.kept, hw.spaced,
    hw.isPublic⟩

theorem invariant_store (hw : WorkerInv w) {now : DateTime} {ok : Bool}
    (h : w.stepStore now ok = some w') : WorkerInv w' := by
  rw [Worker.stepStore] at h
  split at h
  · rename_i ip hops results rest hstage
    cases hops with
    | none =>
        obtain rfl := Option.some.inj h
        exact invariant_dropped hw hstage le_rfl
    | some hops =>
        obtain ⟨hclock, h⟩ := Option.ite_none_right_eq_some.mp h
        cases ok with
        | true =>
            obtain rfl := Option.some.inj h
            exact invariant_stored hw hstage hclock
        | false =>
            obtain rfl := Option.some.inj h
            exact invariant_dropped hw hstage hclock
  · cases h

theorem invariant_step (hw : WorkerInv w) {a : WorkerAct} (ha : WritesWhole w a)
    (h : w.step order geo a = some w') : WorkerInv w' := by
  cases a with
  | others flows ipGeo =>
      obtain rfl := Option.some.inj h
      exact ⟨ha, hw.due, hw.chunked, hw.kept, hw.spaced, hw.isPublic⟩
  | query now => exact invariant_query hw h
  | finish i report => exact invariant_finish hw h
  | join => exact invariant_join hw h
  | store now ok => exact invariant_store hw h
  | nextChunk =>
      rw [Worker.step, Worker.stepNextChunk] at h
      split at h
      · rename_i rest hstage
        obtain rfl := Option.some.inj h
        have hdue := hw.due
        have hchunked := hw.chunked
        rw [hstage] at hdue hchunked
        refine ⟨hw.whole, ?_, Stage.chunked_stageOf hchunked, hw.kept, hw.spaced, hw.isPublic⟩
        rw [Stage.pending_stageOf]
        exact hdue
      · cases h

end Step

/-! ## The choice of a query -/

/-- Whoever is left out comes after everyone who is taken, and the batch is full. -/
def TakesFirst (taken : List IpAddr) (cs : List Candidate) : Prop :=
  ∀ c ∈ cs, c.ip.ip ∉ taken → taken.length = BATCH ∧
    ∀ c' ∈ cs, c'.ip.ip ∈ taken → c'.first c = true

theorem takesFirst_batch (order : CandidateOrder) {cs : List Candidate}
    (hnodup : (cs.map Candidate.ip).Nodup) (hwhole : ∀ c ∈ cs, Whole c.ip) :
    TakesFirst (batch order cs) cs := by
  intro c hc hout
  have hleft : c ∉ (order.run cs).take BATCH := fun hmem ↦ hout (List.mem_map.mpr ⟨c, hmem, rfl⟩)
  constructor
  · rw [batch, List.length_map]
    exact Sql.length_take_of_not_mem (order.perm cs) hc hleft
  · intro c' hc' hin
    obtain ⟨c'', hc'', heq⟩ := List.mem_map.mp hin
    have hmem := (mem_run order).mp (List.mem_of_mem_take hc'')
    have hip : c''.ip = c'.ip := by rw [hwhole c'' hmem, hwhole c' hc', heq]
    have hsame : c'' = c' := List.inj_on_of_nodup_map hnodup hmem hc' hip
    exact first_of_not_mem_take order (hsame ▸ hc'') hc hleft

theorem takesFirst_query {order : CandidateOrder} {w w' : Worker} (hw : WorkerInv w) {now : ℚ}
    (h : w.stepQuery order now = some w') :
    TakesFirst w'.stage.pending (candidates now w.flows w.ipGeo w.routes) := by
  rw [Worker.stepQuery] at h
  split at h
  · obtain ⟨-, ⟨⟩⟩ := Option.ite_none_right_eq_some.mp h
    rw [Stage.pending_stageOf, flatten_chunks]
    apply takesFirst_batch order nodup_candidates
    intro c hc
    obtain ⟨⟨f, hf, hdst⟩, -⟩ := mem_candidates hc
    exact hdst ▸ hw.whole f hf
  · cases h

/-! ## A run -/

/-- A worker that has just come up. -/
def Worker.init (flows : List FlowRow) (ipGeo : Table IpNetwork GeoRow)
    (routes : Table IpNetwork Route) (clock : ℚ) : Worker :=
  ⟨flows, ipGeo, routes, clock, .asleep, []⟩

/-- A worker stores the routes of a destination at least six hours apart, traces at
most ten destinations at once, none of them twice, and none of a local address; and a
query takes the destinations that come first. -/
theorem traces_spaced (order : CandidateOrder) (geo : GeoResolver) {flows : List FlowRow}
    {ipGeo : Table IpNetwork GeoRow} {routes : Table IpNetwork Route} {clock : ℚ}
    {acts : List WorkerAct} {w : Worker} (hflows : ∀ f ∈ flows, Whole f.dstAddr)
    (hwrites : Machine.Along (Worker.step order geo) WritesWhole
      (.init flows ipGeo routes clock) acts)
    (hrun : Machine.run (Worker.step order geo) (.init flows ipGeo routes clock) acts = some w) :
    w.stored.Pairwise (fun e e' ↦ e.1 = e'.1 → e.2 + RETRACE_S ≤ e'.2) ∧
      w.stage.underWay.length ≤ CONCURRENCY ∧ w.stage.pending.Nodup ∧
      w.stage.pending.length ≤ BATCH ∧
      (∀ ip ∈ w.stage.pending ++ w.stored.map Prod.fst, Api.privPred (toNet ip) = false) ∧
      ∀ now w', w.step order geo (.query now) = some w' →
        TakesFirst w'.stage.pending (candidates now w.flows w.ipGeo w.routes) := by
  have hinit : WorkerInv (.init flows ipGeo routes clock) :=
    ⟨hflows, ⟨List.nodup_nil, Nat.zero_le _, nofun, nofun⟩, trivial, nofun, .nil, nofun⟩
  have hw : WorkerInv w :=
    Machine.run_invariant_along (fun _ _ _ hw ha hstep ↦ invariant_step hw ha hstep) hinit hwrites
      hrun
  refine ⟨hw.spaced, Stage.length_underWay hw.chunked, hw.due.nodup, hw.due.size,
    fun ip hip ↦ ?_, fun now w' ↦ takesFirst_query hw⟩
  rcases List.mem_append.mp hip with hpending | hstored
  · exact hw.due.isPublic ip hpending
  · obtain ⟨e, he, rfl⟩ := List.mem_map.mp hstored
    exact hw.isPublic e he

/-- Rows that the ingestor has built have single addresses. -/
theorem whole_row {out : Outside} {geo : GeoResolver} {rec : FlowdParse.FlowRecord} {row : FlowRow}
    (h : toRow out geo rec = some row) : Whole row.dstAddr := by
  obtain ⟨src, dst, -, -, -, -, hdst, -⟩ := endpoints_of_toRow out h
  rw [Whole, hdst, ip_toNet]

theorem bytesFirst_total (b b' : Option ℤ) : bytesFirst b b' = true ∨ bytesFirst b' b = true := by
  cases b <;> cases b' <;> simp [bytesFirst, le_total]

theorem bytesFirst_trans {b b' b'' : Option ℤ} (h : bytesFirst b b' = true)
    (h' : bytesFirst b' b'' = true) : bytesFirst b b'' = true := by
  cases b <;> cases b' <;> cases b'' <;> simp_all [bytesFirst]
  exact h'.trans h

theorem first_total (c c' : Candidate) : c.first c' = true ∨ c'.first c = true := by
  rw [Candidate.first, Candidate.first]
  by_cases h : c.urgent = c'.urgent
  · rw [if_pos h, if_pos h.symm]
    exact bytesFirst_total _ _
  · rw [if_neg h, if_neg (Ne.symm h)]
    cases hc : c.urgent with
    | true => exact Or.inl rfl
    | false => exact Or.inr (by simpa [hc] using h)

theorem first_trans {c c' c'' : Candidate} (h : c.first c' = true) (h' : c'.first c'' = true) :
    c.first c'' = true := by
  rw [Candidate.first] at h h' ⊢
  by_cases heq : c.urgent = c'.urgent
  · rw [if_pos heq] at h
    rw [heq]
    split at h'
    · rename_i heq'
      rw [if_pos heq']
      exact bytesFirst_trans h h'
    · rename_i hne
      rw [if_neg hne]
      exact h'
  · rw [if_neg heq] at h
    have hc' : c'.urgent = false := by simpa [h] using heq
    split at h'
    · rename_i heq'
      rw [if_neg (by rw [← heq']; exact heq)]
      exact h
    · rw [hc'] at h'
      cases h'

/-- A stable sort. -/
def plainOrder : CandidateOrder where
  run := List.insertionSort fun c c' ↦ c.first c' = true
  perm := List.perm_insertionSort _
  sorted := fun cs ↦ by
    have : Std.Total fun c c' : Candidate ↦ c.first c' = true := ⟨first_total⟩
    have : IsTrans Candidate fun c c' ↦ c.first c' = true := ⟨fun _ _ _ ↦ first_trans⟩
    exact List.pairwise_insertionSort _ cs

def outboundTo (a : UInt32) : FlowdParse.FlowRecord :=
  { discover with dstAddr := some (.v4 ⟨a⟩) }

/-- What the ingestor has stored of a flow to each address, received at `secs`. -/
def outboundRows (addrs : List (UInt32)) (secs : ℤ) : List FlowRow :=
  (addrs.filterMap fun a ↦ toRow plainOutside plainGeo (outboundTo a)).map fun f ↦
    { f with recvTime := ⟨secs, 0⟩ }

theorem whole_outboundRows (addrs : List (UInt32)) (secs : ℤ) :
    ∀ f ∈ outboundRows addrs secs, Whole f.dstAddr := by
  intro f hf
  obtain ⟨row, hrow, rfl⟩ := List.mem_map.mp hf
  obtain ⟨a, -, hrow⟩ := List.mem_filterMap.mp hrow
  have hwhole : Whole row.dstAddr := whole_row hrow
  exact hwhole

/-- The destination answers at the first hop. -/
def answer : Json :=
  .object [("report", .object [("hubs", .array [.object [("host", .string "8.8.8.8"),
    ("count", .ofI64 1), ("Avg", .number (.float 5))]])])]

/-- A destination is traced, asked for again too early, and traced again beside another
one, whose trace times out, after the ingestor has written. -/
def twoTraces : List WorkerAct :=
  [.query 10, .finish 0 (some answer), .join, .store ⟨12, 0⟩ true, .nextChunk, .query 100,
    .others (outboundRows [0x08080808, 0x01010101] 21600) ∅, .query 21650,
    .finish 1 none, .finish 0 (some answer), .join, .store ⟨21700, 0⟩ true,
    .store ⟨21700, 0⟩ true, .nextChunk]

theorem traces_spaced_twice : ∃ w,
    Machine.run (Worker.step plainOrder plainGeo) (.init (outboundRows [0x08080808] 0) ∅ ∅ 0)
        twoTraces = some w ∧
      w.stored = [(.v4 ⟨0x08080808⟩, 12), (.v4 ⟨0x08080808⟩, 21700)] ∧
      w.stored.Pairwise (fun e e' ↦ e.1 = e'.1 → e.2 + RETRACE_S ≤ e'.2) ∧
      w.stage.underWay.length ≤ CONCURRENCY ∧ w.stage.pending.Nodup := by
  have hstored : (Machine.run (Worker.step plainOrder plainGeo)
      (.init (outboundRows [0x08080808] 0) ∅ ∅ 0) twoTraces).map Worker.stored =
        some [(.v4 ⟨0x08080808⟩, 12), (.v4 ⟨0x08080808⟩, 21700)] := by decide +kernel
  obtain ⟨w, hrun, hw⟩ := Option.map_eq_some_iff.mp hstored
  have hwrites : Machine.Along (Worker.step plainOrder plainGeo) WritesWhole
      (.init (outboundRows [0x08080808] 0) ∅ ∅ 0) twoTraces := by
    apply Machine.along_of_forall
    have hwhole := whole_outboundRows [0x08080808, 0x01010101] 21600
    simpa [twoTraces, WritesWhole] using fun _ : Worker ↦ hwhole
  obtain ⟨hspaced, hunderWay, hnodup, -⟩ :=
    traces_spaced plainOrder plainGeo (whole_outboundRows [0x08080808] 0) hwrites hrun
  exact ⟨w, hrun, hw, hspaced, hunderWay, hnodup⟩

end TrafficMap.MtrWorker
