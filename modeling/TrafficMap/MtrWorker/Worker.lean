import TrafficMap.Api.History
import TrafficMap.Lib.Machine
import TrafficMap.MtrWorker.Trace

/-!
# The tracing worker

`run_batch` and the main loop of `crates/mtr-worker`: a query picks the
destinations that need a trace most, they are traced a chunk at a time, and the
routes of a chunk are stored when all its traces are through.  The other
services go on writing flows and corrections between any two steps.
-/

namespace TrafficMap.MtrWorker

open Ingestor Geo GeoDoctor Sql

abbrev CONCURRENCY : ℕ := 10
abbrev BATCH : ℕ := 48

/-- Six hours. -/
abbrev RETRACE_S : ℚ := 21600

/-! ## The candidates -/

structure Candidate where
  ip : IpNetwork
  /-- flagged by the geo-doctor and not corrected -/
  urgent : Bool
  bytes : Option ℤ

/-- `r.bytes DESC NULLS LAST`: whether `b` may come in front of `b'`. -/
def bytesFirst : Option ℤ → Option ℤ → Bool
  | _, none => true
  | none, some _ => false
  | some b, some b' => decide (b' ≤ b)

/-- `(…) DESC, r.bytes DESC NULLS LAST`: whether `c` may come in front of `c'`. -/
def Candidate.first (c c' : Candidate) : Bool :=
  if c.urgent = c'.urgent then bytesFirst c.bytes c'.bytes else c.urgent

structure CandidateOrder where
  run : List Candidate → List Candidate
  perm : ∀ cs, (run cs).Perm cs
  sorted : ∀ cs, (run cs).Pairwise fun c c' ↦ c.first c' = true

/-- `sum(octets)`, which is NULL without a value. -/
def sumBytes (fs : List FlowRow) : Option ℤ :=
  let octets := fs.filterMap FlowRow.octets
  if octets.isEmpty then none else some (octets.map Int64.toInt).sum

def tracedLately (now : ℚ) (routes : Table IpNetwork Route) (dst : IpNetwork) : Bool :=
  (routes.lookup dst).any fun r ↦ decide (now - RETRACE_S < Api.epoch r.tracedAt)

/-- The flows of the CTE `recent`. -/
def recentFlows (now : ℚ) (flows : List FlowRow) (routes : Table IpNetwork Route) : List FlowRow :=
  flows.filter fun f ↦ decide (now - 1800 < Api.epoch f.recvTime) && !Api.privPred f.dstAddr &&
    !tracedLately now routes f.dstAddr

def candidateOf (ipGeo : Table IpNetwork GeoRow) (dst : IpNetwork) (fs : List FlowRow) :
    Candidate where
  ip := dst
  urgent := (ipGeo.lookup dst).any fun g ↦ g.dirty && g.corrLat.isNone
  bytes := sumBytes fs

def candidates (now : ℚ) (flows : List FlowRow) (ipGeo : Table IpNetwork GeoRow)
    (routes : Table IpNetwork Route) : List Candidate :=
  (Table.groupBy FlowRow.dstAddr (recentFlows now flows routes)).entries.map fun e ↦
    candidateOf ipGeo e.1 e.2

/-- `ORDER BY … LIMIT`, with the address of each row. -/
def batch (order : CandidateOrder) (cs : List Candidate) : List IpAddr :=
  ((order.run cs).take BATCH).map fun c ↦ c.ip.ip

/-- `ips.chunks(CONCURRENCY)`. -/
def chunks {α : Type} (l : List α) : List (List α) := (l.toChunksAux (CONCURRENCY - 1) 0).2

/-! ## The loop -/

/-- A trace of the chunk, with its outcome when it is through. -/
structure Slot where
  ip : IpAddr
  outcome : Option (Option (List Hop))

inductive Stage
  /-- between two batches -/
  | asleep
  /-- the traces of a chunk, and the chunks after it -/
  | tracing (slots : List Slot) (rest : List (List IpAddr))
  /-- the results of a chunk that are not stored yet -/
  | storing (results : List (IpAddr × Option (List Hop))) (rest : List (List IpAddr))

/-- The tables, the clock and the worker.  No code reads `stored`: what was stored,
and when. -/
structure Worker where
  flows : List FlowRow
  ipGeo : Table IpNetwork GeoRow
  routes : Table IpNetwork Route
  clock : ℚ
  stage : Stage
  stored : List (IpAddr × ℚ)

inductive WorkerAct
  /-- other services write -/
  | others (flows : List FlowRow) (ipGeo : Table IpNetwork GeoRow)
  | query (now : ℚ)
  /-- a trace ends, with the report that `mtr` has printed in time -/
  | finish (i : ℕ) (report : Option Json)
  | join
  /-- the upsert of the next result, which can fail -/
  | store (now : DateTime) (ok : Bool)
  | nextChunk

namespace Worker

def start (chunk : List IpAddr) : List Slot := chunk.map fun ip ↦ ⟨ip, none⟩

def stageOf : List (List IpAddr) → Stage
  | [] => .asleep
  | chunk :: rest => .tracing (start chunk) rest

section Step

variable (order : CandidateOrder) (geo : GeoResolver) (w : Worker)

def stepQuery (now : ℚ) : Option Worker :=
  match w.stage with
  | .asleep =>
      if w.clock ≤ now then
        some { w with
          clock := now
          stage := stageOf (chunks (batch order (candidates now w.flows w.ipGeo w.routes))) }
      else none
  | _ => none

def stepFinish (i : ℕ) (report : Option Json) : Option Worker :=
  match w.stage with
  | .tracing slots rest =>
      match slots[i]? with
      | some ⟨ip, none⟩ =>
          some { w with
            stage := .tracing (slots.set i ⟨ip, some (report.bind (trace geo))⟩) rest }
      | _ => none
  | _ => none

/-- `join_all`: the results of a chunk, when there is one for each trace. -/
def joined (slots : List Slot) : Option (List (IpAddr × Option (List Hop))) :=
  slots.mapM fun slot ↦ slot.outcome.map fun hops ↦ (slot.ip, hops)

def stepJoin : Option Worker :=
  match w.stage with
  | .tracing slots rest =>
      (joined slots).map fun results ↦ { w with stage := .storing results rest }
  | _ => none

def stepStore (now : DateTime) (ok : Bool) : Option Worker :=
  match w.stage with
  | .storing ((ip, hops) :: results) rest =>
      match hops with
      | some hops =>
          if w.clock ≤ Api.epoch now then
            some (if ok then
              { w with
                clock := Api.epoch now
                routes := store now ip hops w.routes
                stage := .storing results rest
                stored := w.stored ++ [(ip, Api.epoch now)] }
            else { w with clock := Api.epoch now, stage := .storing results rest })
          else none
      | none => some { w with stage := .storing results rest }
  | _ => none

def stepNextChunk : Option Worker :=
  match w.stage with
  | .storing [] rest => some { w with stage := stageOf rest }
  | _ => none

def step : WorkerAct → Option Worker
  | .others flows ipGeo => some { w with flows := flows, ipGeo := ipGeo }
  | .query now => w.stepQuery order now
  | .finish i report => w.stepFinish geo i report
  | .join => w.stepJoin
  | .store now ok => w.stepStore now ok
  | .nextChunk => w.stepNextChunk

end Step

end Worker

/-! ## A batch -/

theorem toChunksAux_spec {α : Type} (n : ℕ) (l : List α) (i : ℕ) :
    (l.toChunksAux n i).1 ++ (l.toChunksAux n i).2.flatten = l ∧ (l.toChunksAux n i).1.length ≤ i ∧
      ∀ chunk ∈ (l.toChunksAux n i).2, chunk.length ≤ n + 1 := by
  induction l generalizing i with
  | nil => simp [List.toChunksAux]
  | cons a l ih =>
      cases i with
      | zero =>
          obtain ⟨hall, hfirst, hrest⟩ := ih n
          refine ⟨by simpa [List.toChunksAux] using hall, Nat.le_refl 0, ?_⟩
          simpa [List.toChunksAux] using ⟨hfirst, hrest⟩
      | succ i =>
          obtain ⟨hall, hfirst, hrest⟩ := ih i
          refine ⟨by simpa [List.toChunksAux] using hall, ?_, hrest⟩
          simpa [List.toChunksAux] using hfirst

theorem flatten_chunks {α : Type} (l : List α) : (chunks l).flatten = l := by
  obtain ⟨hall, hfirst, -⟩ := toChunksAux_spec (CONCURRENCY - 1) l 0
  rw [List.length_eq_zero_iff.mp (Nat.le_zero.mp hfirst), List.nil_append] at hall
  exact hall

theorem length_of_mem_chunks {α : Type} {l chunk : List α} (h : chunk ∈ chunks l) :
    chunk.length ≤ CONCURRENCY :=
  (toChunksAux_spec (CONCURRENCY - 1) l 0).2.2 chunk h

/-- The network of a single address. -/
def Whole (net : IpNetwork) : Prop := net = toNet net.ip

section Batch

variable {now : ℚ} {flows : List FlowRow} {ipGeo : Table IpNetwork GeoRow}
  {routes : Table IpNetwork Route} (order : CandidateOrder)

/-- A candidate is the destination of a recent flow, public and not traced of late. -/
theorem mem_candidates {c : Candidate} (h : c ∈ candidates now flows ipGeo routes) :
    (∃ f ∈ flows, f.dstAddr = c.ip) ∧ Api.privPred c.ip = false ∧
      tracedLately now routes c.ip = false := by
  obtain ⟨⟨dst, fs⟩, he, rfl⟩ := List.mem_map.mp h
  obtain ⟨hdst, -⟩ := Table.mem_groupBy.mp he
  obtain ⟨f, hf, rfl⟩ := List.mem_map.mp hdst
  obtain ⟨hmem, hcond⟩ := List.mem_filter.mp hf
  simp only [Bool.and_eq_true, Bool.not_eq_true'] at hcond
  exact ⟨⟨f, hmem, rfl⟩, hcond.1.2, hcond.2⟩

theorem nodup_candidates : ((candidates now flows ipGeo routes).map Candidate.ip).Nodup := by
  rw [candidates]
  exact Table.nodup_map_entries fun _ _ ↦ rfl

theorem mem_run {cs : List Candidate} {c : Candidate} : c ∈ order.run cs ↔ c ∈ cs :=
  (order.perm cs).mem_iff

/-- Whoever is left out comes after everyone in the batch. -/
theorem first_of_not_mem_take {cs : List Candidate} {c c' : Candidate}
    (hc : c ∈ (order.run cs).take BATCH) (hc' : c' ∈ cs) (hout : c' ∉ (order.run cs).take BATCH) :
    c.first c' = true :=
  Sql.rel_of_not_mem_take (order.perm cs) (order.sorted cs) hc hc' hout

theorem length_batch (cs : List Candidate) : (batch order cs).length ≤ BATCH := by
  rw [batch, List.length_map]
  exact List.length_take_le BATCH _

theorem mem_batch {cs : List Candidate} {ip : IpAddr} (h : ip ∈ batch order cs) :
    ∃ c ∈ cs, c.ip.ip = ip := by
  obtain ⟨c, hc, rfl⟩ := List.mem_map.mp h
  exact ⟨c, (mem_run order).mp (List.mem_of_mem_take hc), rfl⟩

theorem nodup_batch {cs : List Candidate} (hnodup : (cs.map Candidate.ip).Nodup)
    (hwhole : ∀ c ∈ cs, Whole c.ip) : (batch order cs).Nodup := by
  have hips : ((order.run cs).map Candidate.ip).Nodup :=
    ((order.perm cs).map Candidate.ip).nodup_iff.mpr hnodup
  have hinj : ∀ net ∈ (order.run cs).map Candidate.ip, ∀ net' ∈ (order.run cs).map Candidate.ip,
      net.ip = net'.ip → net = net' := by
    intro net hnet net' hnet' heq
    obtain ⟨c, hc, rfl⟩ := List.mem_map.mp hnet
    obtain ⟨c', hc', rfl⟩ := List.mem_map.mp hnet'
    rw [hwhole c ((mem_run order).mp hc), hwhole c' ((mem_run order).mp hc'), heq]
  have hall : (((order.run cs).map Candidate.ip).map IpNetwork.ip).Nodup :=
    hips.map_on hinj
  rw [batch]
  refine hall.sublist ?_
  rw [List.map_map]
  exact (List.take_sublist BATCH _).map _

end Batch

end TrafficMap.MtrWorker
