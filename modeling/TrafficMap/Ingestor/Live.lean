import Mathlib.Data.Multiset.Lattice
import Mathlib.Order.Lattice.Nat
import Mathlib.Order.Nat
import TrafficMap.Ingestor.Drain

/-!
# The telegraf source

A live stream of metrics: what arrives while no process runs is gone, and a
process that ends takes what it has not received along.  The watermark it
leaves is the latest second any flushed run had received, whoever stamped it,
and the next run skips whatever is stamped before it, new or not.
-/

namespace TrafficMap.Ingestor

variable {Item Rec Row Msg : Type}

/-- The same pipeline with each record numbered: no two records are one, even if
all their fields agree. -/
def Pipeline.numbered (P : Pipeline Rec Row Msg) : Pipeline (ℕ × Rec) (ℕ × Row) Msg where
  recvSec := fun r ↦ P.recvSec r.2
  toRow := fun r ↦ (P.toRow r.2).map fun row ↦ (r.1, row)
  json := fun row ↦ P.json row.2
  recvSec_of_toRow := by
    intro r row h
    obtain ⟨row', hrow, -⟩ := Option.map_eq_some_iff.mp h
    exact P.recvSec_of_toRow hrow

/-! ## The live system -/

/-- A run on the stream: the loop, what arrived and was not taken yet (in the
channel, in front of it or still unparsed) and whether the input has ended. -/
structure Listener (Rec Row : Type) where
  drain : Drain (ℕ × Row)
  queue : List Rec
  closed : Bool

/-- The stores, the process, if one is there, and the number of records that
were ever taken.  No code reads the seconds of `before`, `seen` and `flushed`:
those that the watermark of the run stands for, those the run has taken, and
those that the watermark in Redis stands for. -/
structure Live (Rec Row Msg : Type) where
  store : Store (ℕ × Row) Msg
  proc : Option (Listener Rec Row)
  taken : ℕ
  before : Multiset ℕ
  seen : Multiset ℕ
  flushed : Multiset ℕ

inductive LiveAct (Item : Type)
  | arrive (item : Item)
  /-- a new run; `getOk` tells whether the watermark GET answers -/
  | start (getOk : Bool)
  | close
  | recv
  | own (a : OwnAct)
  | crash

def Pipeline.seconds (P : Pipeline Rec Row Msg) (r : Rec) : Multiset ℕ :=
  (P.recvSec r).elim 0 fun rs ↦ {rs}

def Listener.start (watermark : Option ℕ) : Listener Rec Row := ⟨.start watermark, [], false⟩

namespace Live

def init : Live Rec Row Msg := ⟨⟨[], 0, none⟩, none, 0, 0, 0, 0⟩

section Step

variable (P : Pipeline Rec Row Msg) (s : Live Rec Row Msg)

def stepArrive (parse : Item → Option Rec) (item : Item) : Option (Live Rec Row Msg) := do
  let p ← s.proc
  if p.closed then none
  else some { s with proc := some { p with queue := p.queue ++ (parse item).toList } }

def stepStart (getOk : Bool) : Option (Live Rec Row Msg) :=
  if ∀ p, s.proc = some p → p.drain.phase.Ended then
    some { s with
      proc := some (.start (if getOk then s.store.watermark else none))
      before := if getOk then s.flushed else 0
      seen := 0 }
  else none

def stepClose : Option (Live Rec Row Msg) := do
  let p ← s.proc
  some { s with proc := some { p with closed := true } }

def stepRecv : Option (Live Rec Row Msg) := do
  let p ← s.proc
  if p.drain.phase = .select then
    match p.queue with
    | r :: rest =>
        some { s with
          proc := some { p with
            drain := p.drain.recv P.numbered (some (s.taken, r))
            queue := rest }
          taken := s.taken + 1
          seen := s.seen + P.seconds r }
    | [] =>
        if p.closed then
          some { s with proc := some { p with drain := p.drain.recv P.numbered none } }
        else none
  else none

def flushedAfter : OwnAct → Multiset ℕ
  | .set true => s.before + s.seen
  | _ => s.flushed

def stepOwn (a : OwnAct) : Option (Live Rec Row Msg) := do
  let p ← s.proc
  let (store, drain) ← p.drain.stepOwn P.numbered s.store a
  some { s with
    store := store
    proc := some { p with drain := drain }
    flushed := s.flushedAfter a }

def step (parse : Item → Option Rec) (P : Pipeline Rec Row Msg) (s : Live Rec Row Msg) :
    LiveAct Item → Option (Live Rec Row Msg)
  | .arrive item => s.stepArrive parse item
  | .start getOk => s.stepStart getOk
  | .close => s.stepClose
  | .recv => s.stepRecv P
  | .own a => s.stepOwn P a
  | .crash => some { s with proc := none }

end Step

def next (s : Live Rec Row Msg) : Option (Listener Rec Row × Rec) := do
  let p ← s.proc
  if p.drain.phase = .select then
    let r ← p.queue.head?
    some (p, r)
  else none

end Live

/-- An accepted record that the watermark test skips is in the table already. -/
def SkipIsIngested (P : Pipeline Rec Row Msg) (s : Live Rec Row Msg) : LiveAct Item → Prop
  | .recv => ∀ p r row, s.next = some (p, r) → P.toRow r = some row →
      P.Below p.drain.startWatermark r → (s.taken, row) ∈ s.store.flows
  | _ => True

/-- An accepted record is stamped no earlier than anything the watermark of the
run stands for. -/
def NotBehind (P : Pipeline Rec Row Msg) (s : Live Rec Row Msg) : LiveAct Item → Prop
  | .recv => ∀ p r row rs, s.next = some (p, r) → P.toRow r = some row → P.recvSec r = some rs →
      ∀ w ∈ s.before, w ≤ rs
  | _ => True

/-! ## What the watermark stands for -/

variable {P : Pipeline Rec Row Msg}

theorem Pipeline.sup_seconds (P : Pipeline Rec Row Msg) (r : Rec) (w : ℕ) :
    (P.recvSec r).elim w (max w) = w ⊔ (P.seconds r).sup := by
  rw [seconds]
  cases P.recvSec r with
  | none => exact (max_eq_left (Nat.zero_le w)).symm
  | some rs => rw [Option.elim_some, Option.elim_some, Multiset.sup_singleton]

/-- The watermarks are the latest seconds of what they stand for, and every row
has the number of a record taken before. -/
structure LoopInv (before seen : Multiset ℕ) (taken : ℕ) (d : Drain (ℕ × Row)) : Prop where
  startWatermark : d.startWatermark = before.sup
  maxRecv : d.maxRecv = (before + seen).sup
  batch : ∀ row ∈ d.batch, row.1 < taken

structure LiveInv (s : Live Rec Row Msg) : Prop where
  watermark : s.store.watermark.getD 0 = s.flushed.sup
  flows : ∀ row ∈ s.store.flows, row.1 < s.taken
  loop : ∀ p, s.proc = some p → LoopInv s.before s.seen s.taken p.drain

namespace LoopInv

variable {before seen : Multiset ℕ} {taken : ℕ} {d : Drain (ℕ × Row)}

theorem flush (h : LoopInv before seen taken d) (after : After) :
    LoopInv before seen taken (d.flush after) where
  startWatermark := by simpa using h.startWatermark
  maxRecv := by simpa using h.maxRecv
  batch := by simpa using h.batch

theorem receive (h : LoopInv before seen taken d) (hsel : d.phase = .select) (r : Rec) :
    LoopInv before (seen + P.seconds r) (taken + 1) (d.receive P.numbered (taken, r)) := by
  have hbatch : ∀ row ∈ d.batch, row.1 < taken + 1 := fun row hrow ↦ (h.batch row hrow).trans_le
    (Nat.le_succ taken)
  by_cases hbelow : P.numbered.Below d.startWatermark (taken, r)
  · rw [Drain.receive_of_below hbelow]
    refine ⟨h.startWatermark, ?_, hbatch⟩
    obtain ⟨rs, hrs, hlt⟩ := hbelow
    have hseconds : P.seconds r = {rs} := by
      rw [Pipeline.seconds, show P.recvSec r = some rs from hrs]
      rfl
    have hle : rs ≤ d.maxRecv := by
      rw [h.maxRecv, Multiset.sup_add, ← h.startWatermark]
      exact hlt.le.trans le_sup_left
    rw [← add_assoc, Multiset.sup_add, ← h.maxRecv, hseconds, Multiset.sup_singleton]
    exact (sup_eq_left.mpr hle).symm
  · have hkept := Drain.kept_receive hsel hbelow
    refine ⟨hkept.startWatermark.trans h.startWatermark, ?_, ?_⟩
    · rw [hkept.maxRecv, ← add_assoc, Multiset.sup_add, ← h.maxRecv]
      exact P.sup_seconds r d.maxRecv
    · rw [hkept.batch]
      intro row hrow
      rcases List.mem_append.mp hrow with hold | hnew
      · exact hbatch row hold
      · obtain ⟨row', -, rfl⟩ := Option.map_eq_some_iff.mp (Option.mem_toList.mp hnew)
        exact Nat.lt_succ_self taken

end LoopInv

namespace LiveInv

variable {s s' : Live Rec Row Msg}

theorem init : LiveInv (Live.init : Live Rec Row Msg) where
  watermark := rfl
  flows := by simp [Live.init]
  loop := by simp [Live.init]

theorem withProc (h : LiveInv s) {p' : Listener Rec Row}
    (hloop : LoopInv s.before s.seen s.taken p'.drain) : LiveInv { s with proc := some p' } := by
  refine ⟨h.watermark, h.flows, ?_⟩
  rintro q ⟨⟩
  exact hloop

theorem start (h : LiveInv s) (getOk : Bool) :
    LoopInv (if getOk then s.flushed else 0) 0 s.taken
      (Drain.start (if getOk then s.store.watermark else none) : Drain (ℕ × Row)) := by
  cases getOk with
  | false => exact ⟨rfl, rfl, by simp [Drain.start]⟩
  | true =>
      refine ⟨h.watermark, ?_, by simp [Drain.start]⟩
      rw [add_zero]
      exact h.watermark

theorem own (h : LiveInv s) {p : Listener Rec Row} (hp : s.proc = some p) {a : OwnAct}
    {store : Store (ℕ × Row) Msg} {drain : Drain (ℕ × Row)}
    (hstep : Drain.OwnStep P.numbered s.store p.drain a store drain) :
    LiveInv { s with
      store := store
      proc := some { p with drain := drain }
      flushed := s.flushedAfter a } := by
  have hloop := h.loop p hp
  cases hstep with
  | timer hsel | ctrlC hsel => exact h.withProc (hloop.flush _)
  | pipeline after hphase =>
      refine ⟨h.watermark, h.flows, ?_⟩
      rintro q ⟨⟩
      exact ⟨hloop.startWatermark, hloop.maxRecv, hloop.batch⟩
  | insert after hphase =>
      refine ⟨h.watermark, fun row hrow ↦ ?_, ?_⟩
      · exact (Multiset.mem_add.mp hrow).elim (h.flows row) (hloop.batch row)
      · rintro q ⟨⟩
        exact ⟨hloop.startWatermark, hloop.maxRecv, hloop.batch⟩
  | set ok after hphase =>
      cases ok with
      | false => exact h.withProc ⟨hloop.startWatermark, hloop.maxRecv, hloop.batch⟩
      | true =>
          refine ⟨hloop.maxRecv, h.flows, ?_⟩
          rintro q ⟨⟩
          exact ⟨hloop.startWatermark, hloop.maxRecv, hloop.batch⟩
  | clear after hphase =>
      exact h.withProc
        ⟨by simpa using hloop.startWatermark, by simpa using hloop.maxRecv, by simp⟩

theorem step (h : LiveInv s) {parse : Item → Option Rec} {a : LiveAct Item}
    (hstep : s.step parse P a = some s') : LiveInv s' := by
  cases a with
  | arrive item =>
      obtain ⟨p, hp, hstep⟩ := Option.bind_eq_some_iff.mp hstep
      obtain ⟨-, ⟨⟩⟩ := Option.ite_none_left_eq_some.mp hstep
      exact h.withProc (h.loop p hp)
  | start getOk =>
      obtain ⟨-, ⟨⟩⟩ := Option.ite_none_right_eq_some.mp hstep
      refine ⟨h.watermark, h.flows, ?_⟩
      rintro q ⟨⟩
      exact h.start getOk
  | close =>
      obtain ⟨p, hp, ⟨⟩⟩ := Option.bind_eq_some_iff.mp hstep
      exact h.withProc (h.loop p hp)
  | recv =>
      obtain ⟨p, hp, hstep⟩ := Option.bind_eq_some_iff.mp hstep
      obtain ⟨hsel, hstep⟩ := Option.ite_none_right_eq_some.mp hstep
      cases hqueue : p.queue with
      | nil =>
          rw [hqueue] at hstep
          obtain ⟨-, ⟨⟩⟩ := Option.ite_none_right_eq_some.mp hstep
          exact h.withProc ((h.loop p hp).flush .eof)
      | cons r rest =>
          rw [hqueue] at hstep
          obtain rfl := Option.some.inj hstep
          refine ⟨h.watermark, fun row hrow ↦ (h.flows row hrow).trans (Nat.lt_succ_self _), ?_⟩
          rintro q ⟨⟩
          exact (h.loop p hp).receive hsel r
  | own a =>
      obtain ⟨p, hp, hstep⟩ := Option.bind_eq_some_iff.mp hstep
      obtain ⟨⟨store, drain⟩, hown, ⟨⟩⟩ := Option.bind_eq_some_iff.mp hstep
      exact h.own hp (Drain.ownStep_of_stepOwn hown)
  | crash =>
      obtain rfl := Option.some.inj hstep
      exact ⟨h.watermark, h.flows, by simp⟩

/-- The record that is taken next is in the table under no number, so the
watermark test must not skip it. -/
theorem skip_iff (h : LiveInv s) (a : LiveAct Item) : SkipIsIngested P s a ↔ NotBehind P s a := by
  cases a with
  | recv =>
      have hnext {p : Listener Rec Row} {r : Rec} (hnext : s.next = some (p, r)) :
          p.drain.startWatermark = s.before.sup := by
        obtain ⟨q, hq, hnext⟩ := Option.bind_eq_some_iff.mp hnext
        obtain ⟨-, hnext⟩ := Option.ite_none_right_eq_some.mp hnext
        obtain ⟨r', -, ⟨⟩⟩ := Option.bind_eq_some_iff.mp hnext
        exact (h.loop p hq).startWatermark
      constructor
      · intro hskip p r row rs hp hrow hrs w hw
        by_contra hlt
        have hbelow : P.Below p.drain.startWatermark r := by
          refine ⟨rs, hrs, ?_⟩
          rw [hnext hp]
          exact (not_le.mp hlt).trans_le (Multiset.le_sup hw)
        exact absurd (h.flows _ (hskip p r row hp hrow hbelow)) (lt_irrefl _)
      · rintro hnot p r row hp hrow ⟨rs, hrs, hlt⟩
        rw [hnext hp] at hlt
        exact absurd hlt (not_lt.mpr (Multiset.sup_le.mpr (hnot p r row rs hp hrow hrs)))
  | arrive | start | close | own | crash => exact Iff.rfl

end LiveInv

/-! ## What is skipped -/

/-- Along every run with any stops and restarts, the records that the watermark
discards were all ingested exactly if no accepted record arrives stamped before
what an earlier run had flushed. -/
theorem skip_is_ingested_iff (out : Outside) (geo : Geo.GeoResolver) (acts : List (LiveAct Json)) :
    Machine.Along (Live.step flowrecordFromTelegraf (flowPipeline out geo))
        (SkipIsIngested (flowPipeline out geo)) Live.init acts ↔
      Machine.Along (Live.step flowrecordFromTelegraf (flowPipeline out geo))
        (NotBehind (flowPipeline out geo)) Live.init acts :=
  Machine.along_congr (fun _ _ _ h heq ↦ h.step heq) (fun _ a h ↦ h.skip_iff a) LiveInv.init

def metricAt (ms : UInt64) : Json :=
  .object [
    ("fields", .object [("src", .string "10.0.0.1"), ("dst", .string "10.0.0.2"),
      ("in_bytes", .ofU64 100), ("in_packets", .ofU64 1)]),
    ("timestamp", .ofU64 ms)]

/-- A run that ingests a metric stamped at second 2000 and stops cleanly, and a
second run that a metric stamped at second 1000 reaches. -/
def behindActs : List (LiveAct Json) :=
  [.start true, .arrive (metricAt 2000000), .recv, .own .ctrlC, .own .pipeline, .own .insert,
    .own (.set true), .own .clear, .start true, .arrive (metricAt 1000000)]

def behindState : Live FlowdParse.FlowRecord FlowRow Json :=
  (Machine.run (Live.step flowrecordFromTelegraf plainPipeline) Live.init behindActs).getD Live.init

/-- The second metric is skipped, and no row of it is in the table. -/
theorem not_skip_is_ingested_behind :
    Machine.run (Live.step flowrecordFromTelegraf plainPipeline) Live.init behindActs =
        some behindState ∧
      (∃ p r row, behindState.next = some (p, r) ∧ plainPipeline.toRow r = some row ∧
        plainPipeline.Below p.drain.startWatermark r ∧ ∀ n, (n, row) ∉ behindState.store.flows) ∧
      ¬ Machine.Along (Live.step flowrecordFromTelegraf plainPipeline)
        (SkipIsIngested plainPipeline) Live.init (behindActs ++ [.recv]) := by
  have hrun : Machine.run (Live.step flowrecordFromTelegraf plainPipeline) Live.init behindActs =
      some behindState := rfl
  have hskip : ∃ p r row, behindState.next = some (p, r) ∧ plainPipeline.toRow r = some row ∧
      plainPipeline.Below p.drain.startWatermark r ∧ ∀ n, (n, row) ∉ behindState.store.flows := by
    have hwaits : behindState.next.map (fun q ↦ (q.1.drain.startWatermark,
        plainPipeline.recvSec q.2, (plainPipeline.toRow q.2).map fun row ↦ row.recvTime.secs)) =
          some (2000, some 1000, some 1000) := by
      decide +kernel
    have hflows : behindState.store.flows.map (fun row ↦ row.2.recvTime.secs) = {2000} := by
      decide +kernel
    obtain ⟨⟨p, r⟩, hnext, hfields⟩ := Option.map_eq_some_iff.mp hwaits
    obtain ⟨hstart, hsec, hrow⟩ := by simpa only [Prod.mk.injEq] using hfields
    obtain ⟨row, hrow, hsecs⟩ := Option.map_eq_some_iff.mp hrow
    refine ⟨p, r, row, hnext, hrow, ⟨1000, hsec, by omega⟩, fun n hmem ↦ ?_⟩
    have hmem' := Multiset.mem_map_of_mem (fun row ↦ row.2.recvTime.secs) hmem
    rw [hflows, Multiset.mem_singleton, hsecs] at hmem'
    omega
  refine ⟨hrun, hskip, fun halong ↦ ?_⟩
  obtain ⟨p, r, row, hnext, hrow, hbelow, hnot⟩ := hskip
  have hlast := (Machine.along_append.mp halong).2 behindState hrun
  exact hnot _ (hlast.1 p r row hnext hrow hbelow)

end TrafficMap.Ingestor
