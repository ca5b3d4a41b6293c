import Mathlib.Data.Multiset.Basic
import TrafficMap.Ingestor.Telegraf
import TrafficMap.Lib.Machine

/-!
# The drain loop

The async half of `crates/ingestor`: `main` skips what lies below the resume
watermark, batches rows and flushes them by size, timer, end of input or
ctrl-c; `flush` writes the stream, the table and the watermark, in this order.
Each of these writes is a step of its own, so that a run can be cut between any
two of them.  The loop looks at a record only through its receive second and
its row.
-/

namespace TrafficMap.Ingestor

/-- What the loop uses of a record: its second, its row and the row's message.
A record with a row has a second. -/
structure Pipeline (Rec Row Msg : Type) where
  recvSec : Rec → Option ℕ
  toRow : Rec → Option Row
  json : Row → Msg
  recvSec_of_toRow : ∀ {r : Rec} {row : Row}, toRow r = some row → ∃ sec, recvSec r = some sec

def flowPipeline (out : Outside) (geo : Geo.GeoResolver) :
    Pipeline FlowdParse.FlowRecord FlowRow Json where
  recvSec := fun rec ↦ rec.recvSec.map UInt32.toNat
  toRow := toRow out geo
  json := FlowRow.json
  recvSec_of_toRow := by
    intro rec row h
    obtain ⟨sec, hsec⟩ := recvSec_of_toRow out h
    exact ⟨sec.toNat, by rw [hsec]; rfl⟩

abbrev plainPipeline : Pipeline FlowdParse.FlowRecord FlowRow Json :=
  flowPipeline plainOutside plainGeo

def batchMaxRows : ℕ := 1000

/-- The two stores: what was ever added to the stream, the rows of the table and
the persisted watermark. -/
structure Store (Row Msg : Type) where
  stream : List Msg
  flows : Multiset Row
  watermark : Option ℕ

inductive After
  | loop
  | eof
  | ctrlC
deriving DecidableEq

inductive Phase
  | select
  /-- in `flush`, in front of the Redis pipeline -/
  | pipeline (after : After)
  /-- in `flush`, in front of the INSERT -/
  | insert (after : After)
  /-- in `flush`, in front of the watermark SET -/
  | set (after : After)
  /-- in `flush`, in front of `batch.clear()` -/
  | clear (after : After)
  | ended (after : After)
deriving DecidableEq

def Phase.Ended (phase : Phase) : Prop := ∃ after, phase = .ended after

instance : DecidablePred Phase.Ended
  | .ended after => isTrue ⟨after, rfl⟩
  | .select | .pipeline _ | .insert _ | .set _ | .clear _ => isFalse (by simp [Phase.Ended])

structure Drain (Row : Type) where
  startWatermark : ℕ
  maxRecv : ℕ
  batch : List Row
  phase : Phase

inductive OwnAct
  | timer
  | ctrlC
  | pipeline
  | insert
  | set (ok : Bool)
  | clear

namespace Drain

variable {Rec Row Msg : Type}

def start (watermark : Option ℕ) : Drain Row where
  startWatermark := watermark.getD 0
  maxRecv := watermark.getD 0
  batch := []
  phase := .select

def resume (d : Drain Row) : After → Drain Row
  | .loop => { d with phase := .select }
  | after => { d with phase := .ended after }

/-- The start of `flush`: an empty batch writes nothing, not even a watermark. -/
def flush (d : Drain Row) (after : After) : Drain Row :=
  if d.batch.isEmpty then d.resume after else { d with phase := .pipeline after }

def push (d : Drain Row) (row : Row) : Drain Row :=
  let d := { d with batch := d.batch ++ [row] }
  if batchMaxRows ≤ d.batch.length then d.flush .loop else d

def accept (P : Pipeline Rec Row Msg) (d : Drain Row) (r : Rec) : Drain Row :=
  match P.toRow r with
  | some row => d.push row
  | none => d

/-- The `Some(rec)` arm of the loop. -/
def receive (P : Pipeline Rec Row Msg) (d : Drain Row) (r : Rec) : Drain Row :=
  match P.recvSec r with
  | some rs =>
      if rs < d.startWatermark then d
      else
        let d := if d.maxRecv < rs then { d with maxRecv := rs } else d
        d.accept P r
  | none => d.accept P r

def recv (P : Pipeline Rec Row Msg) (d : Drain Row) : Option Rec → Drain Row
  | some r => d.receive P r
  | none => d.flush .eof

/-- One step of the loop on its own; an action that does not fit the phase is
refused. -/
def stepOwn (P : Pipeline Rec Row Msg) (st : Store Row Msg) (d : Drain Row) :
    OwnAct → Option (Store Row Msg × Drain Row)
  | .timer => if d.phase = .select then some (st, d.flush .loop) else none
  | .ctrlC => if d.phase = .select then some (st, d.flush .ctrlC) else none
  | .pipeline =>
      match d.phase with
      | .pipeline after =>
          some ({ st with stream := st.stream ++ d.batch.map P.json },
            { d with phase := .insert after })
      | _ => none
  | .insert =>
      match d.phase with
      | .insert after =>
          some ({ st with flows := st.flows + d.batch }, { d with phase := .set after })
      | _ => none
  | .set ok =>
      match d.phase with
      | .set after =>
          some (if ok then { st with watermark := some d.maxRecv } else st,
            { d with phase := .clear after })
      | _ => none
  | .clear =>
      match d.phase with
      | .clear after => some (st, { d with batch := [] }.resume after)
      | _ => none

/-! ## What the helpers leave alone -/

section Fields

variable (d : Drain Row) (after : After) (row : Row)

@[simp] theorem startWatermark_resume : (d.resume after).startWatermark = d.startWatermark := by
  cases after <;> rfl

@[simp] theorem maxRecv_resume : (d.resume after).maxRecv = d.maxRecv := by
  cases after <;> rfl

@[simp] theorem batch_resume : (d.resume after).batch = d.batch := by
  cases after <;> rfl

@[simp] theorem startWatermark_flush : (d.flush after).startWatermark = d.startWatermark := by
  rw [flush]
  split <;> simp

@[simp] theorem maxRecv_flush : (d.flush after).maxRecv = d.maxRecv := by
  rw [flush]
  split <;> simp

@[simp] theorem batch_flush : (d.flush after).batch = d.batch := by
  rw [flush]
  split <;> simp

@[simp] theorem startWatermark_push : (d.push row).startWatermark = d.startWatermark := by
  rw [push]
  dsimp only
  split <;> simp

@[simp] theorem maxRecv_push : (d.push row).maxRecv = d.maxRecv := by
  rw [push]
  dsimp only
  split <;> simp

@[simp] theorem batch_push : (d.push row).batch = d.batch ++ [row] := by
  rw [push]
  dsimp only
  split <;> simp

end Fields

/-! ## Rows on their way -/

/-- The rows received and not yet in the table. -/
def pending (d : Drain Row) : Multiset Row :=
  match d.phase with
  | .set _ | .clear _ => 0
  | _ => d.batch

theorem pending_select {d : Drain Row} (h : d.phase = .select) : d.pending = d.batch := by
  rw [pending, h]

theorem pending_resume (d : Drain Row) (after : After) : (d.resume after).pending = d.batch := by
  cases after <;> rfl

@[simp] theorem pending_flush (d : Drain Row) (after : After) :
    (d.flush after).pending = d.batch := by
  rw [flush]
  split
  · exact pending_resume d after
  · rfl

theorem batch_of_ended_flush {d : Drain Row} {after after' : After}
    (h : (d.flush after).phase = .ended after') : d.batch = [] := by
  by_contra hne
  rw [flush, if_neg (by simpa using hne)] at h
  cases h

theorem phase_push (d : Drain Row) (row : Row) (h : d.phase = .select) :
    (d.push row).phase = .select ∨ (d.push row).phase = .pipeline .loop := by
  rw [push]
  dsimp only
  split
  · right
    rw [flush, if_neg (by simp)]
  · exact Or.inl h

theorem pending_push (d : Drain Row) (row : Row) (h : d.phase = .select) :
    (d.push row).pending = d.pending + {row} := by
  have hbatch : ((d.batch ++ [row] : List Row) : Multiset Row) = d.pending + {row} := by
    rw [pending_select h]
    rfl
  rw [push]
  dsimp only
  split
  · rw [pending_flush]
    exact hbatch
  · rw [pending_select (by exact h)]
    exact hbatch

end Drain

/-! ## Receiving a record -/

namespace Pipeline

variable {Rec Row Msg : Type} (P : Pipeline Rec Row Msg)

def Below (w : ℕ) (r : Rec) : Prop := ∃ rs, P.recvSec r = some rs ∧ rs < w

instance (w : ℕ) : DecidablePred (P.Below w) := fun r ↦
  match h : P.recvSec r with
  | some rs =>
      if hlt : rs < w then isTrue ⟨rs, h, hlt⟩
      else isFalse fun ⟨rs', h', hlt'⟩ ↦ hlt (by rw [h] at h'; exact Option.some.inj h' ▸ hlt')
  | none => isFalse fun ⟨rs', h', _⟩ ↦ by rw [h] at h'; cases h'

def rows (l : List Rec) : Multiset Row := (l.filterMap P.toRow : List Row)

@[simp] theorem rows_nil : P.rows [] = 0 := rfl

@[simp] theorem rows_append (l l' : List Rec) : P.rows (l ++ l') = P.rows l + P.rows l' := by
  simp [rows]

theorem rows_le_of_sublist {l l' : List Rec} (h : l.Sublist l') : P.rows l ≤ P.rows l' :=
  (h.filterMap P.toRow).subperm

theorem rows_filter_add (p : Rec → Prop) [DecidablePred p] (l : List Rec) :
    P.rows (l.filter fun r ↦ p r) + P.rows (l.filter fun r ↦ ¬ p r) = P.rows l := by
  have hperm : (l.filter (fun r ↦ decide (p r)) ++ l.filter fun r ↦ decide (¬ p r)).Perm l := by
    simpa using List.filter_append_perm (fun r ↦ decide (p r)) l
  rw [← rows_append]
  exact Multiset.coe_eq_coe.mpr (hperm.filterMap P.toRow)

end Pipeline

namespace Drain

variable {Rec Row Msg : Type} {P : Pipeline Rec Row Msg}

structure Kept (P : Pipeline Rec Row Msg) (d d' : Drain Row) (r : Rec) : Prop where
  startWatermark : d'.startWatermark = d.startWatermark
  maxRecv : d'.maxRecv = (P.recvSec r).elim d.maxRecv (max d.maxRecv)
  batch : d'.batch = d.batch ++ (P.toRow r).toList
  pending : d'.pending = d.pending + P.rows [r]
  phase : d'.phase = .select ∨ d'.phase = .pipeline .loop

theorem receive_of_below {d : Drain Row} {r : Rec} (h : P.Below d.startWatermark r) :
    d.receive P r = d := by
  obtain ⟨rs, hsec, hlt⟩ := h
  rw [receive, hsec]
  exact if_pos hlt

theorem kept_accept {d : Drain Row} (hsel : d.phase = .select) {e : Drain Row} {r : Rec}
    (hphase : e.phase = .select) (hstart : e.startWatermark = d.startWatermark)
    (hmax : e.maxRecv = (P.recvSec r).elim d.maxRecv (max d.maxRecv))
    (hbatch : e.batch = d.batch) : Kept P d (e.accept P r) r := by
  have hpending : e.pending = d.pending := by
    rw [pending_select hphase, pending_select hsel, hbatch]
  rw [accept]
  cases hrow : P.toRow r with
  | none =>
      exact ⟨hstart, hmax, by simp [hbatch, hrow], by simp [hpending, Pipeline.rows, hrow],
        Or.inl hphase⟩
  | some row =>
      refine ⟨by simpa using hstart, by simpa using hmax, by simp [hbatch, hrow], ?_,
        phase_push e row hphase⟩
      rw [pending_push e row hphase, hpending, Pipeline.rows, List.filterMap_cons, hrow]
      rfl

theorem kept_receive {d : Drain Row} {r : Rec} (hsel : d.phase = .select)
    (h : ¬ P.Below d.startWatermark r) : Kept P d (d.receive P r) r := by
  rw [receive]
  cases hsec : P.recvSec r with
  | none => exact kept_accept hsel hsel rfl (by rw [hsec]; rfl) rfl
  | some rs =>
      have hle : ¬ rs < d.startWatermark := fun hlt ↦ h ⟨rs, hsec, hlt⟩
      dsimp only
      rw [if_neg hle]
      by_cases hmax : d.maxRecv < rs
      · rw [if_pos hmax]
        refine kept_accept (e := { d with maxRecv := rs }) hsel hsel rfl ?_ rfl
        rw [hsec]
        exact (max_eq_right hmax.le).symm
      · rw [if_neg hmax]
        refine kept_accept hsel hsel rfl ?_ rfl
        rw [hsec]
        exact (max_eq_left (not_lt.mp hmax)).symm

end Drain

/-! ## What the loop can do on its own -/

namespace Drain

variable {Rec Row Msg : Type} {P : Pipeline Rec Row Msg} {st st' : Store Row Msg} {d d' : Drain Row}

inductive OwnStep (P : Pipeline Rec Row Msg) (st : Store Row Msg) (d : Drain Row) :
    OwnAct → Store Row Msg → Drain Row → Prop
  | timer (h : d.phase = .select) : OwnStep P st d .timer st (d.flush .loop)
  | ctrlC (h : d.phase = .select) : OwnStep P st d .ctrlC st (d.flush .ctrlC)
  | pipeline (after : After) (h : d.phase = .pipeline after) :
      OwnStep P st d .pipeline { st with stream := st.stream ++ d.batch.map P.json }
        { d with phase := .insert after }
  | insert (after : After) (h : d.phase = .insert after) :
      OwnStep P st d .insert { st with flows := st.flows + d.batch } { d with phase := .set after }
  | set (ok : Bool) (after : After) (h : d.phase = .set after) :
      OwnStep P st d (.set ok) (if ok then { st with watermark := some d.maxRecv } else st)
        { d with phase := .clear after }
  | clear (after : After) (h : d.phase = .clear after) :
      OwnStep P st d .clear st ({ d with batch := [] }.resume after)

theorem ownStep_of_stepOwn {a : OwnAct} (h : d.stepOwn P st a = some (st', d')) :
    OwnStep P st d a st' d' := by
  cases a with
  | timer =>
      obtain ⟨hsel, ⟨⟩⟩ := Option.ite_none_right_eq_some.mp h
      exact .timer hsel
  | ctrlC =>
      obtain ⟨hsel, ⟨⟩⟩ := Option.ite_none_right_eq_some.mp h
      exact .ctrlC hsel
  | pipeline =>
      rw [stepOwn] at h
      split at h
      · next after hphase =>
          cases h
          exact .pipeline after hphase
      · cases h
  | insert =>
      rw [stepOwn] at h
      split at h
      · next after hphase =>
          cases h
          exact .insert after hphase
      · cases h
  | set ok =>
      rw [stepOwn] at h
      split at h
      · next after hphase =>
          cases h
          exact .set ok after hphase
      · cases h
  | clear =>
      rw [stepOwn] at h
      split at h
      · next after hphase =>
          cases h
          exact .clear after hphase
      · cases h

end Drain

end TrafficMap.Ingestor
