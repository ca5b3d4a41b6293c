import TrafficMap.Ingestor.Drain

/-!
# The flowd source

An append-only log of records, a parser thread that sends it from the top into
a bounded channel, and the drain loop behind the channel.  A process can be cut
between any two steps and the next one re-reads the log.
-/

namespace TrafficMap.Ingestor

variable {Rec Row Msg : Type}

/-- A run of the ingestor: the loop, how many records of the log were sent and
how many taken from the channel, and whether the channel is closed. -/
structure Process (Row : Type) where
  drain : Drain Row
  sent : ℕ
  taken : ℕ
  closed : Bool

/-- The log, the stores and the process, if one is there; and how far any run
has read the log, which no code reads. -/
structure Flowd (Rec Row Msg : Type) where
  log : List Rec
  store : Store Row Msg
  proc : Option (Process Row)
  reached : ℕ

inductive FlowdAct (Rec : Type)
  | append (r : Rec)
  /-- a new run; `getOk` tells whether the watermark GET answers -/
  | start (getOk : Bool)
  | send
  | close
  | recv
  | own (a : OwnAct)
  | crash

def FlowdAct.SameRun : FlowdAct Rec → Prop
  | .start _ | .crash => False
  | _ => True

instance : ∀ a : FlowdAct Rec, Decidable a.SameRun
  | .start _ | .crash => isFalse id
  | .append _ | .send | .close | .recv | .own _ => isTrue trivial

def Pipeline.InOrder (P : Pipeline Rec Row Msg) (log : List Rec) : Prop :=
  (log.filterMap P.recvSec).Pairwise (· ≤ ·)

instance (P : Pipeline Rec Row Msg) (log : List Rec) : Decidable (P.InOrder log) :=
  inferInstanceAs (Decidable (List.Pairwise _ _))

def channelCapacity : ℕ := 10000

def Process.start (watermark : Option ℕ) : Process Row := ⟨.start watermark, 0, 0, false⟩

namespace Flowd

def init : Flowd Rec Row Msg := ⟨[], ⟨[], 0, none⟩, none, 0⟩

section Step

variable (P : Pipeline Rec Row Msg) (s : Flowd Rec Row Msg)

def stepAppend (r : Rec) : Option (Flowd Rec Row Msg) :=
  if P.InOrder (s.log ++ [r]) then some { s with log := s.log ++ [r] } else none

def stepStart (getOk : Bool) : Option (Flowd Rec Row Msg) :=
  if ∀ p, s.proc = some p → p.drain.phase.Ended then
    some { s with proc := some (.start (if getOk then s.store.watermark else none)) }
  else none

def stepSend : Option (Flowd Rec Row Msg) := do
  let p ← s.proc
  if p.closed = false ∧ p.sent < s.log.length ∧ p.sent < p.taken + channelCapacity then
    some { s with proc := some { p with sent := p.sent + 1 } }
  else none

def stepClose : Option (Flowd Rec Row Msg) := do
  let p ← s.proc
  if p.closed = false ∧ p.sent = s.log.length then
    some { s with proc := some { p with closed := true } }
  else none

def stepRecv : Option (Flowd Rec Row Msg) := do
  let p ← s.proc
  if p.drain.phase = .select then
    if p.taken < p.sent then
      let r ← s.log[p.taken]?
      some { s with
        proc := some { p with drain := p.drain.recv P (some r), taken := p.taken + 1 }
        reached := max s.reached (p.taken + 1) }
    else if p.closed then some { s with proc := some { p with drain := p.drain.recv P none } }
    else none
  else none

def stepOwn (a : OwnAct) : Option (Flowd Rec Row Msg) := do
  let p ← s.proc
  let (store, drain) ← p.drain.stepOwn P s.store a
  some { s with store := store, proc := some { p with drain := drain } }

def step (P : Pipeline Rec Row Msg) (s : Flowd Rec Row Msg) : FlowdAct Rec →
    Option (Flowd Rec Row Msg)
  | .append r => s.stepAppend P r
  | .start getOk => s.stepStart getOk
  | .send => s.stepSend
  | .close => s.stepClose
  | .recv => s.stepRecv P
  | .own a => s.stepOwn P a
  | .crash => some { s with proc := none }

end Step

/-- A run reached the end of its input, the first `n` records of the log, and
its final flush is over. -/
def DoneAt (s : Flowd Rec Row Msg) (n : ℕ) : Prop :=
  ∃ p, s.proc = some p ∧ p.drain.phase = .ended .eof ∧ p.sent = n

end Flowd

/-! ## What a step can do -/

namespace Flowd

variable {P : Pipeline Rec Row Msg} {s s' : Flowd Rec Row Msg}

inductive Step (P : Pipeline Rec Row Msg) (s : Flowd Rec Row Msg) :
    FlowdAct Rec → Flowd Rec Row Msg → Prop
  | append (r : Rec) (h : P.InOrder (s.log ++ [r])) :
      Step P s (.append r) { s with log := s.log ++ [r] }
  | start (getOk : Bool) (h : ∀ p, s.proc = some p → p.drain.phase.Ended) :
      Step P s (.start getOk)
        { s with proc := some (.start (if getOk then s.store.watermark else none)) }
  | send (p : Process Row) (hp : s.proc = some p) (h : p.sent < s.log.length)
      (hopen : p.closed = false) :
      Step P s .send { s with proc := some { p with sent := p.sent + 1 } }
  | close (p : Process Row) (hp : s.proc = some p) (h : p.sent = s.log.length) :
      Step P s .close { s with proc := some { p with closed := true } }
  | record (p : Process Row) (r : Rec) (hp : s.proc = some p) (hsel : p.drain.phase = .select)
      (h : p.taken < p.sent) (hr : s.log[p.taken]? = some r) :
      Step P s .recv { s with
        proc := some { p with drain := p.drain.receive P r, taken := p.taken + 1 }
        reached := max s.reached (p.taken + 1) }
  | eof (p : Process Row) (hp : s.proc = some p) (hsel : p.drain.phase = .select)
      (h : p.sent ≤ p.taken) (hclosed : p.closed = true) :
      Step P s .recv { s with proc := some { p with drain := p.drain.flush .eof } }
  | own (a : OwnAct) (p : Process Row) (store : Store Row Msg) (drain : Drain Row)
      (hp : s.proc = some p) (h : Drain.OwnStep P s.store p.drain a store drain) :
      Step P s (.own a) { s with store := store, proc := some { p with drain := drain } }
  | crash : Step P s .crash { s with proc := none }

theorem step_of_eq {a : FlowdAct Rec} (h : s.step P a = some s') : Step P s a s' := by
  cases a with
  | append r =>
      obtain ⟨hord, ⟨⟩⟩ := Option.ite_none_right_eq_some.mp h
      exact .append r hord
  | start getOk =>
      obtain ⟨hended, ⟨⟩⟩ := Option.ite_none_right_eq_some.mp h
      exact .start getOk hended
  | send =>
      obtain ⟨p, hp, h⟩ := Option.bind_eq_some_iff.mp h
      obtain ⟨⟨hopen, hlt, -⟩, ⟨⟩⟩ := Option.ite_none_right_eq_some.mp h
      exact .send p hp hlt hopen
  | close =>
      obtain ⟨p, hp, h⟩ := Option.bind_eq_some_iff.mp h
      obtain ⟨⟨-, hall⟩, ⟨⟩⟩ := Option.ite_none_right_eq_some.mp h
      exact .close p hp hall
  | recv =>
      obtain ⟨p, hp, h⟩ := Option.bind_eq_some_iff.mp h
      obtain ⟨hsel, h⟩ := Option.ite_none_right_eq_some.mp h
      by_cases hlt : p.taken < p.sent
      · rw [if_pos hlt] at h
        obtain ⟨r, hr, ⟨⟩⟩ := Option.bind_eq_some_iff.mp h
        exact .record p r hp hsel hlt hr
      · rw [if_neg hlt] at h
        obtain ⟨hclosed, ⟨⟩⟩ := Option.ite_none_right_eq_some.mp h
        exact .eof p hp hsel (not_lt.mp hlt) hclosed
  | own a =>
      obtain ⟨p, hp, h⟩ := Option.bind_eq_some_iff.mp h
      obtain ⟨⟨store, drain⟩, hown, ⟨⟩⟩ := Option.bind_eq_some_iff.mp h
      exact .own a p store drain hp (Drain.ownStep_of_stepOwn hown)
  | crash =>
      obtain rfl := Option.some.inj h
      exact .crash

end Flowd

end TrafficMap.Ingestor
