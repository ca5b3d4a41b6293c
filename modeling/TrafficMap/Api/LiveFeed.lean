import TrafficMap.Api.Corrections
import TrafficMap.Api.Reference
import TrafficMap.Lib.Broadcast
import TrafficMap.Lib.Machine

/-!
# The live feed

`spawn_redis_bridge`, `handle_socket`, `spawn_agg_tick` and the two refresh
tasks of `crates/api`, interleaved in any order.  One task takes the messages of
the Redis channel, lays the two maps over each, records it and broadcasts it; a
task for each WebSocket sends on what it reads from the broadcast.  The bridge
waits for a lock in front of each map, so a map can change between the two.  The
channel of the broadcast is a parameter.
-/

namespace TrafficMap.Api

open Broadcast

/-- `serde_json`, between texts and values. -/
structure Serde where
  parse : String → Option Json
  print : Json → String

/-- The capacity of `live_tx`. -/
abbrev LIVE_CAPACITY : ℕ := 4096

/-- A published message: its text, if `get_payload` finds one in its bytes. -/
abbrev Message := Option String

/-- Where the bridge stands in its loop. -/
inductive Bridge
  /-- it connects, subscribes or sleeps -/
  | offline
  | waiting
  | parsed (payload : String) (v : Json)
  | overridden (payload : String) (v : Json)
  | labelled (payload : String) (v : Json)
  /-- in front of `tx.send`, with the value that was recorded -/
  | sending (payload : String) (value : Option Json) (out : String)
  /-- the task has panicked, and nothing starts it again -/
  | dead (payload : String)

/-- One message that went through the bridge. -/
structure Turn where
  payload : String
  value : Option Json
  out : String

/-- A WebSocket with what was sent down to it.  No code reads `start` and `missed`:
where it joined, and what it was told it missed. -/
structure Client where
  sent : List String
  start : ℕ
  missed : ℕ

/-- The tasks of the server.  No code reads the last four: the turns of the bridge
so far, the messages that reached a subscription, and the maps ever in force. -/
structure Feed (b : Ops String) where
  overrides : Overrides
  apps : AppMap
  agg : Aggregator
  channel : b.Chan
  bridge : Bridge
  /-- the subscription stands -/
  subscribed : Bool
  /-- what has arrived on it and was not taken -/
  queue : List Message
  clients : ℕ → Option Client
  turns : List Turn
  delivered : List Message
  allOverrides : List Overrides
  allApps : List AppMap

inductive FeedAct
  | publish (m : Message)
  | connect
  | lose
  /-- the bridge takes a message, or the end of the stream -/
  | take
  | advance
  | loadOverrides (rows : Reply String Correction)
  | loadApps (rows : Reply String (String × Option String))
  | tick
  | join (id : ℕ)
  | recv (id : ℕ)
  | leave (id : ℕ)

namespace Feed

variable {b : Ops String}

/-- The server at its start, with what the first loads have found. -/
def init (ov : Overrides) (apps : AppMap) : Feed b where
  overrides := ov
  apps := apps
  agg := .new
  channel := b.channel LIVE_CAPACITY
  bridge := .offline
  subscribed := false
  queue := []
  clients := fun _ ↦ none
  turns := []
  delivered := []
  allOverrides := [ov]
  allApps := [apps]

section Step

variable (serde : Serde) (s : Feed b)

/-- Redis hands a message to the subscriptions there are, and keeps it for no other. -/
def stepPublish (m : Message) : Feed b :=
  if s.subscribed then { s with queue := s.queue ++ [m], delivered := s.delivered ++ [m] } else s

def stepConnect : Option (Feed b) :=
  match s.bridge with
  | .offline => some { s with bridge := .waiting, subscribed := true, queue := [] }
  | _ => none

def received (payload : String) : Bridge :=
  match serde.parse payload with
  | some v => .parsed payload v
  | none => .sending payload none payload

/-- A stream that has ended still yields what had arrived on it. -/
def stepTake : Option (Feed b) :=
  match s.bridge, s.queue with
  | .waiting, some payload :: rest =>
      some { s with bridge := received serde payload, queue := rest }
  | .waiting, none :: rest => some { s with queue := rest }
  | .waiting, [] => if s.subscribed then none else some { s with bridge := .offline }
  | _, _ => none

def stepAdvance : Option (Feed b) :=
  match s.bridge with
  | .parsed payload v =>
      match applyOverrides s.overrides v with
      | some v => some { s with bridge := .overridden payload v }
      | none => some { s with bridge := .dead payload }
  | .overridden payload v =>
      match applyApps s.apps v with
      | some v => some { s with bridge := .labelled payload v }
      | none => some { s with bridge := .dead payload }
  | .labelled payload v =>
      some { s with
        agg := s.agg.record v
        bridge := .sending payload (some v) (serde.print v) }
  | .sending payload value out =>
      some { s with
        channel := b.send s.channel out
        bridge := .waiting
        turns := s.turns ++ [⟨payload, value, out⟩] }
  | .offline | .waiting | .dead _ => none

def setClient (channel : b.Chan) (id : ℕ) (c : Option Client) : Feed b :=
  { s with channel := channel, clients := Function.update s.clients id c }

def stepJoin (id : ℕ) : Option (Feed b) :=
  match s.clients id with
  | none => some (s.setClient (b.subscribe s.channel id) id (some ⟨[], s.turns.length, 0⟩))
  | some _ => none

def stepRecv (id : ℕ) : Option (Feed b) := do
  let c ← s.clients id
  match b.recv s.channel id with
  | (.value a, channel) => some (s.setClient channel id (some { c with sent := c.sent ++ [a] }))
  | (.lagged n, channel) => some (s.setClient channel id (some { c with missed := c.missed + n }))
  | (.empty, _) => none

/-- The task of a client drops its receiver when it ends. -/
def stepLeave (id : ℕ) : Feed b :=
  match s.clients id with
  | some _ => s.setClient (b.drop s.channel id) id none
  | none => s

def step : FeedAct → Option (Feed b)
  | .publish m => some (s.stepPublish m)
  | .connect => s.stepConnect
  | .lose => some { s with subscribed := false }
  | .take => s.stepTake serde
  | .advance => s.stepAdvance serde
  | .loadOverrides rows =>
      let fresh := loadOverrides rows
      some { s with overrides := fresh, allOverrides := s.allOverrides ++ [fresh] }
  | .loadApps rows =>
      let fresh := loadApps rows
      some { s with apps := fresh, allApps := s.allApps ++ [fresh] }
  | .tick => some { s with agg := s.agg.tick }
  | .join id => s.stepJoin id
  | .recv id => s.stepRecv id
  | .leave id => some (s.stepLeave id)

end Step

/-- Everything sent into the broadcast. -/
def log (s : Feed b) : List String := s.turns.map Turn.out

/-- How many values wait for a client. -/
def backlog (s : Feed b) (c : Client) : ℕ :=
  s.log.length - (c.start + c.sent.length + c.missed)

/-! ## What a step does -/

/-- A step of the feed, with what it finds. -/
inductive Outcome (serde : Serde) (s : Feed b) : FeedAct → Feed b → Prop
  | publish {m} (h : s.subscribed = true) :
      Outcome serde s (.publish m)
        { s with queue := s.queue ++ [m], delivered := s.delivered ++ [m] }
  | unheard {m} (h : s.subscribed = false) : Outcome serde s (.publish m) s
  | connect (h : s.bridge = .offline) :
      Outcome serde s .connect { s with bridge := .waiting, subscribed := true, queue := [] }
  | lose : Outcome serde s .lose { s with subscribed := false }
  | take {payload rest} (h : s.bridge = .waiting) (hqueue : s.queue = some payload :: rest) :
      Outcome serde s .take { s with bridge := received serde payload, queue := rest }
  | skip {rest} (h : s.bridge = .waiting) (hqueue : s.queue = none :: rest) :
      Outcome serde s .take { s with queue := rest }
  | ended (h : s.bridge = .waiting) (hqueue : s.queue = []) (hsub : s.subscribed = false) :
      Outcome serde s .take { s with bridge := .offline }
  | override {payload v w} (h : s.bridge = .parsed payload v)
      (hw : applyOverrides s.overrides v = some w) :
      Outcome serde s .advance { s with bridge := .overridden payload w }
  | overridePanic {payload v} (h : s.bridge = .parsed payload v)
      (hw : applyOverrides s.overrides v = none) :
      Outcome serde s .advance { s with bridge := .dead payload }
  | label {payload v w} (h : s.bridge = .overridden payload v)
      (hw : applyApps s.apps v = some w) :
      Outcome serde s .advance { s with bridge := .labelled payload w }
  | labelPanic {payload v} (h : s.bridge = .overridden payload v)
      (hw : applyApps s.apps v = none) :
      Outcome serde s .advance { s with bridge := .dead payload }
  | record {payload v} (h : s.bridge = .labelled payload v) :
      Outcome serde s .advance
        { s with agg := s.agg.record v, bridge := .sending payload (some v) (serde.print v) }
  | send {payload value out} (h : s.bridge = .sending payload value out) :
      Outcome serde s .advance
        { s with
          channel := b.send s.channel out
          bridge := .waiting
          turns := s.turns ++ [⟨payload, value, out⟩] }
  | loadOverrides {rows} :
      Outcome serde s (.loadOverrides rows)
        { s with
          overrides := Api.loadOverrides rows
          allOverrides := s.allOverrides ++ [Api.loadOverrides rows] }
  | loadApps {rows} :
      Outcome serde s (.loadApps rows)
        { s with apps := Api.loadApps rows, allApps := s.allApps ++ [Api.loadApps rows] }
  | tick : Outcome serde s .tick { s with agg := s.agg.tick }
  | join {id} (h : s.clients id = none) :
      Outcome serde s (.join id)
        (s.setClient (b.subscribe s.channel id) id (some ⟨[], s.turns.length, 0⟩))
  | value {id c a channel} (h : s.clients id = some c)
      (hrecv : b.recv s.channel id = (.value a, channel)) :
      Outcome serde s (.recv id)
        (s.setClient channel id (some { c with sent := c.sent ++ [a] }))
  | lagged {id c n channel} (h : s.clients id = some c)
      (hrecv : b.recv s.channel id = (.lagged n, channel)) :
      Outcome serde s (.recv id)
        (s.setClient channel id (some { c with missed := c.missed + n }))
  | leave {id c} (h : s.clients id = some c) :
      Outcome serde s (.leave id) (s.setClient (b.drop s.channel id) id none)
  | away {id} (h : s.clients id = none) : Outcome serde s (.leave id) s

variable {serde : Serde} {s s' : Feed b}

theorem step_take (h : s.stepTake serde = some s') : Outcome serde s .take s' := by
  rw [stepTake] at h
  split at h
  · rename_i hbridge hqueue
    obtain rfl := Option.some.inj h
    exact .take hbridge hqueue
  · rename_i hbridge hqueue
    obtain rfl := Option.some.inj h
    exact .skip hbridge hqueue
  · rename_i hbridge hqueue
    obtain ⟨hsub, ⟨⟩⟩ := Option.ite_none_left_eq_some.mp h
    exact .ended hbridge hqueue (Bool.eq_false_of_not_eq_true hsub)
  · cases h

theorem step_advance (h : s.stepAdvance serde = some s') : Outcome serde s .advance s' := by
  rw [stepAdvance] at h
  cases hbridge : s.bridge with
  | parsed payload v =>
      rw [hbridge] at h
      dsimp only at h
      cases hw : applyOverrides s.overrides v with
      | some w =>
          rw [hw] at h
          obtain rfl := Option.some.inj h
          exact .override hbridge hw
      | none =>
          rw [hw] at h
          obtain rfl := Option.some.inj h
          exact .overridePanic hbridge hw
  | overridden payload v =>
      rw [hbridge] at h
      dsimp only at h
      cases hw : applyApps s.apps v with
      | some w =>
          rw [hw] at h
          obtain rfl := Option.some.inj h
          exact .label hbridge hw
      | none =>
          rw [hw] at h
          obtain rfl := Option.some.inj h
          exact .labelPanic hbridge hw
  | labelled payload v =>
      rw [hbridge] at h
      obtain rfl := Option.some.inj h
      exact .record hbridge
  | sending payload value out =>
      rw [hbridge] at h
      obtain rfl := Option.some.inj h
      exact .send hbridge
  | offline | waiting | dead payload =>
      rw [hbridge] at h
      cases h

theorem step_recv {id : ℕ} (h : s.stepRecv id = some s') : Outcome serde s (.recv id) s' := by
  obtain ⟨c, hc, h⟩ := Option.bind_eq_some_iff.mp h
  split at h
  · rename_i a channel hrecv
    obtain rfl := Option.some.inj h
    exact .value hc hrecv
  · rename_i n channel hrecv
    obtain rfl := Option.some.inj h
    exact .lagged hc hrecv
  · cases h

theorem step_outcome {a : FeedAct} (h : s.step serde a = some s') : Outcome serde s a s' := by
  cases a with
  | publish m =>
      obtain rfl := Option.some.inj h
      rw [stepPublish]
      split
      · rename_i hsub
        exact .publish hsub
      · rename_i hsub
        exact .unheard (Bool.eq_false_of_not_eq_true hsub)
  | connect =>
      rw [step, stepConnect] at h
      split at h
      · rename_i hbridge
        obtain rfl := Option.some.inj h
        exact .connect hbridge
      · cases h
  | lose =>
      obtain rfl := Option.some.inj h
      exact .lose
  | take => exact step_take h
  | advance => exact step_advance h
  | loadOverrides rows =>
      obtain rfl := Option.some.inj h
      exact .loadOverrides
  | loadApps rows =>
      obtain rfl := Option.some.inj h
      exact .loadApps
  | tick =>
      obtain rfl := Option.some.inj h
      exact .tick
  | join id =>
      rw [step, stepJoin] at h
      split at h
      · rename_i hnone
        obtain rfl := Option.some.inj h
        exact .join hnone
      · cases h
  | recv id => exact step_recv h
  | leave id =>
      obtain rfl := Option.some.inj h
      rw [stepLeave]
      cases hc : s.clients id with
      | some c => exact .leave hc
      | none => exact .away hc

end Feed

/-- One client joins before the first message, another between the two. -/
def watching : List FeedAct :=
  [.join 7, .connect, .publish (some "hello"), .publish none, .take, .advance, .take, .join 8,
    .lose, .take, .connect, .publish (some "again"), .take, .advance, .recv 7, .recv 8, .leave 8]

/-- Texts that are no JSON. -/
def plainSerde : Serde := ⟨fun _ ↦ none, fun _ ↦ ""⟩

end TrafficMap.Api
