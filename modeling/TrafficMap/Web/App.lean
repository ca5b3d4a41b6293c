import TrafficMap.Lib.Machine
import TrafficMap.Web.FlowStream
import TrafficMap.Web.Timeline

/-!
# The time range

`App.tsx`: the selected range decides between the live channel and a replay of
history.  The effect of a selection runs some time after it, requests come back
in any order and with any delay, and each reply of `/api/history` starts a
replay, whatever the range is by then.
-/

namespace TrafficMap.Web

open Api

/-! ## The application -/

inductive TimeRange
  | live
  | last (seconds : ℕ)
deriving DecidableEq

structure App where
  range : TimeRange
  /-- The auto-refresh in seconds, 0 for none. -/
  refresh : ℕ
  /-- The dependencies that the effect has last run with. -/
  ran : Option (TimeRange × ℕ)
  /-- What the running interval loads. -/
  interval : Option HistQuery
  /-- The requests to `/api/history` that are under way. -/
  histories : List HistQuery
  stream : Stream

inductive Event
  | selectRange (range : TimeRange)
  | selectRefresh (refresh : ℕ)
  /-- The time-range effect runs. -/
  | effect
  | tick
  | brush (w : ℚ × ℚ)
  /-- A request to `/api/history` is answered or fails. -/
  | history (i : ℕ) (now : ℚ) (reply : Option (List Flow))
  | recent (now : ℚ) (reply : Option (List Flow))
  | timer (i : ℕ) (now : ℚ)
  | message (now : ℚ) (message : Option Flow)
  | loaded (scene : Scene)
  | config (scene : Option Scene)
  | firstRecent (now : ℚ) (reply : Option (List Flow))

def histQuery (seconds : ℕ) : HistQuery := ⟨some seconds, none, none, some 8000⟩

namespace App

variable (u : App)

/-- The clean-up of the last run, then the effect, if its dependencies have
changed. -/
def onEffect : Option App :=
  if u.ran = some (u.range, u.refresh) then none
  else
    let u := { u with ran := some (u.range, u.refresh), interval := none }
    match u.range with
    | .live => some { u with stream := u.stream.goLive }
    | .last seconds =>
        let q := histQuery seconds
        some { u with
          histories := u.histories ++ [q]
          interval := if 0 < u.refresh then some q else none }

def onHistory (i : ℕ) (now : ℚ) (reply : Option (List Flow)) : Option App :=
  if i < u.histories.length then
    let u := { u with histories := u.histories.eraseIdx i }
    some (match reply with
      | some flows => { u with stream := u.stream.replay now flows }
      | none => u)
  else none

def withStream (stream : Option Stream) : Option App :=
  stream.map fun stream ↦ { u with stream := stream }

def step (u : App) : Event → Option App
  | .selectRange range => some { u with range := range }
  | .selectRefresh refresh => some { u with refresh := refresh }
  | .effect => u.onEffect
  | .tick => u.interval.map fun q ↦ { u with histories := u.histories ++ [q] }
  | .brush w => some { u with histories := u.histories ++ [onBrush w] }
  | .history i now reply => u.onHistory i now reply
  | .recent now reply => u.withStream (u.stream.onRecent now reply)
  | .timer i now => u.withStream (u.stream.onTimer now i)
  | .message now message =>
      if u.stream.phase = .connected then
        some { u with stream := u.stream.onMessage now message }
      else none
  | .loaded scene => u.withStream (u.stream.onLoaded scene)
  | .config scene => u.withStream (u.stream.onConfig scene)
  | .firstRecent now reply => u.withStream (u.stream.onFirstRecent now reply)

/-- The page as it comes up. -/
def init (scene : Scene) : App where
  range := .live
  refresh := 5
  ran := none
  interval := none
  histories := []
  stream := ⟨[], true, 0, [], 0, ∅, scene, .loading, 0, []⟩

end App

/-! ## The gate along a run -/

namespace Event

def isEffect : Event → Bool
  | .effect => true
  | _ => false

/-- A reply that starts a replay. -/
def isReplay : Event → Bool
  | .history _ _ (some _) => true
  | _ => false

end Event

/-- What one event does to the gate. -/
def gate (u : App) (e : Event) : Bool :=
  if e.isEffect then decide (u.range = .live) || u.stream.live
  else !e.isReplay && u.stream.live

def ranAfter (u : App) (e : Event) : Option (TimeRange × ℕ) :=
  if e.isEffect then some (u.range, u.refresh) else u.ran

section Step

variable {u v : App}

theorem withStream_eq_some {stream : Option Stream} (h : u.withStream stream = some v) :
    ∃ s, stream = some s ∧ v = { u with stream := s } := by
  obtain ⟨s, hs, rfl⟩ := Option.map_eq_some_iff.mp h
  exact ⟨s, hs, rfl⟩

theorem step_gate {e : Event} (h : u.step e = some v) :
    v.stream.live = gate u e ∧ v.ran = ranAfter u e := by
  cases e with
  | selectRange range =>
      obtain rfl := Option.some.inj h
      exact ⟨rfl, rfl⟩
  | selectRefresh refresh =>
      obtain rfl := Option.some.inj h
      exact ⟨rfl, rfl⟩
  | effect =>
      obtain ⟨-, h⟩ := Option.ite_none_left_eq_some.mp h
      cases hrange : u.range with
      | live =>
          simp only [hrange] at h
          obtain rfl := Option.some.inj h
          simp [gate, ranAfter, hrange, Event.isEffect]
      | last seconds =>
          simp only [hrange] at h
          obtain rfl := Option.some.inj h
          simp [gate, ranAfter, hrange, Event.isEffect]
  | tick =>
      obtain ⟨q, -, rfl⟩ := Option.map_eq_some_iff.mp h
      exact ⟨rfl, rfl⟩
  | brush w =>
      obtain rfl := Option.some.inj h
      exact ⟨rfl, rfl⟩
  | history i now reply =>
      obtain ⟨-, h⟩ := Option.ite_none_right_eq_some.mp h
      obtain rfl := Option.some.inj h
      cases reply with
      | none => exact ⟨rfl, rfl⟩
      | some flows => exact ⟨rfl, rfl⟩
  | recent now reply =>
      obtain ⟨s, hs, rfl⟩ := withStream_eq_some h
      exact ⟨Stream.live_of_onRecent hs, rfl⟩
  | timer i now =>
      obtain ⟨s, hs, rfl⟩ := withStream_eq_some h
      exact ⟨Stream.live_of_onTimer hs, rfl⟩
  | message now message =>
      obtain ⟨-, h⟩ := Option.ite_none_right_eq_some.mp h
      obtain rfl := Option.some.inj h
      exact ⟨Stream.onMessage_live now message, rfl⟩
  | loaded scene =>
      obtain ⟨s, hs, rfl⟩ := withStream_eq_some h
      exact ⟨Stream.live_of_onLoaded hs, rfl⟩
  | config scene =>
      obtain ⟨s, hs, rfl⟩ := withStream_eq_some h
      exact ⟨Stream.live_of_onConfig hs, rfl⟩
  | firstRecent now reply =>
      obtain ⟨s, hs, rfl⟩ := withStream_eq_some h
      exact ⟨Stream.live_of_onFirstRecent hs, rfl⟩

end Step

/-- No replay has started since the effect last ran. -/
def NoReplaySince (evs : List Event) : Prop :=
  ∀ e ∈ evs.reverse.takeWhile fun e ↦ !e.isEffect, e.isReplay = false

theorem noReplaySince_concat (evs : List Event) (e : Event) :
    NoReplaySince (evs ++ [e]) ↔ e.isEffect = true ∨ e.isReplay = false ∧ NoReplaySince evs := by
  rw [NoReplaySince, List.reverse_append, List.reverse_singleton, List.singleton_append,
    List.takeWhile_cons]
  cases he : e.isEffect with
  | true => simp
  | false => simp [NoReplaySince]

/-- After the effect has run for the live range, the gate is open exactly until
a replay starts. -/
theorem live_iff_of_run {scene : Scene} {evs : List Event} {u : App} {refresh : ℕ}
    (h : Machine.run App.step (App.init scene) evs = some u)
    (hran : u.ran = some (.live, refresh)) : u.stream.live = true ↔ NoReplaySince evs := by
  induction evs using List.reverseRecOn generalizing u refresh with
  | nil =>
      obtain rfl := Option.some.inj h
      cases hran
  | append_singleton evs e ih =>
      obtain ⟨v, hv, hlast⟩ := Machine.run_append.mp h
      obtain ⟨w, hstep, hw⟩ := Machine.run_cons.mp hlast
      obtain rfl := Option.some.inj hw
      obtain ⟨hlive, hranAfter⟩ := step_gate hstep
      rw [hran, ranAfter] at hranAfter
      rw [hlive, noReplaySince_concat, gate]
      cases he : e.isEffect with
      | true =>
          rw [he, if_pos rfl] at hranAfter
          have hrange : TimeRange.live = v.range := (Prod.mk.inj (Option.some.inj hranAfter)).1
          simp [← hrange]
      | false =>
          rw [he, if_neg Bool.false_ne_true] at hranAfter
          have hgate := ih hv hranAfter.symm
          cases e.isReplay with
          | true => simp
          | false => simpa using hgate

/-- With the live range selected and its effect run, the messages of the live
channel reach the buffer. -/
def ShowsLive (u : App) : Prop :=
  u.range = .live → (∃ refresh, u.ran = some (.live, refresh)) →
    u.stream.live = true ∧
      ∀ now flow, u.stream.onMessage now (some flow) = u.stream.push now flow

theorem showsLive_iff {u : App} : ShowsLive u ↔
    (u.range = .live → (∃ refresh, u.ran = some (.live, refresh)) → u.stream.live = true) := by
  refine forall_congr' fun _ ↦ forall_congr' fun _ ↦ ⟨And.left, fun hlive ↦ ⟨hlive, ?_⟩⟩
  intro now flow
  simp [Stream.onMessage, hlive]

/-- The live range stays live in a run exactly if no replay starts between a run
of its effect and a state that shows it. -/
theorem showsLive_run_iff (scene : Scene) (evs : List Event) :
    (∀ pre u, pre <+: evs → Machine.run App.step (App.init scene) pre = some u → ShowsLive u) ↔
      ∀ pre u, pre <+: evs → Machine.run App.step (App.init scene) pre = some u →
        u.range = .live → (∃ refresh, u.ran = some (.live, refresh)) → NoReplaySince pre := by
  apply forall₂_congr
  intro pre u
  apply forall₂_congr
  intro _ hrun
  rw [showsLive_iff]
  apply forall_congr'
  intro _
  apply forall_congr'
  intro hran
  obtain ⟨refresh, hran⟩ := hran
  exact live_iff_of_run hrun hran

def plainScene : Scene := ⟨fun _ ↦ (0, 0), fun src dst ↦ ([src, dst], false)⟩

/-- The operator looks at the last five minutes and goes back to live before
their history comes in. -/
def lateHistory : List Event :=
  [.effect, .selectRange (.last 300), .effect, .selectRange .live, .effect,
    .history 0 1000 (some [])]

theorem not_showsLive_lateHistory :
    ¬ ∀ pre u, pre <+: lateHistory →
      Machine.run App.step (App.init plainScene) pre = some u → ShowsLive u := by
  intro h
  obtain ⟨hlive, -⟩ := h lateHistory _ (List.prefix_refl _) rfl rfl ⟨5, rfl⟩
  cases hlive

end TrafficMap.Web
