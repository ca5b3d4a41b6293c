import TrafficMap.Lib.Retain
import TrafficMap.Web.Pushes
import TrafficMap.Web.Replay

/-!
# The buffer and the counters

What `useFlows` of `flowStream.ts` hands to the page: the buffer of comets, which
forgets the oldest beyond `MAX_FLOWS`, and the statistics that a timer takes from
the times of the pushes.
-/

namespace TrafficMap.Web

open Retain

namespace Stream

/-! ## What a push adds -/

/-- The comets of a flow. -/
def spawned (s : Stream) (now : ℚ) (flow : Flow) : List LiveFlow :=
  match (toLive s.scene flow now s.sources).1 with
  | none => []
  | some base => (List.range (comets flow.octets)).map (comet now flow base)

def spawnedAll (s : Stream) (now : ℚ) : List Flow → List LiveFlow
  | [] => []
  | f :: flows => s.spawned now f ++ (s.push now f).spawnedAll now flows

/-- The buffer keeps the newest comets. -/
structure Holds (s : Stream) (comets : List LiveFlow) : Prop where
  newest : s.flows = newest MAX_FLOWS comets

variable {s t : Stream} {comets : List LiveFlow}

theorem Holds.of_flows (h : s.Holds comets) (hflows : t.flows = s.flows) : t.Holds comets :=
  ⟨hflows.trans h.newest⟩

theorem holds_nil (h : s.flows = []) : s.Holds [] :=
  ⟨h.trans (newest_of_length_le (Nat.zero_le _)).symm⟩

theorem Holds.push (h : s.Holds comets) (now : ℚ) (flow : Flow) :
    (s.push now flow).Holds (comets ++ s.spawned now flow) where
  newest := by
    cases hflow : displayed s.scene flow with
    | true =>
        obtain ⟨base, -, hlive⟩ := toLive_of_displayed hflow now s.sources
        have hclones : s.spawned now flow =
            (List.range (Stream.comets flow.octets)).map (comet now flow base) := by
          rw [spawned, hlive]
        have hpush : s.push now flow =
            { s with
              flows := Retain.newest MAX_FLOWS (s.flows ++ s.spawned now flow)
              sources := (ddosScore flow.dstAddr flow.srcAddr now s.sources).2
              total := s.total + 1
              rateWindow := s.rateWindow ++ [now] } := by
          rw [Stream.push, hclones, hlive]
          rfl
        rw [← newest_newest_append, ← h.newest, hpush]
    | false =>
        rw [push_of_not_displayed hflow, spawned, toLive_of_not_displayed hflow, List.append_nil,
          h.newest]

theorem Holds.pushAll (h : s.Holds comets) (now : ℚ) (flows : List Flow) :
    (s.pushAll now flows).Holds (comets ++ s.spawnedAll now flows) := by
  induction flows generalizing s comets with
  | nil => exact (List.append_nil comets).symm ▸ h
  | cons f flows ih =>
      have hrest := ih (h.push now f)
      rw [List.append_assoc] at hrest
      exact hrest

/-- What is spawned depends on the scene and the sources only. -/
theorem spawned_congr {u : Stream} (hscene : u.scene = s.scene) (hsources : u.sources = s.sources)
    (now : ℚ) (flow : Flow) : u.spawned now flow = s.spawned now flow := by
  rw [spawned, spawned, hscene, hsources]

theorem sources_push_congr {u : Stream} (hscene : u.scene = s.scene)
    (hsources : u.sources = s.sources) (now : ℚ) (flow : Flow) :
    (u.push now flow).sources = (s.push now flow).sources := by
  rw [Stream.push, Stream.push, hscene, hsources]
  split
  · rfl
  · rfl

theorem spawnedAll_congr {u : Stream} (hscene : u.scene = s.scene)
    (hsources : u.sources = s.sources) (now : ℚ) (flows : List Flow) :
    u.spawnedAll now flows = s.spawnedAll now flows := by
  induction flows generalizing u s with
  | nil => rfl
  | cons f flows ih =>
      rw [spawnedAll, spawnedAll, spawned_congr hscene hsources]
      refine congrArg (_ ++ ·) (ih ?_ (sources_push_congr hscene hsources now f))
      rw [push_scene, push_scene, hscene]

/-! ## A step of the buffer -/

/-- The steps that empty the buffer. -/
def Action.clears : Action → Bool
  | .goLive => true
  | .replay _ _ => true
  | .loaded _ => true
  | _ => false

/-- The comets since the buffer was last emptied, after a step. -/
def cometsAfter (s : Stream) (comets : List LiveFlow) (a : Action) : List LiveFlow :=
  if a.clears then [] else comets ++ s.spawnedAll (a.time.getD 0) (s.pushed a)

/-- When the flows that a step shows are pushed. -/
def counted (s : Stream) (a : Action) : List ℚ :=
  ((s.pushed a).filter fun f ↦ displayed s.scene f).map fun _ ↦ a.time.getD 0

/-- The flows of a step are pushed from a state that differs from `s` where no
push looks. -/
theorem Holds.pushAll_of_same (h : s.Holds comets) (hflows : t.flows = s.flows)
    (hscene : t.scene = s.scene) (hsources : t.sources = s.sources) (now : ℚ) (flows : List Flow) :
    (t.pushAll now flows).Holds (comets ++ s.spawnedAll now flows) := by
  rw [← spawnedAll_congr hscene hsources]
  exact (h.of_flows hflows).pushAll now flows

theorem Holds.same (h : s.Holds comets) (hflows : t.flows = s.flows) : t.Holds (comets ++ []) :=
  (List.append_nil comets).symm ▸ h.of_flows hflows

theorem Holds.step {a : Action} (h : s.Holds comets) (hstep : s.step a = some t) :
    t.Holds (s.cometsAfter comets a) := by
  cases a with
  | goLive =>
      obtain rfl := Option.some.inj hstep
      exact holds_nil rfl
  | replay now flows =>
      obtain rfl := Option.some.inj hstep
      exact holds_nil rfl
  | loaded scene =>
      obtain ⟨-, hstep⟩ := Option.ite_none_right_eq_some.mp hstep
      obtain rfl := Option.some.inj hstep
      exact holds_nil rfl
  | config scene =>
      obtain ⟨-, hstep⟩ := Option.ite_none_right_eq_some.mp hstep
      obtain rfl := Option.some.inj hstep
      exact h.same rfl
  | recent now reply =>
      rw [Stream.step, onRecent] at hstep
      split at hstep
      · cases hstep
      · rename_i k _
        obtain rfl := Option.some.inj hstep
        cases reply with
        | none => exact h.same rfl
        | some flows =>
            exact h.pushAll_of_same (t := { s with recents := k }) rfl rfl rfl now flows.reverse
  | timer i now =>
      obtain ⟨timer, htimer, rfl⟩ := Option.map_eq_some_iff.mp hstep
      simp only [cometsAfter, Action.clears, pushed, htimer]
      by_cases hseq : s.replaySeq = timer.seq
      · rw [if_pos hseq, if_pos hseq]
        exact h.pushAll_of_same (t := { s with timers := s.timers.eraseIdx i }) rfl rfl rfl now
          [timer.flow]
      · rw [if_neg hseq, if_neg hseq]
        exact h.same rfl
  | message now message =>
      obtain ⟨-, hstep⟩ := Option.ite_none_right_eq_some.mp hstep
      obtain rfl := Option.some.inj hstep
      cases hlive : s.live with
      | false =>
          have hquiet : s.pushed (.message now message) = [] := by
            cases message with
            | none => rfl
            | some flow => rw [pushed, if_neg (by simp [hlive])]
          simp only [cometsAfter, hquiet, onMessage, hlive]
          exact h.same rfl
      | true =>
          cases message with
          | none =>
              simp only [onMessage, hlive]
              exact h.same rfl
          | some flow =>
              simp only [cometsAfter, pushed, onMessage, hlive]
              exact h.pushAll now [flow]
  | firstRecent now reply =>
      obtain ⟨-, hstep⟩ := Option.ite_none_right_eq_some.mp hstep
      obtain rfl := Option.some.inj hstep
      cases reply with
      | none => exact h.same rfl
      | some flows =>
          rw [cometsAfter, pushed]
          dsimp only
          by_cases hlive : s.live = true
          · rw [if_pos hlive, if_pos hlive]
            exact h.pushAll_of_same (t := { s with phase := .connected }) rfl rfl rfl now
              flows.reverse
          · rw [if_neg hlive, if_neg hlive]
            exact h.same rfl

/-! ## The counters of a push -/

theorem counters_push (now : ℚ) (flow : Flow) :
    (s.push now flow).total =
        s.total + ([flow].filter fun f ↦ displayed s.scene f).length ∧
      (s.push now flow).rateWindow =
        s.rateWindow ++ ([flow].filter fun f ↦ displayed s.scene f).map fun _ ↦ now := by
  cases hflow : displayed s.scene flow with
  | true =>
      obtain ⟨base, -, hpush⟩ := @push_of_displayed s now flow hflow
      rw [hpush, List.filter_cons_of_pos hflow]
      exact ⟨rfl, rfl⟩
  | false =>
      rw [push_of_not_displayed hflow, List.filter_cons_of_neg (by simp [hflow])]
      exact ⟨rfl, (List.append_nil _).symm⟩

theorem counters_pushAll (now : ℚ) (flows : List Flow) :
    (s.pushAll now flows).total = s.total + (flows.filter fun f ↦ displayed s.scene f).length ∧
      (s.pushAll now flows).rateWindow =
        s.rateWindow ++ (flows.filter fun f ↦ displayed s.scene f).map fun _ ↦ now := by
  induction flows generalizing s with
  | nil => exact ⟨rfl, (List.append_nil _).symm⟩
  | cons f flows ih =>
      obtain ⟨htotal, hwindow⟩ := ih (s := s.push now f)
      obtain ⟨htotal', hwindow'⟩ := counters_push (s := s) now f
      rw [push_scene] at htotal hwindow
      have hcons : (f :: flows).filter (fun f ↦ displayed s.scene f) =
          [f].filter (fun f ↦ displayed s.scene f) ++
            flows.filter fun f ↦ displayed s.scene f := List.filter_append [f] flows
      rw [hcons, List.length_append, List.map_append]
      exact ⟨by rw [pushAll, List.foldl_cons, ← pushAll, htotal, htotal', Nat.add_assoc],
        by rw [pushAll, List.foldl_cons, ← pushAll, hwindow, hwindow', List.append_assoc]⟩

/-- A step counts what it pushes and shows. -/
theorem counters_step {a : Action} (hstep : s.step a = some t) :
    t.total = s.total + (s.counted a).length ∧ t.rateWindow = s.rateWindow ++ s.counted a := by
  by_cases ha : a.isCall
  · cases a with
    | goLive | replay =>
        obtain rfl := Option.some.inj hstep
        exact ⟨rfl, (List.append_nil _).symm⟩
    | _ => exact ha.elim
  · obtain ⟨u, hu, rfl⟩ := exists_prepared ha hstep
    obtain ⟨htotal, hwindow⟩ := counters_pushAll (s := u) (a.time.getD 0) (s.pushed a)
    rw [htotal, hwindow, hu.total, hu.rateWindow, counted, List.length_map]
    rcases hu.scene with hnone | hscene
    · rw [hnone]
      exact ⟨rfl, rfl⟩
    · rw [hscene]
      exact ⟨rfl, rfl⟩

end Stream

/-! ## The counters -/

structure Stats where
  rate : ℕ
  total : ℕ
  deriving DecidableEq

def RATE_WINDOW_MS : ℚ := 1000

/-- The state of `useFlows` with what its timer shows.  No code reads the last three:
when the clock was last read, the comets since the buffer was last emptied, and the
times of the pushes that showed a flow. -/
structure Meter where
  stream : Stream
  stats : Stats
  clock : ℚ
  comets : List LiveFlow
  times : List ℚ

namespace Meter

inductive Event
  | stream (a : Stream.Action)
  | stats (now : ℚ)

/-- `performance.now()` does not go back. -/
def step (m : Meter) : Event → Option Meter
  | .stream a =>
      if ∀ now ∈ a.time, m.clock ≤ now then
        (m.stream.step a).map fun s ↦
          { m with
            stream := s
            clock := a.time.getD m.clock
            comets := m.stream.cometsAfter m.comets a
            times := m.times ++ m.stream.counted a }
      else none
  | .stats now =>
      if m.clock ≤ now then
        let w := m.stream.rateWindow.dropWhile fun t ↦ RATE_WINDOW_MS < now - t
        some { m with
          stream := { m.stream with rateWindow := w }
          stats := ⟨w.length, m.stream.total⟩
          clock := now }
      else none

/-- `useFlows` as it comes up. -/
def init (scene : Scene) (now : ℚ) : Meter := ⟨Stream.init scene, ⟨0, 0⟩, now, [], []⟩

structure Inv (m : Meter) : Prop where
  buffer : m.stream.Holds m.comets
  total : m.stream.total = m.times.length
  window : Within RATE_WINDOW_MS m.clock m.times m.stream.rateWindow

variable {m m' : Meter}

theorem inv_init (scene : Scene) (now : ℚ) : (init scene now).Inv where
  buffer := Stream.holds_nil rfl
  total := rfl
  window := Within.nil _ _

theorem within_counted {window now : ℚ} {times kept : List ℚ} (h : Within window now times kept)
    (flows : List Flow) :
    Within window now (times ++ flows.map fun _ ↦ now) (kept ++ flows.map fun _ ↦ now) := by
  induction flows generalizing times kept with
  | nil => simpa using h
  | cons f flows ih =>
      have hrest := ih h.concat
      rw [List.append_assoc, List.append_assoc] at hrest
      exact hrest

theorem counted_of_time_none {s : Stream} {a : Stream.Action} (h : a.time = none) :
    s.counted a = [] := by
  cases a with
  | goLive => rfl
  | replay now flows => rfl
  | loaded scene => rfl
  | config scene => rfl
  | _ => cases h

theorem Inv.step {e : Event} (h : m.Inv) (hstep : m.step e = some m') : m'.Inv := by
  cases e with
  | stream a =>
      obtain ⟨hclock, hstep⟩ := Option.ite_none_right_eq_some.mp hstep
      obtain ⟨s, hs, rfl⟩ := Option.map_eq_some_iff.mp hstep
      obtain ⟨htotal, hwindow⟩ := Stream.counters_step hs
      refine ⟨h.buffer.step hs, ?_, ?_⟩
      · rw [htotal, h.total, List.length_append]
      · rw [hwindow]
        cases htime : a.time with
        | none =>
            simp only [counted_of_time_none htime, List.append_nil, Option.getD_none]
            exact h.window
        | some now =>
            have hlater := h.window.later (hclock now htime)
            simp only [Stream.counted, htime, Option.getD_some]
            exact within_counted hlater _
  | stats now =>
      obtain ⟨hclock, hstep⟩ := Option.ite_none_right_eq_some.mp hstep
      obtain rfl := Option.some.inj hstep
      exact ⟨h.buffer.of_flows rfl, h.total, (h.window.later hclock).prune⟩

/-- What the timer shows. -/
theorem Inv.stats (h : m.Inv) {now : ℚ} (hstep : m.step (.stats now) = some m') :
    m'.stats = ⟨(m.times.filter fun t ↦ now - t ≤ RATE_WINDOW_MS).length, m.times.length⟩ := by
  obtain ⟨hclock, hstep⟩ := Option.ite_none_right_eq_some.mp hstep
  obtain rfl := Option.some.inj hstep
  rw [← (h.window.later hclock).prune_eq, ← h.total]

/-- However its producers interleave, the buffer has the newest comets since it was
last emptied, and the timer shows how many pushes of the last second and of all time
have shown a flow. -/
theorem meter_run {scene : Scene} {start : ℚ} {evs : List Event}
    (h : Machine.run step (init scene start) evs = some m) :
    m.stream.flows = newest MAX_FLOWS m.comets ∧ m.stream.flows.length ≤ MAX_FLOWS ∧
      ∀ now m', m.step (.stats now) = some m' →
        m'.stats = ⟨(m.times.filter fun t ↦ now - t ≤ RATE_WINDOW_MS).length, m.times.length⟩ := by
  have hinv : m.Inv :=
    Machine.run_invariant (fun _ _ _ hm hstep ↦ Inv.step hm hstep) (inv_init scene start) h
  refine ⟨hinv.buffer.newest, ?_, fun now m' hstep ↦ hinv.stats hstep⟩
  rw [hinv.buffer.newest]
  exact length_newest_le _ _

def twoPushes : List Event :=
  [.stream (.loaded plainScene), .stream (.config none), .stream (.firstRecent 100 (some [])),
    .stream (.message 200 (some Stream.someFlow)), .stream (.message 900 (some Stream.someFlow))]

theorem times_twoPushes :
    (Machine.run step (init plainScene 0) twoPushes).map Meter.times = some [200, 900] := by
  decide +kernel

/-- Of two flows, one was pushed within the second before the timer runs. -/
theorem meter_run_twoPushes : ∃ m, Machine.run step (init plainScene 0) twoPushes = some m ∧
    ∀ m', m.step (.stats 1500) = some m' → m'.stats = ⟨1, 2⟩ := by
  obtain ⟨m, hrun, htimes⟩ := Option.map_eq_some_iff.mp times_twoPushes
  refine ⟨m, hrun, fun m' hstep ↦ ?_⟩
  rw [(meter_run hrun).2.2 1500 m' hstep, htimes]
  decide +kernel

end Meter

end TrafficMap.Web
