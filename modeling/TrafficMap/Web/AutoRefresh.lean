import TrafficMap.Web.Playback
import TrafficMap.Web.Pushes
import TrafficMap.Web.Replay

/-!
# Auto-refresh

The range effect of `App.tsx` on a clock: it loads the window when it runs and
again at each tick of its interval, the replies come after any delay, and the
timers of a replay fire at their times.  A reply starts the next replay, and the
timers of the one before do nothing from then on.
-/

namespace TrafficMap.Web

/-- The operator selects something else. -/
def Event.isSelection : Event → Bool
  | .selectRange _ => true
  | .selectRefresh _ => true
  | .effect => true
  | .brush _ => true
  | _ => false

/-- The timer that fires. -/
def Event.fires : Event → Option ℕ
  | .timer i _ => some i
  | _ => none

namespace Stream

/-! ## Timers of the stream -/

/-- The timers of the replay in force. -/
def pending (s : Stream) : List Timer := s.timers.filter fun timer ↦ timer.seq = s.replaySeq

section Timers

variable {s t : Stream}

theorem pushAll_timers (now : ℚ) (flows : List Flow) :
    (s.pushAll now flows).timers = s.timers ∧
      (s.pushAll now flows).replaySeq = s.replaySeq := by
  induction flows generalizing s with
  | nil => exact ⟨rfl, rfl⟩
  | cons f flows ih =>
      obtain ⟨htimers, hseq⟩ := ih (s := s.push now f)
      exact ⟨htimers.trans (push_timers now f), hseq.trans (push_replaySeq now f)⟩

theorem onTimer_cases {i : ℕ} {now : ℚ} (h : s.onTimer now i = some t) :
    ∃ timer, s.timers[i]? = some timer ∧ t.timers = s.timers.eraseIdx i ∧
      t.replaySeq = s.replaySeq := by
  obtain ⟨timer, htimer, rfl⟩ := Option.map_eq_some_iff.mp h
  refine ⟨timer, htimer, ?_⟩
  dsimp only
  split
  · exact ⟨push_timers now timer.flow, push_replaySeq now timer.flow⟩
  · exact ⟨rfl, rfl⟩

/-- A new replay leaves no timer of an older one in force. -/
theorem pending_replay (hs : s.SeqLe) (now : ℚ) (flows : List Flow) :
    (s.replay now flows).pending = replayTimers now (s.replaySeq + 1) flows := by
  have hold : (s.timers.filter fun timer ↦ timer.seq = s.replaySeq + 1) = [] := by
    refine List.filter_eq_nil_iff.mpr fun timer htimer ↦ ?_
    have hle := hs timer htimer
    rw [decide_eq_true_eq]
    omega
  have hnew : ((replayTimers now (s.replaySeq + 1) flows).filter fun timer ↦
      timer.seq = s.replaySeq + 1) = replayTimers now (s.replaySeq + 1) flows :=
    List.filter_eq_self.mpr fun timer htimer ↦ by simp [(mem_replayTimers htimer).1]
  change ((s.timers ++ replayTimers now (s.replaySeq + 1) flows).filter fun timer ↦
    timer.seq = s.replaySeq + 1) = replayTimers now (s.replaySeq + 1) flows
  rw [List.filter_append, hold, hnew, List.nil_append]

theorem pending_congr (htimers : t.timers = s.timers) (hseq : t.replaySeq = s.replaySeq) :
    t.pending = s.pending := by
  rw [pending, pending, htimers, hseq]

/-- The timer that fires leaves the pending ones, if it is of the replay in force. -/
theorem pending_onTimer {i : ℕ} {now : ℚ} {timer : Timer} (htimer : s.timers[i]? = some timer)
    (h : s.onTimer now i = some t) :
    s.pending.Perm (if timer.seq = s.replaySeq then timer :: t.pending else t.pending) := by
  obtain ⟨_, -, htimers, hseq⟩ := onTimer_cases h
  obtain ⟨hi, hget⟩ := List.getElem?_eq_some_iff.mp htimer
  have hperm := (List.getElem_cons_eraseIdx_perm hi).symm.filter
    fun timer ↦ decide (timer.seq = s.replaySeq)
  rw [hget, ← htimers] at hperm
  have hpending : t.pending = t.timers.filter fun timer ↦ timer.seq = s.replaySeq := by
    rw [pending, hseq]
  rw [hpending]
  by_cases hown : timer.seq = s.replaySeq
  · rw [if_pos hown]
    rwa [List.filter_cons_of_pos (by simpa using hown)] at hperm
  · rw [if_neg hown]
    rwa [List.filter_cons_of_neg (by simpa using hown)] at hperm

end Timers

end Stream

/-! ## The page on a clock -/

/-- The page while a range is selected, with the replay that its last reply has
started, and the flows this has pushed. -/
structure AutoRefresh where
  app : App
  clock : ℚ
  nextTick : ℚ
  playing : Option (ℚ × List Flow)
  shown : List Flow

/-- The intervals to choose from, 0 for none. -/
def refreshMenu : List ℕ := [0, 5, 10, 30, 60, 300, 600]

namespace AutoRefresh

variable (r : AutoRefresh)

/-- When an event comes: a tick at its time, and what has no time of its own at
once. -/
def time : Event → ℚ
  | .tick => r.nextTick
  | .history _ now _ => now
  | .recent now _ => now
  | .timer _ now => now
  | .message now _ => now
  | .firstRecent now _ => now
  | _ => r.clock

/-- An event in its time.  Timers fire at their times, and before anything else
that comes then. -/
structure OnTime (e : Event) : Prop where
  stays : e.isSelection = false
  clock_le : r.clock ≤ r.time e
  le_tick : r.app.interval.isSome → r.time e ≤ r.nextTick
  le_due : ∀ timer ∈ r.app.stream.timers, r.time e ≤ timer.due
  lt_due : e.fires = none → ∀ timer ∈ r.app.stream.timers, r.time e < timer.due
  due : ∀ i ∈ e.fires, ∀ timer ∈ r.app.stream.timers[i]?, timer.due = r.time e

instance decidableOnTime (e : Event) : Decidable (r.OnTime e) :=
  decidable_of_iff
    (e.isSelection = false ∧ r.clock ≤ r.time e ∧
      (r.app.interval.isSome → r.time e ≤ r.nextTick) ∧
      (∀ timer ∈ r.app.stream.timers, r.time e ≤ timer.due) ∧
      (e.fires = none → ∀ timer ∈ r.app.stream.timers, r.time e < timer.due) ∧
      ∀ i ∈ e.fires, ∀ timer ∈ r.app.stream.timers[i]?, timer.due = r.time e)
    ⟨fun ⟨a, b, c, d, f, g⟩ ↦ ⟨a, b, c, d, f, g⟩, fun ⟨a, b, c, d, f, g⟩ ↦ ⟨a, b, c, d, f, g⟩⟩

def nextTickAfter : Event → ℚ
  | .tick => r.nextTick + r.app.refresh * 1000
  | _ => r.nextTick

def playingAfter : Event → Option (ℚ × List Flow)
  | .history _ now (some flows) => some (now, flows)
  | _ => r.playing

def shownAfter : Event → List Flow
  | .history _ _ (some _) => []
  | .timer i now => r.shown ++ r.app.stream.pushed (.timer i now)
  | _ => r.shown

def step (e : Event) : Option AutoRefresh :=
  if r.OnTime e then
    (r.app.step e).map fun app ↦
      ⟨app, r.time e, r.nextTickAfter e, r.playingAfter e, r.shownAfter e⟩
  else none

/-- After the effect has run. -/
def start (app : App) (now : ℚ) : AutoRefresh := ⟨app, now, now + app.refresh * 1000, none, []⟩

/-- A new replay finds the one before it finished. -/
def Finished (e : Event) : Prop :=
  r.OnTime e → e.isReplay = true → ∀ begin flows, r.playing = some (begin, flows) →
    flows.Subperm r.shown

/-- A new replay comes no earlier than the last flow of the one before is due. -/
def Over (e : Event) : Prop :=
  r.OnTime e → e.isReplay = true → ∀ begin flows, r.playing = some (begin, flows) →
    ∀ f ∈ flows, begin + Stream.delay flows f ≤ r.time e

/-! ## What a replay has shown -/

/-- The timers of the replay have fired or are pending. -/
structure Plays (r : AutoRefresh) : Prop where
  seqLe : r.app.stream.SeqLe
  timers : ∀ begin flows, r.playing = some (begin, flows) → ∃ fired : List Timer,
    (fired ++ r.app.stream.pending).Perm
      (Stream.replayTimers begin r.app.stream.replaySeq flows) ∧
    r.shown = fired.map Timer.flow ∧ ∀ timer ∈ fired, timer.due ≤ r.clock

section Step

variable {r r' : AutoRefresh} {u v : App} {e : Event}

theorem step_eq_some (h : r.step e = some r') : r.OnTime e ∧ ∃ app, r.app.step e = some app ∧
    r' = ⟨app, r.time e, r.nextTickAfter e, r.playingAfter e, r.shownAfter e⟩ := by
  obtain ⟨hon, h⟩ := Option.ite_none_right_eq_some.mp h
  obtain ⟨app, happ, rfl⟩ := Option.map_eq_some_iff.mp h
  exact ⟨hon, app, happ, rfl⟩

theorem step_of_onTime (hon : r.OnTime e) (h : r.app.step e = some v) :
    r.step e = some ⟨v, r.time e, r.nextTickAfter e, r.playingAfter e, r.shownAfter e⟩ := by
  rw [step, if_pos hon, h, Option.map_some]

theorem seqLe_appStep (hu : u.stream.SeqLe) (h : u.step e = some v) : v.stream.SeqLe := by
  rcases Stream.step_of_appStep h with hsame | ⟨a, ha⟩
  · rw [hsame]
    exact hu
  · exact Stream.seqLe_step hu ha

theorem seqLe_run {scene : Scene} {evs : List Event}
    (h : Machine.run App.step (App.init scene) evs = some u) : u.stream.SeqLe :=
  Machine.run_invariant (I := fun u : App ↦ u.stream.SeqLe) (fun _ _ _ ↦ seqLe_appStep)
    (fun _ htimer ↦ absurd htimer List.not_mem_nil) h

/-- The events of the other producers. -/
theorem quiet_actionOf {a : Stream.Action} (hstays : e.isSelection = false)
    (hreplay : e.isReplay = false) (hfires : e.fires = none)
    (ha : Stream.actionOf u e = some a) :
    ¬ a.isCall ∧ ∀ s : Stream, s.timersAfter a = s.timers := by
  cases e with
  | selectRange range => cases hstays
  | selectRefresh refresh => cases hstays
  | effect => cases hstays
  | brush w => cases hstays
  | tick => cases ha
  | timer i now => cases hfires
  | history i now reply =>
      cases reply with
      | none => cases ha
      | some flows => cases hreplay
  | _ =>
      obtain rfl := Option.some.inj ha
      exact ⟨id, fun _ ↦ rfl⟩

/-- Apart from replies to history and from timers, nothing touches the timers. -/
theorem quiet_of_appStep (hstays : e.isSelection = false) (hreplay : e.isReplay = false)
    (hfires : e.fires = none) (h : u.step e = some v) :
    v.stream.timers = u.stream.timers ∧ v.stream.replaySeq = u.stream.replaySeq := by
  have hstream := Stream.stream_of_appStep h
  cases ha : Stream.actionOf u e with
  | none =>
      rw [ha] at hstream
      rw [hstream]
      exact ⟨rfl, rfl⟩
  | some a =>
      rw [ha] at hstream
      obtain ⟨hcall, hsame⟩ := quiet_actionOf hstays hreplay hfires ha
      obtain ⟨t, ht, hpush⟩ := Stream.exists_prepared hcall hstream
      obtain ⟨htimers, hseq⟩ := Stream.pushAll_timers (s := t) (a.time.getD 0)
        (u.stream.pushed a)
      rw [← hpush] at htimers hseq
      exact ⟨htimers.trans (ht.timers.trans (hsame _)), hseq.trans ht.replaySeq⟩

theorem quiet_after (hreplay : e.isReplay = false) (hfires : e.fires = none) :
    r.playingAfter e = r.playing ∧ r.shownAfter e = r.shown := by
  cases e with
  | timer i now => cases hfires
  | history i now reply =>
      cases reply with
      | none => exact ⟨rfl, rfl⟩
      | some flows => cases hreplay
  | _ => exact ⟨rfl, rfl⟩

/-- The reply starts a replay of its own. -/
theorem plays_reply {i : ℕ} {now : ℚ} {flows : List Flow} (hr : r.Plays)
    (h : r.step (.history i now (some flows)) = some r') : r'.Plays := by
  obtain ⟨-, app, happ, rfl⟩ := step_eq_some h
  refine ⟨seqLe_appStep hr.seqLe happ, fun begin flows' hplaying ↦ ?_⟩
  obtain ⟨rfl, rfl⟩ := Prod.mk.inj (Option.some.inj hplaying)
  obtain ⟨-, happ⟩ := Option.ite_none_right_eq_some.mp happ
  obtain rfl := Option.some.inj happ
  refine ⟨[], ?_, rfl, fun timer htimer ↦ absurd htimer List.not_mem_nil⟩
  exact (Stream.pending_replay hr.seqLe now flows).symm ▸ List.Perm.refl _

/-- A timer fires at its time, and pushes its flow if its replay is in force. -/
theorem plays_timer {i : ℕ} {now : ℚ} (hr : r.Plays) (h : r.step (.timer i now) = some r') :
    r'.Plays := by
  obtain ⟨hon, app, happ, rfl⟩ := step_eq_some h
  refine ⟨seqLe_appStep hr.seqLe happ, fun begin flows hplaying ↦ ?_⟩
  obtain ⟨fired, hperm, hshown, hdue⟩ := hr.timers begin flows hplaying
  obtain ⟨t, ht, rfl⟩ := withStream_eq_some happ
  obtain ⟨timer, htimer, htimers, hseq⟩ := Stream.onTimer_cases ht
  have hpending := Stream.pending_onTimer htimer ht
  have hclock : ∀ timer ∈ fired, timer.due ≤ now :=
    fun timer htimer ↦ (hdue timer htimer).trans hon.clock_le
  have hpushed : r.app.stream.pushed (.timer i now) =
      if timer.seq = r.app.stream.replaySeq then [timer.flow] else [] := by
    simp only [Stream.pushed, htimer, eq_comm]
  dsimp only
  rw [hseq, shownAfter, hpushed]
  by_cases hown : timer.seq = r.app.stream.replaySeq
  · rw [if_pos hown] at hpending ⊢
    refine ⟨fired ++ [timer], ?_, ?_, ?_⟩
    · rw [List.append_assoc]
      exact (hpending.symm.append_left fired).trans hperm
    · rw [hshown, List.map_append, List.map_singleton]
    · intro other hother
      rcases List.mem_append.mp hother with hold | hnew
      · exact hclock other hold
      · rw [List.mem_singleton.mp hnew]
        exact (hon.due i rfl timer htimer).le
  · rw [if_neg hown] at hpending ⊢
    exact ⟨fired, (hpending.symm.append_left fired).trans hperm,
      (List.append_nil r.shown).trans hshown, hclock⟩

theorem plays_step (hr : r.Plays) (h : r.step e = some r') : r'.Plays := by
  cases hreplay : e.isReplay with
  | true =>
      cases e with
      | history i now reply =>
          cases reply with
          | none => cases hreplay
          | some flows => exact plays_reply hr h
      | _ => cases hreplay
  | false =>
      cases hfires : e.fires with
      | some i =>
          cases e with
          | timer i now => exact plays_timer hr h
          | _ => cases hfires
      | none =>
          obtain ⟨hon, app, happ, rfl⟩ := step_eq_some h
          obtain ⟨hplaying, hshown⟩ := quiet_after (r := r) hreplay hfires
          obtain ⟨htimers, hseq⟩ := quiet_of_appStep hon.stays hreplay hfires happ
          refine ⟨seqLe_appStep hr.seqLe happ, fun begin flows hbegin ↦ ?_⟩
          obtain ⟨fired, hperm, hfired, hdue⟩ :=
            hr.timers begin flows (hplaying.symm.trans hbegin)
          refine ⟨fired, ?_, hshown.trans hfired, fun timer htimer ↦ ?_⟩
          · rwa [Stream.pending_congr htimers hseq, hseq]
          · exact (hdue timer htimer).trans hon.clock_le

/-- When a reply comes, the flows that were due have been pushed, and no others. -/
theorem finished_iff_over (hr : r.Plays) (e : Event) : r.Finished e ↔ r.Over e := by
  refine forall₂_congr fun hon hreplay ↦ forall₃_congr fun begin flows hplaying ↦ ?_
  obtain ⟨fired, hperm, hshown, hdue⟩ := hr.timers begin flows hplaying
  have hfires : e.fires = none := by
    cases e with
    | timer i now => cases hreplay
    | _ => rfl
  rw [Stream.replayTimers_eq] at hperm
  constructor
  · intro hsub f hf
    have hnone : r.app.stream.pending = [] := by
      have hlength := hperm.length_eq
      have hle := hsub.length_le
      rw [hshown, List.length_map] at hle
      rw [List.length_append, List.length_map, List.length_mergeSort] at hlength
      exact List.eq_nil_of_length_eq_zero (by omega)
    rw [hnone, List.append_nil] at hperm
    have hmem := hperm.mem_iff.mpr (List.mem_map_of_mem (List.mem_mergeSort.mpr hf))
    exact (hdue _ hmem).trans hon.clock_le
  · intro hover
    have hnone : r.app.stream.pending = [] := by
      refine List.eq_nil_iff_forall_not_mem.mpr fun timer htimer ↦ ?_
      have hlate := hon.lt_due hfires timer (List.mem_filter.mp htimer).1
      obtain ⟨f, hf, rfl⟩ := List.mem_map.mp (hperm.mem_iff.mp (List.mem_append_right fired htimer))
      exact absurd (hover f (List.mem_mergeSort.mp hf)) (not_le.mpr hlate)
    rw [hnone, List.append_nil] at hperm
    have hflows := hperm.map Timer.flow
    rw [← hshown, List.map_map] at hflows
    have hsorted : (flows.mergeSort Stream.recvOrder).map (Timer.flow ∘ fun f ↦
        ⟨begin + Stream.delay flows f, r.app.stream.replaySeq, f⟩) =
          flows.mergeSort Stream.recvOrder := List.map_id _
    rw [hsorted] at hflows
    exact ((List.mergeSort_perm flows Stream.recvOrder).symm.trans hflows.symm).subperm

end Step

/-- For a response whose flows have receive times. -/
theorem le_due_iff {begin t : ℚ} {flows : List Flow} (hrecv : Stream.Received flows)
    (hne : flows ≠ []) : (∀ f ∈ flows, begin + Stream.delay flows f ≤ t) ↔
      begin + min 1 (Stream.lastSec flows - Stream.firstSec flows) * REPLAY_MS ≤ t := by
  simp only [← le_sub_iff_add_le']
  exact Stream.forall_delay_le_iff hrecv hne (t - begin)

/-- While the operator stays with a range, every replay is finished before the
next begins exactly if none begins before the last flow of the one before is
due. -/
theorem finished_run_iff (scene : Scene) (evs : List Event) (u v : App)
    (hreach : Machine.run App.step (App.init scene) evs = some u)
    (heffect : u.step .effect = some v) (now : ℚ) (es : List Event) :
    Machine.Along step Finished (start v now) es ↔ Machine.Along step Over (start v now) es := by
  apply Machine.along_congr (I := Plays)
  · intro r e r' hr h
    exact plays_step hr h
  · intro r e hr
    exact finished_iff_over hr e
  · exact ⟨seqLe_appStep (seqLe_run hreach) heffect, fun _ _ hplaying ↦ by cases hplaying⟩

/-! ## The last five minutes -/

def firstFlow : Flow := { Stream.someFlow with recvSec := some 0 }

def lastFlow : Flow := { Stream.someFlow with recvSec := some 60 }

/-- The page has come up live, and the operator selects the range. -/
def lastMinutes : App :=
  { App.init plainScene with
    range := .last 300
    ran := some (.live, 5)
    stream := (App.init plainScene).stream.goLive }

/-- Its effect has run. -/
def loading : App :=
  { lastMinutes with
    ran := some (.last 300, 5)
    interval := some (histQuery 300)
    histories := [histQuery 300] }

def response : List Flow := [firstFlow, lastFlow]

theorem response_sorted : response.mergeSort Stream.recvOrder = response :=
  List.mergeSort_of_pairwise (by simp [Stream.recvOrder, response, firstFlow, lastFlow])

theorem firstSec_response : Stream.firstSec response = 0 := by
  rw [Stream.firstSec, response_sorted]
  rfl

theorem lastSec_response : Stream.lastSec response = 60 := by
  rw [Stream.lastSec, response_sorted]
  rfl

theorem delay_response (f : Flow) :
    Stream.delay response f = f.recvSec.getD 0 / 60 * REPLAY_MS := by
  have hspan : max 1 (60 - 0) = (60 : ℚ) := by norm_num
  rw [Stream.delay, firstSec_response, lastSec_response, hspan, sub_zero]

/-- With the reply after a tenth of a second. -/
def replaying : AutoRefresh where
  app := { loading with
    histories := []
    stream := { loading.stream with
      live := false
      replaySeq := 2
      timers := [⟨100, 2, firstFlow⟩, ⟨15100, 2, lastFlow⟩] } }
  clock := 100
  nextTick := (start loading 0).nextTick
  playing := some (100, response)
  shown := []

theorem step_response : step (start loading 0) (.history 0 100 (some response)) =
    some replaying := by
  have hon : (start loading 0).OnTime (.history 0 100 (some response)) := by decide +kernel
  have htimers : Stream.replayTimers 100 2 response =
      [⟨100, 2, firstFlow⟩, ⟨15100, 2, lastFlow⟩] := by
    rw [Stream.replayTimers_eq, response_sorted]
    simp only [delay_response]
    norm_num [response, firstFlow, lastFlow]
  have happ : (start loading 0).app.step (.history 0 100 (some response)) =
      some replaying.app := by
    rw [replaying, ← htimers]
    rfl
  exact step_of_onTime hon happ

/-- The first flow, and the next load. -/
theorem exists_reloading : ∃ r, Machine.run step replaying [.timer 0 100, .tick] = some r ∧
    r.playing = some (100, response) ∧ r.shown = [firstFlow] ∧
    r.OnTime (.history 0 5100 (some response)) := by
  have htimer : replaying.OnTime (.timer 0 100) := by decide +kernel
  rw [Machine.run_cons_of_step (step_of_onTime htimer rfl)]
  refine ⟨_, Machine.run_cons_of_step (step_of_onTime ?_ rfl), rfl, rfl, ?_⟩
  · decide +kernel
  · decide +kernel

/-- With an interval of five seconds and quick replies, the second replay begins
while a flow of the first is to come. -/
theorem tail_cut : loading.refresh ∈ refreshMenu ∧
    Machine.run App.step (App.init plainScene) [.effect, .selectRange (.last 300)] =
      some lastMinutes ∧
    lastMinutes.step .effect = some loading ∧
    ¬ Machine.Along step Finished (start loading 0)
      [.history 0 100 (some response), .timer 0 100, .tick, .history 0 5100 (some response)] := by
  refine ⟨by decide, rfl, rfl, ?_⟩
  rintro ⟨-, hfirst⟩
  have hrest : Machine.Along step Finished replaying
      ([.timer 0 100, .tick] ++ [.history 0 5100 (some response)]) :=
    hfirst replaying step_response
  obtain ⟨r, hr, hplaying, hshown, hon⟩ := exists_reloading
  obtain ⟨hfinished, -⟩ := (Machine.along_append.mp hrest).2 r hr
  have hsub := hfinished hon rfl 100 response hplaying
  rw [hshown] at hsub
  exact absurd hsub.length_le (by decide)

/-- The second reply comes after fifteen seconds. -/
def slowly : List Event :=
  [.history 0 100 (some response), .timer 0 100, .tick, .tick, .tick, .timer 0 15100,
    .history 0 15200 (some response)]

theorem playing_of_step {r r' : AutoRefresh} {e : Event} (h : r.step e = some r') :
    r'.playing = r.playingAfter e := by
  obtain ⟨-, app, -, rfl⟩ := step_eq_some h
  rfl

theorem over_of_not_isReplay {r : AutoRefresh} {e : Event} (h : e.isReplay = false) : r.Over e := by
  intro _ hreplay
  rw [h] at hreplay
  cases hreplay

theorem slowly_finished :
    Machine.Along step Finished (start loading 0) slowly := by
  refine (finished_run_iff plainScene [.effect, .selectRange (.last 300)] lastMinutes loading rfl
    rfl 0 slowly).mpr ?_
  refine ⟨fun _ _ begin flows hplaying ↦ (by cases hplaying), fun r₁ h₁ ↦ ?_⟩
  refine ⟨over_of_not_isReplay rfl, fun r₂ h₂ ↦ ⟨over_of_not_isReplay rfl, fun r₃ h₃ ↦ ?_⟩⟩
  refine ⟨over_of_not_isReplay rfl, fun r₄ h₄ ↦ ⟨over_of_not_isReplay rfl, fun r₅ h₅ ↦ ?_⟩⟩
  refine ⟨over_of_not_isReplay rfl, fun r₆ h₆ ↦ ⟨?_, fun _ _ ↦ trivial⟩⟩
  have hplaying : r₆.playing = some (100, response) :=
    (playing_of_step h₆).trans ((playing_of_step h₅).trans ((playing_of_step h₄).trans
      ((playing_of_step h₃).trans ((playing_of_step h₂).trans (playing_of_step h₁)))))
  intro _ _ begin flows hbegin f hf
  rw [hplaying] at hbegin
  obtain ⟨rfl, rfl⟩ := Prod.mk.inj (Option.some.inj hbegin)
  have hlate : (100 : ℚ) + Stream.delay response f ≤ 15200 := by
    rw [delay_response]
    rcases List.mem_cons.mp hf with rfl | hlast
    · norm_num [firstFlow]
    · obtain rfl := List.mem_singleton.mp hlast
      norm_num [lastFlow]
  exact hlate

end AutoRefresh

end TrafficMap.Web
