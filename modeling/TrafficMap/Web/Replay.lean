import TrafficMap.Web.App

/-!
# What a replay shows

The producers of `flowStream.ts` under any interleaving: the calls of `goLive`
and `replay`, the replies to the requests they and the first load have made, the
timers of every replay so far and the live channel.
-/

namespace TrafficMap.Web

namespace Stream

/-! ## The machine -/

inductive Action
  | goLive
  | replay (now : ℚ) (flows : List Flow)
  | recent (now : ℚ) (reply : Option (List Flow))
  | timer (i : ℕ) (now : ℚ)
  | message (now : ℚ) (message : Option Flow)
  | loaded (scene : Scene)
  | config (scene : Option Scene)
  | firstRecent (now : ℚ) (reply : Option (List Flow))

def step (s : Stream) : Action → Option Stream
  | .goLive => some s.goLive
  | .replay now flows => some (s.replay now flows)
  | .recent now reply => s.onRecent now reply
  | .timer i now => s.onTimer now i
  | .message now message =>
      if s.phase = .connected then some (s.onMessage now message) else none
  | .loaded scene => s.onLoaded scene
  | .config scene => s.onConfig scene
  | .firstRecent now reply => s.onFirstRecent now reply

/-- `useFlows` as it comes up. -/
def init (scene : Scene) : Stream := ⟨[], true, 0, [], 0, ∅, scene, .loading, 0, []⟩

/-- The flows that `push` is called with in a step. -/
def pushed (s : Stream) : Action → List Flow
  | .recent _ (some flows) => flows.reverse
  | .timer i _ =>
      match s.timers[i]? with
      | some timer => if s.replaySeq = timer.seq then [timer.flow] else []
      | none => []
  | .message _ (some flow) => if s.live then [flow] else []
  | .firstRecent _ (some flows) => if s.live then flows.reverse else []
  | _ => []

/-! ## What pushing changes -/

/-- The gates of `s` stand in `t`, and no timer has come. -/
structure Keeps (s t : Stream) : Prop where
  live : t.live = s.live
  replaySeq : t.replaySeq = s.replaySeq
  timers : t.timers ⊆ s.timers

/-- What is new in the buffer comes from the given flows. -/
def Adds (s t : Stream) (flows : List Flow) : Prop :=
  ∀ l ∈ t.flows, l ∈ s.flows ∨ l.flow ∈ flows

section Push

variable {s t : Stream}

theorem keeps_refl (s : Stream) : s.Keeps s := ⟨rfl, rfl, List.Subset.refl _⟩

theorem Keeps.trans {u : Stream} (h : s.Keeps t) (h' : t.Keeps u) : s.Keeps u :=
  ⟨h'.live.trans h.live, h'.replaySeq.trans h.replaySeq, List.Subset.trans h'.timers h.timers⟩

theorem keeps_push (now : ℚ) (flow : Flow) : s.Keeps (s.push now flow) := by
  rw [push]
  split
  · exact ⟨rfl, rfl, List.Subset.refl _⟩
  · exact ⟨rfl, rfl, List.Subset.refl _⟩

theorem keeps_pushAll (now : ℚ) (flows : List Flow) : s.Keeps (s.pushAll now flows) := by
  induction flows generalizing s with
  | nil => exact keeps_refl s
  | cons f flows ih => exact (keeps_push now f).trans ih

theorem flow_of_toLive {scene : Scene} {flow : Flow} {born : ℚ} {sources : Sources} {l : LiveFlow}
    (h : (toLive scene flow born sources).1 = some l) : l.flow = flow := by
  rw [toLive] at h
  split at h
  · split at h
    · dsimp only at h
      split at h
      · cases h
      · obtain rfl := Option.some.inj h
        rfl
    · cases h
  · cases h

theorem adds_push (now : ℚ) (flow : Flow) : s.Adds (s.push now flow) [flow] := by
  intro l hl
  rw [push] at hl
  split at hl
  · exact Or.inl hl
  · rename_i base sources hbase
    have hflow : base.flow = flow := flow_of_toLive (congrArg Prod.fst hbase)
    dsimp only at hl
    rcases List.mem_append.mp (List.mem_of_mem_drop hl) with hold | hclone
    · exact Or.inl hold
    · obtain ⟨i, -, rfl⟩ := List.mem_map.mp hclone
      right
      rw [List.mem_singleton, ← hflow]
      split
      · rfl
      · rfl

theorem adds_of_eq {fs : List Flow} (h : t.flows = s.flows) : s.Adds t fs :=
  fun _ hl ↦ Or.inl (h ▸ hl)

theorem Adds.trans {u : Stream} {fs gs : List Flow} (h : s.Adds t fs) (h' : t.Adds u gs) :
    s.Adds u (fs ++ gs) := by
  intro l hl
  rcases h' l hl with hold | hnew
  · rcases h l hold with holder | hnew
    · exact Or.inl holder
    · exact Or.inr (List.mem_append_left _ hnew)
  · exact Or.inr (List.mem_append_right _ hnew)

theorem adds_pushAll (now : ℚ) (flows : List Flow) : s.Adds (s.pushAll now flows) flows := by
  induction flows generalizing s with
  | nil => exact adds_of_eq rfl
  | cons f flows ih => exact (adds_push now f).trans ih

end Push

/-! ## One step -/

/-- The calls that start and end a replay. -/
def Action.isCall : Action → Prop
  | .goLive => True
  | .replay _ _ => True
  | _ => False

/-- When a step pushes. -/
def Action.time : Action → Option ℚ
  | .recent now _ => some now
  | .timer _ now => some now
  | .message now _ => some now
  | .firstRecent now _ => some now
  | _ => none

/-- The timers that a step leaves. -/
def timersAfter (s : Stream) : Action → List Timer
  | .timer i _ => s.timers.eraseIdx i
  | _ => s.timers

/-- The state from which a step pushes. -/
structure Prepared (s : Stream) (a : Action) (u : Stream) : Prop where
  live : u.live = s.live
  replaySeq : u.replaySeq = s.replaySeq
  timers : u.timers = s.timersAfter a
  sources : u.sources = s.sources
  flows : u.flows ⊆ s.flows
  scene : s.pushed a = [] ∨ u.scene = s.scene
  total : u.total = s.total
  rateWindow : u.rateWindow = s.rateWindow

section Step

variable {s t : Stream}

/-- A step that is no call pushes its flows at one time. -/
theorem exists_prepared {a : Action} (ha : ¬ a.isCall) (h : s.step a = some t) :
    ∃ u, s.Prepared a u ∧ t = u.pushAll (a.time.getD 0) (s.pushed a) := by
  cases a with
  | goLive => exact absurd trivial ha
  | replay now flows => exact absurd trivial ha
  | recent now reply =>
      rw [step, onRecent] at h
      split at h
      · cases h
      · rename_i k hk
        obtain rfl := Option.some.inj h
        refine ⟨{ s with recents := k },
          ⟨rfl, rfl, rfl, rfl, List.Subset.refl _, Or.inr rfl, rfl, rfl⟩, ?_⟩
        cases reply with
        | none => rfl
        | some flows => rfl
  | timer i now =>
      obtain ⟨timer, htimer, rfl⟩ := Option.map_eq_some_iff.mp h
      refine ⟨{ s with timers := s.timers.eraseIdx i },
        ⟨rfl, rfl, rfl, rfl, List.Subset.refl _, Or.inr rfl, rfl, rfl⟩, ?_⟩
      rw [pushed, htimer]
      dsimp only
      split
      · rfl
      · rfl
  | message now message =>
      obtain ⟨-, h⟩ := Option.ite_none_right_eq_some.mp h
      obtain rfl := Option.some.inj h
      refine ⟨s, ⟨rfl, rfl, rfl, rfl, List.Subset.refl _, Or.inr rfl, rfl, rfl⟩, ?_⟩
      cases message with
      | none =>
          cases hlive : s.live with
          | false => simp [onMessage, pushed, pushAll, hlive]
          | true => simp [onMessage, pushed, pushAll, hlive]
      | some flow =>
          cases hlive : s.live with
          | false => simp [onMessage, pushed, pushAll, hlive]
          | true => simp [onMessage, pushed, pushAll, hlive, Action.time]
  | loaded scene =>
      obtain ⟨-, h⟩ := Option.ite_none_right_eq_some.mp h
      obtain rfl := Option.some.inj h
      exact ⟨{ s with phase := .config, scene := scene, flows := [] },
        ⟨rfl, rfl, rfl, rfl, List.nil_subset _, Or.inl rfl, rfl, rfl⟩, rfl⟩
  | config scene =>
      obtain ⟨-, h⟩ := Option.ite_none_right_eq_some.mp h
      obtain rfl := Option.some.inj h
      exact ⟨{ s with phase := .recent, scene := scene.getD s.scene },
        ⟨rfl, rfl, rfl, rfl, List.Subset.refl _, Or.inl rfl, rfl, rfl⟩, rfl⟩
  | firstRecent now reply =>
      obtain ⟨-, h⟩ := Option.ite_none_right_eq_some.mp h
      obtain rfl := Option.some.inj h
      refine ⟨{ s with phase := .connected },
        ⟨rfl, rfl, rfl, rfl, List.Subset.refl _, Or.inr rfl, rfl, rfl⟩, ?_⟩
      cases reply with
      | none => rfl
      | some flows =>
          rw [pushed]
          dsimp only
          split
          · rfl
          · rfl

theorem timersAfter_subset (s : Stream) (a : Action) : s.timersAfter a ⊆ s.timers := by
  cases a with
  | timer i now => exact List.eraseIdx_subset
  | _ => exact List.Subset.refl _

theorem keeps_of_step {a : Action} (ha : ¬ a.isCall) (h : s.step a = some t) : s.Keeps t := by
  obtain ⟨u, hu, rfl⟩ := exists_prepared ha h
  have hkeeps : s.Keeps u := ⟨hu.live, hu.replaySeq, hu.timers ▸ timersAfter_subset s a⟩
  exact hkeeps.trans (keeps_pushAll _ _)

/-- Only what a step pushes is new in the buffer. -/
theorem adds_of_step {a : Action} (h : s.step a = some t) : s.Adds t (s.pushed a) := by
  by_cases ha : a.isCall
  · cases a with
    | goLive =>
        obtain rfl := Option.some.inj h
        exact fun l hl ↦ absurd hl List.not_mem_nil
    | replay now flows =>
        obtain rfl := Option.some.inj h
        exact fun l hl ↦ absurd hl List.not_mem_nil
    | _ => exact ha.elim
  · obtain ⟨u, hu, rfl⟩ := exists_prepared ha h
    exact fun l hl ↦ (adds_pushAll _ _ l hl).imp_left fun hold ↦ hu.flows hold

end Step

/-! ## Numbers of replays -/

/-- No timer is of a later replay. -/
def SeqLe (s : Stream) : Prop := ∀ timer ∈ s.timers, timer.seq ≤ s.replaySeq

section Numbers

variable {s t : Stream}

theorem SeqLe.of_keeps (hs : s.SeqLe) (h : s.Keeps t) : t.SeqLe := by
  intro timer htimer
  rw [h.replaySeq]
  exact hs timer (h.timers htimer)

theorem SeqLe.goLive (hs : s.SeqLe) : s.goLive.SeqLe :=
  fun timer htimer ↦ (hs timer htimer).trans (Nat.le_succ _)

theorem mem_replayTimers {now : ℚ} {seq : ℕ} {flows : List Flow} {timer : Timer}
    (h : timer ∈ replayTimers now seq flows) : timer.seq = seq ∧ timer.flow ∈ flows := by
  obtain ⟨f, hf, rfl⟩ := List.mem_map.mp h
  exact ⟨rfl, List.mem_mergeSort.mp hf⟩

theorem SeqLe.replay (hs : s.SeqLe) (now : ℚ) (flows : List Flow) : (s.replay now flows).SeqLe := by
  intro timer htimer
  rcases List.mem_append.mp htimer with hold | hnew
  · exact (hs timer hold).trans (Nat.le_succ _)
  · exact (mem_replayTimers hnew).1.le

theorem seqLe_step {a : Action} (hs : s.SeqLe) (h : s.step a = some t) : t.SeqLe := by
  by_cases ha : a.isCall
  · cases a with
    | goLive =>
        obtain rfl := Option.some.inj h
        exact hs.goLive
    | replay now flows =>
        obtain rfl := Option.some.inj h
        exact hs.replay now flows
    | _ => exact ha.elim
  · exact hs.of_keeps (keeps_of_step ha h)

end Numbers

/-! ## The replay in force -/

/-- The buffer, and the flows of the replay that no later call has ended. -/
structure Watch where
  stream : Stream
  shown : Option (List Flow)

def shownAfter (shown : Option (List Flow)) : Action → Option (List Flow)
  | .goLive => none
  | .replay _ flows => some flows
  | _ => shown

namespace Watch

def step (w : Watch) (a : Action) : Option Watch :=
  (w.stream.step a).map fun s ↦ ⟨s, shownAfter w.shown a⟩

def init (scene : Scene) : Watch := ⟨Stream.init scene, none⟩

/-- While a replay is in force, a step pushes flows of the replay only. -/
def ShowsReplay (w : Watch) (a : Action) : Prop :=
  ∀ flows, w.shown = some flows → ∀ f ∈ w.stream.pushed a, f ∈ flows

/-- A reply to a request of `goLive` that comes in while a replay is in force
brings flows of the replay only. -/
def OwnReplies (w : Watch) (a : Action) : Prop :=
  ∀ now reply flows, a = .recent now (some reply) → w.shown = some flows →
    ∀ f ∈ reply, f ∈ flows

/-- The gates are shut while a replay is in force, and its timers carry its
flows. -/
structure Guarded (w : Watch) : Prop where
  live : w.stream.live = w.shown.isNone
  seq_le : ∀ timer ∈ w.stream.timers, timer.seq ≤ w.stream.replaySeq
  own : ∀ flows, w.shown = some flows → ∀ timer ∈ w.stream.timers,
    timer.seq = w.stream.replaySeq → timer.flow ∈ flows

variable {w w' : Watch}

theorem guarded_init (scene : Scene) : (init scene).Guarded where
  live := rfl
  seq_le _ h := absurd h List.not_mem_nil
  own _ h := by cases h

theorem shownAfter_of_not_isCall {shown : Option (List Flow)} {a : Action} (ha : ¬ a.isCall) :
    shownAfter shown a = shown := by
  cases a with
  | goLive => exact absurd trivial ha
  | replay now flows => exact absurd trivial ha
  | _ => rfl

theorem Guarded.of_keeps {t : Stream} (h : w.Guarded) (hkeeps : w.stream.Keeps t) :
    (⟨t, w.shown⟩ : Watch).Guarded where
  live := hkeeps.live.trans h.live
  seq_le := SeqLe.of_keeps h.seq_le hkeeps
  own flows hshown timer htimer hseq := by
    rw [hkeeps.replaySeq] at hseq
    exact h.own flows hshown timer (hkeeps.timers htimer) hseq

theorem Guarded.goLive (h : w.Guarded) : (⟨w.stream.goLive, none⟩ : Watch).Guarded where
  live := rfl
  seq_le := SeqLe.goLive h.seq_le
  own _ hshown := by cases hshown

theorem Guarded.replay (h : w.Guarded) (now : ℚ) (flows : List Flow) :
    (⟨w.stream.replay now flows, some flows⟩ : Watch).Guarded where
  live := rfl
  seq_le := SeqLe.replay h.seq_le now flows
  own flows' hshown timer htimer hseq := by
    obtain rfl := Option.some.inj hshown
    rcases List.mem_append.mp htimer with hold | hnew
    · -- a timer of an older replay has an older number
      have hle := h.seq_le timer hold
      have hnumber : timer.seq = w.stream.replaySeq + 1 := hseq
      omega
    · exact (mem_replayTimers hnew).2

theorem guarded_step {a : Action} (h : w.Guarded) (hstep : w.step a = some w') : w'.Guarded := by
  obtain ⟨t, ht, rfl⟩ := Option.map_eq_some_iff.mp hstep
  by_cases ha : a.isCall
  · cases a with
    | goLive =>
        obtain rfl := Option.some.inj ht
        exact h.goLive
    | replay now flows =>
        obtain rfl := Option.some.inj ht
        exact h.replay now flows
    | _ => exact ha.elim
  · rw [shownAfter_of_not_isCall ha]
    exact h.of_keeps (keeps_of_step ha ht)

/-- Of the producers, only the reply to `goLive` passes the gates. -/
theorem showsReplay_iff (h : w.Guarded) (a : Action) : w.ShowsReplay a ↔ w.OwnReplies a := by
  constructor
  · rintro hshows now reply flows rfl hshown f hf
    exact hshows flows hshown f (List.mem_reverse.mpr hf)
  · intro hown flows hshown f hf
    have hlive : w.stream.live = false := by
      rw [h.live, hshown]
      rfl
    cases a with
    | recent now reply =>
        cases reply with
        | none => cases hf
        | some reply => exact hown now reply flows rfl hshown f (List.mem_reverse.mp hf)
    | timer i now =>
        rw [pushed] at hf
        split at hf
        · rename_i timer htimer
          split at hf
          · rename_i hseq
            obtain rfl := List.mem_singleton.mp hf
            exact h.own flows hshown timer (List.mem_of_getElem? htimer) hseq.symm
          · cases hf
        · cases hf
    | message now message =>
        cases message with
        | none => cases hf
        | some flow =>
            rw [pushed, hlive] at hf
            cases hf
    | firstRecent now reply =>
        cases reply with
        | none => cases hf
        | some reply =>
            rw [pushed, hlive] at hf
            cases hf
    | _ => cases hf

end Watch

/-! ## The page -/

/-- What an event does to the buffer. -/
def actionOf (u : App) : Event → Option Action
  | .effect => if u.range = .live then some .goLive else none
  | .history _ now (some flows) => some (.replay now flows)
  | .recent now reply => some (.recent now reply)
  | .timer i now => some (.timer i now)
  | .message now message => some (.message now message)
  | .loaded scene => some (.loaded scene)
  | .config scene => some (.config scene)
  | .firstRecent now reply => some (.firstRecent now reply)
  | _ => none

/-- The page steps its buffer, or leaves it. -/
theorem stream_of_appStep {u v : App} {e : Event} (h : u.step e = some v) :
    match actionOf u e with
    | some a => u.stream.step a = some v.stream
    | none => v.stream = u.stream := by
  cases e with
  | selectRange range =>
      obtain rfl := Option.some.inj h
      rfl
  | selectRefresh refresh =>
      obtain rfl := Option.some.inj h
      rfl
  | effect =>
      obtain ⟨-, h⟩ := Option.ite_none_left_eq_some.mp h
      cases hrange : u.range with
      | live =>
          simp only [hrange] at h
          obtain rfl := Option.some.inj h
          simp only [actionOf, hrange, if_true]
          rfl
      | last seconds =>
          simp only [hrange] at h
          obtain rfl := Option.some.inj h
          simp only [actionOf, hrange, reduceCtorEq, if_false]
  | tick =>
      obtain ⟨q, -, rfl⟩ := Option.map_eq_some_iff.mp h
      rfl
  | brush w =>
      obtain rfl := Option.some.inj h
      rfl
  | history i now reply =>
      obtain ⟨-, h⟩ := Option.ite_none_right_eq_some.mp h
      obtain rfl := Option.some.inj h
      cases reply with
      | none => rfl
      | some flows => rfl
  | recent now reply =>
      obtain ⟨s, hs, rfl⟩ := withStream_eq_some h
      exact hs
  | timer i now =>
      obtain ⟨s, hs, rfl⟩ := withStream_eq_some h
      exact hs
  | message now message =>
      obtain ⟨hphase, h⟩ := Option.ite_none_right_eq_some.mp h
      obtain rfl := Option.some.inj h
      exact if_pos hphase
  | loaded scene =>
      obtain ⟨s, hs, rfl⟩ := withStream_eq_some h
      exact hs
  | config scene =>
      obtain ⟨s, hs, rfl⟩ := withStream_eq_some h
      exact hs
  | firstRecent now reply =>
      obtain ⟨s, hs, rfl⟩ := withStream_eq_some h
      exact hs

/-- What the page does to its buffer is a step of the machine. -/
theorem step_of_appStep {u v : App} {e : Event} (h : u.step e = some v) :
    v.stream = u.stream ∨ ∃ a, u.stream.step a = some v.stream := by
  have hstream := stream_of_appStep h
  cases ha : actionOf u e with
  | none =>
      rw [ha] at hstream
      exact Or.inl hstream
  | some a =>
      rw [ha] at hstream
      exact Or.inr ⟨a, hstream⟩

theorem run_of_appRun {u v : App} {evs : List Event} (h : Machine.run App.step u evs = some v) :
    ∃ as, Machine.run Stream.step u.stream as = some v.stream := by
  induction evs generalizing u with
  | nil =>
      obtain rfl := Option.some.inj h
      exact ⟨[], rfl⟩
  | cons e evs ih =>
      obtain ⟨w, hstep, hrest⟩ := Machine.run_cons.mp h
      obtain ⟨as, has⟩ := ih hrest
      rcases step_of_appStep hstep with hsame | ⟨a, ha⟩
      · exact ⟨as, hsame ▸ has⟩
      · exact ⟨a :: as, Machine.run_cons.mpr ⟨w.stream, ha, has⟩⟩

/-- A step that pushes flows of the replay only brings no others into the buffer. -/
theorem Watch.ShowsReplay.buffer {w w' : Watch} {a : Action} (h : w.ShowsReplay a)
    (hstep : w.step a = some w') {flows : List Flow} (hshown : w.shown = some flows)
    {l : LiveFlow} (hl : l ∈ w'.stream.flows) : l ∈ w.stream.flows ∨ l.flow ∈ flows := by
  obtain ⟨t, ht, rfl⟩ := Option.map_eq_some_iff.mp hstep
  exact (adds_of_step ht l hl).imp_right (h flows hshown l.flow)

/-- Along a run, whatever is pushed during a replay is of the replay exactly if
every reply to `goLive` that comes in during a replay is.  Nothing comes into the
buffer that is not pushed, and what a page does to its buffer is such a run. -/
theorem showsReplay_run_iff (scene : Scene) (as : List Action) :
    (Machine.Along Watch.step Watch.ShowsReplay (Watch.init scene) as ↔
      Machine.Along Watch.step Watch.OwnReplies (Watch.init scene) as) ∧
    (∀ (w w' : Watch) (a : Action) (flows : List Flow), w.step a = some w' → w.ShowsReplay a →
      w.shown = some flows → ∀ l ∈ w'.stream.flows, l ∈ w.stream.flows ∨ l.flow ∈ flows) ∧
    ∀ evs v, Machine.run App.step (App.init scene) evs = some v →
      ∃ as, Machine.run Stream.step (Stream.init scene) as = some v.stream := by
  refine ⟨?_, fun w w' a flows hstep hshows hshown l hl ↦ hshows.buffer hstep hshown hl,
    fun evs v hrun ↦ run_of_appRun hrun⟩
  apply Machine.along_congr
  · intro w a w' hguarded hstep
    exact Watch.guarded_step hguarded hstep
  · intro w a hguarded
    exact Watch.showsReplay_iff hguarded a
  · exact Watch.guarded_init scene

/-! ## A late reply -/

def someFlow : Flow where
  srcAddr := "8.8.8.8"
  dstAddr := "10.0.0.2"
  srcGeo := some ⟨some 37, -122, false⟩
  dstGeo := some ⟨some 52, 13, true⟩

/-- The page goes live, the operator selects a window without flows, and then
the recent flows come in. -/
theorem not_showsReplay_lateRecent :
    ¬ Machine.Along Watch.step Watch.ShowsReplay (Watch.init plainScene)
      [.goLive, .replay 1000 [], .recent 2000 (some [someFlow])] := by
  rintro ⟨-, hlive⟩
  obtain ⟨-, hreplay⟩ := hlive _ rfl
  obtain ⟨hrecent, -⟩ := hreplay _ rfl
  exact absurd (hrecent [] rfl someFlow (List.mem_singleton_self _)) List.not_mem_nil

end Stream

end TrafficMap.Web
