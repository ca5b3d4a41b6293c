import TrafficMap.Web.Playback
import TrafficMap.Web.Pushes
import TrafficMap.Web.Replay

/-!
# Alarms of a replay

A replay pushes the flows of a window at the pace of the page's clock, with the
sources that the page has seen before: which of its flows come out as attacks,
against their receive times.
-/

namespace TrafficMap.Web

namespace Stream

/-- The pushes of a replay whose timers fire on time. -/
def playback (now : ℚ) (flows : List Flow) : List Push :=
  (replayTimers now 0 flows).map fun timer ↦ (timer.due, timer.flow)

/-- The sources of the destination of `f` among the flows, within the window
before it on the clock of the receiver. -/
def receivedSources (flows : List Flow) (f : Flow) : Finset String :=
  ((flows.filter fun g ↦ g.dstAddr = f.dstAddr ∧
    (f.recvSec.getD 0 - g.recvSec.getD 0) * 1000 ≤ DDOS_WINDOW_MS).map Flow.srcAddr).toFinset

/-- The displayed sources of a destination in the replay so far. -/
def shownSources (scene : Scene) (ps : List Push) (dst : String) : Finset String :=
  ((ps.filter fun p ↦ displayed scene p.2 ∧ p.2.dstAddr = dst).map fun p ↦ p.2.srcAddr).toFinset

/-- Every displayed flow that is pushed is flagged as on the clock of the receiver. -/
def FlagsAsReceived (s : Stream) (ps : List Push) : Prop :=
  ∀ pre now f, pre ++ [(now, f)] <+: ps → displayed s.scene f = true →
    ((s.pushEach pre).flagged now f = true ↔
      DDOS_SRC_THRESHOLD < (receivedSources (pre.map Prod.snd ++ [f]) f).card)

/-! ## The pushes of a replay -/

section Run

variable {s : Stream}

/-- Timers that fire one after another, while those of earlier replays wait. -/
theorem run_timers {old ts : List Timer} (hts : s.timers = old ++ ts)
    (hseq : ∀ timer ∈ ts, timer.seq = s.replaySeq) {times : List ℚ}
    (hlength : times.length = ts.length) :
    Machine.run step s (times.map (.timer old.length)) =
      some { s.pushEach (times.zip (ts.map Timer.flow)) with timers := old } := by
  induction ts generalizing s times with
  | nil =>
      obtain rfl := List.eq_nil_of_length_eq_zero hlength
      rw [List.append_nil] at hts
      subst hts
      rfl
  | cons timer ts ih =>
      obtain ⟨now, times, rfl⟩ := List.exists_cons_of_length_eq_add_one hlength
      obtain ⟨hown, hrest⟩ := List.forall_mem_cons.mp hseq
      have hstep : step s (.timer old.length now) =
          some ({ s with timers := old ++ ts }.push now timer.flow) := by
        have hget : s.timers[old.length]? = some timer := by
          rw [hts, List.getElem?_append_right le_rfl, Nat.sub_self]
          rfl
        have herase : s.timers.eraseIdx old.length = old ++ ts := by
          rw [hts, List.eraseIdx_append_of_length_le le_rfl, Nat.sub_self]
          rfl
        rw [step, onTimer, hget, Option.map_some, herase]
        exact congrArg some (if_pos hown.symm)
      have hrun := ih (s := { s with timers := old ++ ts }.push now timer.flow) (by simp)
        (by simpa using hrest) (Nat.succ.inj hlength)
      rw [List.map_cons, Machine.run_cons_of_step hstep, hrun, push_withTimers,
        pushEach_withTimers]
      rfl

/-- The timers of a replay push its flows, and those of earlier replays still wait. -/
theorem run_fired (s : Stream) (now : ℚ) {flows : List Flow} {fired : List ℚ}
    (hfired : fired.length = flows.length) :
    Machine.run step (s.replay now flows) (fired.map (.timer s.timers.length)) =
      some { (s.replay now flows).pushEach (fired.zip (flows.mergeSort recvOrder)) with
        timers := s.timers } := by
  have hseq : ∀ timer ∈ replayTimers now (s.replaySeq + 1) flows,
      timer.seq = (s.replay now flows).replaySeq := by
    intro timer htimer
    rw [replayTimers_eq] at htimer
    obtain ⟨f, -, rfl⟩ := List.mem_map.mp htimer
    rfl
  have hlength : fired.length = (replayTimers now (s.replaySeq + 1) flows).length := by
    rw [replayTimers_eq, List.length_map, List.length_mergeSort]
    exact hfired
  have hflows : (replayTimers now (s.replaySeq + 1) flows).map Timer.flow =
      flows.mergeSort recvOrder := by
    rw [replayTimers_eq, List.map_map]
    exact List.map_id _
  rw [← hflows]
  exact run_timers rfl hseq hlength

end Run

/-! ## The calls of a run -/

def times (as : List Action) : List ℚ := as.filterMap Action.time

/-- The pushes of a step. -/
def pushes (s : Stream) (a : Action) : List Push :=
  (s.pushed a).map fun f ↦ (a.time.getD 0, f)

section Calls

variable {s t : Stream} {prior : List Hit}

theorem pushAll_eq (s : Stream) (now : ℚ) (flows : List Flow) :
    s.pushAll now flows = s.pushEach (flows.map fun f ↦ (now, f)) := by
  rw [pushAll, pushEach, List.foldl_map]

theorem sources_step {a : Action} (hs : s.sources = Hit.sources prior) (h : s.step a = some t) :
    t.sources = Hit.sources (prior ++ hitsOf s.scene (s.pushes a)) := by
  by_cases ha : a.isCall
  · cases a with
    | goLive =>
        obtain rfl := Option.some.inj h
        exact hs.trans (congrArg Hit.sources (List.append_nil prior).symm)
    | replay now flows =>
        obtain rfl := Option.some.inj h
        exact hs.trans (congrArg Hit.sources (List.append_nil prior).symm)
    | _ => exact ha.elim
  · obtain ⟨u, hu, rfl⟩ := exists_prepared ha h
    rw [pushAll_eq, ← pushes, sources_pushEach (hu.sources.trans hs)]
    rcases hu.scene with hnone | hscene
    · rw [pushes, hnone]
      rfl
    · rw [hscene]

/-- All pushes of a step come at its time. -/
theorem time_of_mem_pushes {a : Action} {p : Push} (hp : p ∈ s.pushes a) : a.time = some p.1 := by
  obtain ⟨f, hf, rfl⟩ := List.mem_map.mp hp
  cases a with
  | goLive => cases hf
  | replay now flows => cases hf
  | loaded scene => cases hf
  | config scene => cases hf
  | recent now reply => rfl
  | timer i now => rfl
  | message now message => rfl
  | firstRecent now reply => rfl

/-- After a run whose clock does not run backwards the detector has the calls of
the run. -/
theorem exists_hits_of_run {scene : Scene} {as : List Action}
    (h : Machine.run step (init scene) as = some s) (hclock : (times as).Pairwise (· ≤ ·)) :
    ∃ prior, s.sources = Hit.sources prior ∧ Hit.InOrder prior ∧
      ∀ h ∈ prior, h.time ∈ times as := by
  induction as using List.reverseRecOn generalizing s with
  | nil =>
      obtain rfl := Option.some.inj h
      exact ⟨[], rfl, List.Pairwise.nil, fun h hh ↦ absurd hh List.not_mem_nil⟩
  | append_singleton as a ih =>
      obtain ⟨t, ht, hlast⟩ := Machine.run_append.mp h
      obtain ⟨u, hstep, hu⟩ := Machine.run_cons.mp hlast
      obtain rfl := Option.some.inj hu
      rw [times, List.filterMap_append] at hclock ⊢
      obtain ⟨hbefore, -, hle⟩ := List.pairwise_append.mp hclock
      obtain ⟨prior, hs, horder, hmem⟩ := ih ht hbefore
      have htime : ∀ h ∈ hitsOf t.scene (t.pushes a), a.time = some h.time := by
        intro h hh
        obtain ⟨p, hp, -, rfl⟩ := mem_hitsOf.mp hh
        exact time_of_mem_pushes hp
      have hnew : ∀ h ∈ hitsOf t.scene (t.pushes a), h.time ∈ [a].filterMap Action.time := by
        intro h hh
        exact List.mem_filterMap.mpr ⟨a, List.mem_singleton_self a, htime h hh⟩
      refine ⟨_, sources_step hs hstep, List.pairwise_append.mpr ⟨horder, ?_, ?_⟩, ?_⟩
      · refine List.Pairwise.imp_of_mem ?_ (List.pairwise_of_forall fun _ _ ↦ trivial)
        intro h h' hh hh' _
        exact (Option.some.inj ((htime h hh).symm.trans (htime h' hh'))).le
      · exact fun h hh h' hh' ↦ hle h.time (hmem h hh) h'.time (hnew h' hh')
      · intro h hh
        rcases List.mem_append.mp hh with hold | hlate
        · exact List.mem_append_left _ (hmem h hold)
        · exact List.mem_append_right _ (hnew h hlate)

end Calls

/-! ## Times -/

section Times

variable {now : ℚ} {flows : List Flow}

theorem playback_eq (now : ℚ) (flows : List Flow) : playback now flows =
    (flows.mergeSort recvOrder).map fun f ↦ (now + delay flows f, f) := by
  rw [playback, replayTimers_eq, List.map_map]
  rfl

theorem snd_playback (now : ℚ) (flows : List Flow) :
    (playback now flows).map Prod.snd = flows.mergeSort recvOrder := by
  rw [playback_eq, List.map_map]
  exact List.map_id _

variable (hrecv : Received flows)
include hrecv

theorem pairwise_playback : (playback now flows).Pairwise fun p q ↦ p.1 ≤ q.1 := by
  rw [playback_eq, List.pairwise_map]
  refine (pairwise_recv flows).imp_of_mem fun hf hg hle ↦ ?_
  have hdelay := delay_mono hrecv (List.mem_mergeSort.mp hf) (List.mem_mergeSort.mp hg) hle
  exact add_le_add_right hdelay now

theorem le_of_mem_playback {p : Push} (hp : p ∈ playback now flows) :
    now ≤ p.1 ∧ p.1 ≤ now + REPLAY_MS := by
  rw [playback_eq] at hp
  obtain ⟨f, hf, rfl⟩ := List.mem_map.mp hp
  have hnonneg := delay_nonneg hrecv (List.mem_mergeSort.mp hf)
  have hle := delay_le hrecv (List.mem_mergeSort.mp hf)
  exact ⟨le_add_of_nonneg_right hnonneg, add_le_add_right hle now⟩

end Times

/-! ## Which flows are flagged -/

section Alarms

variable {s : Stream} {prior : List Hit} {ps : List Push}

theorem inOrder_hits (hprior : Hit.InOrder prior) (hlate : ∀ h ∈ prior, ∀ p ∈ ps, h.time ≤ p.1)
    (hps : ps.Pairwise fun p q ↦ p.1 ≤ q.1) : Hit.InOrder (prior ++ hitsOf s.scene ps) := by
  refine List.pairwise_append.mpr ⟨hprior, List.pairwise_map.mpr (hps.filter _), ?_⟩
  intro h hh h' hh'
  obtain ⟨p, hp, rfl⟩ := List.mem_map.mp hh'
  exact hlate h hh p (List.mem_filter.mp hp).1

theorem flagged_pushEach_iff (hs : s.sources = Hit.sources prior) (hprior : Hit.InOrder prior)
    (hlate : ∀ h ∈ prior, ∀ p ∈ ps, h.time ≤ p.1) (hps : ps.Pairwise fun p q ↦ p.1 ≤ q.1)
    {pre : List Push} {now : ℚ} {f : Flow} (hpre : pre ++ [(now, f)] <+: ps)
    (hf : displayed s.scene f = true) : (s.pushEach pre).flagged now f = true ↔
      DDOS_SRC_THRESHOLD < (Hit.recentSources (prior ++ hitsOf s.scene (pre ++ [(now, f)]))
        f.dstAddr now).card := by
  have hsub := hpre.sublist
  have horder := inOrder_hits (s := s) hprior (fun h hh p hp ↦ hlate h hh p (hsub.subset hp))
    (hps.sublist hsub)
  rw [hitsOf_append, ← List.append_assoc] at horder ⊢
  have hscene := pushEach_scene (s := s) pre
  rw [← hscene] at hf
  have hflag := @flagged_iff (s.pushEach pre) _ (sources_pushEach hs pre) now f hf
  rw [hscene] at hflag
  exact hflag horder

theorem mem_shownSources {scene : Scene} {dst src : String} : src ∈ shownSources scene ps dst ↔
    ∃ p ∈ ps, displayed scene p.2 = true ∧ p.2.dstAddr = dst ∧ p.2.srcAddr = src := by
  simp [shownSources, and_assoc]

theorem mem_recentSources_append {hits hits' : List Hit} {dst src : String} {now : ℚ} :
    src ∈ Hit.recentSources (hits ++ hits') dst now ↔
      src ∈ Hit.recentSources hits dst now ∨ src ∈ Hit.recentSources hits' dst now := by
  simp only [Hit.mem_recentSources, List.mem_append, or_and_right, exists_or]

/-- Within a window of the page's clock all that the replay has shown counts. -/
theorem recentSources_replay {scene : Scene} {dst : String} {now : ℚ}
    (hwindow : ∀ p ∈ ps, now - p.1 ≤ DDOS_WINDOW_MS) :
    Hit.recentSources (prior ++ hitsOf scene ps) dst now =
      Hit.recentSources prior dst now ∪ shownSources scene ps dst := by
  ext src
  rw [mem_recentSources_append, Finset.mem_union, mem_shownSources]
  refine or_congr_right ?_
  rw [Hit.mem_recentSources]
  constructor
  · rintro ⟨h, hh, hdst, -, hsrc⟩
    obtain ⟨p, hp, hshown, rfl⟩ := mem_hitsOf.mp hh
    exact ⟨p, hp, hshown, hdst, hsrc⟩
  · rintro ⟨p, hp, hshown, hdst, hsrc⟩
    exact ⟨_, mem_hitsOf.mpr ⟨p, hp, hshown, rfl⟩, hdst, hwindow p hp, hsrc⟩

/-- With any timers that fire in order. -/
theorem flags_iff (hs : s.sources = Hit.sources prior) (hprior : Hit.InOrder prior)
    (hlate : ∀ h ∈ prior, ∀ p ∈ ps, h.time ≤ p.1) (hps : ps.Pairwise fun p q ↦ p.1 ≤ q.1) :
    s.FlagsAsReceived ps ↔ ∀ pre t f, pre ++ [(t, f)] <+: ps → displayed s.scene f = true →
      (DDOS_SRC_THRESHOLD < (Hit.recentSources (prior ++ hitsOf s.scene (pre ++ [(t, f)]))
          f.dstAddr t).card ↔
        DDOS_SRC_THRESHOLD < (receivedSources (pre.map Prod.snd ++ [f]) f).card) := by
  refine forall₃_congr fun pre t f ↦ forall₂_congr fun hpre hf ↦ iff_congr ?_ Iff.rfl
  exact flagged_pushEach_iff hs hprior hlate hps hpre hf

/-- With timers that fire on time. -/
theorem flags_playback_iff (hs : s.sources = Hit.sources prior) (hprior : Hit.InOrder prior)
    {now : ℚ} (hnow : ∀ h ∈ prior, h.time ≤ now) {flows : List Flow} (hrecv : Received flows) :
    s.FlagsAsReceived (playback now flows) ↔
      ∀ pre t f, pre ++ [(t, f)] <+: playback now flows → displayed s.scene f = true →
        (DDOS_SRC_THRESHOLD < (Hit.recentSources prior f.dstAddr t ∪
            shownSources s.scene (pre ++ [(t, f)]) f.dstAddr).card ↔
          DDOS_SRC_THRESHOLD < (receivedSources (pre.map Prod.snd ++ [f]) f).card) := by
  have hlate : ∀ h ∈ prior, ∀ p ∈ playback now flows, h.time ≤ p.1 :=
    fun h hh p hp ↦ (hnow h hh).trans (le_of_mem_playback hrecv hp).1
  rw [flags_iff hs hprior hlate (pairwise_playback hrecv)]
  refine forall₃_congr fun pre t f ↦ forall₂_congr fun hpre hf ↦ ?_
  have hwindow : ∀ p ∈ pre ++ [(t, f)], t - p.1 ≤ DDOS_WINDOW_MS := by
    intro p hp
    have hmem : (t, f) ∈ playback now flows :=
      hpre.subset (List.mem_append_right pre (List.mem_singleton_self (t, f)))
    have hfirst := (le_of_mem_playback hrecv (hpre.subset hp)).1
    have hlast : t ≤ now + REPLAY_MS := (le_of_mem_playback hrecv hmem).2
    have hle : REPLAY_MS ≤ DDOS_WINDOW_MS := by norm_num
    linarith
  rw [recentSources_replay hwindow]

/-- The flags of a replay are those of the receiver's clock exactly if at each
flow the sources that the page has seen in the last minute, before the replay
and in it, exceed the threshold when those of the receiver do.  With timers that
fire on time this is all that the replay has shown.  The timers of a replay push
its flows at the times when they fire, and a page whose clock does not run
backwards has such a history. -/
theorem flagsAsReceived_iff (s : Stream) (prior : List Hit) (hs : s.sources = Hit.sources prior)
    (hprior : Hit.InOrder prior) (now : ℚ) (hnow : ∀ h ∈ prior, h.time ≤ now) (flows : List Flow) :
    (∀ ps : List Push, ps.map Prod.snd = flows.mergeSort recvOrder → (∀ p ∈ ps, now ≤ p.1) →
      (ps.Pairwise fun p q ↦ p.1 ≤ q.1) →
      ((s.replay now flows).FlagsAsReceived ps ↔
        ∀ pre t f, pre ++ [(t, f)] <+: ps → displayed s.scene f = true →
          (DDOS_SRC_THRESHOLD < (Hit.recentSources (prior ++ hitsOf s.scene (pre ++ [(t, f)]))
              f.dstAddr t).card ↔
            DDOS_SRC_THRESHOLD < (receivedSources (pre.map Prod.snd ++ [f]) f).card))) ∧
    (Received flows →
      ((s.replay now flows).FlagsAsReceived (playback now flows) ↔
        ∀ pre t f, pre ++ [(t, f)] <+: playback now flows → displayed s.scene f = true →
          (DDOS_SRC_THRESHOLD < (Hit.recentSources prior f.dstAddr t ∪
              shownSources s.scene (pre ++ [(t, f)]) f.dstAddr).card ↔
            DDOS_SRC_THRESHOLD < (receivedSources (pre.map Prod.snd ++ [f]) f).card))) ∧
    (∀ fired : List ℚ, fired.length = flows.length →
      Machine.run step (s.replay now flows) (fired.map (.timer s.timers.length)) =
        some { (s.replay now flows).pushEach (fired.zip (flows.mergeSort recvOrder)) with
          timers := s.timers }) ∧
    (∀ scene as, Machine.run step (init scene) as = some s → (times as).Pairwise (· ≤ ·) →
      ∃ hits, s.sources = Hit.sources hits ∧ Hit.InOrder hits ∧
        ∀ h ∈ hits, h.time ∈ times as) := by
  have hsources : (s.replay now flows).sources = Hit.sources prior := hs
  refine ⟨fun ps _ hfrom hps ↦ flags_iff hsources hprior
    (fun h hh p hp ↦ (hnow h hh).trans (hfrom p hp)) hps,
    fun hrecv ↦ flags_playback_iff hsources hprior hnow hrecv, ?_, ?_⟩
  · intro fired hfired
    exact run_fired s now hfired
  · intro scene as hrun hclock
    exact exists_hits_of_run hrun hclock

end Alarms

/-! ## A quiet history -/

/-- One source in a hundred seconds. -/
def history : List Flow := attackers.zipIdx.map fun p ↦
  { someFlow with srcAddr := p.1, recvSec := some (p.2 * 100) }

/-- Of the 31st source. -/
def lastOfHistory : Flow := { someFlow with srcAddr := "E", recvSec := some ((30 : ℕ) * 100) }

theorem shownSources_eq (scene : Scene) (ps : List Push) (dst : String) :
    shownSources scene ps dst = (((ps.map Prod.snd).filter fun f ↦
      displayed scene f ∧ f.dstAddr = dst).map Flow.srcAddr).toFinset := by
  rw [shownSources, List.filter_map, List.map_map]
  rfl

/-- One source in a second. -/
def burst : List Flow := attackers.zipIdx.map fun p ↦
  { someFlow with srcAddr := p.1, recvSec := some p.2 }

/-- Two of them have been pushed before the replay. -/
def earlier : List Push := (burst.take 2).map fun f ↦ (0, f)

/-- The displayed sources of the first `n` of the burst. -/
def burstShown (n : ℕ) : Finset String :=
  (((burst.take n).filter fun f ↦ displayed plainScene f ∧ f.dstAddr = someFlow.dstAddr).map
    Flow.srcAddr).toFinset

theorem burst_sources : ∀ n < 31,
    let received := receivedSources (burst.take (n + 1)) (burst.getD n someFlow)
    (DDOS_SRC_THRESHOLD < ((earlier.map fun p ↦ p.2.srcAddr).toFinset ∪ burstShown (n + 1)).card ↔
      DDOS_SRC_THRESHOLD < received.card) ∧
    (DDOS_SRC_THRESHOLD < (burstShown (n + 1)).card ↔ DDOS_SRC_THRESHOLD < received.card) := by
  decide +kernel

/-- The 31st source is flagged, and on either clock. -/
theorem burst_asReceived :
    hitsOf plainScene earlier ≠ [] ∧
      DDOS_SRC_THRESHOLD < (receivedSources burst (burst.getD 30 someFlow)).card ∧
      (((init plainScene).pushEach earlier).replay 10 burst).FlagsAsReceived
        (playback 10 burst) := by
  have hrecv : Received burst := by
    rw [Received]
    decide +kernel
  have hempty : (init plainScene).sources = Hit.sources [] := rfl
  have hsources := sources_pushEach hempty earlier
  have hprior : Hit.InOrder (hitsOf plainScene earlier) := by
    rw [Hit.InOrder]
    decide +kernel
  have hnow : ∀ h ∈ hitsOf plainScene earlier, h.time ≤ 10 := by decide +kernel
  refine ⟨by decide +kernel, by decide +kernel, ?_⟩
  refine ((flagsAsReceived_iff _ (hitsOf plainScene earlier) hsources hprior 10 hnow
    burst).2.1 hrecv).mpr ?_
  intro pre t f hpre _
  rw [pushEach_scene, show (init plainScene).scene = plainScene from rfl]
  have hsnd := hpre.map Prod.snd
  have hsorted : burst.mergeSort recvOrder = burst :=
    List.mergeSort_of_pairwise (by decide +kernel)
  rw [snd_playback, hsorted, List.map_append] at hsnd
  have hlt : pre.length < 31 := by
    have hlength := hsnd.length_le
    rw [List.length_append, List.length_map] at hlength
    exact hlength
  have hflows : pre.map Prod.snd ++ [f] = burst.take (pre.length + 1) := by
    have htake := List.prefix_iff_eq_take.mp hsnd
    simpa using htake
  have hf : f = burst.getD pre.length someFlow := by
    have hget : burst[pre.length]? = some f := by
      obtain ⟨rest, hrest⟩ := hsnd
      rw [← hrest]
      simp
    rw [List.getD_eq_getElem?_getD, hget, Option.getD_some]
  have hdst : f.dstAddr = someFlow.dstAddr := by
    have hall : ∀ f ∈ burst, f.dstAddr = someFlow.dstAddr := by decide +kernel
    exact hall f (hsnd.subset (by simp))
  obtain ⟨hunion, hshown⟩ := burst_sources pre.length hlt
  have hburst : shownSources plainScene (pre ++ [(t, f)]) f.dstAddr =
      burstShown (pre.length + 1) := by
    rw [shownSources_eq, List.map_append, hdst, burstShown, ← hflows]
    rfl
  have hseen : Hit.recentSources (hitsOf plainScene earlier) f.dstAddr t ⊆
      (earlier.map fun p ↦ p.2.srcAddr).toFinset := by
    intro src hsrc
    obtain ⟨h, hh, -, -, rfl⟩ := Hit.mem_recentSources.mp hsrc
    obtain ⟨p, hp, -, rfl⟩ := mem_hitsOf.mp hh
    exact List.mem_toFinset.mpr (List.mem_map_of_mem hp)
  rw [hflows, hburst]
  rw [← hf] at hunion hshown
  constructor
  · intro h
    exact hunion.mp (h.trans_le (Finset.card_le_card (Finset.union_subset_union_left hseen)))
  · intro h
    exact (hshown.mpr h).trans_le (Finset.card_le_card Finset.subset_union_right)

theorem history_flagged : ¬ ∀ (s : Stream) (prior : List Hit), s.sources = Hit.sources prior →
    Hit.InOrder prior → ∀ now, (∀ h ∈ prior, h.time ≤ now) → ∀ flows, Received flows →
      (s.replay now flows).FlagsAsReceived (playback now flows) := by
  intro h
  have hrecv : Received history := by
    rw [Received]
    decide +kernel
  have hsorted : history.Pairwise fun f g ↦ recvOrder f g = true := by decide +kernel
  have hnone : ∀ h ∈ ([] : List Hit), h.time ≤ 0 := fun h hh ↦ absurd hh List.not_mem_nil
  have hflags := (flags_playback_iff (s := (init plainScene).replay 0 history) rfl
    List.Pairwise.nil hnone hrecv).mp (h (init plainScene) [] rfl List.Pairwise.nil 0 hnone _ hrecv)
  have hhistory : history = history.take 30 ++ [lastOfHistory] := rfl
  let timed : Flow → Push := fun g ↦ (0 + delay history g, g)
  have hplayback : (history.take 30).map timed ++ [timed lastOfHistory] = playback 0 history := by
    rw [playback_eq, List.mergeSort_of_pairwise hsorted]
    exact List.map_append.symm.trans (congrArg (List.map timed) hhistory.symm)
  have hsnd : ((history.take 30).map timed).map Prod.snd = history.take 30 := by
    rw [List.map_map]
    exact List.map_id _
  have hlast := hflags ((history.take 30).map timed) (0 + delay history lastOfHistory) lastOfHistory
    (hplayback ▸ List.prefix_rfl) (by decide +kernel)
  rw [shownSources_eq, List.map_append, hsnd] at hlast
  have hshown : DDOS_SRC_THRESHOLD < (((history.take 30 ++ [lastOfHistory]).filter fun f ↦
      displayed plainScene f ∧ f.dstAddr = lastOfHistory.dstAddr).map
        Flow.srcAddr).toFinset.card := by
    decide +kernel
  have hreceived := hlast.mp (hshown.trans_le (Finset.card_le_card Finset.subset_union_right))
  exact absurd hreceived (by decide +kernel)

end Stream

end TrafficMap.Web
