import TrafficMap.Web.FanIn

/-!
# A sequence of pushes

`push` of `flowStream.ts`, called with one flow after another: what the buffer
holds then, and which calls of `ddosScore` it has made.
-/

namespace TrafficMap.Web

/-! ## Flows on the map -/

/-- Both ends have a place, and not the same. -/
def displayed (scene : Scene) (flow : Flow) : Bool := (toLive scene flow 0 ∅).1.isSome

/-- What a displayed flow becomes. -/
structure Shown (f : Flow) (time : ℚ) (alarm : Bool) (l : LiveFlow) : Prop where
  flow : l.flow = f
  born : l.born = time
  ddos : l.ddos = alarm
  proto : l.proto = protoKey f.protocol

section Display

variable {scene : Scene} {flow : Flow}

theorem toLive_cases (scene : Scene) (flow : Flow) :
    (displayed scene flow = false ∧
        ∀ born sources, toLive scene flow born sources = (none, sources)) ∨
      displayed scene flow = true ∧ ∀ born sources, ∃ l,
        Shown flow born (ddosScore flow.dstAddr flow.srcAddr born sources).1 l ∧
        toLive scene flow born sources =
          (some l, (ddosScore flow.dstAddr flow.srcAddr born sources).2) := by
  rw [displayed]
  simp only [toLive]
  cases flow.srcGeo with
  | none => exact Or.inl ⟨rfl, fun _ _ ↦ rfl⟩
  | some s =>
      cases flow.dstGeo with
      | none => exact Or.inl ⟨rfl, fun _ _ ↦ rfl⟩
      | some d =>
          dsimp only
          cases s.lat with
          | none => exact Or.inl ⟨rfl, fun _ _ ↦ rfl⟩
          | some slat =>
              cases d.lat with
              | none => exact Or.inl ⟨rfl, fun _ _ ↦ rfl⟩
              | some dlat =>
                  dsimp only
                  split
                  · exact Or.inl ⟨rfl, fun _ _ ↦ rfl⟩
                  · exact Or.inr ⟨rfl, fun _ _ ↦ ⟨_, ⟨rfl, rfl, rfl, rfl⟩, rfl⟩⟩

theorem toLive_of_displayed (h : displayed scene flow = true) (born : ℚ) (sources : Sources) :
    ∃ l, Shown flow born (ddosScore flow.dstAddr flow.srcAddr born sources).1 l ∧
      toLive scene flow born sources =
        (some l, (ddosScore flow.dstAddr flow.srcAddr born sources).2) := by
  rcases toLive_cases scene flow with ⟨hnot, -⟩ | ⟨-, hlive⟩
  · rw [hnot] at h
    cases h
  · exact hlive born sources

theorem toLive_of_not_displayed (h : displayed scene flow = false) (born : ℚ) (sources : Sources) :
    toLive scene flow born sources = (none, sources) := by
  rcases toLive_cases scene flow with ⟨-, hnone⟩ | ⟨hdisplayed, -⟩
  · exact hnone born sources
  · rw [h] at hdisplayed
    cases hdisplayed

end Display

/-- A push: when, and which flow. -/
abbrev Push := ℚ × Flow

/-- The calls of `ddosScore` that the pushes make. -/
def hitsOf (scene : Scene) (ps : List Push) : List Hit :=
  (ps.filter fun p ↦ displayed scene p.2).map fun p ↦ ⟨p.2.dstAddr, p.2.srcAddr, p.1⟩

theorem mem_hitsOf {scene : Scene} {ps : List Push} {h : Hit} : h ∈ hitsOf scene ps ↔
    ∃ p ∈ ps, displayed scene p.2 = true ∧ ⟨p.2.dstAddr, p.2.srcAddr, p.1⟩ = h := by
  simp [hitsOf, and_assoc]

theorem hitsOf_append (scene : Scene) (ps qs : List Push) :
    hitsOf scene (ps ++ qs) = hitsOf scene ps ++ hitsOf scene qs := by
  rw [hitsOf, List.filter_append, List.map_append]
  rfl

theorem hitsOf_singleton (scene : Scene) (p : Push) : hitsOf scene [p] =
    if displayed scene p.2 = true then [⟨p.2.dstAddr, p.2.srcAddr, p.1⟩] else [] := by
  by_cases hp : displayed scene p.2 = true
  · simp [hitsOf, hp]
  · simp [hitsOf, hp]

namespace Stream

variable {s : Stream}

/-- Whether the flow comes out as an attack when it is pushed. -/
def flagged (s : Stream) (now : ℚ) (flow : Flow) : Bool :=
  ((toLive s.scene flow now s.sources).1.map LiveFlow.ddos).getD false

def pushEach (s : Stream) (ps : List Push) : Stream := ps.foldl (fun s p ↦ s.push p.1 p.2) s

/-! ## What a push changes -/

/-- The entries of a flow in the buffer: one, and clones for a heavy one. -/
def comet (now : ℚ) (flow : Flow) (base : LiveFlow) (i : ℕ) : LiveFlow :=
  if i = 0 then base
  else { base with born := now + i / comets flow.octets * spread flow (comets flow.octets) }

theorem push_of_displayed {now : ℚ} {flow : Flow} (h : displayed s.scene flow = true) :
    ∃ base, Shown flow now (s.flagged now flow) base ∧
      s.push now flow =
        let buf := s.flows ++ (List.range (comets flow.octets)).map (comet now flow base)
        { s with
          flows := buf.drop (buf.length - MAX_FLOWS)
          sources := (ddosScore flow.dstAddr flow.srcAddr now s.sources).2
          total := s.total + 1
          rateWindow := s.rateWindow ++ [now] } := by
  obtain ⟨base, hbase, hlive⟩ := toLive_of_displayed h now s.sources
  refine ⟨base, ?_, ?_⟩
  · rw [flagged, hlive]
    exact ⟨hbase.flow, hbase.born, rfl, hbase.proto⟩
  · rw [push, hlive]
    rfl

theorem push_of_not_displayed {now : ℚ} {flow : Flow} (h : displayed s.scene flow = false) :
    s.push now flow = s := by
  rw [push, toLive_of_not_displayed h]

@[simp] theorem push_scene (now : ℚ) (flow : Flow) : (s.push now flow).scene = s.scene := by
  rw [push]
  split <;> rfl

@[simp] theorem push_timers (now : ℚ) (flow : Flow) : (s.push now flow).timers = s.timers := by
  rw [push]
  split <;> rfl

@[simp] theorem push_replaySeq (now : ℚ) (flow : Flow) :
    (s.push now flow).replaySeq = s.replaySeq := by
  rw [push]
  split <;> rfl

/-- A push does not look at the timers. -/
theorem push_withTimers (timers : List Timer) (now : ℚ) (flow : Flow) :
    ({ s with timers := timers } : Stream).push now flow =
      { s.push now flow with timers := timers } := by
  cases h : displayed s.scene flow with
  | true =>
      obtain ⟨l, -, hlive⟩ := toLive_of_displayed h now s.sources
      rw [push, push, hlive]
  | false => rw [push, push, toLive_of_not_displayed h]

theorem pushEach_withTimers (timers : List Timer) (ps : List Push) :
    ({ s with timers := timers } : Stream).pushEach ps =
      { s.pushEach ps with timers := timers } := by
  induction ps generalizing s with
  | nil => rfl
  | cons p ps ih => exact (congrArg (pushEach · ps) (push_withTimers timers p.1 p.2)).trans ih

theorem pushEach_concat (ps : List Push) (p : Push) :
    s.pushEach (ps ++ [p]) = (s.pushEach ps).push p.1 p.2 := by
  rw [pushEach, List.foldl_append]
  rfl

@[simp] theorem pushEach_scene (ps : List Push) : (s.pushEach ps).scene = s.scene := by
  induction ps using List.reverseRecOn with
  | nil => rfl
  | append_singleton ps p ih => rw [pushEach_concat, push_scene, ih]

/-! ## The calls of `ddosScore` -/

section Sources

variable {prior : List Hit} (hs : s.sources = Hit.sources prior)
include hs

theorem sources_push (p : Push) :
    (s.push p.1 p.2).sources = Hit.sources (prior ++ hitsOf s.scene [p]) := by
  cases hp : displayed s.scene p.2 with
  | true =>
      obtain ⟨base, -, hpush⟩ := push_of_displayed hp
      rw [hpush, hitsOf_singleton, if_pos hp, Hit.sources_concat, ← hs]
      rfl
  | false =>
      rw [push_of_not_displayed hp, hs, hitsOf_singleton, if_neg (by simp [hp]), List.append_nil]

theorem sources_pushEach (ps : List Push) :
    (s.pushEach ps).sources = Hit.sources (prior ++ hitsOf s.scene ps) := by
  induction ps using List.reverseRecOn with
  | nil => exact hs.trans (congrArg Hit.sources (List.append_nil prior).symm)
  | append_singleton ps p ih =>
      rw [pushEach_concat, sources_push ih, pushEach_scene, hitsOf_append, List.append_assoc]

theorem flagged_iff {now : ℚ} {flow : Flow} (h : displayed s.scene flow = true)
    (horder : Hit.InOrder (prior ++ hitsOf s.scene [(now, flow)])) : s.flagged now flow = true ↔
      DDOS_SRC_THRESHOLD <
        (Hit.recentSources (prior ++ hitsOf s.scene [(now, flow)]) flow.dstAddr now).card := by
  obtain ⟨l, hl, hlive⟩ := toLive_of_displayed h now s.sources
  have hflag : s.flagged now flow =
      (ddosScore flow.dstAddr flow.srcAddr now (Hit.sources prior)).1 := by
    rw [flagged, hlive, Option.map_some, Option.getD_some, hl.ddos, hs]
  rw [hitsOf_singleton, if_pos h] at horder ⊢
  rw [hflag]
  exact Hit.ddosScore_sources (h := ⟨flow.dstAddr, flow.srcAddr, now⟩) horder

end Sources

end Stream

end TrafficMap.Web
