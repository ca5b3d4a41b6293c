import Mathlib.Data.List.ReduceOption
import TrafficMap.Api.Apps
import TrafficMap.Api.LiveFeed
import TrafficMap.Ingestor.Row

/-!
# What the bridge sends on

Over every interleaving of the tasks, the bridge sends on each message that
reached its subscription once and in order, corrected and labelled by maps that
were in force, and the aggregator has recorded the same values.
-/

namespace TrafficMap.Api

/-! ## Messages in the bridge -/

/-- The message that the bridge has taken and not sent on. -/
def Bridge.inFlight : Bridge → Option String
  | .offline | .waiting => none
  | .parsed payload _ | .overridden payload _ | .labelled payload _ | .sending payload _ _
  | .dead payload => some payload

/-- The value that was recorded and not sent on. -/
def Bridge.recorded : Bridge → Option Json
  | .sending _ value _ => value
  | _ => none

/-- The text is that of the message under maps in force, or the message itself if
it is no JSON. -/
def Served (serde : Serde) (ovs : List Overrides) (aps : List AppMap) (t : Turn) : Prop :=
  match serde.parse t.payload with
  | some v => ∃ ov ∈ ovs, ∃ apps ∈ aps, ∃ w,
      serve ov apps v = some w ∧ t.value = some w ∧ t.out = serde.print w
  | none => t.value = none ∧ t.out = t.payload

/-- Where the value in the bridge's hands comes from. -/
def Bridge.Sound (serde : Serde) (ovs : List Overrides) (aps : List AppMap) : Bridge → Prop
  | .offline | .waiting => True
  | .parsed payload v => serde.parse payload = some v
  | .overridden payload v => ∃ v₀, serde.parse payload = some v₀ ∧
      ∃ ov ∈ ovs, applyOverrides ov v₀ = some v
  | .labelled payload v => ∃ v₀, serde.parse payload = some v₀ ∧
      ∃ ov ∈ ovs, ∃ apps ∈ aps, serve ov apps v₀ = some v
  | .sending payload value out => Served serde ovs aps ⟨payload, value, out⟩
  | .dead payload => ∃ v₀, serde.parse payload = some v₀ ∧ ∃ ov ∈ ovs, applyOverrides ov v₀ = none

structure BridgeInv {b : Broadcast.Ops String} (serde : Serde) (s : Feed b) : Prop where
  overrides : s.overrides ∈ s.allOverrides
  apps : s.apps ∈ s.allApps
  served : ∀ t ∈ s.turns, Served serde s.allOverrides s.allApps t
  sound : s.bridge.Sound serde s.allOverrides s.allApps
  offline : s.bridge = .offline → s.queue = [] ∧ s.subscribed = false
  order : s.turns.map Turn.payload ++ s.bridge.inFlight.toList ++ s.queue.reduceOption =
    s.delivered.reduceOption

section Grow

variable {serde : Serde} {ovs ovs' : List Overrides} {aps aps' : List AppMap}

theorem Served.mono {t : Turn} (hovs : ovs ⊆ ovs') (haps : aps ⊆ aps')
    (h : Served serde ovs aps t) : Served serde ovs' aps' t := by
  rw [Served] at h ⊢
  cases hparse : serde.parse t.payload with
  | none =>
      rw [hparse] at h
      exact h
  | some v =>
      rw [hparse] at h
      obtain ⟨ov, hov, apps, happs, hw⟩ := h
      exact ⟨ov, hovs hov, apps, haps happs, hw⟩

theorem Bridge.Sound.mono {b : Bridge} (hovs : ovs ⊆ ovs') (haps : aps ⊆ aps')
    (h : b.Sound serde ovs aps) : b.Sound serde ovs' aps' := by
  cases b with
  | offline | waiting | parsed => exact h
  | overridden =>
      obtain ⟨v₀, hparse, ov, hov, hv⟩ := h
      exact ⟨v₀, hparse, ov, hovs hov, hv⟩
  | labelled =>
      obtain ⟨v₀, hparse, ov, hov, apps, happs, hv⟩ := h
      exact ⟨v₀, hparse, ov, hovs hov, apps, haps happs, hv⟩
  | sending => exact Served.mono hovs haps h
  | dead =>
      obtain ⟨v₀, hparse, ov, hov, hv⟩ := h
      exact ⟨v₀, hparse, ov, hovs hov, hv⟩

end Grow

/-- The labels never fail: what has an address to look up is an object. -/
theorem stampApp_isSome (apps : AppMap) (key : String) (v : Json) :
    (stampApp apps key v).isSome := by
  cases hget : v.get key with
  | none => simp [stampApp, hget]
  | some ip =>
      have hobj : ∃ fields, v = .object fields := by
        cases v with
        | object fields => exact ⟨fields, rfl⟩
        | null | bool | number | string | array => cases hget
      rw [stampApp, hget]
      cases hip : (some ip).bind Json.asStr with
      | none => rfl
      | some ip =>
          dsimp only
          cases apps.lookup ip with
          | none => rfl
          | some entry =>
              dsimp only
              split
              · rfl
              · obtain ⟨w, hw, hobj', -⟩ := set_object hobj "app" (.string entry.1)
                obtain ⟨w', hw', -⟩ := set_object hobj' "category" (.ofOption .string entry.2)
                rw [hw, Option.bind_some, hw']
                rfl

theorem applyApps_isSome (apps : AppMap) (v : Json) : (applyApps apps v).isSome := by
  obtain ⟨w, hw⟩ := Option.isSome_iff_exists.mp (stampApp_isSome apps "dst_addr" v)
  rw [applyApps, hw]
  exact stampApp_isSome apps "src_addr" w

variable {b : Broadcast.Ops String}

namespace BridgeInv

variable {serde : Serde} {s s' : Feed b} {a : FeedAct}

theorem init (ov : Overrides) (apps : AppMap) : BridgeInv serde (.init ov apps : Feed b) where
  overrides := List.mem_singleton_self ov
  apps := List.mem_singleton_self apps
  served := by
    rintro t ⟨⟩
  sound := trivial
  offline := fun _ ↦ ⟨rfl, rfl⟩
  order := rfl

/-- A step of the bridge that keeps its message. -/
theorem advance (h : BridgeInv serde s) (agg : Aggregator) (bridge : Bridge)
    (hbridge : bridge ≠ .offline) (hsound : bridge.Sound serde s.allOverrides s.allApps)
    (hflight : bridge.inFlight = s.bridge.inFlight) :
    BridgeInv serde { s with agg := agg, bridge := bridge } where
  overrides := h.overrides
  apps := h.apps
  served := h.served
  sound := hsound
  offline := fun hoff ↦ absurd hoff hbridge
  order := by
    dsimp only
    rw [hflight]
    exact h.order

theorem publish (h : BridgeInv serde s) (hsub : s.subscribed = true) (m : Message) :
    BridgeInv serde { s with queue := s.queue ++ [m], delivered := s.delivered ++ [m] } where
  overrides := h.overrides
  apps := h.apps
  served := h.served
  sound := h.sound
  offline := by
    intro hoff
    rw [(h.offline hoff).2] at hsub
    cases hsub
  order := by
    dsimp only
    rw [List.reduceOption_append, List.reduceOption_append, ← h.order]
    exact (List.append_assoc _ _ _).symm

theorem take (h : BridgeInv serde s) {payload : String} {rest : List Message}
    (hb : s.bridge = .waiting) (hqueue : s.queue = some payload :: rest) :
    BridgeInv serde { s with bridge := Feed.received serde payload, queue := rest } := by
  have horder := h.order
  rw [hb, hqueue, List.reduceOption_cons_of_some] at horder
  cases hparse : serde.parse payload with
  | some v =>
      have hbridge : Feed.received serde payload = .parsed payload v := by
        rw [Feed.received, hparse]
      rw [hbridge]
      exact ⟨h.overrides, h.apps, h.served, hparse, nofun, by simpa [Bridge.inFlight] using horder⟩
  | none =>
      have hbridge : Feed.received serde payload = .sending payload none payload := by
        rw [Feed.received, hparse]
      rw [hbridge]
      refine ⟨h.overrides, h.apps, h.served, ?_, nofun, by simpa [Bridge.inFlight] using horder⟩
      rw [Bridge.Sound, Served, hparse]
      exact ⟨rfl, rfl⟩

theorem send (h : BridgeInv serde s) {payload : String} {value : Option Json} {out : String}
    (hb : s.bridge = .sending payload value out) :
    BridgeInv serde { s with
      channel := b.send s.channel out
      bridge := .waiting
      turns := s.turns ++ [⟨payload, value, out⟩] } where
  overrides := h.overrides
  apps := h.apps
  served := by
    intro t ht
    rcases List.mem_append.mp ht with hold | hnew
    · exact h.served t hold
    · obtain rfl := List.mem_singleton.mp hnew
      have hsound := h.sound
      rw [hb] at hsound
      exact hsound
  sound := trivial
  offline := nofun
  order := by
    have horder := h.order
    rw [hb] at horder
    simpa [Bridge.inFlight] using horder

theorem step (h : BridgeInv serde s) (hstep : s.step serde a = some s') : BridgeInv serde s' := by
  have hsound := h.sound
  cases Feed.step_outcome hstep with
  | unheard | away => exact h
  | publish hsub => exact h.publish hsub _
  | connect hb =>
      have horder := h.order
      rw [hb, (h.offline hb).1] at horder
      exact ⟨h.overrides, h.apps, h.served, trivial, nofun, horder⟩
  | lose =>
      exact ⟨h.overrides, h.apps, h.served, h.sound, fun hoff ↦ ⟨(h.offline hoff).1, rfl⟩, h.order⟩
  | take hb hqueue => exact h.take hb hqueue
  | skip hb hqueue =>
      have horder := h.order
      rw [hqueue, List.reduceOption_cons_of_none] at horder
      refine ⟨h.overrides, h.apps, h.served, h.sound, fun hoff ↦ ?_, horder⟩
      rw [hb] at hoff
      cases hoff
  | ended hb hqueue hsub =>
      have horder := h.order
      rw [hb] at horder
      exact ⟨h.overrides, h.apps, h.served, trivial, fun _ ↦ ⟨hqueue, hsub⟩, horder⟩
  | @override payload v w hb hw =>
      rw [hb] at hsound
      exact h.advance s.agg (.overridden payload w) nofun ⟨v, hsound, _, h.overrides, hw⟩
        (by rw [hb]; rfl)
  | @overridePanic payload v hb hw =>
      rw [hb] at hsound
      exact h.advance s.agg (.dead payload) nofun ⟨v, hsound, _, h.overrides, hw⟩ (by rw [hb]; rfl)
  | @label payload v w hb hw =>
      rw [hb] at hsound
      obtain ⟨v₀, hparse, ov, hov, hv⟩ := hsound
      refine h.advance s.agg (.labelled payload w) nofun ⟨v₀, hparse, ov, hov, _, h.apps, ?_⟩
        (by rw [hb]; rfl)
      rw [serve, hv]
      exact hw
  | @labelPanic payload v hb hw =>
      have hsome := applyApps_isSome s.apps v
      rw [hw] at hsome
      cases hsome
  | @record payload v hb =>
      rw [hb] at hsound
      obtain ⟨v₀, hparse, ov, hov, apps, happs, hv⟩ := hsound
      refine h.advance _ (.sending payload (some v) (serde.print v)) nofun ?_ (by rw [hb]; rfl)
      rw [Bridge.Sound, Served, hparse]
      exact ⟨ov, hov, apps, happs, _, hv, rfl, rfl⟩
  | send hb => exact h.send hb
  | @loadOverrides rows =>
      have hgrow := List.subset_append_left s.allOverrides [loadOverrides rows]
      exact ⟨List.mem_append_right _ (List.mem_singleton_self _), h.apps,
        fun t ht ↦ (h.served t ht).mono hgrow (List.Subset.refl _),
        h.sound.mono hgrow (List.Subset.refl _), h.offline, h.order⟩
  | @loadApps rows =>
      have hgrow := List.subset_append_left s.allApps [loadApps rows]
      exact ⟨h.overrides, List.mem_append_right _ (List.mem_singleton_self _),
        fun t ht ↦ (h.served t ht).mono (List.Subset.refl _) hgrow,
        h.sound.mono (List.Subset.refl _) hgrow, h.offline, h.order⟩
  | tick | join | value | lagged | leave =>
      exact ⟨h.overrides, h.apps, h.served, h.sound, h.offline, h.order⟩

theorem run {ov : Overrides} {apps : AppMap} {acts : List FeedAct}
    (hrun : Machine.run (Feed.step serde) (.init ov apps) acts = some s) : BridgeInv serde s :=
  Machine.run_invariant (fun _ _ _ h hstep ↦ h.step hstep) (.init ov apps) hrun

end BridgeInv

/-! ## The aggregator -/

def Op.flow : Op → Option Json
  | .record v => some v
  | .tick => none

/-- The flows among the operations on the aggregator. -/
def recordedBy (ops : List Op) : List Json := ops.filterMap Op.flow

/-- The aggregator is that of these operations, and they record the values of the
turns and the one in front of its send. -/
def Records (s : Feed b) (ops : List Op) : Prop :=
  s.agg = Aggregator.run ops ∧
    recordedBy ops = s.turns.filterMap Turn.value ++ s.bridge.recorded.toList

def Recorded (s : Feed b) : Prop := ∃ ops, Records s ops

/-- What a step does on the aggregator. -/
def Feed.op (s : Feed b) : FeedAct → List Op
  | .advance =>
      match s.bridge with
      | .labelled _ v => [.record v]
      | _ => []
  | .tick => [.tick]
  | _ => []

/-- What a run does on the aggregator. -/
def Feed.ops (serde : Serde) : Feed b → List FeedAct → List Op :=
  Machine.outputs (Feed.step serde) Feed.op

section Recorded

variable {serde : Serde} {s s' : Feed b} {a : FeedAct} {ops : List Op}

theorem aggregator_run_concat (ops : List Op) (op : Op) :
    Aggregator.run (ops ++ [op]) = (Aggregator.run ops).apply op := by
  rw [Aggregator.run, List.foldl_append]
  rfl

theorem recordedBy_concat (ops : List Op) (op : Op) :
    recordedBy (ops ++ [op]) = recordedBy ops ++ op.flow.toList := by
  rw [recordedBy, List.filterMap_append]
  cases op <;> rfl

theorem Records.frame (h : Records s ops) (hop : s.op a = []) (hagg : s'.agg = s.agg)
    (hturns : s'.turns = s.turns) (hrecorded : s'.bridge.recorded = s.bridge.recorded) :
    Records s' (ops ++ s.op a) := by
  rw [hop, List.append_nil, Records, hagg, hturns, hrecorded]
  exact h

theorem recorded_received (payload : String) : (Feed.received serde payload).recorded = none := by
  rw [Feed.received]
  split <;> rfl

theorem Records.step (h : Records s ops) (hstep : s.step serde a = some s') :
    Records s' (ops ++ s.op a) := by
  cases Feed.step_outcome hstep with
  | unheard | publish | lose | skip | loadOverrides | loadApps | join | value | lagged | leave
  | away => exact h.frame rfl rfl rfl rfl
  | connect hb | ended hb => exact h.frame rfl rfl rfl (by rw [hb]; rfl)
  | override hb | overridePanic hb | label hb | labelPanic hb =>
      exact h.frame (by rw [Feed.op, hb]) rfl rfl (by rw [hb]; rfl)
  | take hb => exact h.frame rfl rfl rfl (by rw [hb]; exact recorded_received _)
  | @record payload v hb =>
      obtain ⟨hagg, hops⟩ := h
      rw [hb] at hops
      have hop : s.op .advance = [.record v] := by rw [Feed.op, hb]
      rw [hop]
      refine ⟨?_, ?_⟩
      · rw [aggregator_run_concat, ← hagg]
        rfl
      · rw [recordedBy_concat, hops, List.append_assoc]
        rfl
  | @send payload value out hb =>
      obtain ⟨hagg, hops⟩ := h
      have hop : s.op .advance = [] := by rw [Feed.op, hb]
      rw [hop, List.append_nil]
      refine ⟨hagg, ?_⟩
      rw [hops, hb, List.filterMap_append, List.append_assoc]
      congr 1
      cases value <;> rfl
  | tick =>
      obtain ⟨hagg, hops⟩ := h
      refine ⟨?_, ?_⟩
      · exact (congrArg Aggregator.tick hagg).trans (aggregator_run_concat ops .tick).symm
      · refine (recordedBy_concat ops .tick).trans ?_
        rw [hops]
        exact List.append_nil _

theorem Records.run {ov : Overrides} {apps : AppMap} {acts : List FeedAct}
    (hrun : Machine.run (Feed.step serde) (.init ov apps) acts = some s) :
    Records s (Feed.ops serde (.init ov apps : Feed b) acts) := by
  have hinit : Records (.init ov apps : Feed b) [] := ⟨rfl, rfl⟩
  exact Machine.run_outputs (fun _ _ _ _ h hstep ↦ h.step hstep) hinit hrun

end Recorded

/-- The text of one value. -/
def serdeOf (v : Json) : Serde :=
  ⟨fun text ↦ if text = "flow" then some v else none, fun _ ↦ "flow"⟩

open Ingestor in
/-- A flow inside the home network. -/
def lanJson : Json :=
  enrichedJson plainOutside lan (plainGeo.lookup (.v4 ⟨0x0a000001⟩))
    (plainGeo.lookup (.v4 ⟨0x0a000002⟩))

/-- Every message that reached a subscription is sent on once and in its order,
whatever connections were lost between; each is sent under maps in force; and
the aggregator has recorded the very values that were sent. -/
theorem bridge_agrees {serde : Serde} {ov : Overrides} {apps : AppMap} {acts : List FeedAct}
    {s : Feed b} (hrun : Machine.run (Feed.step serde) (.init ov apps) acts = some s) :
    s.turns.map Turn.payload ++ s.bridge.inFlight.toList ++ s.queue.reduceOption =
        s.delivered.reduceOption ∧
      (∀ t ∈ s.turns, Served serde s.allOverrides s.allApps t) ∧ Recorded s := by
  have hinv : BridgeInv serde s := .run hrun
  exact ⟨hinv.order, hinv.served, _, .run hrun⟩

/-- A flow under a correction, and a text that is no JSON and still waits when the
connection is lost; what is published before the next one is not heard. -/
def reconnecting : List FeedAct :=
  [.connect, .publish (some "flow"), .publish (some "hello"), .take, .advance, .advance, .lose,
    .advance, .advance, .take, .advance, .take, .publish (some "gone"), .loadOverrides (.ok []),
    .connect, .publish (some "flow"), .take, .advance]

theorem bridge_agrees_reconnecting : ∃ s : Feed (Broadcast.Ring.ops String),
    Machine.run (Feed.step (serdeOf lanJson)) (.init (.singleton "10.0.0.1" ⟨1, 2, none⟩) ∅)
        reconnecting = some s ∧
      s.delivered = [some "flow", some "hello", some "flow"] ∧
      s.turns.map Turn.payload ++ s.bridge.inFlight.toList ++ s.queue.reduceOption =
        s.delivered.reduceOption ∧
      (∀ t ∈ s.turns, Served (serdeOf lanJson) s.allOverrides s.allApps t) ∧
      (s.turns.map (fun t ↦ t.value.isSome)) = [true, false] ∧ Recorded s := by
  have hrec : (Machine.run (Feed.step (serdeOf lanJson))
      (.init (.singleton "10.0.0.1" ⟨1, 2, none⟩) ∅ : Feed (Broadcast.Ring.ops String))
      reconnecting).map (fun s ↦ (s.delivered, s.turns.map fun t ↦ t.value.isSome)) =
        some ([some "flow", some "hello", some "flow"], [true, false]) := by
    decide
  obtain ⟨s, hrun, hs⟩ := Option.map_eq_some_iff.mp hrec
  obtain ⟨hdelivered, hturns⟩ := Prod.mk.inj hs
  obtain ⟨horder, hserved, hrecorded⟩ := bridge_agrees hrun
  exact ⟨s, hrun, hdelivered, horder, hserved, hturns, hrecorded⟩

/-! ## A bridge that stops -/

/-- A value at whose places a correction can be written. -/
def Placed (v : Json) : Prop := ∀ e ∈ ends, ∀ g, v.get e.2 = some g → g.HasKeys

theorem applyOverrides_of_placed {v : Json} (h : Placed v) (ov : Overrides) :
    (applyOverrides ov v).isSome := by
  cases v with
  | object entries => exact applyOverrides_isSome_iff.mpr fun e he c g _ hg ↦ h e he g hg
  | null | bool | number | string | array => rfl

open Ingestor Geo in
theorem placed_row {out : Outside} {geo : GeoResolver} {rec : FlowdParse.FlowRecord} {row : FlowRow}
    (h : toRow out geo rec = some row) : Placed row.json := by
  have hplace : ∀ p : Option GeoPoint, (Json.ofOption GeoPoint.toJson p).HasKeys := by
    intro p
    cases p with
    | none => exact Or.inl rfl
    | some p => exact Or.inr ⟨_, rfl⟩
  obtain ⟨src, dst, -, -, hjson, -⟩ := endpoints_of_toRow out h
  rw [hjson, Placed, forall_ends]
  constructor
  · rintro g ⟨⟩
    exact hplace _
  · rintro g ⟨⟩
    exact hplace _

/-- The texts of the ingestor's rows, which parse to what was printed. -/
def FromIngestor (out : Ingestor.Outside) (geo : Geo.GeoResolver) (serde : Serde) (m : Message) :
    Prop :=
  ∃ rec row, Ingestor.toRow out geo rec = some row ∧ m = some (serde.print row.json) ∧
    serde.parse (serde.print row.json) = some row.json

/-- The bridge stops for good only on a value with a place that is neither an
object nor null, at an endpoint that was corrected; the rows of the ingestor have no such
place, so with them it never stops, and whenever it waits with nothing in front
of it everything that reached a subscription has been sent on. -/
theorem bridge_survives {serde : Serde} {ov : Overrides} {apps : AppMap} {acts : List FeedAct}
    {s : Feed b} (hrun : Machine.run (Feed.step serde) (.init ov apps) acts = some s) :
    (∀ payload, s.bridge = .dead payload → some payload ∈ s.delivered ∧
      ∃ v, serde.parse payload = some v ∧ ¬ Placed v) ∧
    ∀ out geo, (∀ m ∈ s.delivered, FromIngestor out geo serde m) →
      (∀ payload, s.bridge ≠ .dead payload) ∧
        (s.bridge = .waiting → s.queue = [] →
          s.turns.map Turn.payload = s.delivered.reduceOption) := by
  have hinv : BridgeInv serde s := .run hrun
  have hcause : ∀ payload, s.bridge = .dead payload → some payload ∈ s.delivered ∧
      ∃ v, serde.parse payload = some v ∧ ¬ Placed v := by
    intro payload hdead
    have hsound := hinv.sound
    have horder := hinv.order
    rw [hdead] at hsound horder
    obtain ⟨v, hparse, ov', -, hfail⟩ := hsound
    refine ⟨?_, v, hparse, fun hplaced ↦ ?_⟩
    · rw [← List.reduceOption_mem_iff, ← horder]
      simp [Bridge.inFlight]
    · have hsome := applyOverrides_of_placed hplaced ov'
      rw [hfail] at hsome
      cases hsome
  refine ⟨hcause, fun out geo hrows ↦ ⟨fun payload hdead ↦ ?_, fun hwait hqueue ↦ ?_⟩⟩
  · obtain ⟨hmem, v, hparse, hnot⟩ := hcause payload hdead
    obtain ⟨rec, row, hrow, hm, hround⟩ := hrows _ hmem
    rw [Option.some.inj hm, hround] at hparse
    exact hnot (Option.some.inj hparse ▸ placed_row hrow)
  · have horder := hinv.order
    rw [hwait, hqueue] at horder
    simpa [Bridge.inFlight] using horder

/-- The text of a row of the ingestor. -/
theorem fromIngestor_lan :
    FromIngestor Ingestor.plainOutside Ingestor.plainGeo (serdeOf lanJson) (some "flow") := by
  have hrow : (Ingestor.toRow Ingestor.plainOutside Ingestor.plainGeo Ingestor.lan).map
      Ingestor.FlowRow.json = some lanJson := rfl
  obtain ⟨row, hrow, hjson⟩ := Option.map_eq_some_iff.mp hrow
  exact ⟨Ingestor.lan, row, hrow, rfl, by rw [hjson]; rfl⟩

def oneFlow : List FeedAct :=
  [.connect, .publish (some "flow"), .take, .advance, .advance, .advance, .advance]

open Ingestor in
/-- It goes through under a correction for its source. -/
theorem bridge_survives_lan : ∃ s : Feed (Broadcast.Ring.ops String),
    Machine.run (Feed.step (serdeOf lanJson)) (.init (.singleton "10.0.0.1" ⟨1, 2, none⟩) ∅)
      oneFlow = some s ∧ s.turns.map Turn.payload = ["flow"] ∧
      ∀ payload, s.bridge ≠ .dead payload := by
  have hflow : (Machine.run (Feed.step (serdeOf lanJson))
      (.init (.singleton "10.0.0.1" ⟨1, 2, none⟩) ∅ : Feed (Broadcast.Ring.ops String))
      oneFlow).map
        (fun s ↦ (s.delivered, s.turns.map Turn.payload)) = some ([some "flow"], ["flow"]) := by
    decide
  obtain ⟨s, hrun, hs⟩ := Option.map_eq_some_iff.mp hflow
  obtain ⟨hdelivered, hturns⟩ := Prod.mk.inj hs
  refine ⟨s, hrun, hturns, ((bridge_survives hrun).2 plainOutside plainGeo ?_).1⟩
  intro m hm
  rw [hdelivered, List.mem_singleton] at hm
  rw [hm]
  exact fromIngestor_lan

end TrafficMap.Api
