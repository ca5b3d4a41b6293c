import TrafficMap.Api.Conservation
import TrafficMap.Api.LiveBridge

/-!
# Totals of the live feed

The aggregator at the end of the bridge: whatever the interleaving of messages,
map reloads and ticks, the statistics of a window account for the flows that the
ingestor has published.
-/

namespace TrafficMap.Api

/-! ## Addresses on their way -/

section Frame

variable {apps : AppMap} {ov : Overrides} {v w : Json}

theorem get_stampApp {key k : String} (h : stampApp apps key v = some w) (happ : k ≠ "app")
    (hcategory : k ≠ "category") : w.get k = v.get k := by
  rw [stampApp] at h
  split at h
  · rw [← Option.some.inj h]
  · split at h
    · rw [← Option.some.inj h]
    · split at h
      · rw [← Option.some.inj h]
      · obtain ⟨w', hw', hw⟩ := Option.bind_eq_some_iff.mp h
        rw [Json.get_set hw, if_neg hcategory, Json.get_set hw', if_neg happ]

/-- Serving a flow does not touch its addresses, its octets nor its packets. -/
theorem get_serve {k : String} (h : serve ov apps v = some w)
    (hk : k ∉ geoKeys ++ ["app", "category"]) : w.get k = v.get k := by
  obtain ⟨v', hov, happs⟩ := Option.bind_eq_some_iff.mp h
  obtain ⟨v'', hdst, hsrc⟩ := Option.bind_eq_some_iff.mp happs
  simp only [List.mem_append, List.mem_cons, List.not_mem_nil, or_false, not_or] at hk
  rw [get_stampApp hsrc hk.2.1 hk.2.2, get_stampApp hdst hk.2.1 hk.2.2]
  exact (applyOverrides_spec hov).1.others k hk.1

theorem addressed_congr (hsrc : w.get "src_addr" = v.get "src_addr")
    (hdst : w.get "dst_addr" = v.get "dst_addr") (h : Addressed v) : Addressed w := by
  simp only [Addressed, flowOf] at h ⊢
  rwa [hsrc, hdst]

end Frame

open Ingestor Geo in
theorem addressed_row {out : Outside} {geo : GeoResolver} {rec : FlowdParse.FlowRecord}
    {row : FlowRow} (h : toRow out geo rec = some row) : Addressed row.json := by
  obtain ⟨src, dst, hsrc, hdst, hjson, -⟩ := endpoints_of_toRow out h
  have hget : row.json.get "src_addr" = some (jsonIp rec.srcAddr) ∧
      row.json.get "dst_addr" = some (jsonIp rec.dstAddr) := by
    rw [hjson]
    exact ⟨rfl, rfl⟩
  simp only [Addressed, flowOf, hget.1, hget.2, hsrc, hdst]
  exact ⟨rfl, rfl⟩

/-! ## What is in a window -/

theorem reference_run_concat (ops : List Op) (op : Op) :
    Reference.run (ops ++ [op]) = (Reference.run ops).apply op := by
  rw [Reference.run, List.foldl_append]
  rfl

theorem flows_reference (ops : List Op) :
    (Reference.run ops).flows.map Prod.snd = recordedBy ops := by
  induction ops using List.reverseRecOn with
  | nil => rfl
  | append_singleton ops op ih =>
      rw [reference_run_concat, recordedBy_concat, ← ih]
      cases op with
      | record v => exact List.map_append
      | tick => exact (List.append_nil _).symm

/-- The flows are in the order of their ticks. -/
theorem sorted_reference (ops : List Op) :
    (Reference.run ops).flows.Pairwise fun f f' ↦ f.1 ≤ f'.1 := by
  induction ops using List.reverseRecOn with
  | nil => exact .nil
  | append_singleton ops op ih =>
      rw [reference_run_concat]
      cases op with
      | tick => exact ih
      | record v =>
          refine List.pairwise_append.mpr ⟨ih, List.pairwise_singleton _ _, fun f hf f' hf' ↦ ?_⟩
          rw [List.mem_singleton.mp hf']
          exact (refines_run ops).1 f hf

theorem filter_suffix {α : Type} {p : α → Bool} {l : List α}
    (h : l.Pairwise fun a b ↦ p a = true → p b = true) : l.filter p <:+ l := by
  induction l with
  | nil => exact List.suffix_rfl
  | cons a l ih =>
      obtain ⟨ha, hl⟩ := List.pairwise_cons.mp h
      by_cases hp : p a = true
      · have hall : (a :: l).filter p = a :: l :=
          List.filter_eq_self.mpr (List.forall_mem_cons.mpr ⟨hp, fun b hb ↦ ha b hb hp⟩)
        rw [hall]
      · rw [List.filter_cons_of_neg hp]
        exact (ih hl).trans (List.suffix_cons a l)

/-- A window is an end of what was recorded. -/
theorem inWindow_suffix (ops : List Op) (w : ℕ) :
    (Reference.run ops).inWindow w <:+ recordedBy ops := by
  rw [← flows_reference, Reference.inWindow]
  apply List.IsSuffix.map
  apply filter_suffix
  refine (sorted_reference ops).imp fun {f f'} hle hf ↦ ?_
  rw [decide_eq_true_eq] at hf ⊢
  omega

/-! ## From the ingestor to the statistics -/

section Ingested

variable {b : Broadcast.Ops String} {serde : Serde} {out : Ingestor.Outside} {geo : Geo.GeoResolver}

theorem addressed_of_served {ovs : List Overrides} {aps : List AppMap} {t : Turn} {v : Json}
    (h : Served serde ovs aps t) (hm : FromIngestor out geo serde (some t.payload))
    (hv : t.value = some v) : Addressed v := by
  obtain ⟨rec, row, hrow, hpayload, hround⟩ := hm
  rw [← Option.some.inj hpayload] at hround
  rw [Served, hround] at h
  obtain ⟨ov, -, apps, -, w, hw, hvalue, -⟩ := h
  obtain rfl := Option.some.inj (hvalue.symm.trans hv)
  exact addressed_congr (get_serve hw (by decide)) (get_serve hw (by decide)) (addressed_row hrow)

/-- The recorded values are those of the messages that have arrived. -/
theorem addressed_of_recorded {s : Feed b} (hinv : BridgeInv serde s)
    (hrows : ∀ m ∈ s.delivered, FromIngestor out geo serde m) {v : Json}
    (hv : v ∈ s.turns.filterMap Turn.value ++ s.bridge.recorded.toList) : Addressed v := by
  have harrived : ∀ payload ∈ s.turns.map Turn.payload ++ s.bridge.inFlight.toList,
      FromIngestor out geo serde (some payload) := by
    intro payload hpayload
    apply hrows
    rw [← List.reduceOption_mem_iff, ← hinv.order]
    exact List.mem_append_left _ hpayload
  rcases List.mem_append.mp hv with hturn | hflight
  · obtain ⟨t, ht, hvalue⟩ := List.mem_filterMap.mp hturn
    exact addressed_of_served (hinv.served t ht)
      (harrived _ (List.mem_append_left _ (List.mem_map_of_mem ht))) hvalue
  · have hsound := hinv.sound
    cases hbridge : s.bridge with
    | sending payload value text =>
        rw [hbridge] at hflight hsound harrived
        exact addressed_of_served hsound (harrived payload (List.mem_append_right _ (by
          exact List.mem_singleton_self payload))) (Option.mem_toList.mp hflight)
    | offline | waiting | parsed | overridden | labelled | dead =>
        rw [hbridge] at hflight
        cases hflight

/-- The statistics of a window and the flows recorded in its periods.  What is emitted
shows them, and the remote hosts account for all but the traffic inside the home
network. -/
structure Accounted (it : IterOrder) (fl : ℚ → ℚ) (a : Aggregator) (r : Reference) (w : ℕ) :
    Prop where
  counted : Counted (∀ i < w, peerCount (r.period i) ≤ DST_CAP) (a.merged it w) (r.inWindow w)
  emitted : 1 ≤ w → Emits fl w (a.stats it w) (a.snapshot it fl w) ∧
    Agrees (∀ i < w, peerCount (r.period i) ≤ DST_CAP) (a.merged it w) (a.stats it w)
      (r.inWindow w)
  hosts : (a.merged it w).total =
    axisSum id (a.merged it w).host + totalOf (internal (r.inWindow w))
  bytes : (a.merged it w).total.inBytes = (axisSum id (a.merged it w).host).inBytes
  packets : (a.merged it w).total.inPkts = (axisSum id (a.merged it w).host).inPkts

theorem accounted_run (it : IterOrder) (fl : ℚ → ℚ) {ops : List Op} {w : ℕ} (hw : w ≤ BUCKETS)
    (haddr : ∀ v ∈ (Reference.run ops).inWindow w, Addressed v) :
    Accounted it fl (Aggregator.run ops) (Reference.run ops) w where
  counted := counted_window it ops hw
  emitted hpos := ⟨emits_toJson fl rfl, agrees_stats it ops hpos hw⟩
  hosts := by
    rw [← keyless_hostKey haddr]
    exact (conserved_window it ops hw).host
  bytes := (inBytes_window it ops hw haddr).1
  packets := (inBytes_window it ops hw haddr).2

/-- In every state of the server, with messages of the ingestor, the statistics of
a window are those of the values recorded in its periods, the latest of those sent to
the clients; the remote hosts account for all of it but the traffic inside the home
network, and for every byte that came in. -/
theorem window_accounted {ov : Overrides} {apps : AppMap} {acts : List FeedAct} {s : Feed b}
    (hrun : Machine.run (Feed.step serde) (.init ov apps) acts = some s)
    (hrows : ∀ m ∈ s.delivered, FromIngestor out geo serde m) (it : IterOrder) (fl : ℚ → ℚ)
    {w : ℕ} (hw : w ≤ BUCKETS) :
    let r := Reference.run (Feed.ops serde (.init ov apps : Feed b) acts)
    r.inWindow w <:+ s.turns.filterMap Turn.value ++ s.bridge.recorded.toList ∧
      Accounted it fl s.agg r w := by
  intro r
  obtain ⟨hagg, hops⟩ := Records.run hrun
  have hend : r.inWindow w <:+ s.turns.filterMap Turn.value ++ s.bridge.recorded.toList :=
    hops ▸ inWindow_suffix _ w
  rw [hagg]
  refine ⟨hend, accounted_run it fl hw fun v hv ↦ ?_⟩
  exact addressed_of_recorded (.run hrun) hrows (hend.subset hv)

end Ingested

/-! ## A run -/

open Ingestor in
/-- Inside the home network, out of it and into it. -/
def homeFlows : List FlowdParse.FlowRecord :=
  [lan,
    { discover with srcAddr := some (.v4 ⟨0x0a000003⟩), dstAddr := some (.v4 ⟨0x08080808⟩) },
    { discover with srcAddr := some (.v4 ⟨0x08080808⟩), dstAddr := some (.v4 ⟨0x0a000001⟩) }]

def sourceText (v : Json) : String := ((v.get "src_addr").bind Json.asStr).getD ""

/-- The rows of the flows as texts: their sources. -/
def homeSerde : Serde where
  parse text := (homeFlows.filterMap fun rec ↦
    (Ingestor.toRow Ingestor.plainOutside Ingestor.plainGeo rec).map Ingestor.FlowRow.json).find?
      fun v ↦ sourceText v = text
  print := sourceText

theorem fromIngestor_home {rec : FlowdParse.FlowRecord} (h : rec ∈ homeFlows) :
    ∃ row, Ingestor.toRow Ingestor.plainOutside Ingestor.plainGeo rec = some row ∧
      homeSerde.parse (homeSerde.print row.json) = some row.json := by
  simp only [homeFlows, List.mem_cons, List.not_mem_nil, or_false] at h
  rcases h with rfl | rfl | rfl
  · exact ⟨_, rfl, rfl⟩
  · exact ⟨_, rfl, rfl⟩
  · exact ⟨_, rfl, rfl⟩

/-- The bridge takes a message and sends it on. -/
def passOn (text : String) : List FeedAct :=
  [.publish (some text), .take, .advance, .advance, .advance, .advance]

/-- Two ticks before the last two flows, and one between them. -/
def homeActs : List FeedAct :=
  .connect :: passOn "10.0.0.1" ++ [.tick, .tick] ++ passOn "10.0.0.3" ++ .tick ::
    passOn "8.8.8.8"

/-- Of three flows the last two are in the window, one in either direction. -/
theorem window_accounted_home : ∃ s : Feed (Broadcast.Ring.ops String),
    Machine.run (Feed.step homeSerde) (.init ∅ ∅) homeActs = some s ∧
      s.turns.map Turn.payload = ["10.0.0.1", "10.0.0.3", "8.8.8.8"] ∧
      let r := Reference.run (Feed.ops homeSerde
        (.init ∅ ∅ : Feed (Broadcast.Ring.ops String)) homeActs)
      (r.inWindow 2).map sourceText = ["10.0.0.3", "8.8.8.8"] ∧
        r.inWindow 2 <:+ s.turns.filterMap Turn.value ++ s.bridge.recorded.toList ∧
        Accounted inOrder id s.agg r 2 := by
  have hhome : (Machine.run (Feed.step homeSerde)
      (.init ∅ ∅ : Feed (Broadcast.Ring.ops String)) homeActs).map
        (fun s ↦ (s.delivered, s.turns.map Turn.payload)) =
      some ([some "10.0.0.1", some "10.0.0.3", some "8.8.8.8"],
        ["10.0.0.1", "10.0.0.3", "8.8.8.8"]) := by
    decide +kernel
  obtain ⟨s, hrun, hs⟩ := Option.map_eq_some_iff.mp hhome
  obtain ⟨hdelivered, hturns⟩ := Prod.mk.inj hs
  have hrows : ∀ m ∈ s.delivered,
      FromIngestor Ingestor.plainOutside Ingestor.plainGeo homeSerde m := by
    have hall : s.delivered = homeFlows.map fun rec ↦
        (Ingestor.toRow Ingestor.plainOutside Ingestor.plainGeo rec).map fun row ↦
          homeSerde.print row.json := by
      rw [hdelivered]
      decide +kernel
    intro m hm
    rw [hall] at hm
    obtain ⟨rec, hrec, rfl⟩ := List.mem_map.mp hm
    obtain ⟨row, hrow, hround⟩ := fromIngestor_home hrec
    exact ⟨rec, row, hrow, by rw [hrow]; rfl, hround⟩
  refine ⟨s, hrun, hturns, ?_, window_accounted hrun hrows _ id (by decide)⟩
  decide +kernel

end TrafficMap.Api
