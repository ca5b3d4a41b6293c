import TrafficMap.Api.LiveTotals
import TrafficMap.Api.Stores

/-!
# Where a label comes from

A flow of the live feed is labelled with an application only where an operator has
entered it for one of its addresses, or where a name seen on a connection to the
address had a rule for it.
-/

namespace TrafficMap.Api

open FlowdParse Ingestor SniSniff Sql Wire

/-! ## Stamps -/

section Stamp

variable {apps : AppMap} {v w : Json} {app : String}

theorem label_of_stampApp {key : String} (h : stampApp apps key v = some w)
    (happ : appLabel w = some app) : appLabel v = some app ∨
      ∃ text category, v.get key = some (.string text) ∧
        apps.lookup text = some (app, category) := by
  rw [stampApp] at h
  split at h
  · exact Or.inl (Option.some.inj h ▸ happ)
  · rename_i text htext
    split at h
    · exact Or.inl (Option.some.inj h ▸ happ)
    · rename_i app' category hlookup
      split at h
      · exact Or.inl (Option.some.inj h ▸ happ)
      · right
        obtain ⟨w', hw', hw⟩ := Option.bind_eq_some_iff.mp h
        have hget : w.get "app" = some (.string app') := by
          rw [Json.get_set hw, if_neg (by decide), Json.get_set hw', if_pos rfl]
        rw [appLabel, hget] at happ
        obtain rfl := Option.some.inj happ
        obtain ⟨x, hx, hstr⟩ := Option.bind_eq_some_iff.mp htext
        cases x with
        | string str =>
            obtain rfl := Option.some.inj hstr
            exact ⟨str, category, hx, hlookup⟩
        | _ => cases hstr

/-- Serving labels a flow by one of its addresses. -/
theorem label_of_serve {ov : Overrides} (h : serve ov apps v = some w) (hbare : appLabel v = none)
    (happ : appLabel w = some app) : ∃ key ∈ ["dst_addr", "src_addr"], ∃ text category,
      v.get key = some (.string text) ∧ apps.lookup text = some (app, category) := by
  obtain ⟨v₁, hov, happs⟩ := Option.bind_eq_some_iff.mp h
  obtain ⟨v₂, hdst, hsrc⟩ := Option.bind_eq_some_iff.mp happs
  have hframe := (applyOverrides_spec hov).1.others
  rcases label_of_stampApp hsrc happ with happ₂ | ⟨text, category, hget, hlookup⟩
  · rcases label_of_stampApp hdst happ₂ with happ₁ | ⟨text, category, hget, hlookup⟩
    · rw [appLabel, hframe "app" (by decide), ← appLabel, hbare] at happ₁
      cases happ₁
    · rw [hframe "dst_addr" (by decide)] at hget
      exact ⟨"dst_addr", List.mem_cons_self, text, category, hget, hlookup⟩
  · rw [get_stampApp hdst (by decide) (by decide), hframe "src_addr" (by decide)] at hget
    exact ⟨"src_addr", by simp, text, category, hget, hlookup⟩

end Stamp

/-! ## The maps -/

/-- Every entry of the map goes back to a row that has a source. -/
def MapTraced (trail : Trail) (db : Database) (apps : AppMap) : Prop :=
  ∀ text app category, apps.lookup text = some (app, category) →
    ∃ ip row, db.host ip = text ∧ row.app = some app ∧ Traced trail ip row

section Maps

variable {trail trail' : Trail} {db : Database}

theorem MapTraced.mono {apps : AppMap} (h : MapTraced trail db apps) (hgrows : trail.Grows trail') :
    MapTraced trail' db apps := by
  intro text app category hlookup
  obtain ⟨ip, row, hip, happ, htraced⟩ := h text app category hlookup
  exact ⟨ip, row, hip, happ, htraced.mono hgrows⟩

/-- What a load finds in the table, and nothing if it fails. -/
theorem mapTraced_load {ipApp : Table IpNetwork IpApp}
    (h : ∀ ip row, ipApp.lookup ip = some row → Traced trail ip row) (ok : Bool) :
    MapTraced trail db (loadApps (answer ok (.ok (appRows db ipApp)))) := by
  intro text app category hlookup
  cases ok with
  | false => cases hlookup
  | true =>
      have hmem := (lookup_collect (appRows db ipApp) text).1 (app, category) hlookup
      obtain ⟨ip, row, hrow, happ, -, htext⟩ := mem_appRows_iff.mp hmem
      exact ⟨ip, row, htext, happ, h ip row hrow⟩

end Maps

section Kept

variable {D : Type} [Field D] [LinearOrder D] {apps : AppEngine} {toTimestamp : ℚ → DateTime}
  {geo : GeoDoctor.Engine D} {homeLat homeLon : ℚ} {db : Database}

theorem labels_kept : MapsKept (Stores.step apps toTimestamp geo homeLat homeLon)
    (Stores.queries db) (fun s ↦ SniffersInv toTimestamp s.sniffers) (fun _ _ ↦ True)
    (fun s apps ↦ MapTraced s.sniffers.trail db apps) where
  store s a t h hstep := by
    rcases Stores.step_cases hstep with ⟨b, u, rfl, hu, rfl⟩ | ⟨b, u, rfl, -, rfl⟩
    · exact h.step hu
    · exact h
  overrides _ _ _ _ _ _ := trivial
  apps s a t apps hstep h := by
    rcases Stores.step_cases hstep with ⟨b, u, rfl, hu, rfl⟩ | ⟨b, u, rfl, -, rfl⟩
    · exact h.mono (Sniffers.grows_of_step hu)
    · exact h
  loadOverrides _ _ _ := trivial
  loadApps _ ok h := mapTraced_load h.apps ok

end Kept

/-! ## The source of a label -/

/-- A name was seen on a connection to the address, and the rule of its longest
suffix is for the application. -/
structure Witnessed (trail : Trail) (ip : IpNetwork) (app : String) (o : Sighting) : Prop where
  seen : o ∈ trail.seen
  inStream : ∃ stream ∈ trail.streams, ∃ c ∈ (readCapture stream).1,
    c.ts = o.ts ∧ c.hello = some (o.conn, o.sni)
  toAddress : toNet o.conn.dst = ip
  ruled : ∃ rules ∈ trail.allRules, ∃ rule k, Longest rules (trimEndDots o.sni) rule k ∧
    rule.app = app

theorem Heard.witnessed {trail : Trail} {o : Sighting} (h : Heard trail o) (hseen : o ∈ trail.seen)
    {ip : IpNetwork} {app : String} (hip : toNet o.conn.dst = ip) (happ : o.app = some app) :
    Witnessed trail ip app o where
  seen := hseen
  inStream := h.inStream
  toAddress := hip
  ruled := by
    obtain ⟨rules, hrules, ho⟩ := h.classified
    have happ' : (classify o.sni rules).map (fun r ↦ r.1.app) = some app := by
      rw [← happ, ho]
      rfl
    obtain ⟨⟨rule, k⟩, hrule, hname⟩ := Option.map_eq_some_iff.mp happ'
    exact ⟨rules, hrules, rule, k, classify_eq_some_iff.mp hrule, hname⟩

/-- However the sniffers, the roll-ups, the geo-doctor, the operator, the loads and the
feed interleave: an application that the feed adds to a flow is one that the operator has
entered for one of its addresses, or one for which a name seen on a connection to the
address had the longest rule. -/
theorem label_source {D : Type} [Field D] [LinearOrder D] {apps : AppEngine}
    {toTimestamp : ℚ → DateTime} {geo : GeoDoctor.Engine D} {homeLat homeLon : ℚ} {db : Database}
    {b : Broadcast.Ops String} {serde : Serde} {acts : List (BackedAct StoreAct)}
    {s : Backed b Stores}
    (hrun : Machine.run (Backed.step (Stores.step apps toTimestamp geo homeLat homeLon)
      (Stores.queries db) serde) ⟨.init, none⟩ acts = some s)
    {f : Feed b} (hf : s.server = some f) {t : Turn} (ht : t ∈ f.turns) {v w : Json}
    (hv : serde.parse t.payload = some v) (hbare : appLabel v = none) (hw : t.value = some w)
    {app : String} (happ : appLabel w = some app) :
    ∃ key ∈ ["dst_addr", "src_addr"], ∃ ip, v.get key = some (.string (db.host ip)) ∧
      ((∃ row, (ip, row) ∈ s.store.sniffers.trail.edits ∧ row.app = some app) ∨
        ∃ o, Witnessed s.store.sniffers.trail ip app o) := by
  have hinv := BackedInv.run labels_kept SniffersInv.init hrun
  have hserved := (hinv.bridge f hf).served t ht
  rw [Served, hv] at hserved
  obtain ⟨ov, -, apps, happs, w', hserve, hw', -⟩ := hserved
  obtain rfl := Option.some.inj (hw.symm.trans hw')
  obtain ⟨key, hkey, text, category, hget, hlookup⟩ := label_of_serve hserve hbare happ
  obtain ⟨ip, row, rfl, hrow, htraced⟩ := hinv.apps f hf apps happs text app category hlookup
  refine ⟨key, hkey, ip, hget, htraced.imp (fun hedit ↦ ⟨row, hedit, hrow⟩) fun hseen ↦ ?_⟩
  obtain ⟨o, ho, hip, hname⟩ := hseen.1 app hrow
  exact ⟨o, Heard.witnessed (hinv.store.heard o ho) ho hip hname⟩

/-! ## A run -/

def cloudFlow : Json := .object [("dst_addr", .string "8.8.8.8"), ("src_addr", .string "10.0.0.2")]

abbrev qqStep : Backed (Broadcast.Ring.ops String) Stores → BackedAct StoreAct →
    Option (Backed (Broadcast.Ring.ops String) Stores) := Backed.step
  (Stores.step ⟨.first, id⟩ atEpoch GeoDoctor.flatEarth 0 0) (Stores.queries oneHost)
  (serdeOf cloudFlow)

theorem appRows_qq (pkt : Bytes) : appRows oneHost (qqStored pkt).db.ipApp =
    [("8.8.8.8", "Tencent", some "social")] := by
  have hrows : appRows oneHost
      (ipAppSql ⟨.first, id⟩ ⟨200, 0⟩ ⟨[qqSighting.row atEpoch], ∅, []⟩).ipApp =
        [("8.8.8.8", "Tencent", some "social")] := by
    decide +kernel
  exact hrows

/-- A name is sniffed, rolled up and loaded, and then a flow to its host comes. -/
def qqActs : List (BackedAct StoreAct) :=
  (qqSniffed.map .sniff).map .store ++ .serve true true :: oneFlow.map .feed

theorem label_source_qq : ∃ s f t w, Machine.run qqStep ⟨.init, none⟩ qqActs = some s ∧
    s.server = some f ∧ t ∈ f.turns ∧ t.value = some w ∧ appLabel w = some "Tencent" ∧
    ∃ key ∈ ["dst_addr", "src_addr"], ∃ ip, cloudFlow.get key = some (.string (oneHost.host ip)) ∧
      ((∃ row, (ip, row) ∈ s.store.sniffers.trail.edits ∧ row.app = some "Tencent") ∨
        ∃ o, Witnessed s.store.sniffers.trail ip "Tencent" o) := by
  obtain ⟨pkt, hsniffed⟩ := sniff_qq
  have hfed : (Machine.run (Feed.step (serdeOf cloudFlow))
      (.init ∅ (loadApps (.ok [("8.8.8.8", "Tencent", some "social")])) :
        Feed (Broadcast.Ring.ops String)) oneFlow).map
        (fun f ↦ f.turns.map fun t ↦ (t.payload, t.value.bind appLabel)) =
      some [("flow", some "Tencent")] := by
    decide +kernel
  obtain ⟨f, hfed, hturns⟩ := Option.map_eq_some_iff.mp hfed
  obtain ⟨t, hmem, hturn⟩ := List.mem_map.mp (hturns ▸ List.mem_singleton_self _)
  obtain ⟨hpayload, hlabel⟩ := Prod.mk.inj hturn
  obtain ⟨w, hw, happ⟩ := Option.bind_eq_some_iff.mp hlabel
  have hrun : Machine.run qqStep ⟨.init, none⟩ qqActs = some ⟨⟨qqStored pkt, .init⟩, some f⟩ := by
    refine Machine.run_append.mpr
      ⟨⟨⟨qqStored pkt, .init⟩, none⟩, run_store (run_sniff hsniffed), ?_⟩
    have hserve : qqStep ⟨⟨qqStored pkt, .init⟩, none⟩ (.serve true true) =
        some ⟨⟨qqStored pkt, .init⟩,
          some (.init ∅ (loadApps (.ok [("8.8.8.8", "Tencent", some "social")])))⟩ := by
      rw [← appRows_qq pkt]
      rfl
    rw [Machine.run_cons_of_step hserve]
    exact run_feed (by decide) hfed
  have hparse : (serdeOf cloudFlow).parse t.payload = some cloudFlow := by
    rw [hpayload]
    rfl
  exact ⟨_, f, t, w, hrun, rfl, hmem, hw, happ,
    label_source hrun rfl hmem hparse (by decide) hw happ⟩

end TrafficMap.Api
