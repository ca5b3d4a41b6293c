import TrafficMap.Api.LiveTotals
import TrafficMap.Api.Stores

/-!
# Where a corrected place comes from

A flow of the live feed is drawn elsewhere than the ingestor has put it only where an
operator has entered the correction, or where a measured path contradicted the place
and had the new one within reach.
-/

namespace TrafficMap.Api

open Ingestor SniSniff Sql
open GeoDoctor (GeoRow Moves HasSource Entered Moved AllSourced Engine)

section

variable {D : Type} [Field D] [LinearOrder D] {geo : Engine D} {homeLat homeLon : ℚ}
  {db : Database}

/-! ## The maps -/

/-- The correction is that of a row. -/
structure IsOf (c : Correction) (g : GeoRow) : Prop where
  lat : g.corrLat = some c.lat
  lon : g.corrLon = some c.lon
  country : g.corrCountry = c.country

variable (geo homeLat homeLon db) in
/-- Every entry of the map is that of a row that has a source. -/
def CorrectionsSourced (m : Moves) (ov : Overrides) : Prop :=
  ∀ text c, ov.lookup text = some c →
    ∃ ip g, db.host ip = text ∧ IsOf c g ∧ HasSource geo homeLat homeLon m ip g

theorem CorrectionsSourced.mono {m m' : Moves} {ov : Overrides}
    (h : CorrectionsSourced geo homeLat homeLon db m ov) (hgrows : m.Grows m') :
    CorrectionsSourced geo homeLat homeLon db m' ov := by
  intro text c hlookup
  obtain ⟨ip, g, htext, hof, hsource⟩ := h text c hlookup
  exact ⟨ip, g, htext, hof, hsource.mono hgrows⟩

theorem correctionsSourced_load {m : Moves} {ipGeo : Table IpNetwork GeoRow}
    (h : ∀ ip g, ipGeo.lookup ip = some g → HasSource geo homeLat homeLon m ip g) (ok : Bool) :
    CorrectionsSourced geo homeLat homeLon db m
      (loadOverrides (answer ok (correctionRows db ipGeo))) := by
  intro text c hlookup
  cases ok with
  | false => cases hlookup
  | true =>
      rw [answer, if_pos rfl] at hlookup
      cases hrows : correctionRows db ipGeo with
      | error message =>
          rw [hrows] at hlookup
          cases hlookup
      | ok rows =>
          rw [hrows] at hlookup
          have hmem := (lookup_collect rows text).1 c hlookup
          obtain ⟨ip, g, hg, htext, hlat, hlon, hcountry⟩ := mem_correctionRows hrows hmem
          exact ⟨ip, g, htext, ⟨hlat, hlon, hcountry⟩, h ip g hg⟩

theorem corrections_kept {apps : AppEngine} {toTimestamp : ℚ → DateTime} :
    MapsKept (Stores.step apps toTimestamp geo homeLat homeLon) (Stores.queries db)
      (fun s ↦ AllSourced geo homeLat homeLon s.geo)
      (fun s ov ↦ CorrectionsSourced geo homeLat homeLon db s.geo.moves ov) (fun _ _ ↦ True) where
  store s a t h hstep := by
    rcases Stores.step_cases hstep with ⟨b, u, rfl, -, rfl⟩ | ⟨b, u, rfl, hu, rfl⟩
    · exact h
    · exact h.step hu
  overrides s a t ov hstep h := by
    rcases Stores.step_cases hstep with ⟨b, u, rfl, -, rfl⟩ | ⟨b, u, rfl, hu, rfl⟩
    · exact h
    · exact h.mono (GeoDoctor.GeoStore.grows_of_step hu)
  apps _ _ _ _ _ _ := trivial
  loadOverrides _ ok h := correctionsSourced_load h ok
  loadApps _ _ _ := trivial

theorem allSourced_init : AllSourced geo homeLat homeLon .init := by
  intro ip g hg
  cases hg

/-! ## The places of a flow -/

/-- Serving corrects each end by the map, and leaves its place alone where the map has
nothing. -/
theorem place_of_serve {ov : Overrides} {apps : AppMap} {v w : Json}
    (h : serve ov apps v = some w) : ∀ e ∈ ends, w.get e.2 = v.get e.2 ∨
      ∃ text c g g', v.get e.1 = some (.string text) ∧ ov.lookup text = some c ∧
        v.get e.2 = some g ∧ w.get e.2 = some g' ∧ Corrected c g g' := by
  obtain ⟨v₁, hov, happs⟩ := Option.bind_eq_some_iff.mp h
  obtain ⟨v₂, hdst, hsrc⟩ := Option.bind_eq_some_iff.mp happs
  have hframe : ∀ k, k ≠ "app" → k ≠ "category" → w.get k = v₁.get k :=
    fun k happ hcategory ↦
      (get_stampApp hsrc happ hcategory).trans (get_stampApp hdst happ hcategory)
  have hkey : ∀ e ∈ ends, e.2 ≠ "app" ∧ e.2 ≠ "category" := by decide
  intro e he
  rw [hframe e.2 (hkey e he).1 (hkey e he).2]
  have hend := (applyOverrides_spec hov).1.corrected e he
  rw [EndCorrected] at hend
  split at hend
  · rename_i c g hc hg
    obtain ⟨text, htext, hlookup⟩ := Option.bind_eq_some_iff.mp hc
    obtain ⟨x, hx, hstr⟩ := Option.bind_eq_some_iff.mp htext
    obtain ⟨g', hg', hcorrected⟩ := hend
    cases x with
    | string str =>
        obtain rfl := Option.some.inj hstr
        exact Or.inr ⟨str, c, g, g', hx, hlookup, hg, hg', hcorrected⟩
    | _ => cases hstr
  · exact Or.inl hend

/-! ## The source of a place -/

/-- However the passes, the tracer, the ingestor, the operator, the sniffers, the loads
and the feed interleave: each end of a flow of the feed is where the message has it, or it
has the correction of a row for its address, which an operator has entered or a relocate
pass found justified. -/
theorem correction_source {apps : AppEngine} {toTimestamp : ℚ → DateTime}
    {b : Broadcast.Ops String} {serde : Serde} {acts : List (BackedAct StoreAct)}
    {s : Backed b Stores}
    (hrun : Machine.run (Backed.step (Stores.step apps toTimestamp geo homeLat homeLon)
      (Stores.queries db) serde) ⟨.init, none⟩ acts = some s)
    {f : Feed b} (hf : s.server = some f) {t : Turn} (ht : t ∈ f.turns) {v w : Json}
    (hv : serde.parse t.payload = some v) (hw : t.value = some w) :
    ∀ e ∈ ends, w.get e.2 = v.get e.2 ∨
      ∃ c g g' ip row, v.get e.1 = some (.string (db.host ip)) ∧ v.get e.2 = some g ∧
        w.get e.2 = some g' ∧ Corrected c g g' ∧ IsOf c row ∧
          (Entered s.store.geo.moves ip row ∨
            Moved geo homeLat homeLon s.store.geo.moves ip row) := by
  have hinv := BackedInv.run corrections_kept allSourced_init hrun
  have hserved := (hinv.bridge f hf).served t ht
  rw [Served, hv] at hserved
  obtain ⟨ov, hov, apps, -, w', hserve, hw', -⟩ := hserved
  obtain rfl := Option.some.inj (hw.symm.trans hw')
  intro e he
  refine (place_of_serve hserve e he).imp_right ?_
  rintro ⟨text, c, g, g', haddr, hlookup, hg, hg', hcorrected⟩
  obtain ⟨ip, row, rfl, hof, hsource⟩ := hinv.overrides f hf ov hov text c hlookup
  have hsome : row.corrLat ≠ none := by
    rw [hof.lat]
    exact Option.some_ne_none _
  exact ⟨c, g, g', ip, row, haddr, hg, hg', hcorrected, hof, hsource.resolve_left hsome⟩

end

/-! ## A run -/

open GeoDoctor (GeoStore dbWith dirtyRow hopAt gateway flatEarth)

/-- A host half way round the world whose path was measured up to the gateway. -/
def farActs : List GeoDoctor.Action :=
  let far := dbWith (dirtyRow 0 180) [hopAt gateway 0 0 1]
  [.setGeo far.ipGeo, .setRoutes far.routes, .relocatePass ⟨1, 0⟩]

def farFlow : Json :=
  .object [("dst_addr", .string "8.8.8.8"),
    ("dst_geo", .object [("lat", .number (.float 0)), ("lon", .number (.float 180))])]

def lonOf (g : Json) : Option ℚ :=
  match g.get "lon" with
  | some (.number (.float lon)) => some lon
  | _ => none

abbrev farStep : Backed (Broadcast.Ring.ops String) Stores → BackedAct StoreAct →
    Option (Backed (Broadcast.Ring.ops String) Stores) := Backed.step
  (Stores.step ⟨.first, id⟩ atEpoch flatEarth 0 0) (Stores.queries oneHost) (serdeOf farFlow)

theorem geo_far : ∃ t, Machine.run (GeoStore.step flatEarth 0 0) .init farActs = some t ∧
    correctionRows oneHost t.db.ipGeo = .ok [("8.8.8.8", ⟨0, 0, none⟩)] := by
  have hfar : (Machine.run (GeoStore.step flatEarth 0 0) .init farActs).map
      (fun t ↦ correctionRows oneHost t.db.ipGeo) = some (.ok [("8.8.8.8", ⟨0, 0, none⟩)]) := by
    decide +kernel
  exact Option.map_eq_some_iff.mp hfar

def farRun : List (BackedAct StoreAct) :=
  (farActs.map .geo).map .store ++ .serve true true :: oneFlow.map .feed

/-- The flow is drawn at the gateway. -/
theorem correction_source_far : ∃ s f t w, Machine.run farStep ⟨.init, none⟩ farRun = some s ∧
    s.server = some f ∧ t ∈ f.turns ∧ t.value = some w ∧ w.get "dst_geo" ≠ farFlow.get "dst_geo" ∧
    ∀ e ∈ ends, w.get e.2 = farFlow.get e.2 ∨
      ∃ c g g' ip row, farFlow.get e.1 = some (.string (oneHost.host ip)) ∧
        farFlow.get e.2 = some g ∧ w.get e.2 = some g' ∧ Corrected c g g' ∧ IsOf c row ∧
          (Entered s.store.geo.moves ip row ∨ Moved flatEarth 0 0 s.store.geo.moves ip row) := by
  obtain ⟨store, hgeo, hrows⟩ := geo_far
  have hfed : (Machine.run (Feed.step (serdeOf farFlow))
      (.init (loadOverrides (.ok [("8.8.8.8", ⟨0, 0, none⟩)])) ∅ :
        Feed (Broadcast.Ring.ops String)) oneFlow).map
        (fun f ↦ f.turns.map fun t ↦ (t.payload,
          (t.value.bind fun w ↦ w.get "dst_geo").bind lonOf)) = some [("flow", some 0)] := by
    decide +kernel
  obtain ⟨f, hfed, hturns⟩ := Option.map_eq_some_iff.mp hfed
  obtain ⟨t, hmem, hturn⟩ := List.mem_map.mp (hturns ▸ List.mem_singleton_self _)
  obtain ⟨hpayload, hplace⟩ := Prod.mk.inj hturn
  obtain ⟨g, hgeoKey, hlon⟩ := Option.bind_eq_some_iff.mp hplace
  obtain ⟨w, hw, hget⟩ := Option.bind_eq_some_iff.mp hgeoKey
  have hrun : Machine.run farStep ⟨.init, none⟩ farRun = some ⟨⟨.init, store⟩, some f⟩ := by
    refine Machine.run_append.mpr ⟨⟨⟨.init, store⟩, none⟩, run_store (run_geo hgeo), ?_⟩
    have hserve : farStep ⟨⟨.init, store⟩, none⟩ (.serve true true) =
        some ⟨⟨.init, store⟩,
          some (.init (loadOverrides (.ok [("8.8.8.8", ⟨0, 0, none⟩)])) ∅)⟩ := by
      rw [← hrows]
      rfl
    rw [Machine.run_cons_of_step hserve]
    exact run_feed (by decide) hfed
  have hparse : (serdeOf farFlow).parse t.payload = some farFlow := by
    rw [hpayload]
    rfl
  refine ⟨_, f, t, w, hrun, rfl, hmem, hw, ?_, correction_source hrun rfl hmem hparse hw⟩
  intro hsame
  have hold : (farFlow.get "dst_geo").bind lonOf = some 180 := by decide +kernel
  rw [← hsame, hget, Option.bind_some, hlon] at hold
  exact absurd hold (by decide +kernel)

end TrafficMap.Api
