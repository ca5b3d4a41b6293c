import TrafficMap.Api.Apps
import TrafficMap.Api.Backed
import TrafficMap.GeoDoctor.Moves
import TrafficMap.SniSniff.Sniffer

/-!
# The tables behind the server

The two tables that the server loads its maps from, with all that writes them: the
sniffers and their roll-up, the passes of the geo-doctor, the tracer, the ingestor and
the operator.
-/

namespace TrafficMap.Api

open Ingestor SniSniff Sql
open GeoDoctor (GeoRow GeoStore)

structure Stores where
  sniffers : Sniffers
  geo : GeoStore

inductive StoreAct
  | sniff (a : SniffAct)
  | geo (a : GeoDoctor.Action)

/-- The rows of `load_overrides`; a missing longitude fails the query. -/
def correctionRows (db : Database) (ipGeo : Table IpNetwork GeoRow) : Reply String Correction :=
  if ∀ e ∈ ipGeo.entries, e.2.corrLat.isSome → e.2.corrLon.isSome then
    .ok (ipGeo.entries.filterMap fun e ↦ do
      let lat ← e.2.corrLat
      let lon ← e.2.corrLon
      return (db.host e.1, ⟨lat, lon, e.2.corrCountry⟩))
  else .error "unexpected null"

namespace Stores

def init : Stores := ⟨.init, .init⟩

def queries (db : Database) : Queries Stores where
  overrides s := correctionRows db s.geo.db.ipGeo
  apps s := .ok (appRows db s.sniffers.db.ipApp)

section Step

variable {D : Type} [Field D] [LinearOrder D] (apps : AppEngine) (toTimestamp : ℚ → DateTime)
  (geo : GeoDoctor.Engine D) (homeLat homeLon : ℚ) (s : Stores)

def step : StoreAct → Option Stores
  | .sniff a => (s.sniffers.step apps toTimestamp a).map fun t ↦ { s with sniffers := t }
  | .geo a => (s.geo.step geo homeLat homeLon a).map fun t ↦ { s with geo := t }

variable {apps} {toTimestamp} {geo} {homeLat} {homeLon} {s}

/-- A step is of one of the two sides. -/
theorem step_cases {a : StoreAct} {t : Stores}
    (h : s.step apps toTimestamp geo homeLat homeLon a = some t) :
    (∃ b u, a = .sniff b ∧ s.sniffers.step apps toTimestamp b = some u ∧
        t = { s with sniffers := u }) ∨
      ∃ b u, a = .geo b ∧ s.geo.step geo homeLat homeLon b = some u ∧ t = { s with geo := u } := by
  cases a with
  | sniff b =>
      rw [step] at h
      obtain ⟨u, hu, rfl⟩ := Option.map_eq_some_iff.mp h
      exact Or.inl ⟨b, u, rfl, hu, rfl⟩
  | geo b =>
      rw [step] at h
      obtain ⟨u, hu, rfl⟩ := Option.map_eq_some_iff.mp h
      exact Or.inr ⟨b, u, rfl, hu, rfl⟩

end Step

end Stores

theorem mem_correctionRows {db : Database} {ipGeo : Table IpNetwork GeoRow}
    {rows : List (String × Correction)} (h : correctionRows db ipGeo = .ok rows) {text : String}
    {c : Correction} (hmem : (text, c) ∈ rows) : ∃ ip g, ipGeo.lookup ip = some g ∧
      db.host ip = text ∧ g.corrLat = some c.lat ∧ g.corrLon = some c.lon ∧
        g.corrCountry = c.country := by
  rw [correctionRows] at h
  split at h
  · obtain rfl := Except.ok.inj h
    obtain ⟨e, he, hrow⟩ := List.mem_filterMap.mp hmem
    obtain ⟨lat, hlat, hrow⟩ := Option.bind_eq_some_iff.mp hrow
    obtain ⟨lon, hlon, hrow⟩ := Option.bind_eq_some_iff.mp hrow
    obtain ⟨htext, rfl⟩ := Prod.mk.inj (Option.some.inj hrow)
    exact ⟨e.1, e.2, AList.mem_lookup_iff.mpr he, htext, hlat, hlon, rfl⟩
  · cases h

/-! ## Runs of one side -/

section Runs

variable {D : Type} [Field D] [LinearOrder D] {apps : AppEngine} {toTimestamp : ℚ → DateTime}
  {geo : GeoDoctor.Engine D} {homeLat homeLon : ℚ}

theorem run_sniff {s t : Sniffers} {store : GeoStore} {acts : List SniffAct}
    (h : Machine.run (Sniffers.step apps toTimestamp) s acts = some t) :
    Machine.run (Stores.step apps toTimestamp geo homeLat homeLon) ⟨s, store⟩ (acts.map .sniff) =
      some ⟨t, store⟩ := by
  have hlift : ∀ a ∈ acts, ∀ s t, Sniffers.step apps toTimestamp s a = some t →
      Stores.step apps toTimestamp geo homeLat homeLon ⟨s, store⟩ (.sniff a) =
        some ⟨t, store⟩ := by
    intro a _ s t hstep
    rw [Stores.step, hstep]
    rfl
  exact Machine.run_lift hlift h

theorem run_geo {sniffers : Sniffers} {s t : GeoStore} {acts : List GeoDoctor.Action}
    (h : Machine.run (GeoStore.step geo homeLat homeLon) s acts = some t) :
    Machine.run (Stores.step apps toTimestamp geo homeLat homeLon) ⟨sniffers, s⟩ (acts.map .geo) =
      some ⟨sniffers, t⟩ := by
  have hlift : ∀ a ∈ acts, ∀ s t, GeoStore.step geo homeLat homeLon s a = some t →
      Stores.step apps toTimestamp geo homeLat homeLon ⟨sniffers, s⟩ (.geo a) =
        some ⟨sniffers, t⟩ := by
    intro a _ s t hstep
    rw [Stores.step, hstep]
    rfl
  exact Machine.run_lift hlift h

end Runs

/-- A database with one host. -/
def oneHost : Database := { plainDatabase with host := fun _ ↦ "8.8.8.8" }

end TrafficMap.Api
