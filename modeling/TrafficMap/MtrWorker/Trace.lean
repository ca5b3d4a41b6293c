import TrafficMap.GeoDoctor.Schema

/-!
# Tracing

`trace` and `store` of `crates/mtr-worker`: the report of `mtr` becomes a list
of hops with the coordinates that the city database has for them.  A hub that
did not answer is left out, the destination among them.
-/

namespace TrafficMap.MtrWorker

open Ingestor Geo GeoDoctor Sql

def asF64 : Json → Option ℚ
  | .number (.posInt n) => some n.toNat
  | .number (.negInt n _) => some n
  | .number (.float q) => some q
  | _ => none

def hopOf (geo : GeoResolver) (h : Json) : Option Hop := do
  let host := ((h.get "host").bind Json.asStr).getD "???"
  let ip ← IpAddr.parse host -- skip "???" / non-responding
  let g := geo.lookup ip
  return {
    idx := ((h.get "count").bind Json.asI64).getD 0
    ip := ip
    lat := g.map GeoPoint.lat
    lon := g.map GeoPoint.lon
    country := g.bind GeoPoint.country
    rttMs := (h.get "Avg").bind asF64 }

/-- The hops of a report, if there are any. -/
def trace (geo : GeoResolver) (report : Json) : Option (List Hop) := do
  let hubs ← ((report.get "report").bind fun r ↦ r.get "hubs").bind Json.asArray
  let hops := hubs.filterMap (hopOf geo)
  if hops.isEmpty then none else some hops

def store (now : DateTime) (dst : IpAddr) (hops : List Hop) (routes : Table IpNetwork Route) :
    Table IpNetwork Route :=
  routes.insert (toNet dst) ⟨now, hops.length, hops⟩

theorem trace_eq_some {geo : GeoResolver} {report : Json} {hops : List Hop}
    (h : trace geo report = some hops) :
    ∃ hubs, ((report.get "report").bind fun r ↦ r.get "hubs") = some (.array hubs) ∧
      hops = hubs.filterMap (hopOf geo) := by
  obtain ⟨hubs, hhubs, h⟩ := Option.bind_eq_some_iff.mp h
  obtain ⟨v, hv, harray⟩ := Option.bind_eq_some_iff.mp hhubs
  cases v with
  | array items =>
      obtain rfl := Option.some.inj harray
      obtain ⟨-, h⟩ := Option.ite_none_left_eq_some.mp h
      exact ⟨items, hv, (Option.some.inj h).symm⟩
  | null => cases harray
  | bool b => cases harray
  | number n => cases harray
  | string s => cases harray
  | object fields => cases harray

theorem hopOf_of_host (geo : GeoResolver) {hub : Json} {host : String} {ip : IpAddr}
    (hhost : (hub.get "host").bind Json.asStr = some host) (hip : IpAddr.parse host = some ip) :
    ∃ hop, hopOf geo hub = some hop ∧ hop.ip = ip ∧
      hop.lat = (geo.lookup ip).map GeoPoint.lat ∧ hop.rttMs = (hub.get "Avg").bind asF64 := by
  rw [hopOf, hhost, Option.getD_some, hip]
  exact ⟨_, rfl, rfl, rfl, rfl⟩

/-- A host that answers is among the hops. -/
theorem exists_hop_of_trace {geo : GeoResolver} {report : Json} {hops : List Hop}
    (h : trace geo report = some hops) {hubs : List Json}
    (hhubs : ((report.get "report").bind fun r ↦ r.get "hubs") = some (.array hubs)) {hub : Json}
    (hhub : hub ∈ hubs) {host : String} {ip : IpAddr}
    (hhost : (hub.get "host").bind Json.asStr = some host) (hip : IpAddr.parse host = some ip) :
    ∃ hop ∈ hops, hop.ip = ip ∧ hop.lat = (geo.lookup ip).map GeoPoint.lat ∧
      hop.rttMs = (hub.get "Avg").bind asF64 := by
  obtain ⟨hubs', hhubs', rfl⟩ := trace_eq_some h
  obtain rfl := Json.array.inj (Option.some.inj (hhubs.symm.trans hhubs'))
  obtain ⟨hop, hhop, hfields⟩ := hopOf_of_host geo hhost hip
  exact ⟨hop, List.mem_filterMap.mpr ⟨hub, hhub, hhop⟩, hfields⟩

/-- Both coordinates of a traced hop are there, or neither. -/
theorem isSome_lat_iff_lon {geo : GeoResolver} {report : Json} {hops : List Hop}
    (h : trace geo report = some hops) {hop : Hop} (hhop : hop ∈ hops) :
    hop.lat.isSome = hop.lon.isSome := by
  obtain ⟨hubs, -, rfl⟩ := trace_eq_some h
  obtain ⟨hub, -, hhub⟩ := List.mem_filterMap.mp hhop
  obtain ⟨ip, -, hhub⟩ := Option.bind_eq_some_iff.mp hhub
  obtain rfl := Option.some.inj hhub
  simp

end TrafficMap.MtrWorker
