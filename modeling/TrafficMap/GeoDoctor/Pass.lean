import TrafficMap.GeoDoctor.Schema

/-!
# The observed pass

`PASS_SQL` of `crates/geo-doctor`: one statement that aggregates the coordinates
seen for every public address and writes them to `ip_geo`, with a decision for
each row whose coordinates or dirty flag it finds different.  Every part reads
the tables as they were before the statement.
-/

namespace TrafficMap.GeoDoctor

open Ingestor Ingestor.IpNetwork Sql

/-! ## Observations -/

structure Obs where
  ip : IpNetwork
  lat : ℚ
  lon : Option ℚ
  country : Option String
  recvTime : DateTime

def srcObs (f : FlowRow) : Option Obs :=
  f.srcLat.map fun lat ↦ ⟨f.srcAddr, lat, f.srcLon, f.srcCountry, f.recvTime⟩

def dstObs (f : FlowRow) : Option Obs :=
  f.dstLat.map fun lat ↦ ⟨f.dstAddr, lat, f.dstLon, f.dstCountry, f.recvTime⟩

def obs (flows : List FlowRow) : List Obs := flows.filterMap srcObs ++ flows.filterMap dstObs

def excludedNets : List IpNetwork :=
  [v4Net 10 0 0 0 8, v4Net 172 16 0 0 12, v4Net 192 168 0 0 16,
    v4Net 127 0 0 0 8, v4Net 169 254 0 0 16, v4Net 100 64 0 0 10,
    v4Net 224 0 0 0 4, v4Net 255 255 255 255 32,
    v6Net 0xfc00 7, v6Net 0xfe80 10, v6Net 0xff00 8]

def isExcluded (ip : IpNetwork) : Bool :=
  excludedNets.any (within ip) || decide (ip = ⟨.v6 ⟨1⟩, 128⟩)

def pub (flows : List FlowRow) : List Obs := (obs flows).filter fun o ↦ !isExcluded o.ip

/-- The group of an address. -/
def observed (flows : List FlowRow) (ip : IpNetwork) : List Obs :=
  (pub flows).filter fun o ↦ o.ip = ip

structure PerIp where
  lat : Option ℚ
  lon : Option ℚ
  country : Option String
  obsCount : ℤ
  firstSeen : Option DateTime
  lastSeen : Option DateTime

structure Computed where
  lat : ℚ
  lon : ℚ
  country : Option String
  obsCount : ℤ
  firstSeen : Option DateTime
  lastSeen : Option DateTime
  dirty : Bool
  confidence : ℚ

section Statement

variable {D : Type} (e : Engine D)

def aggregate (os : List Obs) : PerIp where
  lat := e.modeNum.run (os.map Obs.lat)
  lon := e.modeNum.run (os.filterMap Obs.lon)
  country := e.modeText.run (os.filterMap Obs.country)
  obsCount := os.length
  firstSeen := (os.map Obs.recvTime).min?
  lastSeen := (os.map Obs.recvTime).max?

def perIp (flows : List FlowRow) : Table IpNetwork PerIp :=
  (Table.groupBy Obs.ip (pub flows)).select fun _ os ↦ some (aggregate e os)

/-- `ip_share`: how many addresses have these coordinates. -/
def ipShare (flows : List FlowRow) (lat lon : ℚ) : ℕ :=
  (perIp e flows).entries.countP fun p ↦ p.2.lat = some lat ∧ p.2.lon = some lon

/-- The join with `shared` drops an address without coordinates. -/
def compute (flows : List FlowRow) (p : PerIp) : Option Computed := do
  let lat ← p.lat
  let lon ← p.lon
  let dirty := decide (8 ≤ ipShare e flows lat lon)
  let confidence := e.real (min (99 / 100) (1 - 1 / (1 + p.obsCount)))
  return {
    lat := lat
    lon := lon
    country := p.country
    obsCount := p.obsCount
    firstSeen := p.firstSeen
    lastSeen := p.lastSeen
    dirty := dirty
    confidence := e.real (confidence * if dirty then 2 / 5 else 1) }

def computed (flows : List FlowRow) : Table IpNetwork Computed :=
  (perIp e flows).select fun _ p ↦ compute e flows p

/-! ## The audit -/

/-- The new values with the row they differ from, if there is one. -/
def change (c : Computed) : Option GeoRow → Option (Computed × Option GeoRow)
  | none => some (c, none)
  | some g =>
      if (g.lat ≠ some c.lat ∨ g.lon ≠ some c.lon ∨ g.dirty ≠ c.dirty) ∧ g.source ≠ "manual" then
        some (c, some g)
      else none

def changed (db : Db) : Table IpNetwork (Computed × Option GeoRow) :=
  (computed e db.flows).select fun ip c ↦ change c (db.ipGeo.lookup ip)

def passDecision (now : DateTime) (ip : IpNetwork) (c : Computed) (g : Option GeoRow) :
    GeoDecision :=
  let oldLat := g.bind GeoRow.lat
  { ip := ip
    ts := now
    reason := if oldLat = none then "new"
      else if c.dirty then "flag-dirty(shared-coord)"
      else "update"
    oldLat := oldLat
    oldLon := g.bind GeoRow.lon
    oldSource := g.map GeoRow.source
    newLat := some c.lat
    newLon := some c.lon
    newSource := some "observed"
    obsCount := some c.obsCount
    confidence := some c.confidence }

def passDecisions (now : DateTime) (db : Db) : List GeoDecision :=
  (changed e db).entries.map fun p ↦ passDecision now p.1 p.2.1 p.2.2

end Statement

/-! ## The upsert -/

def insertRow (now : DateTime) (c : Computed) : GeoRow where
  lat := some c.lat
  lon := some c.lon
  country := c.country
  source := "observed"
  obsCount := c.obsCount
  confidence := c.confidence
  dirty := c.dirty
  firstSeen := c.firstSeen
  lastSeen := c.lastSeen
  updatedAt := now
  corrLat := none
  corrLon := none
  corrCountry := none
  corrSource := none
  corrConf := none
  corrRttMs := none
  corrAnchorIp := none
  corrAt := none

def updateRow (now : DateTime) (c : Computed) (g : GeoRow) : GeoRow :=
  { g with
    lat := some c.lat
    lon := some c.lon
    country := c.country
    obsCount := c.obsCount
    confidence := c.confidence
    dirty := c.dirty
    lastSeen := c.lastSeen
    updatedAt := now }

def onConflict (now : DateTime) (c : Computed) (g : GeoRow) : Option GeoRow :=
  if g.source = "manual" then none else some (updateRow now c g)

def passSql {D : Type} (e : Engine D) (now : DateTime) (db : Db) : Db :=
  { db with
    ipGeo := Table.upsert (insertRow now) (onConflict now) (computed e db.flows) db.ipGeo
    geoDecisions := db.geoDecisions ++ passDecisions e now db }

/-! ## What the pass leaves -/

section

variable {D : Type} {e : Engine D} {now : DateTime} {db : Db} {ip : IpNetwork}

theorem lookup_computed (flows : List FlowRow) (ip : IpNetwork) :
    (computed e flows).lookup ip = compute e flows (aggregate e (observed flows ip)) := by
  rw [computed, Table.lookup_select, perIp, Table.lookup_select, Table.lookup_groupBy]
  by_cases hseen : ip ∈ (pub flows).map Obs.ip
  · rw [if_pos hseen]
    rfl
  · have hnone : observed flows ip = [] := by
      rw [observed, List.filter_eq_nil_iff]
      intro o ho hip
      exact hseen (List.mem_map.mpr ⟨o, ho, of_decide_eq_true hip⟩)
    have hlat : (aggregate e (observed flows ip)).lat = none := by
      rw [aggregate, hnone]
      exact (e.modeNum.run_eq_none []).mpr rfl
    rw [if_neg hseen, compute, hlat]
    rfl

theorem compute_eq_some {flows : List FlowRow} {p : PerIp} {c : Computed}
    (h : compute e flows p = some c) :
    p.lat = some c.lat ∧ p.lon = some c.lon ∧ c.country = p.country ∧
      c.dirty = decide (8 ≤ ipShare e flows c.lat c.lon) := by
  obtain ⟨lat, hlat, h⟩ := Option.bind_eq_some_iff.mp h
  obtain ⟨lon, hlon, h⟩ := Option.bind_eq_some_iff.mp h
  obtain rfl := Option.some.inj h
  exact ⟨hlat, hlon, rfl, rfl⟩

theorem exists_compute {flows : List FlowRow} {p : PerIp} {lat lon : ℚ} (hlat : p.lat = some lat)
    (hlon : p.lon = some lon) : ∃ c, compute e flows p = some c ∧ c.lat = lat ∧ c.lon = lon := by
  rw [compute, hlat, hlon]
  exact ⟨_, rfl, rfl, rfl⟩

theorem lookup_passSql_of_none (h : (computed e db.flows).lookup ip = none) :
    (passSql e now db).ipGeo.lookup ip = db.ipGeo.lookup ip := by
  rw [passSql, Table.lookup_upsert, h]

theorem lookup_passSql_new {c : Computed} (h : (computed e db.flows).lookup ip = some c)
    (hold : db.ipGeo.lookup ip = none) :
    (passSql e now db).ipGeo.lookup ip = some (insertRow now c) := by
  rw [passSql, Table.lookup_upsert, h, hold]
  rfl

theorem lookup_passSql_old {c : Computed} {g : GeoRow}
    (h : (computed e db.flows).lookup ip = some c) (hold : db.ipGeo.lookup ip = some g)
    (hsource : g.source ≠ "manual") :
    (passSql e now db).ipGeo.lookup ip = some (updateRow now c g) := by
  rw [passSql, Table.lookup_upsert, h, hold]
  simp [Table.merged, onConflict, hsource]

theorem lookup_passSql_manual {g : GeoRow} (hold : db.ipGeo.lookup ip = some g)
    (hsource : g.source = "manual") : (passSql e now db).ipGeo.lookup ip = some g := by
  cases h : (computed e db.flows).lookup ip with
  | none => rw [lookup_passSql_of_none h, hold]
  | some c =>
      rw [passSql, Table.lookup_upsert, h, hold]
      simp [Table.merged, onConflict, hsource]

theorem mem_passSql_iff :
    ip ∈ (passSql e now db).ipGeo ↔ ip ∈ db.ipGeo ∨ ip ∈ computed e db.flows := by
  rw [← AList.lookup_isSome, ← AList.lookup_isSome, ← AList.lookup_isSome, passSql,
    Table.lookup_upsert]
  cases (computed e db.flows).lookup ip <;> simp

theorem mem_computed_iff {flows : List FlowRow} :
    ip ∈ computed e flows ↔ ∃ o ∈ pub flows, o.ip = ip ∧ o.lon.isSome := by
  rw [← AList.lookup_isSome, lookup_computed]
  constructor
  · intro h
    obtain ⟨c, hc⟩ := Option.isSome_iff_exists.mp h
    obtain ⟨-, hlon, -⟩ := compute_eq_some hc
    obtain ⟨o, ho, hsome⟩ := List.mem_filterMap.mp (e.modeNum.mem_of_run hlon)
    obtain ⟨hpub, hip⟩ := List.mem_filter.mp ho
    exact ⟨o, hpub, of_decide_eq_true hip, Option.isSome_of_eq_some hsome⟩
  · rintro ⟨o, ho, rfl, hlon⟩
    have hseen : o ∈ observed flows o.ip := List.mem_filter.mpr ⟨ho, decide_eq_true rfl⟩
    obtain ⟨l, hl⟩ := Option.isSome_iff_exists.mp hlon
    obtain ⟨lat, hlat⟩ := e.modeNum.run_isSome (List.ne_nil_of_mem (List.mem_map_of_mem hseen))
    obtain ⟨lon, hlon⟩ :=
      e.modeNum.run_isSome (List.ne_nil_of_mem (List.mem_filterMap.mpr ⟨o, hseen, hl⟩))
    obtain ⟨c, hc, -⟩ := exists_compute (e := e) (p := aggregate e (observed flows o.ip)) hlat hlon
    exact Option.isSome_of_eq_some hc

theorem passDecided_iff :
    (∃ d ∈ passDecisions e now db, d.ip = ip) ↔ ((changed e db).lookup ip).isSome := by
  rw [passDecisions]
  apply Table.exists_mem_map_entries_iff
  exact fun _ _ ↦ rfl

theorem nodup_passDecisions : ((passDecisions e now db).map GeoDecision.ip).Nodup := by
  rw [passDecisions]
  apply Table.nodup_map_entries
  exact fun _ _ ↦ rfl

theorem lookup_changed :
    (changed e db).lookup ip =
      ((computed e db.flows).lookup ip).bind fun c ↦ change c (db.ipGeo.lookup ip) :=
  Table.lookup_select _ _ _

end

end TrafficMap.GeoDoctor
