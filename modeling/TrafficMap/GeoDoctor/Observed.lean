import TrafficMap.GeoDoctor.Pass

/-!
# Most-observed coordinates

`PASS_SQL` takes the most frequent latitude and the most frequent longitude of an
address, each by itself.  The two make a place that was observed, and observed
most often, only if the counts of the pairs allow it.
-/

namespace TrafficMap.GeoDoctor

open Ingestor Sql

/-- The coordinates that occur together. -/
def pairs (os : List Obs) : List (ℚ × ℚ) := os.filterMap fun o ↦ o.lon.map fun lon ↦ (o.lat, lon)

section Observed

variable {D : Type} (e : Engine D) (now : DateTime) (db : Db)

/-- The pass has a value for the address, and its row is no manual one. -/
def Written (ip : IpNetwork) : Prop :=
  ip ∈ computed e db.flows ∧ ∀ g, db.ipGeo.lookup ip = some g → g.source ≠ "manual"

/-- Every row written has a pair of coordinates that none was observed more often than. -/
def CoordinatesObserved : Prop := ∀ ip g, Written e db ip →
  (passSql e now db).ipGeo.lookup ip = some g →
    ∃ lat lon, g.lat = some lat ∧ g.lon = some lon ∧
      MostFrequent (pairs (observed db.flows ip)) (lat, lon)

/-- Each most frequent latitude goes with each most frequent longitude.  Latitudes and
longitudes that are the same numbers in the same order have the same one chosen. -/
def ModesMeet (os : List Obs) : Prop := ∀ lat lon, MostFrequent (os.map Obs.lat) lat →
  MostFrequent (os.filterMap Obs.lon) lon →
    (os.map Obs.lat = os.filterMap Obs.lon → lat = lon) → MostFrequent (pairs os) (lat, lon)

end Observed

variable {D : Type} {e : Engine D} {now : DateTime} {db : Db} {ip : IpNetwork}

theorem coordinates_of_written {g : GeoRow} (hw : Written e db ip)
    (hg : (passSql e now db).ipGeo.lookup ip = some g) :
    ∃ lat lon, g.lat = some lat ∧ g.lon = some lon ∧
      e.modeNum.run ((observed db.flows ip).map Obs.lat) = some lat ∧
        e.modeNum.run ((observed db.flows ip).filterMap Obs.lon) = some lon := by
  obtain ⟨c, hc⟩ := Option.isSome_iff_exists.mp (AList.lookup_isSome.mpr hw.1)
  have hcompute := (lookup_computed db.flows ip).symm.trans hc
  obtain ⟨hlat, hlon, -⟩ := compute_eq_some hcompute
  cases hold : db.ipGeo.lookup ip with
  | none =>
      obtain rfl := Option.some.inj ((lookup_passSql_new hc hold).symm.trans hg)
      exact ⟨c.lat, c.lon, rfl, rfl, hlat, hlon⟩
  | some g₀ =>
      obtain rfl := Option.some.inj ((lookup_passSql_old hc hold (hw.2 g₀ hold)).symm.trans hg)
      exact ⟨c.lat, c.lon, rfl, rfl, hlat, hlon⟩

theorem exists_written (e : Engine D) (now : DateTime)
    (hmanual : ∀ g, db.ipGeo.lookup ip = some g → g.source ≠ "manual")
    {lat lon : ℚ} (hlat : e.modeNum.run ((observed db.flows ip).map Obs.lat) = some lat)
    (hlon : e.modeNum.run ((observed db.flows ip).filterMap Obs.lon) = some lon) :
    Written e db ip ∧ ∃ g, (passSql e now db).ipGeo.lookup ip = some g := by
  have hmem : ip ∈ computed e db.flows := by
    rw [← AList.lookup_isSome, lookup_computed]
    obtain ⟨c, hc, -⟩ := exists_compute (e := e) (p := aggregate e (observed db.flows ip)) hlat hlon
    rw [hc]
    rfl
  refine ⟨⟨hmem, hmanual⟩, ?_⟩
  exact Option.isSome_iff_exists.mp (AList.lookup_isSome.mpr (mem_passSql_iff.mpr (Or.inr hmem)))

/-- Whichever of the most frequent numbers are chosen, what is written was observed most
often exactly if the numbers of each address meet. -/
theorem coordinatesObserved_iff (e : Engine D) (now : DateTime) (db : Db) :
    (∀ m : Mode ℚ, CoordinatesObserved { e with modeNum := m } now db) ↔
      ∀ ip, (∀ g, db.ipGeo.lookup ip = some g → g.source ≠ "manual") →
        ModesMeet (observed db.flows ip) := by
  constructor
  · intro h ip hmanual lat lon hlat hlon hsame
    obtain ⟨m, hrunlat, hrunlon⟩ := Mode.exists_run_eq hlat hlon hsame
    obtain ⟨hw, g, hg⟩ :=
      exists_written { e with modeNum := m } now hmanual hrunlat hrunlon
    obtain ⟨lat', lon', hglat, hglon, hrunlat', hrunlon'⟩ := coordinates_of_written hw hg
    obtain ⟨lat'', lon'', hglat', hglon', hmost⟩ := h m ip g hw hg
    obtain rfl := Option.some.inj (hrunlat.symm.trans hrunlat')
    obtain rfl := Option.some.inj (hrunlon.symm.trans hrunlon')
    obtain rfl := Option.some.inj (hglat.symm.trans hglat')
    obtain rfl := Option.some.inj (hglon.symm.trans hglon')
    exact hmost
  · intro h m ip g hw hg
    obtain ⟨lat, lon, hglat, hglon, hrunlat, hrunlon⟩ := coordinates_of_written hw hg
    refine ⟨lat, lon, hglat, hglon, h ip hw.2 lat lon (m.mostFrequent_of_run hrunlat)
      (m.mostFrequent_of_run hrunlon) ?_⟩
    intro hsame
    rw [hsame] at hrunlat
    exact Option.some.inj (hrunlat.symm.trans hrunlon)

/-- A flow from one address to the local network. -/
def sighting (lat lon : ℚ) : FlowRow where
  json := .null
  recvTime := ⟨0, 0⟩
  srcAddr := .v4Net 8 8 8 8 32
  dstAddr := .v4Net 10 0 0 2 32
  srcPort := none
  dstPort := none
  protocol := none
  tcpFlags := none
  tos := none
  packets := none
  octets := none
  ifIndexIn := none
  ifIndexOut := none
  gatewayAddr := none
  agentAddr := none
  srcAs := none
  dstAs := none
  netflowVer := none
  flowStart := none
  flowEnd := none
  srcLat := some lat
  srcLon := some lon
  dstLat := none
  dstLon := none
  srcCountry := none
  dstCountry := none

def sightings : Db := ⟨[sighting 1 10, sighting 1 20, sighting 2 30, sighting 3 30], ∅, [], ∅⟩

/-- The latitude 1 and the longitude 30 are seen most often, and never together. -/
theorem not_coordinatesObserved_sightings :
    ¬ CoordinatesObserved (⟨.first, .first, .first, id, fun _ _ _ _ ↦ 0⟩ : Engine ℚ) ⟨0, 0⟩
      sightings := by
  intro h
  have hlat : (Mode.first : Mode ℚ).run
      ((observed sightings.flows (.v4Net 8 8 8 8 32)).map Obs.lat) = some 1 := by decide +kernel
  have hlon : (Mode.first : Mode ℚ).run
      ((observed sightings.flows (.v4Net 8 8 8 8 32)).filterMap Obs.lon) = some 30 := by
    decide +kernel
  have hnew : ∀ g, sightings.ipGeo.lookup (.v4Net 8 8 8 8 32) = some g → g.source ≠ "manual" :=
    fun g hg ↦ by cases hg
  obtain ⟨hw, g, hg⟩ := exists_written
    (⟨.first, .first, .first, id, fun _ _ _ _ ↦ 0⟩ : Engine ℚ) ⟨0, 0⟩ hnew hlat hlon
  obtain ⟨lat, lon, hglat, hglon, hrunlat, hrunlon⟩ := coordinates_of_written hw hg
  obtain ⟨lat', lon', hglat', hglon', hmost⟩ := h _ g hw hg
  obtain rfl := Option.some.inj (hrunlat.symm.trans hlat)
  obtain rfl := Option.some.inj (hrunlon.symm.trans hlon)
  obtain rfl := Option.some.inj (hglat.symm.trans hglat')
  obtain rfl := Option.some.inj (hglon.symm.trans hglon')
  exact absurd hmost.mem (by decide +kernel)

end TrafficMap.GeoDoctor
