import TrafficMap.Inet
import TrafficMap.Lib.Table
import TrafficMap.Lib.Aggregate

/-!
# The tables of the geo-doctor

The columns that `PASS_SQL`, `RELOCATE_SQL` and `bogon_audit` read and write, as
the migrations declare them, and what a statement leaves to the database: the
choice among equally good answers, the rounding to `real`, and the distance
function.
-/

namespace TrafficMap.GeoDoctor

open Ingestor Sql

/-! ## Tables -/

structure GeoRow where
  lat : Option ℚ
  lon : Option ℚ
  country : Option String
  source : String
  obsCount : ℤ
  confidence : ℚ
  dirty : Bool
  firstSeen : Option DateTime
  lastSeen : Option DateTime
  updatedAt : DateTime
  corrLat : Option ℚ
  corrLon : Option ℚ
  corrCountry : Option String
  corrSource : Option String
  corrConf : Option ℚ
  corrRttMs : Option ℚ
  corrAnchorIp : Option IpNetwork
  corrAt : Option DateTime
deriving DecidableEq

structure GeoDecision where
  ip : IpNetwork
  ts : DateTime
  reason : String
  oldLat : Option ℚ := none
  oldLon : Option ℚ := none
  oldSource : Option String := none
  newLat : Option ℚ := none
  newLon : Option ℚ := none
  newSource : Option String := none
  obsCount : Option ℤ := none
  confidence : Option ℚ := none
deriving DecidableEq

/-- An element of the JSON array `hops`.  The address is stored as its text. -/
structure Hop where
  idx : ℤ
  ip : IpAddr
  lat : Option ℚ
  lon : Option ℚ
  country : Option String
  rttMs : Option ℚ
deriving DecidableEq

structure Route where
  tracedAt : DateTime
  hopCount : ℤ
  hops : List Hop
deriving DecidableEq

structure Db where
  flows : List FlowRow
  ipGeo : Table IpNetwork GeoRow
  geoDecisions : List GeoDecision
  routes : Table IpNetwork Route

/-! ## The database -/

/-- A row of `hopd`: a hop with coordinates and a round trip time. -/
structure HopD (D : Type) where
  idx : ℤ
  lat : ℚ
  lon : Option ℚ
  country : Option String
  ip : IpAddr
  rtt : ℚ
  dist : Option D

structure Engine (D : Type) where
  modeNum : Mode ℚ
  modeText : Mode String
  deepest : Top fun h : HopD D ↦ h.idx
  /-- The nearest `real`. -/
  real : ℚ → ℚ
  /-- `geo_haversine_km`. -/
  km : ℚ → ℚ → ℚ → ℚ → D

end TrafficMap.GeoDoctor
