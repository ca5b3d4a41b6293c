import TrafficMap.Json
import TrafficMap.NetText

/-!
# Locating addresses

`crates/geoip`: local addresses resolve to the home coordinate, all others
through a city database, which is a function here: the database file and its
reader are not part of the repository.
-/

namespace TrafficMap.Geo

structure GeoPoint where
  lat : ℚ
  lon : ℚ
  country : Option String
  city : Option String
  /-- True when this is the home coordinate (a local address). -/
  isHome : Bool

namespace GeoPoint

def toJson (p : GeoPoint) : Json :=
  .object [("lat", .number (.float p.lat)), ("lon", .number (.float p.lon)),
    ("country", .ofOption .string p.country), ("city", .ofOption .string p.city),
    ("is_home", .bool p.isHome)]

end GeoPoint

structure City where
  location : Option (Option ℚ × Option ℚ)
  isoCode : Option String
  names : Option (List (String × String))

/-! ## Local addresses -/

def isCgnatV4 (a : Ipv4Addr) : Bool :=
  match a.octets with
  | [o₀, o₁, _, _] => o₀ == 100 && decide (64 ≤ o₁) && decide (o₁ ≤ 127)
  | _ => false

def isPrivate (a : Ipv4Addr) : Bool :=
  match a.octets with
  | [o₀, o₁, _, _] =>
      o₀ == 10 || (o₀ == 172 && decide (16 ≤ o₁) && decide (o₁ ≤ 31)) || (o₀ == 192 && o₁ == 168)
  | _ => false

def isLinkLocal (a : Ipv4Addr) : Bool := a.octets.take 2 == [169, 254]

def isMulticastV4 (a : Ipv4Addr) : Bool :=
  let o₀ := a.octets.headD 0
  decide (224 ≤ o₀) && decide (o₀ ≤ 239)

def isLocalV4 (a : Ipv4Addr) : Bool :=
  isPrivate a -- 10/8, 172.16/12, 192.168/16
    || a.octets.headD 0 == 127 -- 127/8
    || isLinkLocal a -- 169.254/16
    || a.octets == [255, 255, 255, 255]
    || a.octets == [0, 0, 0, 0]
    || isMulticastV4 a -- 224/4
    || isCgnatV4 a -- 100.64/10
    || a.octets.headD 0 == 0 -- 0/8

def isUlaV6 (a : Ipv6Addr) : Bool := (a.octets.headD 0 &&& 0xfe) == 0xfc

def isLinkLocalV6 (a : Ipv6Addr) : Bool :=
  (UInt16.ofNat (a.segments.headD 0) &&& 0xffc0) == 0xfe80

def isLocalV6 (a : Ipv6Addr) : Bool :=
  a.toBits == 1 || a.toBits == 0
    || a.octets.headD 0 == 0xff
    || isUlaV6 a -- fc00::/7
    || isLinkLocalV6 a -- fe80::/10

/-- Addresses that have no public location and map to home. -/
def isLocal : IpAddr → Bool
  | .v4 a => isLocalV4 a
  | .v6 a => isLocalV6 a

/-! ## Lookup -/

structure GeoResolver where
  /-- `reader.lookup(ip).ok()`, if a database is loaded. -/
  reader : Option (IpAddr → Option City)
  home : GeoPoint

namespace GeoResolver

def new (reader : Option (IpAddr → Option City)) (homeLat homeLon : ℚ) : GeoResolver where
  reader := reader
  home := { lat := homeLat, lon := homeLon, country := none, city := none, isHome := true }

def lookup (geo : GeoResolver) (ip : IpAddr) : Option GeoPoint :=
  if isLocal ip then some geo.home
  else do
    let reader ← geo.reader
    let city ← reader ip
    let loc ← city.location
    let lat ← loc.1
    let lon ← loc.2
    let cityName := city.names.bind fun names ↦
      (names.lookup "en") <|> (names.head?.map Prod.snd)
    return { lat := lat, lon := lon, country := city.isoCode, city := cityName, isHome := false }

end GeoResolver

end TrafficMap.Geo
