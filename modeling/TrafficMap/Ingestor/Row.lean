import TrafficMap.FlowdParse.Format
import TrafficMap.Geo
import Mathlib.Data.Prod.Lex

/-!
# Rows

`to_row` of `crates/ingestor`: a flow record becomes a row of the `flows` table
together with its enriched JSON, if it has both addresses, both counts and a
receive time.  The clock type, the service table that the build generates and
the rounding of floats are parameters.
-/

namespace TrafficMap.Ingestor

open FlowdParse Geo

structure DateTime where
  secs : ℤ
  nanos : ℕ
deriving DecidableEq

instance : LinearOrder DateTime :=
  LinearOrder.lift' (fun t ↦ toLex (t.secs, t.nanos)) fun s t h ↦ by
    obtain ⟨hsecs, hnanos⟩ := Prod.mk.inj (toLex.injective h)
    cases s
    cases t
    exact DateTime.mk.injEq _ _ _ _ ▸ ⟨hsecs, hnanos⟩

structure IpNetwork where
  ip : IpAddr
  prefixLen : ℕ
deriving DecidableEq

/-- The code outside the crates. -/
structure Outside where
  /-- `DateTime::from_timestamp`. -/
  fromTimestamp : ℤ → ℕ → Option DateTime
  /-- The table of well-known services, by port and protocol. -/
  services : UInt32 → Option String
  /-- The nearest float. -/
  fl : ℚ → ℚ

structure FlowRow where
  /-- The value whose text goes to the stream and the channel. -/
  json : Json
  recvTime : DateTime
  srcAddr : IpNetwork
  dstAddr : IpNetwork
  srcPort : Option Int32
  dstPort : Option Int32
  protocol : Option Int16
  tcpFlags : Option Int16
  tos : Option Int16
  packets : Option Int64
  octets : Option Int64
  ifIndexIn : Option Int32
  ifIndexOut : Option Int32
  gatewayAddr : Option IpNetwork
  agentAddr : Option IpNetwork
  srcAs : Option Int64
  dstAs : Option Int64
  netflowVer : Option Int16
  flowStart : Option DateTime
  flowEnd : Option DateTime
  srcLat : Option ℚ
  srcLon : Option ℚ
  dstLat : Option ℚ
  dstLon : Option ℚ
  srcCountry : Option String
  dstCountry : Option String

def toNet (ip : IpAddr) : IpNetwork :=
  match ip with
  | .v4 _ => ⟨ip, 32⟩
  | .v6 _ => ⟨ip, 128⟩

@[simp] theorem ip_toNet (ip : IpAddr) : (toNet ip).ip = ip := by
  cases ip <;> rfl

section

variable (out : Outside)

/-! ## Times -/

def recvTime (rec : FlowRecord) : Option DateTime := do
  let sec ← rec.recvSec
  let nanos := min ((rec.recvUsec.getD 0).toNat * 1000) (2 ^ 32 - 1)
  out.fromTimestamp sec.toNat nanos

def secsF64ToDt (secs : ℚ) : Option DateTime :=
  if secs < 0 then none
  else
    let whole := ⌊secs⌋
    let nanos := roundHalfAway (out.fl ((secs - whole) * 10 ^ 9))
    out.fromTimestamp whole nanos.toNat

/-- Flow start and end on the wall clock, from their distance to the uptime. -/
def wallClockTimes (rec : FlowRecord) : Option DateTime × Option DateTime :=
  match rec.recvSec, rec.sysUptimeMs, rec.flowStart, rec.flowFinish with
  | some recv, some uptime, some start, some finish =>
      let uptime : ℚ := uptime.toNat
      let start : ℚ := start.toNat
      let finish : ℚ := finish.toNat
      let endWall := out.fl (recv.toNat - out.fl ((uptime - finish) / 1000))
      let startWall := out.fl (endWall - out.fl ((finish - start) / 1000))
      (secsF64ToDt out startWall, secsF64ToDt out endWall)
  | _, _, _, _ => (none, none)

/-! ## The enriched JSON -/

def serviceKey (port : UInt16) (proto : UInt8) : UInt32 :=
  (UInt32.ofNat port.toNat <<< 8) ||| UInt32.ofNat proto.toNat

def serviceName (port : UInt16) (proto : UInt8) : Option String :=
  out.services (serviceKey port proto)

def flowService (srcPort dstPort : Option UInt16) (proto : Option UInt8) : Option String := do
  let proto ← proto
  (dstPort.bind fun p ↦ serviceName out p proto) <|> (srcPort.bind fun p ↦ serviceName out p proto)

def jsonNat {α : Type} (toNat : α → ℕ) : Option α → Json :=
  Json.ofOption fun n ↦ .ofU64 (UInt64.ofNat (toNat n))

def jsonIp : Option IpAddr → Json := Json.ofOption fun ip ↦ .string ip.toText

def recordFields (rec : FlowRecord) : List (String × Json) :=
  [("tag", jsonNat UInt32.toNat rec.tag),
    ("recv_sec", jsonNat UInt32.toNat rec.recvSec),
    ("recv_usec", jsonNat UInt32.toNat rec.recvUsec),
    ("tcp_flags", jsonNat UInt8.toNat rec.tcpFlags),
    ("protocol", jsonNat UInt8.toNat rec.protocol),
    ("tos", jsonNat UInt8.toNat rec.tos),
    ("agent_addr", jsonIp rec.agentAddr),
    ("src_addr", jsonIp rec.srcAddr),
    ("dst_addr", jsonIp rec.dstAddr),
    ("gateway_addr", jsonIp rec.gatewayAddr),
    ("src_port", jsonNat UInt16.toNat rec.srcPort),
    ("dst_port", jsonNat UInt16.toNat rec.dstPort),
    ("packets", jsonNat UInt64.toNat rec.packets),
    ("octets", jsonNat UInt64.toNat rec.octets),
    ("if_index_in", jsonNat UInt32.toNat rec.ifIndexIn),
    ("if_index_out", jsonNat UInt32.toNat rec.ifIndexOut),
    ("sys_uptime_ms", jsonNat UInt32.toNat rec.sysUptimeMs),
    ("agent_time_sec", jsonNat UInt32.toNat rec.agentTimeSec),
    ("agent_time_nanosec", jsonNat UInt32.toNat rec.agentTimeNanosec),
    ("netflow_version", jsonNat UInt16.toNat rec.netflowVersion),
    ("flow_start", jsonNat UInt32.toNat rec.flowStart),
    ("flow_finish", jsonNat UInt32.toNat rec.flowFinish),
    ("src_as", jsonNat UInt32.toNat rec.srcAs),
    ("dst_as", jsonNat UInt32.toNat rec.dstAs),
    ("src_mask", jsonNat UInt8.toNat rec.srcMask),
    ("dst_mask", jsonNat UInt8.toNat rec.dstMask),
    ("engine_type", jsonNat UInt16.toNat rec.engineType),
    ("engine_id", jsonNat UInt16.toNat rec.engineId),
    ("flow_sequence", jsonNat UInt32.toNat rec.flowSequence),
    ("source_id", jsonNat UInt32.toNat rec.sourceId),
    ("crc32", jsonNat UInt32.toNat rec.crc32)]

def enrichedJson (rec : FlowRecord) (srcGeo dstGeo : Option GeoPoint) : Json :=
  .object (recordFields rec ++
    [("src_geo", .ofOption GeoPoint.toJson srcGeo),
      ("dst_geo", .ofOption GeoPoint.toJson dstGeo),
      ("service", .ofOption .string (flowService out rec.srcPort rec.dstPort rec.protocol))])

/-! ## Rows -/

/-- A flow is only useful with both addresses, byte and packet counts and a
receive time. -/
def toRow (geo : GeoResolver) (rec : FlowRecord) : Option FlowRow := do
  let recvTime ← recvTime out rec
  let src ← rec.srcAddr
  let dst ← rec.dstAddr
  let _ ← rec.packets
  let _ ← rec.octets
  let (flowStart, flowEnd) := wallClockTimes out rec
  let srcGeo := geo.lookup src
  let dstGeo := geo.lookup dst
  return {
    json := enrichedJson out rec srcGeo dstGeo
    recvTime := recvTime
    srcAddr := toNet src
    dstAddr := toNet dst
    srcPort := rec.srcPort.map fun v ↦ Int32.ofNat v.toNat
    dstPort := rec.dstPort.map fun v ↦ Int32.ofNat v.toNat
    protocol := rec.protocol.map fun v ↦ Int16.ofNat v.toNat
    tcpFlags := rec.tcpFlags.map fun v ↦ Int16.ofNat v.toNat
    tos := rec.tos.map fun v ↦ Int16.ofNat v.toNat
    packets := rec.packets.map UInt64.toInt64
    octets := rec.octets.map UInt64.toInt64
    ifIndexIn := rec.ifIndexIn.map UInt32.toInt32
    ifIndexOut := rec.ifIndexOut.map UInt32.toInt32
    gatewayAddr := rec.gatewayAddr.map toNet
    agentAddr := rec.agentAddr.map toNet
    srcAs := rec.srcAs.map fun v ↦ Int64.ofNat v.toNat
    dstAs := rec.dstAs.map fun v ↦ Int64.ofNat v.toNat
    netflowVer := rec.netflowVersion.map UInt16.toInt16
    flowStart := flowStart
    flowEnd := flowEnd
    srcLat := srcGeo.map GeoPoint.lat
    srcLon := srcGeo.map GeoPoint.lon
    dstLat := dstGeo.map GeoPoint.lat
    dstLon := dstGeo.map GeoPoint.lon
    srcCountry := srcGeo.bind GeoPoint.country
    dstCountry := dstGeo.bind GeoPoint.country }

theorem recvSec_of_toRow {geo : GeoResolver} {rec : FlowRecord} {row : FlowRow}
    (h : toRow out geo rec = some row) : ∃ sec, rec.recvSec = some sec := by
  cases hsec : rec.recvSec with
  | some sec => exact ⟨sec, rfl⟩
  | none =>
      have htime : recvTime out rec = none := by
        rw [recvTime, hsec]
        rfl
      rw [toRow, htime] at h
      cases h

theorem recvTime_of_toRow {geo : GeoResolver} {rec : FlowRecord} {row : FlowRow}
    (h : toRow out geo rec = some row) : recvTime out rec = some row.recvTime := by
  obtain ⟨recv, hrecv, h⟩ := Option.bind_eq_some_iff.mp h
  obtain ⟨src, -, h⟩ := Option.bind_eq_some_iff.mp h
  obtain ⟨dst, -, h⟩ := Option.bind_eq_some_iff.mp h
  obtain ⟨-, -, h⟩ := Option.bind_eq_some_iff.mp h
  obtain ⟨-, -, h⟩ := Option.bind_eq_some_iff.mp h
  obtain rfl := Option.some.inj h
  exact hrecv

/-- Both endpoints of a row are located by the resolver, in its columns as in
its JSON. -/
theorem endpoints_of_toRow {geo : GeoResolver} {rec : FlowRecord} {row : FlowRow}
    (h : toRow out geo rec = some row) : ∃ src dst, rec.srcAddr = some src ∧
      rec.dstAddr = some dst ∧
      row.json = enrichedJson out rec (geo.lookup src) (geo.lookup dst) ∧
      (row.srcAddr = toNet src ∧ row.srcLat = (geo.lookup src).map GeoPoint.lat ∧
        row.srcLon = (geo.lookup src).map GeoPoint.lon) ∧
      (row.dstAddr = toNet dst ∧ row.dstLat = (geo.lookup dst).map GeoPoint.lat ∧
        row.dstLon = (geo.lookup dst).map GeoPoint.lon) := by
  obtain ⟨recv, -, h⟩ := Option.bind_eq_some_iff.mp h
  obtain ⟨src, hsrc, h⟩ := Option.bind_eq_some_iff.mp h
  obtain ⟨dst, hdst, h⟩ := Option.bind_eq_some_iff.mp h
  obtain ⟨-, -, h⟩ := Option.bind_eq_some_iff.mp h
  obtain ⟨-, -, h⟩ := Option.bind_eq_some_iff.mp h
  obtain rfl := Option.some.inj h
  exact ⟨src, dst, hsrc, hdst, rfl, ⟨rfl, rfl, rfl⟩, rfl, rfl, rfl⟩

end

/-- No well-known services, exact floats, and the documented range of
nanoseconds. -/
def plainOutside : Outside where
  fromTimestamp := fun secs nanos ↦
    if nanos < 10 ^ 9 ∨ (nanos < 2 * 10 ^ 9 ∧ secs % 60 = 59) then some ⟨secs, nanos⟩ else none
  services := fun _ ↦ none
  fl := id

def plainGeo : GeoResolver := .new none 0 0

/-- A host that has no address yet asks for one. -/
def discover : FlowRecord :=
  { recvSec := some 5
    srcAddr := some (.v4 ⟨0⟩)
    dstAddr := some (.v4 ⟨0xffffffff⟩)
    packets := some 1
    octets := some 328 }

/-- Two hosts of the home network. -/
def lan : FlowRecord :=
  { discover with srcAddr := some (.v4 ⟨0x0a000001⟩), dstAddr := some (.v4 ⟨0x0a000002⟩) }

end TrafficMap.Ingestor
