import TrafficMap.Ingestor.Row

/-!
# Telegraf metrics

The telegraf source of `crates/ingestor`: a metric, as JSON, becomes a flow
record.
-/

namespace TrafficMap.Ingestor

open FlowdParse

def wrapU32 (n : ℤ) : UInt32 := UInt32.ofNat (n % 2 ^ 32).toNat

def parseU8 (s : String) : Option UInt8 :=
  let digits := match s.toList with
    | '+' :: rest => rest
    | cs => cs
  match spanDigits 10 digits with
  | (d :: ds, []) =>
      let n := (d :: ds).foldl (fun n d ↦ 10 * n + d) 0
      if n < 256 then some (UInt8.ofNat n) else none
  | _ => none

def protoNum (s : String) : Option UInt8 :=
  match s.map Char.toLower with
  | "icmp" => some 1
  | "igmp" => some 2
  | "tcp" => some 6
  | "udp" => some 17
  | "gre" => some 47
  | "esp" => some 50
  | "ah" => some 51
  | "ipv6-icmp" | "icmp6" | "ipv6_icmp" => some 58
  | other => parseU8 other

def timestampOf (v : Json) : Option ℤ := (v.get "timestamp").bind Json.asI64

def flowrecordFromTelegraf (v : Json) : Option FlowRecord := do
  let f ← v.get "fields"
  let s (k : String) : Option String := (f.get k).bind Json.asStr
  let u (k : String) : Option UInt64 := (f.get k).bind Json.asU64
  let positive (k : String) : Option UInt64 := (u k).filter fun n ↦ decide (0 < n)
  let recvSec := (timestampOf v).map fun ms ↦ wrapU32 (ms.tdiv 1000)
  let recvUsec := (timestampOf v).map fun ms ↦ wrapU32 (ms.tmod 1000 * 1000)
  -- the uptime is anchored to `last_switched`
  let switched := (u "first_switched").bind fun fs ↦ (u "last_switched").map fun ls ↦ (fs, ls)
  return {
    recvSec := recvSec
    recvUsec := recvUsec
    srcAddr := (s "src").bind IpAddr.parse
    dstAddr := (s "dst").bind IpAddr.parse
    gatewayAddr := (s "next_hop").bind IpAddr.parse
    srcPort := (u "src_port").map UInt64.toUInt16
    dstPort := (u "dst_port").map UInt64.toUInt16
    protocol := (s "protocol").bind protoNum
    -- prefer in_*, fall back to out_*
    octets := positive "in_bytes" <|> u "out_bytes"
    packets := positive "in_packets" <|> u "out_packets"
    srcAs := (u "bgp_src_as").map UInt64.toUInt32
    dstAs := (u "bgp_dst_as").map UInt64.toUInt32
    srcMask := (u "src_mask").map UInt64.toUInt8
    dstMask := (u "dst_mask").map UInt64.toUInt8
    ifIndexIn := (u "in_snmp").map UInt64.toUInt32
    ifIndexOut := (u "out_snmp").map UInt64.toUInt32
    netflowVersion := some 9
    flowStart := switched.map fun p ↦ p.1.toUInt32
    flowFinish := switched.map fun p ↦ p.2.toUInt32
    sysUptimeMs := switched.map fun p ↦ p.2.toUInt32
    agentAddr := ((((v.get "tags").bind fun t ↦ t.get "source").bind Json.asStr).bind
      IpAddr.parse) }

def isWhitespace (c : Char) : Bool :=
  let n := c.toNat
  decide (9 ≤ n ∧ n ≤ 13) || n == 0x20 || n == 0x85 || n == 0xA0 || n == 0x1680 ||
    decide (0x2000 ≤ n ∧ n ≤ 0x200A) || n == 0x2028 || n == 0x2029 || n == 0x202F ||
    n == 0x205F || n == 0x3000

end TrafficMap.Ingestor
