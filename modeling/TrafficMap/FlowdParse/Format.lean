import TrafficMap.Lib.Cursor
import TrafficMap.Net

/-!
# The flowd store-v1 reader

The reader of `crates/flowd-parse`: an eight-byte header (version, payload
length in words, two reserved bytes, a mask of the optional groups) followed by
the payload.  The groups stand in the order of their mask bits and every
integer is big-endian.  The groups differ only in their bit and in what they
read, so the decoder runs each of them through `onField`.
-/

namespace TrafficMap.FlowdParse

open Wire

/-- `1 << k`, the mask bit of the optional group `k`. -/
def fieldBit (k : ℕ) : UInt32 := UInt32.ofNat (2 ^ k)

abbrev fieldTag : UInt32 := fieldBit 0
abbrev fieldRecvTime : UInt32 := fieldBit 1
abbrev fieldProtoFlagsTos : UInt32 := fieldBit 2
abbrev fieldAgentAddr4 : UInt32 := fieldBit 3
abbrev fieldAgentAddr6 : UInt32 := fieldBit 4
abbrev fieldSrcAddr4 : UInt32 := fieldBit 5
abbrev fieldSrcAddr6 : UInt32 := fieldBit 6
abbrev fieldDstAddr4 : UInt32 := fieldBit 7
abbrev fieldDstAddr6 : UInt32 := fieldBit 8
abbrev fieldGatewayAddr4 : UInt32 := fieldBit 9
abbrev fieldGatewayAddr6 : UInt32 := fieldBit 10
abbrev fieldSrcdstPort : UInt32 := fieldBit 11
abbrev fieldPackets : UInt32 := fieldBit 12
abbrev fieldOctets : UInt32 := fieldBit 13
abbrev fieldIfIndices : UInt32 := fieldBit 14
abbrev fieldAgentInfo : UInt32 := fieldBit 15
abbrev fieldFlowTimes : UInt32 := fieldBit 16
abbrev fieldAsInfo : UInt32 := fieldBit 17
abbrev fieldFlowEngineInfo : UInt32 := fieldBit 18
abbrev fieldCrc32 : UInt32 := fieldBit 30

def storeV1Version : UInt8 := 0x60

inductive ErrorKind where
  | unexpectedEof
  | other (code : ℕ)
deriving DecidableEq, Repr

inductive ParseError where
  | io (kind : ErrorKind)
  | truncatedRecord
  | payloadMismatch (payload consumed : ℕ) (fields : UInt32)
  | unsupportedVersion (version : UInt8)
deriving DecidableEq, Repr

structure FlowRecord where
  tag : Option UInt32 := none
  recvSec : Option UInt32 := none
  recvUsec : Option UInt32 := none
  tcpFlags : Option UInt8 := none
  protocol : Option UInt8 := none
  tos : Option UInt8 := none
  agentAddr : Option IpAddr := none
  srcAddr : Option IpAddr := none
  dstAddr : Option IpAddr := none
  gatewayAddr : Option IpAddr := none
  srcPort : Option UInt16 := none
  dstPort : Option UInt16 := none
  packets : Option UInt64 := none
  octets : Option UInt64 := none
  ifIndexIn : Option UInt32 := none
  ifIndexOut : Option UInt32 := none
  sysUptimeMs : Option UInt32 := none
  agentTimeSec : Option UInt32 := none
  agentTimeNanosec : Option UInt32 := none
  netflowVersion : Option UInt16 := none
  flowStart : Option UInt32 := none
  flowFinish : Option UInt32 := none
  srcAs : Option UInt32 := none
  dstAs : Option UInt32 := none
  srcMask : Option UInt8 := none
  dstMask : Option UInt8 := none
  engineType : Option UInt16 := none
  engineId : Option UInt16 := none
  flowSequence : Option UInt32 := none
  sourceId : Option UInt32 := none
  crc32 : Option UInt32 := none
deriving DecidableEq, Repr

/-! ## The payload cursor -/

abbrev Decode := StateT Cursor (Except ParseError)

namespace Cursor

def remaining (c : Cursor) : ℕ := c.buf.length - c.pos

def take (n : ℕ) : Decode Bytes := fun c ↦
  if remaining c < n then .error .truncatedRecord
  else .ok ((c.buf.drop c.pos).take n, { c with pos := c.pos + n })

def u8 : Decode UInt8 := do
  let b ← take 1
  return b.headD 0

def u16 : Decode UInt16 := do
  let b ← take 2
  return u16FromBe b

def u32 : Decode UInt32 := do
  let b ← take 4
  return u32FromBe b

def u64 : Decode UInt64 := do
  let b ← take 8
  return u64FromBe b

def v4 : Decode IpAddr := do
  let b ← take 4
  return .v4 (Ipv4Addr.ofOctets b)

def v6 : Decode IpAddr := do
  let b ← take 16
  return .v6 (Ipv6Addr.ofOctets b)

end Cursor

/-! ## The payload -/

/-- `if fields & bit != 0 { read }`. -/
def onField (fields bit : UInt32) (read : FlowRecord → Decode FlowRecord)
    (r : FlowRecord) : Decode FlowRecord :=
  if fields &&& bit != 0 then read r else return r

def readOne {α : Type} (read : Decode α) (set : FlowRecord → α → FlowRecord)
    (r : FlowRecord) : Decode FlowRecord := do
  let a ← read
  return set r a

def readTwo {α β : Type} (read₁ : Decode α) (read₂ : Decode β)
    (set : FlowRecord → α → β → FlowRecord) (r : FlowRecord) : Decode FlowRecord := do
  let a ← read₁
  let b ← read₂
  return set r a b

def readTag : FlowRecord → Decode FlowRecord :=
  readOne Cursor.u32 fun r a ↦ { r with tag := some a }

def readRecvTime : FlowRecord → Decode FlowRecord :=
  readTwo Cursor.u32 Cursor.u32 fun r a b ↦ { r with recvSec := some a, recvUsec := some b }

def readProtoFlagsTos (r : FlowRecord) : Decode FlowRecord := do
  let tcpFlags ← Cursor.u8
  let protocol ← Cursor.u8
  let tos ← Cursor.u8
  let _pad ← Cursor.u8
  return { r with tcpFlags := some tcpFlags, protocol := some protocol, tos := some tos }

def readAgentAddr (addr : Decode IpAddr) : FlowRecord → Decode FlowRecord :=
  readOne addr fun r a ↦ { r with agentAddr := some a }

def readSrcAddr (addr : Decode IpAddr) : FlowRecord → Decode FlowRecord :=
  readOne addr fun r a ↦ { r with srcAddr := some a }

def readDstAddr (addr : Decode IpAddr) : FlowRecord → Decode FlowRecord :=
  readOne addr fun r a ↦ { r with dstAddr := some a }

def readGatewayAddr (addr : Decode IpAddr) : FlowRecord → Decode FlowRecord :=
  readOne addr fun r a ↦ { r with gatewayAddr := some a }

def readSrcdstPort : FlowRecord → Decode FlowRecord :=
  readTwo Cursor.u16 Cursor.u16 fun r a b ↦ { r with srcPort := some a, dstPort := some b }

def readPackets : FlowRecord → Decode FlowRecord :=
  readOne Cursor.u64 fun r a ↦ { r with packets := some a }

def readOctets : FlowRecord → Decode FlowRecord :=
  readOne Cursor.u64 fun r a ↦ { r with octets := some a }

def readIfIndices : FlowRecord → Decode FlowRecord :=
  readTwo Cursor.u32 Cursor.u32 fun r a b ↦ { r with ifIndexIn := some a, ifIndexOut := some b }

def readAgentInfo (r : FlowRecord) : Decode FlowRecord := do
  let uptime ← Cursor.u32
  let sec ← Cursor.u32
  let nanosec ← Cursor.u32
  let version ← Cursor.u16
  let _pad ← Cursor.u16
  return { r with sysUptimeMs := some uptime, agentTimeSec := some sec,
                  agentTimeNanosec := some nanosec, netflowVersion := some version }

def readFlowTimes : FlowRecord → Decode FlowRecord :=
  readTwo Cursor.u32 Cursor.u32 fun r a b ↦ { r with flowStart := some a, flowFinish := some b }

def readAsInfo (r : FlowRecord) : Decode FlowRecord := do
  let srcAs ← Cursor.u32
  let dstAs ← Cursor.u32
  let srcMask ← Cursor.u8
  let dstMask ← Cursor.u8
  let _pad ← Cursor.u16
  return { r with srcAs := some srcAs, dstAs := some dstAs,
                  srcMask := some srcMask, dstMask := some dstMask }

def readFlowEngineInfo (r : FlowRecord) : Decode FlowRecord := do
  let engineType ← Cursor.u16
  let engineId ← Cursor.u16
  let sequence ← Cursor.u32
  let sourceId ← Cursor.u32
  return { r with engineType := some engineType, engineId := some engineId,
                  flowSequence := some sequence, sourceId := some sourceId }

def readCrc32 : FlowRecord → Decode FlowRecord :=
  readOne Cursor.u32 fun r a ↦ { r with crc32 := some a }

/-- The groups of `decode_payload`, in the order it tests them. -/
def decodeFields (fields : UInt32) : Decode FlowRecord := do
  let r ← onField fields fieldTag readTag {}
  let r ← onField fields fieldRecvTime readRecvTime r
  let r ← onField fields fieldProtoFlagsTos readProtoFlagsTos r
  let r ← onField fields fieldAgentAddr4 (readAgentAddr Cursor.v4) r
  let r ← onField fields fieldAgentAddr6 (readAgentAddr Cursor.v6) r
  let r ← onField fields fieldSrcAddr4 (readSrcAddr Cursor.v4) r
  let r ← onField fields fieldSrcAddr6 (readSrcAddr Cursor.v6) r
  let r ← onField fields fieldDstAddr4 (readDstAddr Cursor.v4) r
  let r ← onField fields fieldDstAddr6 (readDstAddr Cursor.v6) r
  let r ← onField fields fieldGatewayAddr4 (readGatewayAddr Cursor.v4) r
  let r ← onField fields fieldGatewayAddr6 (readGatewayAddr Cursor.v6) r
  let r ← onField fields fieldSrcdstPort readSrcdstPort r
  let r ← onField fields fieldPackets readPackets r
  let r ← onField fields fieldOctets readOctets r
  let r ← onField fields fieldIfIndices readIfIndices r
  let r ← onField fields fieldAgentInfo readAgentInfo r
  let r ← onField fields fieldFlowTimes readFlowTimes r
  let r ← onField fields fieldAsInfo readAsInfo r
  let r ← onField fields fieldFlowEngineInfo readFlowEngineInfo r
  onField fields fieldCrc32 readCrc32 r

def decodePayload (fields : UInt32) (payload : Bytes) :
    Except ParseError FlowRecord :=
  match (decodeFields fields).run (Cursor.new payload) with
  | .error e => .error e
  | .ok (r, c) =>
      if Cursor.remaining c != 0 then
        .error (.payloadMismatch payload.length c.pos fields)
      else .ok r

/-! ## The record reader and its iterator -/

/-- An `io::Read` source: the bytes it still delivers, and how it fails after
them (`none` is the end of the file). -/
structure Reader where
  data : Bytes
  fault : Option ErrorKind := none
deriving DecidableEq, Repr

/-- `Read::read_exact`: a short read takes what is there and fails, with
`UnexpectedEof` when the source merely ended. -/
def Reader.readExact (n : ℕ) (r : Reader) : Except ErrorKind Bytes × Reader :=
  if n ≤ r.data.length then (.ok (r.data.take n), { r with data := r.data.drop n })
  else (.error (r.fault.getD .unexpectedEof), { r with data := [] })

/-- What `read_record` does after its eight header bytes are in. -/
def readPayload (header : Bytes) (r : Reader) :
    Except ParseError (Option FlowRecord) × Reader :=
  let version := header.getD 0 0
  if version ≠ storeV1Version then (.error (.unsupportedVersion version), r)
  else
    let lenWords := (header.getD 1 0).toNat
    -- header[2..4] = reserved (u16 BE), ignored.
    let fields := u32FromBe (header.drop 4)
    match r.readExact (lenWords * 4) with
    | (.error .unexpectedEof, r') => (.error .truncatedRecord, r')
    | (.error e, r') => (.error (.io e), r')
    | (.ok payload, r') => ((decodePayload fields payload).map some, r')

def readRecord (r : Reader) : Except ParseError (Option FlowRecord) × Reader :=
  match r.readExact 8 with
  | (.error .unexpectedEof, r') => (.ok none, r')
  | (.error e, r') => (.error (.io e), r')
  | (.ok header, r') => readPayload header r'

structure FlowIter where
  reader : Reader
  done : Bool
deriving DecidableEq, Repr

def FlowIter.new (reader : Reader) : FlowIter := ⟨reader, false⟩

def FlowIter.next (it : FlowIter) :
    Option (Except ParseError FlowRecord) × FlowIter :=
  if it.done then (none, it)
  else
    match readRecord it.reader with
    | (.ok (some rec), r) => (some (.ok rec), { it with reader := r })
    | (.ok none, r) => (none, { reader := r, done := true })
    | (.error e, r) => (some (.error e), { reader := r, done := true })

end TrafficMap.FlowdParse
