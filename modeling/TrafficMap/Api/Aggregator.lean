import TrafficMap.Json
import TrafficMap.Lib.RingWindow
import TrafficMap.Lib.Tally

/-!
# The rolling-window aggregator

`crates/api/src/aggregator.rs`: enriched flows are folded into the current
bucket of a ring of one bucket a second, and a snapshot merges the last buckets
and lists the largest keys of each axis.  Sums are taken in `u64` and wrap.  A
`HashMap` is iterated in an order of its own, which the snapshot takes as a
parameter.
-/

namespace TrafficMap.Api

open Tally RingWindow

abbrev BUCKETS : ℕ := 600

/-- The soft cap on distinct remote addresses in a bucket. -/
abbrev DST_CAP : ℕ := 4000

/-! ## Amounts -/

@[ext] structure DataInfo where
  inBytes : UInt64
  outBytes : UInt64
  inPkts : UInt64
  outPkts : UInt64
  deriving DecidableEq

namespace DataInfo

instance : Zero DataInfo := ⟨⟨0, 0, 0, 0⟩⟩

def add (d : DataInfo) (bytes pkts : UInt64) (incoming : Bool) : DataInfo :=
  if incoming then { d with inBytes := d.inBytes + bytes, inPkts := d.inPkts + pkts }
  else { d with outBytes := d.outBytes + bytes, outPkts := d.outPkts + pkts }

def merge (d o : DataInfo) : DataInfo where
  inBytes := d.inBytes + o.inBytes
  outBytes := d.outBytes + o.outBytes
  inPkts := d.inPkts + o.inPkts
  outPkts := d.outPkts + o.outPkts

instance : Add DataInfo := ⟨merge⟩

def total (d : DataInfo) : UInt64 := d.inBytes + d.outBytes

def weight (d : DataInfo) : ℕ := d.total.toNat

end DataInfo

abbrev HostKey := String × String × String

structure Bucket where
  total : DataInfo
  dst : Map String (DataInfo × Option String)
  country : Map String DataInfo
  src : Map String DataInfo
  service : Map String DataInfo
  host : Map HostKey DataInfo

namespace Bucket

def empty : Bucket := ⟨0, ∅, ∅, ∅, ∅, ∅⟩

/-! ## Recording a flow -/

section Record

variable (v : Json) (bytes pkts : UInt64) (incoming : Bool) (b : Bucket)

def recordService : Bucket :=
  match (v.get "service").bind Json.asStr with
  | some svc => { b with service := upsert svc 0 (fun d ↦ d.add bytes pkts incoming) b.service }
  | none => b

def recordLan (sh dh : Bool) : Bucket :=
  let lan :=
    if sh then (v.get "src_addr").bind Json.asStr
    else if dh then (v.get "dst_addr").bind Json.asStr
    else none
  match lan with
  | some ip => { b with src := upsert ip 0 (fun d ↦ d.add bytes pkts incoming) b.src }
  | none => b

def recordDst (ip : String) (country : Option String) : Bucket :=
  if b.dst.keys.length < DST_CAP ∨ ip ∈ b.dst then
    { b with
      dst := upsert ip (0, country)
        (fun e ↦ (e.1.add bytes pkts incoming, e.2 <|> country)) b.dst }
  else b

def recordCountry (country : Option String) : Bucket :=
  match country with
  | some c => { b with country := upsert c 0 (fun d ↦ d.add bytes pkts incoming) b.country }
  | none => b

def recordHost (ip : String) (country : Option String) (asKey : String) : Bucket :=
  let label := ((v.get "app").bind Json.asStr).getD ip
  let asn := ((((v.get asKey).bind Json.asI64).filter fun n ↦ decide (0 < n)).map
    fun n ↦ toString n).getD ""
  let key : HostKey := (label, asn, country.getD "")
  { b with host := upsert key 0 (fun d ↦ d.add bytes pkts incoming) b.host }

/-- The axes of the remote peer, the end that is not home; none for a flow
inside the home network or without an address there. -/
def recordPeer (sh dh : Bool) : Bucket :=
  let incoming := dh && !sh
  let outgoing := sh && !dh
  let keys :=
    if outgoing then some ("dst_addr", ["dst_geo", "country"], "dst_as")
    else if incoming then some ("src_addr", ["src_geo", "country"], "src_as")
    else if !sh && !dh then some ("dst_addr", ["dst_geo", "country"], "dst_as") -- transit
    else none -- internal: no remote peer
  match keys with
  | none => b
  | some (peerIpKey, peerCountryPtr, peerAsKey) =>
      match (v.get peerIpKey).bind Json.asStr with
      | none => b
      | some ip =>
          let country := (v.pointer peerCountryPtr).bind Json.asStr
          let b := b.recordDst bytes pkts incoming ip country
          let b := b.recordCountry bytes pkts incoming country
          b.recordHost v bytes pkts incoming ip country peerAsKey

end Record

def record (v : Json) (b : Bucket) : Bucket :=
  let bytes := ((v.get "octets").bind Json.asU64).getD 0
  if bytes = 0 then b
  else
    let pkts := ((v.get "packets").bind Json.asU64).getD 0
    let sh := ((v.pointer ["src_geo", "is_home"]).bind Json.asBool).getD false
    let dh := ((v.pointer ["dst_geo", "is_home"]).bind Json.asBool).getD false
    let incoming := dh && !sh
    let b := { b with total := b.total.add bytes pkts incoming }
    let b := b.recordService v bytes pkts incoming
    let b := b.recordLan v bytes pkts incoming sh dh
    b.recordPeer v bytes pkts sh dh

end Bucket

structure Aggregator where
  buckets : Ring BUCKETS Bucket

namespace Aggregator

def new : Aggregator := ⟨⟨Vector.replicate BUCKETS Bucket.empty, 0, by decide⟩⟩

def tick (a : Aggregator) : Aggregator := ⟨a.buckets.roll Bucket.empty⟩

def record (v : Json) (a : Aggregator) : Aggregator := ⟨a.buckets.modify (Bucket.record v)⟩

end Aggregator

/-! ## Snapshots -/

inductive Axis
  | dst
  | country
  | src
  | service
  | host

/-- The orders in which maps are iterated: those of the axis in bucket `i` of
the window, and of the merged map of the axis for `i = BUCKETS`. -/
structure IterOrder where
  visit : Axis → ℕ → ∀ {α : Type}, List α → List α
  perm : ∀ (axis : Axis) (i : ℕ) {α : Type} (l : List α), (visit axis i l).Perm l

def inOrder : IterOrder := ⟨fun _ _ _ l ↦ l, fun _ _ _ l ↦ .refl l⟩

def mergeAxis {K : Type} [DecidableEq K] (acc : Map K DataInfo)
    (entries : List ((_ : K) × DataInfo)) : Map K DataInfo :=
  entries.foldl (fun acc e ↦ upsert e.1 0 (fun d ↦ d.merge e.2) acc) acc

/-- The merge loop of the destination axis, whose countries are borrowed. -/
def mergeDst (acc : Map String (DataInfo × Option String))
    (entries : List ((_ : String) × DataInfo × Option String)) :
    Map String (DataInfo × Option String) :=
  entries.foldl (fun acc e ↦ upsert e.1 (0, e.2.2)
    (fun d ↦ (d.1.merge e.2.1, d.2 <|> e.2.2)) acc) acc

def top {K E : Type} (it : IterOrder) (axis : Axis) (amount : E → DataInfo) (n : ℕ)
    (m : Map K E) : List (K × E) :=
  (topBy (DataInfo.weight ∘ amount) n (it.visit axis BUCKETS m.entries)).map fun e ↦ (e.1, e.2)

structure Stats where
  window : ℚ
  total : DataInfo
  topDst : List (String × DataInfo × Option String)
  topCountries : List (String × DataInfo)
  topSrc : List (String × DataInfo)
  topServices : List (String × DataInfo)
  topHosts : List (HostKey × DataInfo)

namespace Aggregator

section Snapshot

variable (it : IterOrder) (a : Aggregator)

def mergeBack (acc : Bucket) (i : ℕ) : Bucket :=
  let b := a.buckets.back i
  { total := acc.total.merge b.total
    dst := mergeDst acc.dst (it.visit .dst i b.dst.entries)
    country := mergeAxis acc.country (it.visit .country i b.country.entries)
    src := mergeAxis acc.src (it.visit .src i b.src.entries)
    service := mergeAxis acc.service (it.visit .service i b.service.entries)
    host := mergeAxis acc.host (it.visit .host i b.host.entries) }

def merged (w : ℕ) : Bucket := (List.range w).foldl (a.mergeBack it) Bucket.empty

/-- `(window.round() as usize).clamp(1, BUCKETS)`. -/
def windowBuckets (window : ℚ) : ℕ := max 1 (min BUCKETS (roundHalfAway window).toNat)

def stats (window : ℚ) : Stats :=
  let m := a.merged it (windowBuckets window)
  { window := window
    total := m.total
    topDst := top it .dst Prod.fst 8 m.dst
    topCountries := top it .country id 6 m.country
    topSrc := top it .src id 6 m.src
    topServices := top it .service id 8 m.service
    topHosts := top it .host id 6 m.host }

end Snapshot

end Aggregator

/-! ## The emitted JSON -/

def rowJson (labels : List (String × Json)) (d : DataInfo) : Json :=
  .object (labels ++ [("bytes", .ofU64 d.total), ("bytes_in", .ofU64 d.inBytes),
    ("bytes_out", .ofU64 d.outBytes)])

/-- Bits a second over a window; `fl` rounds to the nearest float. -/
def bps (fl : ℚ → ℚ) (window : ℚ) (bytes : UInt64) : Json :=
  .ofI64 (satI64 (roundHalfAway (fl (fl (fl bytes.toNat * 8) / window))))

def Stats.toJson (fl : ℚ → ℚ) (s : Stats) : Json :=
  .object [
    ("window", .number (.float s.window)),
    ("bps", bps fl s.window s.total.total),
    ("bps_in", bps fl s.window s.total.inBytes),
    ("bps_out", bps fl s.window s.total.outBytes),
    ("top_dst", .array (s.topDst.map fun row ↦
      rowJson [("ip", .string row.1), ("country", .ofOption .string row.2.2)] row.2.1)),
    ("top_countries", .array (s.topCountries.map fun row ↦
      rowJson [("country", .string row.1)] row.2)),
    ("top_src", .array (s.topSrc.map fun row ↦ rowJson [("ip", .string row.1)] row.2)),
    ("top_services", .array (s.topServices.map fun row ↦
      rowJson [("service", .string row.1)] row.2)),
    ("top_hosts", .array (s.topHosts.map fun row ↦
      rowJson [("label", .string row.1.1), ("asn", .string row.1.2.1),
        ("country", .string row.1.2.2)] row.2))]

/-- Sum the trailing `window` seconds, for a window the callers keep positive. -/
def Aggregator.snapshot (it : IterOrder) (fl : ℚ → ℚ) (a : Aggregator) (window : ℚ) : Json :=
  (a.stats it window).toJson fl

end TrafficMap.Api
