import TrafficMap.Api.Overrides
import TrafficMap.Inet

/-!
# History

`/api/history` of `crates/api`: the newest stored flows of a time window, in
the shape of the live channel.  Whether an end is at home comes from a list of
networks in the query, not from `is_local`, and the two differ on the broadcast
address, 0/8, `::` and `::1`.
-/

namespace TrafficMap.Api

open Ingestor Ingestor.IpNetwork Geo FlowdParse

/-! ## The query -/

structure HistQuery where
  sinceS : Option ℚ
  fromS : Option ℚ
  toS : Option ℚ
  limit : Option ℤ

def clamp {α : Type} [LinearOrder α] (x lo hi : α) : α := max lo (min x hi)

/-- The absolute window of a brush, else the trailing one. -/
def histWindow (q : HistQuery) (now : ℚ) : ℚ × ℚ :=
  let since := clamp (q.sinceS.getD 300) 1 (366 * 24 * 3600)
  match q.fromS, q.toS with
  | some f, some t => if f < t then (f, t) else (now - since, now + 60)
  | _, _ => (now - since, now + 60)

def histLimit (q : HistQuery) : ℕ := (clamp (q.limit.getD 6000) 1 20000).toNat

def privNets : List IpNetwork :=
  [v4Net 10 0 0 0 8, v4Net 172 16 0 0 12, v4Net 192 168 0 0 16,
    v4Net 127 0 0 0 8, v4Net 169 254 0 0 16, v4Net 100 64 0 0 10,
    v4Net 224 0 0 0 4, v6Net 0xfc00 7, v6Net 0xfe80 10, v6Net 0xff00 8]

def privPred (ip : IpNetwork) : Bool := privNets.any (within ip)

structure HistRow where
  recvSec : ℤ
  src : String
  dst : String
  srcPort : Option Int32
  dstPort : Option Int32
  protocol : Option Int16
  octets : Option Int64
  srcLat : Option ℚ
  srcLon : Option ℚ
  srcCountry : Option String
  srcIsHome : Bool
  dstLat : Option ℚ
  dstLon : Option ℚ
  dstCountry : Option String
  dstIsHome : Bool

def epoch (t : DateTime) : ℚ := t.secs + t.nanos / 10 ^ 9

/-- The functions and the order that the query leaves to the database. -/
structure Database where
  /-- `host(…)::text`. -/
  host : IpNetwork → String
  /-- `ORDER BY recv_time DESC`. -/
  newestFirst : List FlowRow → List FlowRow
  perm : ∀ fs, (newestFirst fs).Perm fs
  sorted : ∀ fs, (newestFirst fs).Pairwise fun f f' ↦ epoch f'.recvTime ≤ epoch f.recvTime

section Rows

variable (db : Database)

def histRow (f : FlowRow) : HistRow where
  recvSec := roundHalfAway (epoch f.recvTime)
  src := db.host f.srcAddr
  dst := db.host f.dstAddr
  srcPort := f.srcPort
  dstPort := f.dstPort
  protocol := f.protocol
  octets := f.octets
  srcLat := f.srcLat
  srcLon := f.srcLon
  srcCountry := f.srcCountry
  srcIsHome := privPred f.srcAddr
  dstLat := f.dstLat
  dstLon := f.dstLon
  dstCountry := f.dstCountry
  dstIsHome := privPred f.dstAddr

def inWindow (w : ℚ × ℚ) (f : FlowRow) : Bool :=
  decide (w.1 < epoch f.recvTime) && decide (epoch f.recvTime ≤ w.2) && f.srcLat.isSome &&
    f.dstLat.isSome

def histRows (q : HistQuery) (now : ℚ) (flows : List FlowRow) : List HistRow :=
  ((db.newestFirst (flows.filter (inWindow (histWindow q now)))).take (histLimit q)).map
    (histRow db)

/-- Below the limit the query has the rows of the window. -/
theorem mem_histRows_iff {q : HistQuery} {now : ℚ} {flows : List FlowRow}
    (hlimit : (flows.filter (inWindow (histWindow q now))).length ≤ histLimit q) (r : HistRow) :
    r ∈ histRows db q now flows ↔
      ∃ f ∈ flows, inWindow (histWindow q now) f = true ∧ histRow db f = r := by
  have hperm := db.perm (flows.filter (inWindow (histWindow q now)))
  rw [histRows, List.take_of_length_le (hperm.length_eq.trans_le hlimit), List.mem_map]
  apply exists_congr
  intro f
  rw [hperm.mem_iff, List.mem_filter, and_assoc]

end Rows

/-! ## The response -/

def histGeo (lat lon : Option ℚ) (country : Option String) (isHome : Bool) : Json :=
  .object [("lat", .ofOption (fun q ↦ .number (.float q)) lat),
    ("lon", .ofOption (fun q ↦ .number (.float q)) lon),
    ("country", .ofOption .string country), ("is_home", .bool isHome), ("city", .null)]

def histJson (r : HistRow) : Json :=
  .object [("recv_sec", .ofI64 (Int64.ofInt r.recvSec)), ("src_addr", .string r.src),
    ("dst_addr", .string r.dst), ("src_port", .ofOption (fun p ↦ .ofI64 p.toInt64) r.srcPort),
    ("dst_port", .ofOption (fun p ↦ .ofI64 p.toInt64) r.dstPort),
    ("protocol", .ofOption (fun p ↦ .ofI64 p.toInt64) r.protocol),
    ("octets", .ofOption .ofI64 r.octets),
    ("src_geo", histGeo r.srcLat r.srcLon r.srcCountry r.srcIsHome),
    ("dst_geo", histGeo r.dstLat r.dstLon r.dstCountry r.dstIsHome)]

/-- The reply without a database, with one that fails, and with its rows. -/
def historyHandler (ov : Overrides) (apps : AppMap) :
    Option (Except String (List HistRow)) → Option Json
  | none => some (.object [("flows", .array [])])
  | some (.error e) => some (.object [("flows", .array []), ("error", .string e)])
  | some (.ok rows) =>
      (rows.mapM fun r ↦ serve ov apps (histJson r)).map fun flows ↦
        .object [("flows", .array flows)]

/-! ## Directions -/

inductive Dir
  | incoming
  | out
  | internal
  | transit
deriving DecidableEq

def truthy : Option Json → Bool
  | none | some .null => false
  | some (.bool b) => b
  | some (.number (.posInt n)) => n != 0
  | some (.number (.negInt _ _)) => true
  | some (.number (.float q)) => q != 0
  | some (.string s) => s != ""
  | some (.array _) | some (.object _) => true

/-- `dirOf` of the map, the application and the panel. -/
def dirOf (flow : Json) : Dir :=
  let sh := truthy (homeFlag flow "src_geo")
  let dh := truthy (homeFlag flow "dst_geo")
  if sh && dh then .internal
  else if sh && !dh then .out
  else if !sh && dh then .incoming
  else .transit

def SameDirection (live hist : Json) : Prop :=
  (∀ geoKey ∈ geoKeys, homeFlag live geoKey = homeFlag hist geoKey) ∧ dirOf live = dirOf hist

/-! ## The list against `is_local` -/

/-- The addresses that only `is_local` takes for local. -/
def LiveOnly : IpAddr → Prop
  | .v4 a => a.toBits.toNat = 2 ^ 32 - 1 ∨ a.toBits.toNat / 2 ^ 24 = 0
  | .v6 a => a.toBits.toNat = 0 ∨ a.toBits.toNat = 1

theorem privPred_v4_iff (a : Ipv4Addr) : privPred (toNet (.v4 a)) = true ↔
    LocalV4 a.toBits.toNat ∧ ¬ LiveOnly (.v4 a) := by
  simp (disch := omega) only [privPred, privNets, List.any_cons, List.any_nil, Bool.or_eq_true,
    within_v4Net, within_v4_v6Net, Bool.false_eq_true, or_false]
  norm_num only [LocalV4, LiveOnly, Nat.div_one]
  constructor
  · intro h
    have hnot : ¬ (a.toBits.toNat = 4294967295 ∨ a.toBits.toNat / 16777216 = 0) := by omega
    tauto
  · tauto

theorem privPred_v6_iff (a : Ipv6Addr) : privPred (toNet (.v6 a)) = true ↔
    LocalV6 a.toBits.toNat ∧ ¬ LiveOnly (.v6 a) := by
  simp (disch := omega) only [privPred, privNets, List.any_cons, List.any_nil, Bool.or_eq_true,
    within_v6_v4Net, within_v6Net, Bool.false_eq_true, false_or, or_false]
  norm_num only [LocalV6, LiveOnly]
  constructor
  · intro h
    have hnot : ¬ (a.toBits.toNat = 0 ∨ a.toBits.toNat = 1) := by omega
    tauto
  · tauto

theorem privPred_iff (ip : IpAddr) :
    privPred (toNet ip) = true ↔ isLocal ip = true ∧ ¬ LiveOnly ip := by
  cases ip with
  | v4 a => rw [privPred_v4_iff, isLocal, isLocalV4_iff]
  | v6 a => rw [privPred_v6_iff, isLocal, isLocalV6_iff]

theorem isLocal_of_liveOnly {ip : IpAddr} (h : LiveOnly ip) : isLocal ip = true := by
  cases ip with
  | v4 a =>
      rw [isLocal, isLocalV4_iff, LocalV4]
      rcases h with h | h <;> simp only [h, true_or, or_true]
  | v6 a =>
      rw [isLocal, isLocalV6_iff, LocalV6]
      rcases h with h | h <;> simp only [h, true_or, or_true]

theorem isLocal_eq_privPred_iff (ip : IpAddr) :
    isLocal ip = privPred (toNet ip) ↔ ¬ LiveOnly ip := by
  rw [Bool.eq_iff_iff, privPred_iff]
  constructor
  · exact fun h hlive ↦ (h.mp (isLocal_of_liveOnly hlive)).2 hlive
  · exact fun h ↦ ⟨fun hlocal ↦ ⟨hlocal, h⟩, And.left⟩

/-! ## Live and on replay -/

theorem isHome_lookup {reader : Option (IpAddr → Option City)} {homeLat homeLon : ℚ} {ip : IpAddr}
    {p : GeoPoint} (h : (GeoResolver.new reader homeLat homeLon).lookup ip = some p) :
    p.isHome = isLocal ip := by
  rw [GeoResolver.lookup] at h
  split at h
  · next hlocal =>
      obtain rfl := Option.some.inj h
      exact hlocal.symm
  · next hlocal =>
      obtain ⟨db, -, h⟩ := Option.bind_eq_some_iff.mp h
      obtain ⟨city, -, h⟩ := Option.bind_eq_some_iff.mp h
      obtain ⟨loc, -, h⟩ := Option.bind_eq_some_iff.mp h
      obtain ⟨lat, -, h⟩ := Option.bind_eq_some_iff.mp h
      obtain ⟨lon, -, h⟩ := Option.bind_eq_some_iff.mp h
      obtain rfl := Option.some.inj h
      exact (Bool.eq_false_iff.mpr hlocal).symm

/-- Two objects for the ends, with the given flags. -/
structure Flagged (flow : Json) (src dst : Bool) : Prop where
  hasGeo : HasGeo flow
  src : homeFlag flow "src_geo" = some (.bool src)
  dst : homeFlag flow "dst_geo" = some (.bool dst)

theorem flagged_enrichedJson (out : Outside) (rec : FlowRecord) (p q : GeoPoint) :
    Flagged (enrichedJson out rec (some p) (some q)) p.isHome q.isHome := by
  refine ⟨⟨⟨_, rfl⟩, fun k hk ↦ ?_⟩, rfl, rfl⟩
  rcases List.mem_pair.mp hk with rfl | rfl
  · exact ⟨_, rfl⟩
  · exact ⟨_, rfl⟩

theorem flagged_histJson (r : HistRow) : Flagged (histJson r) r.srcIsHome r.dstIsHome := by
  refine ⟨⟨⟨_, rfl⟩, fun k hk ↦ ?_⟩, rfl, rfl⟩
  rcases List.mem_pair.mp hk with rfl | rfl
  · exact ⟨_, rfl⟩
  · exact ⟨_, rfl⟩

theorem Flagged.serve {flow : Json} {src dst : Bool} (h : Flagged flow src dst) (ov : Overrides)
    (apps : AppMap) : ∃ w, serve ov apps flow = some w ∧ Flagged w src dst := by
  obtain ⟨w, hw, hgeo, hflags⟩ := keepsFlags_serve ov apps h.hasGeo
  refine ⟨w, hw, hgeo, ?_, ?_⟩
  · rw [hflags _ (by decide), h.src]
  · rw [hflags _ (by decide), h.dst]

/-- The reply has every row, and serving them does not panic. -/
theorem historyHandler_ok (ov : Overrides) (apps : AppMap) (rows : List HistRow) :
    ∃ shown, historyHandler ov apps (some (.ok rows)) =
        some (.object [("flows", .array shown)]) ∧
      List.Forall₂ (fun r w ↦ serve ov apps (histJson r) = some w) rows shown := by
  have hrows : ∃ shown, (rows.mapM fun r ↦ Api.serve ov apps (histJson r)) = some shown ∧
      List.Forall₂ (fun r w ↦ Api.serve ov apps (histJson r) = some w) rows shown := by
    induction rows with
    | nil => exact ⟨[], rfl, .nil⟩
    | cons r rows ih =>
        obtain ⟨shown, hshown, hall⟩ := ih
        obtain ⟨w, hw, -⟩ := (flagged_histJson r).serve ov apps
        refine ⟨w :: shown, ?_, .cons hw hall⟩
        rw [List.mapM_cons, hw, hshown]
        rfl
  obtain ⟨shown, hshown, hall⟩ := hrows
  refine ⟨shown, ?_, hall⟩
  rw [historyHandler, hshown]
  rfl

/-- Below the limit the reply has every flow of the window. -/
theorem exists_shown {db : Database} {q : HistQuery} {now : ℚ} {flows : List FlowRow}
    (hlimit : (flows.filter (inWindow (histWindow q now))).length ≤ histLimit q) {row : FlowRow}
    (hrow : row ∈ flows) (hin : inWindow (histWindow q now) row = true) (ov : Overrides)
    (apps : AppMap) :
    ∃ shown, historyHandler ov apps (some (.ok (histRows db q now flows))) =
        some (.object [("flows", .array shown)]) ∧
      ∃ hist ∈ shown, serve ov apps (histJson (histRow db row)) = some hist := by
  obtain ⟨shown, hreply, hall⟩ := historyHandler_ok ov apps (histRows db q now flows)
  obtain ⟨i, hrow⟩ :=
    List.mem_iff_get.mp ((mem_histRows_iff db hlimit _).mpr ⟨row, hrow, hin, rfl⟩)
  have hi' : i.val < shown.length := hall.length_eq ▸ i.isLt
  refine ⟨shown, hreply, shown.get ⟨i, hi'⟩, List.get_mem _ _, ?_⟩
  rw [← hrow]
  exact hall.get i.isLt hi'

theorem sameDirection_iff_flags {live hist : Json} {src dst src' dst' : Bool}
    (hlive : Flagged live src dst) (hhist : Flagged hist src' dst') :
    SameDirection live hist ↔ src = src' ∧ dst = dst' := by
  constructor
  · rintro ⟨hflags, -⟩
    have hsrc := hflags "src_geo" (by decide)
    have hdst := hflags "dst_geo" (by decide)
    rw [hlive.src, hhist.src] at hsrc
    rw [hlive.dst, hhist.dst] at hdst
    exact ⟨Json.bool.inj (Option.some.inj hsrc), Json.bool.inj (Option.some.inj hdst)⟩
  · rintro ⟨rfl, rfl⟩
    refine ⟨fun k hk ↦ ?_, ?_⟩
    · rcases List.mem_pair.mp hk with rfl | rfl
      · rw [hlive.src, hhist.src]
      · rw [hlive.dst, hhist.dst]
    · rw [dirOf, dirOf, hlive.src, hlive.dst, hhist.src, hhist.dst]

/-- Whatever the maps are, the flow is served live and from the history, with
the same flags and in the same direction. -/
def ReplaysAlike (db : Database) (row : FlowRow) : Prop :=
  ∀ ov apps ov' apps', ∃ live hist, serve ov apps row.json = some live ∧
    serve ov' apps' (histJson (histRow db row)) = some hist ∧ SameDirection live hist

theorem replaysAlike_iff_flags {db : Database} {row : FlowRow} {src dst : Bool}
    (hlive : Flagged row.json src dst) :
    ReplaysAlike db row ↔ src = privPred row.srcAddr ∧ dst = privPred row.dstAddr := by
  have hhist := flagged_histJson (histRow db row)
  constructor
  · intro halike
    obtain ⟨live, hist, hserve, hserve', hsame⟩ := halike ∅ ∅ ∅ ∅
    obtain ⟨w, hw, hflagged⟩ := hlive.serve ∅ ∅
    obtain ⟨w', hw', hflagged'⟩ := hhist.serve ∅ ∅
    obtain rfl := Option.some.inj (hserve.symm.trans hw)
    obtain rfl := Option.some.inj (hserve'.symm.trans hw')
    exact (sameDirection_iff_flags hflagged hflagged').mp hsame
  · intro hequal ov apps ov' apps'
    obtain ⟨w, hw, hflagged⟩ := hlive.serve ov apps
    obtain ⟨w', hw', hflagged'⟩ := hhist.serve ov' apps'
    exact ⟨w, w', hw, hw', (sameDirection_iff_flags hflagged hflagged').mpr hequal⟩

/-- The flags agree exactly if neither end is one that only `is_local` takes for
local.  Below its limit the reply of the history has the flow. -/
theorem replaysAlike_iff {out : Outside} {reader : Option (IpAddr → Option City)}
    {homeLat homeLon : ℚ} {rec : FlowRecord} {row : FlowRow} (db : Database)
    (hrow : toRow out (.new reader homeLat homeLon) rec = some row) (hsrc : row.srcLat.isSome)
    (hdst : row.dstLat.isSome) :
    (ReplaysAlike db row ↔ ¬ LiveOnly row.srcAddr.ip ∧ ¬ LiveOnly row.dstAddr.ip) ∧
    ∀ q now flows, (flows.filter (inWindow (histWindow q now))).length ≤ histLimit q →
      row ∈ flows → inWindow (histWindow q now) row = true → ∀ ov apps,
        ∃ shown, historyHandler ov apps (some (.ok (histRows db q now flows))) =
            some (.object [("flows", .array shown)]) ∧
          ∃ hist ∈ shown, serve ov apps (histJson (histRow db row)) = some hist := by
  refine ⟨?_, fun q now flows hlimit hmem hin ↦ exists_shown hlimit hmem hin⟩
  obtain ⟨src, dst, -, -, hjson, ⟨hsrcAddr, hsrcLat, -⟩, hdstAddr, hdstLat, -⟩ :=
    endpoints_of_toRow out hrow
  rw [hsrcLat, Option.isSome_map] at hsrc
  rw [hdstLat, Option.isSome_map] at hdst
  obtain ⟨p, hp⟩ := Option.isSome_iff_exists.mp hsrc
  obtain ⟨q, hq⟩ := Option.isSome_iff_exists.mp hdst
  have hlive : Flagged row.json (isLocal src) (isLocal dst) := by
    rw [hjson, hp, hq, ← isHome_lookup hp, ← isHome_lookup hq]
    exact flagged_enrichedJson out rec p q
  rw [replaysAlike_iff_flags hlive, hsrcAddr, hdstAddr, ip_toNet, ip_toNet,
    ← isLocal_eq_privPred_iff, ← isLocal_eq_privPred_iff]

def noOlder (f f' : FlowRow) : Bool := decide (epoch f'.recvTime ≤ epoch f.recvTime)

/-- Text as the crates write it, and a stable sort. -/
def plainDatabase : Database where
  host := fun net ↦ net.ip.toText
  newestFirst := fun fs ↦ fs.mergeSort noOlder
  perm := fun fs ↦ List.mergeSort_perm fs noOlder
  sorted := fun fs ↦ by
    have hsorted : (fs.mergeSort noOlder).Pairwise fun f f' ↦ noOlder f f' := by
      refine List.pairwise_mergeSort ?_ ?_ fs
      · intro f f' f'' h h'
        exact decide_eq_true ((of_decide_eq_true h').trans (of_decide_eq_true h))
      · intro f f'
        rw [Bool.or_eq_true, noOlder, noOlder, decide_eq_true_eq, decide_eq_true_eq]
        exact le_total _ _
    exact hsorted.imp of_decide_eq_true

/-- The last five minutes. -/
def plainQuery : HistQuery := ⟨none, none, none, none⟩

theorem replaysAlike_lan :
    ∃ row, toRow plainOutside plainGeo lan = some row ∧ ReplaysAlike plainDatabase row ∧
      ∃ shown, historyHandler ∅ ∅ (some (.ok (histRows plainDatabase plainQuery 0 [row]))) =
          some (.object [("flows", .array shown)]) ∧
        ∃ hist ∈ shown, serve ∅ ∅ (histJson (histRow plainDatabase row)) = some hist := by
  have hrow : toRow plainOutside (.new none 0 0) lan = some _ := rfl
  have halike := replaysAlike_iff plainDatabase hrow rfl rfl
  refine ⟨_, hrow, halike.1.mpr ⟨?_, ?_⟩, ?_⟩
  · rintro (h | h) <;> cases h
  · rintro (h | h) <;> cases h
  · refine halike.2 plainQuery 0 _ ?_ (List.mem_singleton_self _) ?_ ∅ ∅
    · refine (List.length_filter_le _ _).trans ?_
      decide +kernel
    · decide +kernel

/-- Inside the home network live, in transit on replay. -/
theorem not_replaysAlike_discover :
    ∃ row, toRow plainOutside plainGeo discover = some row ∧ row.srcLat.isSome ∧
      row.dstLat.isSome ∧ ¬ ReplaysAlike plainDatabase row := by
  refine ⟨_, rfl, rfl, rfl, ?_⟩
  have hflags := flagged_enrichedJson plainOutside discover plainGeo.home plainGeo.home
  rw [replaysAlike_iff_flags hflags]
  rintro ⟨hsrc, -⟩
  cases hsrc

end TrafficMap.Api
