import TrafficMap.Ingestor.Telegraf

/-!
# Numbers on their way in

The integers of a flow record or of a telegraf metric, and what is left of them
in the row and in the JSON of the flow.  Every integer is cast at most twice,
from the metric to the record and from the record to its column, and the casts
wrap: a number survives if it lies below the bound of its field.
-/

namespace TrafficMap.Ingestor

open Wire FlowdParse Geo

/-- The integers of a flow, in a source or in one of the tiers. -/
structure Numbers (α : Type) where
  srcPort : Option α := none
  dstPort : Option α := none
  protocol : Option α := none
  tcpFlags : Option α := none
  tos : Option α := none
  packets : Option α := none
  octets : Option α := none
  ifIndexIn : Option α := none
  ifIndexOut : Option α := none
  srcAs : Option α := none
  dstAs : Option α := none
  srcMask : Option α := none
  dstMask : Option α := none
  netflowVersion : Option α := none

namespace Numbers

def toList {α : Type} (n : Numbers α) : List (Option α) :=
  [n.srcPort, n.dstPort, n.protocol, n.tcpFlags, n.tos, n.packets, n.octets, n.ifIndexIn,
    n.ifIndexOut, n.srcAs, n.dstAs, n.srcMask, n.dstMask, n.netflowVersion]

/-- Each field of `n` and of `m` is related by `R`, where both have it. -/
def Related {α β : Type} (R : α → β → Prop) (n : Numbers α) (m : Numbers β) : Prop :=
  List.Forall₂ (fun a b ↦ ∀ x ∈ a, ∀ y ∈ b, R x y) n.toList m.toList

def Below (n bounds : Numbers ℕ) : Prop := n.Related (· < ·) bounds

def Agrees (n : Numbers ℕ) (stored : Numbers ℤ) : Prop :=
  Related (fun (x : ℕ) (y : ℤ) ↦ y = x) n stored

end Numbers

/-! ## Sources and tiers -/

def recordNumbers (rec : FlowRecord) : Numbers ℕ where
  srcPort := rec.srcPort.map UInt16.toNat
  dstPort := rec.dstPort.map UInt16.toNat
  protocol := rec.protocol.map UInt8.toNat
  tcpFlags := rec.tcpFlags.map UInt8.toNat
  tos := rec.tos.map UInt8.toNat
  packets := rec.packets.map UInt64.toNat
  octets := rec.octets.map UInt64.toNat
  ifIndexIn := rec.ifIndexIn.map UInt32.toNat
  ifIndexOut := rec.ifIndexOut.map UInt32.toNat
  srcAs := rec.srcAs.map UInt32.toNat
  dstAs := rec.dstAs.map UInt32.toNat
  srcMask := rec.srcMask.map UInt8.toNat
  dstMask := rec.dstMask.map UInt8.toNat
  netflowVersion := rec.netflowVersion.map UInt16.toNat

def metricU64 (v : Json) (key : String) : Option UInt64 :=
  (v.get "fields").bind fun f ↦ (f.get key).bind Json.asU64

def metricCount (v : Json) (inKey outKey : String) : Option UInt64 :=
  ((metricU64 v inKey).filter fun n ↦ decide (0 < n)) <|> metricU64 v outKey

/-- The integers of a metric; it carries no NetFlow version. -/
def metricNumbers (v : Json) : Numbers ℕ where
  srcPort := (metricU64 v "src_port").map UInt64.toNat
  dstPort := (metricU64 v "dst_port").map UInt64.toNat
  protocol := ((((v.get "fields").bind fun f ↦ f.get "protocol").bind Json.asStr).bind
    protoNum).map UInt8.toNat
  packets := (metricCount v "in_packets" "out_packets").map UInt64.toNat
  octets := (metricCount v "in_bytes" "out_bytes").map UInt64.toNat
  ifIndexIn := (metricU64 v "in_snmp").map UInt64.toNat
  ifIndexOut := (metricU64 v "out_snmp").map UInt64.toNat
  srcAs := (metricU64 v "bgp_src_as").map UInt64.toNat
  dstAs := (metricU64 v "bgp_dst_as").map UInt64.toNat
  srcMask := (metricU64 v "src_mask").map UInt64.toNat
  dstMask := (metricU64 v "dst_mask").map UInt64.toNat

/-- The cold tier: the columns of the row, which has none for the masks. -/
def FlowRow.numbers (row : FlowRow) : Numbers ℤ where
  srcPort := row.srcPort.map Int32.toInt
  dstPort := row.dstPort.map Int32.toInt
  protocol := row.protocol.map Int16.toInt
  tcpFlags := row.tcpFlags.map Int16.toInt
  tos := row.tos.map Int16.toInt
  packets := row.packets.map Int64.toInt
  octets := row.octets.map Int64.toInt
  ifIndexIn := row.ifIndexIn.map Int32.toInt
  ifIndexOut := row.ifIndexOut.map Int32.toInt
  srcAs := row.srcAs.map Int64.toInt
  dstAs := row.dstAs.map Int64.toInt
  netflowVersion := row.netflowVer.map Int16.toInt

def jsonInt (v : Json) (key : String) : Option ℤ :=
  match v.get key with
  | some (.number (.posInt n)) => some n.toNat
  | some (.number (.negInt n _)) => some n
  | _ => none

/-- The hot tier: the members of the JSON. -/
def jsonNumbers (v : Json) : Numbers ℤ where
  srcPort := jsonInt v "src_port"
  dstPort := jsonInt v "dst_port"
  protocol := jsonInt v "protocol"
  tcpFlags := jsonInt v "tcp_flags"
  tos := jsonInt v "tos"
  packets := jsonInt v "packets"
  octets := jsonInt v "octets"
  ifIndexIn := jsonInt v "if_index_in"
  ifIndexOut := jsonInt v "if_index_out"
  srcAs := jsonInt v "src_as"
  dstAs := jsonInt v "dst_as"
  srcMask := jsonInt v "src_mask"
  dstMask := jsonInt v "dst_mask"
  netflowVersion := jsonInt v "netflow_version"

/-- Both tiers hold the numbers of the source. -/
def Survive (n : Numbers ℕ) (row : FlowRow) : Prop :=
  n.Agrees row.numbers ∧ n.Agrees (jsonNumbers row.json)

/-- What the columns hold of a record's unsigned numbers. -/
def recordBounds : Numbers ℕ where
  packets := some (2 ^ 63)
  octets := some (2 ^ 63)
  ifIndexIn := some (2 ^ 31)
  ifIndexOut := some (2 ^ 31)
  netflowVersion := some (2 ^ 15)

/-- What the record and the columns hold of a metric's unsigned numbers. -/
def metricBounds : Numbers ℕ where
  srcPort := some (2 ^ 16)
  dstPort := some (2 ^ 16)
  packets := some (2 ^ 63)
  octets := some (2 ^ 63)
  ifIndexIn := some (2 ^ 31)
  ifIndexOut := some (2 ^ 31)
  srcAs := some (2 ^ 32)
  dstAs := some (2 ^ 32)
  srcMask := some (2 ^ 8)
  dstMask := some (2 ^ 8)

/-! ## Casts -/

theorem toInt_eq_toNat_iff {w : ℕ} (x : BitVec w) : x.toInt = x.toNat ↔ 2 * x.toNat < 2 ^ w := by
  have hlt := x.isLt
  rw [BitVec.toInt_eq_toNat_cond]
  split <;> omega

theorem toInt_toInt64_eq_iff (n : UInt64) : n.toInt64.toInt = n.toNat ↔ n.toNat < 2 ^ 63 := by
  have h := toInt_eq_toNat_iff n.toBitVec
  rw [UInt64.toNat_toBitVec] at h
  exact h.trans (by omega)

theorem toInt_toInt32_eq_iff (n : UInt32) : n.toInt32.toInt = n.toNat ↔ n.toNat < 2 ^ 31 := by
  have h := toInt_eq_toNat_iff n.toBitVec
  rw [UInt32.toNat_toBitVec] at h
  exact h.trans (by omega)

theorem toInt_toInt16_eq_iff (n : UInt16) : n.toInt16.toInt = n.toNat ↔ n.toNat < 2 ^ 15 := by
  have h := toInt_eq_toNat_iff n.toBitVec
  rw [UInt16.toNat_toBitVec] at h
  exact h.trans (by omega)

/-- Columns that are wider than their field hold it as it is. -/
theorem toInt_widened8 (n : UInt8) : (Int16.ofNat n.toNat).toInt = n.toNat :=
  Int16.toInt_ofNat_of_lt (n.toNat_lt.trans (by decide))

theorem toInt_widened16 (n : UInt16) : (Int32.ofNat n.toNat).toInt = n.toNat :=
  Int32.toInt_ofNat_of_lt (n.toNat_lt.trans (by decide))

theorem toInt_widened32 (n : UInt32) : (Int64.ofNat n.toNat).toInt = n.toNat :=
  Int64.toInt_ofNat_of_lt (n.toNat_lt.trans (by decide))

/-! ## One field -/

section Field

variable {α β : Type} {o : Option α} {source : α → ℕ} {stored : α → ℤ}

theorem kept_map_iff :
    (∀ x ∈ o.map source, ∀ y ∈ o.map stored, y = (x : ℤ)) ↔ ∀ a ∈ o, stored a = source a := by
  cases o <;> simp

theorem below_map_iff {b : ℕ} :
    (∀ x ∈ o.map source, ∀ y ∈ some b, x < y) ↔ ∀ a ∈ o, source a < b := by
  cases o <;> simp

theorem jsonInt_jsonNat {v : Json} {key : String} (h : v.get key = some (jsonNat source o))
    (hfit : ∀ a, source a < 2 ^ 64) : jsonInt v key = o.map fun a ↦ (source a : ℤ) := by
  rw [jsonInt, h]
  cases o with
  | none => rfl
  | some a =>
      have hnat : (UInt64.ofNat (source a)).toNat = source a := by
        rw [UInt64.toNat_ofNat']
        exact Nat.mod_eq_of_lt (hfit a)
      exact congrArg (fun n : ℕ ↦ some (n : ℤ)) hnat

end Field

/-! ## From the record to the tiers -/

section

variable {out : Outside} {geo : GeoResolver} {rec : FlowRecord} {row : FlowRow}

theorem numbers_of_toRow (h : toRow out geo rec = some row) :
    row.numbers = {
      srcPort := rec.srcPort.map fun v ↦ (v.toNat : ℤ)
      dstPort := rec.dstPort.map fun v ↦ (v.toNat : ℤ)
      protocol := rec.protocol.map fun v ↦ (v.toNat : ℤ)
      tcpFlags := rec.tcpFlags.map fun v ↦ (v.toNat : ℤ)
      tos := rec.tos.map fun v ↦ (v.toNat : ℤ)
      packets := rec.packets.map fun v ↦ v.toInt64.toInt
      octets := rec.octets.map fun v ↦ v.toInt64.toInt
      ifIndexIn := rec.ifIndexIn.map fun v ↦ v.toInt32.toInt
      ifIndexOut := rec.ifIndexOut.map fun v ↦ v.toInt32.toInt
      srcAs := rec.srcAs.map fun v ↦ (v.toNat : ℤ)
      dstAs := rec.dstAs.map fun v ↦ (v.toNat : ℤ)
      netflowVersion := rec.netflowVersion.map fun v ↦ v.toInt16.toInt } := by
  obtain ⟨recv, -, h⟩ := Option.bind_eq_some_iff.mp h
  obtain ⟨src, -, h⟩ := Option.bind_eq_some_iff.mp h
  obtain ⟨dst, -, h⟩ := Option.bind_eq_some_iff.mp h
  obtain ⟨-, -, h⟩ := Option.bind_eq_some_iff.mp h
  obtain ⟨-, -, h⟩ := Option.bind_eq_some_iff.mp h
  obtain rfl := Option.some.inj h
  simp only [FlowRow.numbers, Option.map_map, Function.comp_def, toInt_widened8, toInt_widened16,
    toInt_widened32]

/-- The JSON holds every number of the record. -/
theorem jsonNumbers_of_toRow (h : toRow out geo rec = some row) :
    jsonNumbers row.json = {
      srcPort := rec.srcPort.map fun v ↦ (v.toNat : ℤ)
      dstPort := rec.dstPort.map fun v ↦ (v.toNat : ℤ)
      protocol := rec.protocol.map fun v ↦ (v.toNat : ℤ)
      tcpFlags := rec.tcpFlags.map fun v ↦ (v.toNat : ℤ)
      tos := rec.tos.map fun v ↦ (v.toNat : ℤ)
      packets := rec.packets.map fun v ↦ (v.toNat : ℤ)
      octets := rec.octets.map fun v ↦ (v.toNat : ℤ)
      ifIndexIn := rec.ifIndexIn.map fun v ↦ (v.toNat : ℤ)
      ifIndexOut := rec.ifIndexOut.map fun v ↦ (v.toNat : ℤ)
      srcAs := rec.srcAs.map fun v ↦ (v.toNat : ℤ)
      dstAs := rec.dstAs.map fun v ↦ (v.toNat : ℤ)
      srcMask := rec.srcMask.map fun v ↦ (v.toNat : ℤ)
      dstMask := rec.dstMask.map fun v ↦ (v.toNat : ℤ)
      netflowVersion := rec.netflowVersion.map fun v ↦ (v.toNat : ℤ) } := by
  obtain ⟨src, dst, -, -, hjson, -⟩ := endpoints_of_toRow out h
  have hbyte : ∀ n : UInt8, n.toNat < 2 ^ 64 := fun n ↦ n.toNat_lt.trans (by decide)
  have hword : ∀ n : UInt16, n.toNat < 2 ^ 64 := fun n ↦ n.toNat_lt.trans (by decide)
  have hlong : ∀ n : UInt32, n.toNat < 2 ^ 64 := fun n ↦ n.toNat_lt.trans (by decide)
  rw [hjson, jsonNumbers]
  congr 1
  · exact jsonInt_jsonNat rfl hword
  · exact jsonInt_jsonNat rfl hword
  · exact jsonInt_jsonNat rfl hbyte
  · exact jsonInt_jsonNat rfl hbyte
  · exact jsonInt_jsonNat rfl hbyte
  · exact jsonInt_jsonNat rfl UInt64.toNat_lt
  · exact jsonInt_jsonNat rfl UInt64.toNat_lt
  · exact jsonInt_jsonNat rfl hlong
  · exact jsonInt_jsonNat rfl hlong
  · exact jsonInt_jsonNat rfl hlong
  · exact jsonInt_jsonNat rfl hlong
  · exact jsonInt_jsonNat rfl hbyte
  · exact jsonInt_jsonNat rfl hbyte
  · exact jsonInt_jsonNat rfl hword

theorem survive_record_iff (h : toRow out geo rec = some row) :
    Survive (recordNumbers rec) row ↔ (recordNumbers rec).Below recordBounds := by
  rw [Survive, numbers_of_toRow h, jsonNumbers_of_toRow h]
  simp only [Numbers.Agrees, Numbers.Below, Numbers.Related, Numbers.toList, recordNumbers,
    recordBounds, List.forall₂_cons, List.Forall₂.nil, kept_map_iff, below_map_iff,
    toInt_toInt64_eq_iff, toInt_toInt32_eq_iff, toInt_toInt16_eq_iff]
  simp

end

/-! ## From the metric to the record -/

theorem toNat_toUInt16_eq_iff (n : UInt64) :
    (n.toUInt16.toNat : ℤ) = n.toNat ↔ n.toNat < 2 ^ 16 := by
  rw [UInt64.toNat_toUInt16]
  omega

theorem toNat_toUInt32_eq_iff (n : UInt64) :
    (n.toUInt32.toNat : ℤ) = n.toNat ↔ n.toNat < 2 ^ 32 := by
  rw [UInt64.toNat_toUInt32]
  omega

theorem toNat_toUInt8_eq_iff (n : UInt64) : (n.toUInt8.toNat : ℤ) = n.toNat ↔ n.toNat < 2 ^ 8 := by
  rw [UInt64.toNat_toUInt8]
  omega

/-- An interface index is narrowed and then read as signed. -/
theorem toInt_toUInt32_eq_iff (n : UInt64) :
    n.toUInt32.toInt32.toInt = n.toNat ↔ n.toNat < 2 ^ 31 := by
  have hcond := toInt_toInt32_eq_iff n.toUInt32
  rw [UInt64.toNat_toUInt32] at hcond
  constructor
  · intro h
    have hlt := n.toUInt32.toInt32.toInt_lt
    omega
  · intro h
    have hmod : n.toNat % 2 ^ 32 = n.toNat := Nat.mod_eq_of_lt (h.trans (by decide))
    rw [hmod] at hcond
    exact hcond.mpr h

theorem lt_of_index_lt {o : Option UInt64} (h : ∀ a ∈ o, a.toNat < 2 ^ 31) :
    ∀ a ∈ o, a.toNat < 2 ^ 32 :=
  fun a ha ↦ (h a ha).trans (by decide)

theorem survive_metric_iff {out : Outside} {geo : GeoResolver} {v : Json} {rec : FlowRecord}
    {row : FlowRow} (hv : flowrecordFromTelegraf v = some rec) (h : toRow out geo rec = some row) :
    Survive (metricNumbers v) row ↔ (metricNumbers v).Below metricBounds := by
  obtain ⟨f, hf, hv⟩ := Option.bind_eq_some_iff.mp hv
  obtain rfl := Option.some.inj hv
  rw [Survive, numbers_of_toRow h, jsonNumbers_of_toRow h]
  simp only [Numbers.Agrees, Numbers.Below, Numbers.Related, Numbers.toList, metricNumbers,
    metricCount, metricU64, hf, Option.bind_some, Option.map_map, Function.comp_def,
    metricBounds, List.forall₂_cons, List.Forall₂.nil, kept_map_iff, below_map_iff,
    toInt_toInt64_eq_iff, toInt_toUInt32_eq_iff, toNat_toUInt16_eq_iff, toNat_toUInt32_eq_iff,
    toNat_toUInt8_eq_iff]
  constructor
  · rintro ⟨⟨hsp, hdp, -, -, -, hpackets, hoctets, hin, hout, hsas, hdas, -⟩,
      -, -, -, -, -, -, -, -, -, -, -, hsm, hdm, -⟩
    exact ⟨hsp, hdp, by simp, by simp, by simp, hpackets, hoctets, hin, hout, hsas, hdas, hsm,
      hdm, by simp, trivial⟩
  · rintro ⟨hsp, hdp, -, -, -, hpackets, hoctets, hin, hout, hsas, hdas, hsm, hdm, -⟩
    exact ⟨⟨hsp, hdp, by simp, by simp, by simp, hpackets, hoctets, hin, hout, hsas, hdas,
        by simp, by simp, by simp, trivial⟩,
      hsp, hdp, by simp, by simp, by simp, by simp, by simp, lt_of_index_lt hin,
        lt_of_index_lt hout, hsas, hdas, hsm, hdm, by simp, trivial⟩

/-! ## Every source -/

/-- Every number of every source survives. -/
def NumbersSurvive (out : Outside) (geo : GeoResolver) : Prop :=
  (∀ fields payload rec row, decodePayload fields payload = .ok rec →
    toRow out geo rec = some row → Survive (recordNumbers rec) row) ∧
  (∀ v rec row, flowrecordFromTelegraf v = some rec →
    toRow out geo rec = some row → Survive (metricNumbers v) row)

theorem numbersSurvive_iff (out : Outside) (geo : GeoResolver) :
    (∀ rec row, toRow out geo rec = some row →
      (Survive (recordNumbers rec) row ↔ (recordNumbers rec).Below recordBounds)) ∧
    (∀ v rec row, flowrecordFromTelegraf v = some rec → toRow out geo rec = some row →
      (Survive (metricNumbers v) row ↔ (metricNumbers v).Below metricBounds)) := by
  constructor
  · intro rec row h
    exact survive_record_iff h
  · intro v rec row hv h
    exact survive_metric_iff hv h

/-- A metric of a flow between two hosts of the home network. -/
def lanMetric : Json :=
  .object [("timestamp", .number (.posInt 5000)),
    ("fields", .object [("src", .string "10.0.0.1"), ("dst", .string "10.0.0.2"),
      ("src_port", .number (.posInt 443)), ("in_snmp", .number (.posInt 7)),
      ("in_bytes", .number (.posInt 328)), ("in_packets", .number (.posInt 1))])]

theorem numbersSurvive_iff_lan :
    (∃ row, toRow plainOutside plainGeo lan = some row ∧ Survive (recordNumbers lan) row) ∧
    (∃ rec row, flowrecordFromTelegraf lanMetric = some rec ∧
      toRow plainOutside plainGeo rec = some row ∧ Survive (metricNumbers lanMetric) row) := by
  obtain ⟨hrecord, hmetric⟩ := numbersSurvive_iff plainOutside plainGeo
  constructor
  · refine ⟨_, rfl, (hrecord lan _ rfl).mpr ?_⟩
    simp [Numbers.Below, Numbers.Related, Numbers.toList, recordNumbers, recordBounds, lan,
      discover]
  · refine ⟨_, _, rfl, rfl, (hmetric lanMetric _ _ rfl rfl).mpr ?_⟩
    simp [Numbers.Below, Numbers.Related, Numbers.toList, metricNumbers, metricCount, metricU64,
      metricBounds, lanMetric, Json.get, Json.asU64, List.lookup_cons]

def hugeFields : UInt32 :=
  fieldRecvTime ||| fieldSrcAddr4 ||| fieldDstAddr4 ||| fieldPackets ||| fieldOctets

/-- A flow of `2 ^ 63` bytes between two hosts of the home network. -/
def hugePayload : Bytes :=
  u32ToBe 5 ++ u32ToBe 0 ++ [10, 0, 0, 1] ++ [10, 0, 0, 2] ++ u64ToBe 1 ++
    u64ToBe 0x8000000000000000

def hugeRecord : FlowRecord := { lan with recvUsec := some 0, octets := some 0x8000000000000000 }

theorem not_numbersSurvive_huge : ¬ NumbersSurvive plainOutside plainGeo := by
  rintro ⟨hrecords, -⟩
  have hdecode : decodePayload hugeFields hugePayload = .ok hugeRecord := by decide +kernel
  obtain ⟨row, hrow⟩ : ∃ row, toRow plainOutside plainGeo hugeRecord = some row := ⟨_, rfl⟩
  have hsurvive := hrecords hugeFields hugePayload hugeRecord row hdecode hrow
  have hbelow := (survive_record_iff hrow).mp hsurvive
  simp [Numbers.Below, Numbers.Related, Numbers.toList, recordNumbers, recordBounds, hugeRecord,
    lan, discover] at hbelow

end TrafficMap.Ingestor
