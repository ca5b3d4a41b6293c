import TrafficMap.FlowdParse.Encode

/-!
# What the payload decoder accepts

Each known bit of the mask has a group of a fixed width, and the decoder's
twenty conditional reads collapse into one condition: a payload is accepted if
its length is the total width of the groups that the mask announces.  The
columns of an accepted record stand at the offsets that the lower bits add up
to.
-/

namespace TrafficMap.FlowdParse

open Wire

/-- The payload bytes of the group behind a mask bit; unknown bits have none. -/
def groupWidth : ℕ → ℕ
  | 0 => 4
  | 1 => 8
  | 2 => 4
  | 3 => 4
  | 4 => 16
  | 5 => 4
  | 6 => 16
  | 7 => 4
  | 8 => 16
  | 9 => 4
  | 10 => 16
  | 11 => 4
  | 12 => 8
  | 13 => 8
  | 14 => 8
  | 15 => 16
  | 16 => 8
  | 17 => 12
  | 18 => 12
  | 30 => 4
  | _ => 0

/-- The total width of the groups behind the bits below `k`. -/
def offset (fields : UInt32) (k : ℕ) : ℕ :=
  ((List.range k).map fun j ↦ if fields.toNat.testBit j then groupWidth j else 0).sum

def payloadWidth (fields : UInt32) : ℕ := offset fields 32

/-- The `w` bytes from place `rel` of group `k`, if the mask announces it. -/
def column {α : Type} (fields : UInt32) (payload : Bytes) (k rel w : ℕ) (decode : Bytes → α) :
    Option α :=
  if fields.toNat.testBit k then
    some (decode ((payload.drop (offset fields k + rel)).take w))
  else none

section Columns

variable (fields : UInt32) (payload : Bytes)

def byteColumn (k rel : ℕ) : Option UInt8 := column fields payload k rel 1 fun b ↦ b.headD 0

def u16Column (k rel : ℕ) : Option UInt16 := column fields payload k rel 2 u16FromBe

def u32Column (k rel : ℕ) : Option UInt32 := column fields payload k rel 4 u32FromBe

def u64Column (k rel : ℕ) : Option UInt64 := column fields payload k rel 8 u64FromBe

def v4Column (k : ℕ) : Option IpAddr :=
  column fields payload k 0 4 fun b ↦ .v4 (Ipv4Addr.ofOctets b)

def v6Column (k : ℕ) : Option IpAddr :=
  column fields payload k 0 16 fun b ↦ .v6 (Ipv6Addr.ofOctets b)

/-- An address with a bit for each family; the v6 group stands behind the v4
group and overwrites it. -/
def addrColumn (k : ℕ) : Option IpAddr :=
  (v6Column fields payload (k + 1)).or (v4Column fields payload k)

/-- The record that a payload of the announced width holds. -/
def recordAt : FlowRecord where
  tag := u32Column fields payload 0 0
  recvSec := u32Column fields payload 1 0
  recvUsec := u32Column fields payload 1 4
  tcpFlags := byteColumn fields payload 2 0
  protocol := byteColumn fields payload 2 1
  tos := byteColumn fields payload 2 2
  agentAddr := addrColumn fields payload 3
  srcAddr := addrColumn fields payload 5
  dstAddr := addrColumn fields payload 7
  gatewayAddr := addrColumn fields payload 9
  srcPort := u16Column fields payload 11 0
  dstPort := u16Column fields payload 11 2
  packets := u64Column fields payload 12 0
  octets := u64Column fields payload 13 0
  ifIndexIn := u32Column fields payload 14 0
  ifIndexOut := u32Column fields payload 14 4
  sysUptimeMs := u32Column fields payload 15 0
  agentTimeSec := u32Column fields payload 15 4
  agentTimeNanosec := u32Column fields payload 15 8
  netflowVersion := u16Column fields payload 15 12
  flowStart := u32Column fields payload 16 0
  flowFinish := u32Column fields payload 16 4
  srcAs := u32Column fields payload 17 0
  dstAs := u32Column fields payload 17 4
  srcMask := byteColumn fields payload 17 8
  dstMask := byteColumn fields payload 17 9
  engineType := u16Column fields payload 18 0
  engineId := u16Column fields payload 18 2
  flowSequence := u32Column fields payload 18 4
  sourceId := u32Column fields payload 18 8
  crc32 := u32Column fields payload 30 0

end Columns

/-! ## Offsets -/

theorem offset_succ (fields : UInt32) (k : ℕ) :
    offset fields (k + 1) =
      offset fields k + if fields.toNat.testBit k then groupWidth k else 0 := by
  simp [offset, List.range_succ]

/-- Bits without a group move nothing. -/
theorem offset_add {fields : UInt32} {k : ℕ} (n : ℕ) (h : ∀ j < n, groupWidth (k + j) = 0) :
    offset fields (k + n) = offset fields k := by
  induction n with
  | zero => rfl
  | succ n ih =>
      have hn : groupWidth (k + n) = 0 := h n n.lt_succ_self
      rw [← Nat.add_assoc, offset_succ, hn, ite_self, Nat.add_zero]
      exact ih fun j hj ↦ h j (hj.trans n.lt_succ_self)

/-! ## The reads -/

section Reads

variable {fields : UInt32} {payload : Bytes} {lo : ℕ} {acc out : FlowRecord}

/-- `p` read from `lo` of the payload. -/
abbrev Reads {α : Type} (payload : Bytes) (p : Decode α) (lo hi : ℕ) (a : α) : Prop :=
  ReadsTo ParseError.truncatedRecord payload p lo hi a

/-- A slice is taken only where it lies within the buffer. -/
theorem bounds_of_take {n : ℕ} {c c' : Cursor} {bs : Bytes} (hn : 0 < n)
    (h : (Cursor.take n).run c = .ok (bs, c')) :
    c.pos + n ≤ c.buf.length ∧ bs.length = n := by
  rw [StateT.run, Cursor.take] at h
  split at h
  · cases h
  · next hleft =>
      obtain ⟨rfl, -⟩ := Prod.mk.inj (Except.ok.inj h)
      rw [Cursor.remaining] at hleft
      rw [List.length_take, List.length_drop]
      omega

theorem reads_take (n : ℕ) :
    Reads payload (Cursor.take n) lo (lo + n) ((payload.drop lo).take n) := by
  refine ⟨Nat.le_add_right lo n, fun hlo ↦ ?_⟩
  by_cases hfit : lo + n ≤ payload.length
  · have hleft : ¬ payload.length - lo < n := by omega
    rw [if_pos hfit, StateT.run, Cursor.take, Cursor.remaining, if_neg hleft]
  · have hleft : payload.length - lo < n := by omega
    rw [if_neg hfit, StateT.run, Cursor.take, Cursor.remaining, if_pos hleft]

theorem reads_word {α : Type} (n : ℕ) (decode : Bytes → α) :
    Reads payload (do let b ← Cursor.take n; return decode b) lo (lo + n)
      (decode ((payload.drop lo).take n)) :=
  (reads_take n).bind_pure fun _ ↦ ReadsTo.pure _

theorem reads_u8 : Reads payload Cursor.u8 lo (lo + 1) (((payload.drop lo).take 1).headD 0) :=
  reads_word 1 fun b ↦ b.headD 0

theorem reads_u16 : Reads payload Cursor.u16 lo (lo + 2) (u16FromBe ((payload.drop lo).take 2)) :=
  reads_word 2 u16FromBe

theorem reads_u32 : Reads payload Cursor.u32 lo (lo + 4) (u32FromBe ((payload.drop lo).take 4)) :=
  reads_word 4 u32FromBe

/-- A group that the mask announces is read at its offset; the others leave the
record as it is. -/
theorem reads_onField {read : FlowRecord → Decode FlowRecord} {k : ℕ} (hk : k < 32)
    (hset : fields.toNat.testBit k = true →
      Reads payload (read acc) (offset fields k) (offset fields k + groupWidth k) out)
    (hclear : fields.toNat.testBit k = false → out = acc) :
    Reads payload (onField fields (fieldBit k) read acc) (offset fields k)
      (offset fields (k + 1)) out := by
  rw [onField, and_fieldBit_ne_zero fields hk, offset_succ]
  cases hbit : fields.toNat.testBit k with
  | true =>
      rw [if_pos rfl, if_pos rfl]
      exact hset hbit
  | false =>
      rw [if_neg Bool.false_ne_true, if_neg Bool.false_ne_true, hclear hbit]
      exact ReadsTo.pure acc

theorem column_of_set {α : Type} {k : ℕ} (h : fields.toNat.testBit k = true) (rel w : ℕ)
    (decode : Bytes → α) : column fields payload k rel w decode =
      some (decode ((payload.drop (offset fields k + rel)).take w)) := if_pos h

theorem column_of_clear {α : Type} {k : ℕ} (h : fields.toNat.testBit k = false) (rel w : ℕ)
    (decode : Bytes → α) : column fields payload k rel w decode = none := by
  rw [column, h]
  rfl

theorem reads_readOne {α : Type} {k n : ℕ} (hk : k < 32) {decode : Bytes → α}
    (hwidth : groupWidth k = n) {set : FlowRecord → α → FlowRecord}
    (put : FlowRecord → Option α → FlowRecord)
    (hset : ∀ a, set acc a = put acc (some a)) (hput : put acc none = acc) :
    Reads payload (onField fields (fieldBit k)
        (readOne (do let b ← Cursor.take n; return decode b) set) acc)
      (offset fields k) (offset fields (k + 1))
      (put acc (column fields payload k 0 n decode)) := by
  apply reads_onField hk
  · intro hbit
    rw [hwidth, column_of_set hbit, ← hset]
    exact (reads_word n decode).bind_pure fun _ ↦ ReadsTo.pure _
  · intro hbit
    rw [column_of_clear hbit, hput]

theorem reads_readTwo {α : Type} {k n : ℕ} (hk : k < 32) {decode : Bytes → α}
    (hwidth : groupWidth k = n + n) {set : FlowRecord → α → α → FlowRecord}
    (put : FlowRecord → Option α → Option α → FlowRecord)
    (hset : ∀ a b, set acc a b = put acc (some a) (some b)) (hput : put acc none none = acc) :
    Reads payload (onField fields (fieldBit k)
        (readTwo (do let b ← Cursor.take n; return decode b)
          (do let b ← Cursor.take n; return decode b) set) acc)
      (offset fields k) (offset fields (k + 1))
      (put acc (column fields payload k 0 n decode) (column fields payload k n n decode)) := by
  apply reads_onField hk
  · intro hbit
    rw [hwidth, column_of_set hbit, column_of_set hbit, ← hset, ← Nat.add_assoc]
    exact (reads_word n decode).bind ((reads_word n decode).bind_pure fun _ ↦ ReadsTo.pure _)
  · intro hbit
    rw [column_of_clear hbit, column_of_clear hbit, hput]

/-- The v6 group of an address overwrites what the v4 group in front of it left. -/
theorem reads_readAddr6 {k : ℕ} (hk : k < 32) (hwidth : groupWidth k = 16) {o : Option IpAddr}
    {set : FlowRecord → IpAddr → FlowRecord} (put : FlowRecord → Option IpAddr → FlowRecord)
    (hset : ∀ a, set (put acc o) a = put acc (some a)) :
    Reads payload (onField fields (fieldBit k) (readOne Cursor.v6 set) (put acc o))
      (offset fields k) (offset fields (k + 1)) (put acc ((v6Column fields payload k).or o)) := by
  apply reads_onField hk
  · intro hbit
    rw [hwidth, v6Column, column_of_set hbit, Option.some_or, ← hset]
    exact (reads_word 16 _).bind_pure fun _ ↦ ReadsTo.pure _
  · intro hbit
    rw [v6Column, column_of_clear hbit, Option.none_or]

theorem reads_protoFlagsTos
    (hacc : acc.tcpFlags = none ∧ acc.protocol = none ∧ acc.tos = none) :
    Reads payload (onField fields fieldProtoFlagsTos readProtoFlagsTos acc)
      (offset fields 2) (offset fields 3)
      { acc with
        tcpFlags := byteColumn fields payload 2 0, protocol := byteColumn fields payload 2 1,
        tos := byteColumn fields payload 2 2 } := by
  apply reads_onField (by decide)
  · intro hbit
    simp only [byteColumn, column_of_set hbit]
    generalize offset fields 2 = lo
    exact reads_u8.bind (reads_u8.bind (reads_u8.bind (reads_u8.bind_pure fun _ ↦ ReadsTo.pure _)))
  · intro hbit
    obtain ⟨hflags, hproto, htos⟩ := hacc
    simp only [byteColumn, column_of_clear hbit]
    cases acc
    simp_all

theorem reads_agentInfo
    (hacc : acc.sysUptimeMs = none ∧ acc.agentTimeSec = none ∧
      acc.agentTimeNanosec = none ∧ acc.netflowVersion = none) :
    Reads payload (onField fields fieldAgentInfo readAgentInfo acc)
      (offset fields 15) (offset fields 16)
      { acc with
        sysUptimeMs := u32Column fields payload 15 0,
        agentTimeSec := u32Column fields payload 15 4,
        agentTimeNanosec := u32Column fields payload 15 8,
        netflowVersion := u16Column fields payload 15 12 } := by
  apply reads_onField (by decide)
  · intro hbit
    simp only [u32Column, u16Column, column_of_set hbit]
    generalize offset fields 15 = lo
    exact reads_u32.bind (reads_u32.bind (reads_u32.bind (reads_u16.bind
      (reads_u16.bind_pure fun _ ↦ ReadsTo.pure _))))
  · intro hbit
    simp only [u32Column, u16Column, column_of_clear hbit]
    cases acc
    simp_all

theorem reads_asInfo
    (hacc : acc.srcAs = none ∧ acc.dstAs = none ∧ acc.srcMask = none ∧ acc.dstMask = none) :
    Reads payload (onField fields fieldAsInfo readAsInfo acc)
      (offset fields 17) (offset fields 18)
      { acc with
        srcAs := u32Column fields payload 17 0, dstAs := u32Column fields payload 17 4,
        srcMask := byteColumn fields payload 17 8, dstMask := byteColumn fields payload 17 9 } := by
  apply reads_onField (by decide)
  · intro hbit
    simp only [u32Column, byteColumn, column_of_set hbit]
    generalize offset fields 17 = lo
    exact reads_u32.bind (reads_u32.bind (reads_u8.bind (reads_u8.bind
      (reads_u16.bind_pure fun _ ↦ ReadsTo.pure _))))
  · intro hbit
    simp only [u32Column, byteColumn, column_of_clear hbit]
    cases acc
    simp_all

theorem reads_flowEngineInfo
    (hacc : acc.engineType = none ∧ acc.engineId = none ∧
      acc.flowSequence = none ∧ acc.sourceId = none) :
    Reads payload (onField fields fieldFlowEngineInfo readFlowEngineInfo acc)
      (offset fields 18) (offset fields 19)
      { acc with
        engineType := u16Column fields payload 18 0, engineId := u16Column fields payload 18 2,
        flowSequence := u32Column fields payload 18 4,
        sourceId := u32Column fields payload 18 8 } := by
  apply reads_onField (by decide)
  · intro hbit
    simp only [u32Column, u16Column, column_of_set hbit]
    generalize offset fields 18 = lo
    exact reads_u16.bind (reads_u16.bind (reads_u32.bind
      (reads_u32.bind_pure fun _ ↦ ReadsTo.pure _)))
  · intro hbit
    simp only [u32Column, u16Column, column_of_clear hbit]
    cases acc
    simp_all

end Reads

/-! ## The whole payload -/

theorem payloadWidth_eq (fields : UInt32) : payloadWidth fields = offset fields 31 :=
  offset_add 1 fun j hj ↦ by
    obtain rfl : j = 0 := by omega
    rfl

theorem offset_crc32 (fields : UInt32) : offset fields 30 = offset fields 19 := by
  apply offset_add 11
  decide

theorem reads_crc32 {fields : UInt32} {payload : Bytes} {acc : FlowRecord}
    (hacc : acc.crc32 = none) :
    Reads payload (onField fields fieldCrc32 readCrc32 acc) (offset fields 19)
      (offset fields 31) { acc with crc32 := u32Column fields payload 30 0 } := by
  have hread : Reads payload (onField fields fieldCrc32 readCrc32 acc) (offset fields 30)
      (offset fields 31) { acc with crc32 := u32Column fields payload 30 0 } :=
    reads_readOne (by decide) rfl (fun r o ↦ { r with crc32 := o }) (fun _ ↦ rfl)
      (by cases acc; simp_all)
  rw [offset_crc32] at hread
  exact hread

/-- The decoder reads the record of the mask from a payload of the mask's width
and runs out of any shorter one. -/
theorem reads_decodeFields (fields : UInt32) (payload : Bytes) :
    Reads payload (decodeFields fields) 0 (payloadWidth fields) (recordAt fields payload) := by
  have hzero : 0 = offset fields 0 := rfl
  rw [payloadWidth_eq, decodeFields, hzero]
  apply ReadsTo.bind (reads_readOne (by decide) rfl
    (fun r o ↦ { r with tag := o }) (fun _ ↦ rfl) rfl)
  apply ReadsTo.bind (reads_readTwo (by decide) rfl
    (fun r o₁ o₂ ↦ { r with recvSec := o₁, recvUsec := o₂ }) (fun _ _ ↦ rfl) rfl)
  apply ReadsTo.bind (reads_protoFlagsTos ⟨rfl, rfl, rfl⟩)
  apply ReadsTo.bind (reads_readOne (by decide) rfl
    (fun r o ↦ { r with agentAddr := o }) (fun _ ↦ rfl) rfl)
  apply ReadsTo.bind (reads_readAddr6 (by decide) rfl
    (fun r o ↦ { r with agentAddr := o }) (fun _ ↦ rfl))
  apply ReadsTo.bind (reads_readOne (by decide) rfl
    (fun r o ↦ { r with srcAddr := o }) (fun _ ↦ rfl) rfl)
  apply ReadsTo.bind (reads_readAddr6 (by decide) rfl
    (fun r o ↦ { r with srcAddr := o }) (fun _ ↦ rfl))
  apply ReadsTo.bind (reads_readOne (by decide) rfl
    (fun r o ↦ { r with dstAddr := o }) (fun _ ↦ rfl) rfl)
  apply ReadsTo.bind (reads_readAddr6 (by decide) rfl
    (fun r o ↦ { r with dstAddr := o }) (fun _ ↦ rfl))
  apply ReadsTo.bind (reads_readOne (by decide) rfl
    (fun r o ↦ { r with gatewayAddr := o }) (fun _ ↦ rfl) rfl)
  apply ReadsTo.bind (reads_readAddr6 (by decide) rfl
    (fun r o ↦ { r with gatewayAddr := o }) (fun _ ↦ rfl))
  apply ReadsTo.bind (reads_readTwo (by decide) rfl
    (fun r o₁ o₂ ↦ { r with srcPort := o₁, dstPort := o₂ }) (fun _ _ ↦ rfl) rfl)
  apply ReadsTo.bind (reads_readOne (by decide) rfl
    (fun r o ↦ { r with packets := o }) (fun _ ↦ rfl) rfl)
  apply ReadsTo.bind (reads_readOne (by decide) rfl
    (fun r o ↦ { r with octets := o }) (fun _ ↦ rfl) rfl)
  apply ReadsTo.bind (reads_readTwo (by decide) rfl
    (fun r o₁ o₂ ↦ { r with ifIndexIn := o₁, ifIndexOut := o₂ }) (fun _ _ ↦ rfl) rfl)
  apply ReadsTo.bind (reads_agentInfo ⟨rfl, rfl, rfl, rfl⟩)
  apply ReadsTo.bind (reads_readTwo (by decide) rfl
    (fun r o₁ o₂ ↦ { r with flowStart := o₁, flowFinish := o₂ }) (fun _ _ ↦ rfl) rfl)
  apply ReadsTo.bind (reads_asInfo ⟨rfl, rfl, rfl, rfl⟩)
  apply ReadsTo.bind (reads_flowEngineInfo ⟨rfl, rfl, rfl, rfl⟩)
  exact reads_crc32 rfl

/-- The decoder as one condition on the length. -/
theorem decodePayload_eq (fields : UInt32) (payload : Bytes) :
    decodePayload fields payload =
      if payload.length < payloadWidth fields then .error .truncatedRecord
      else if payloadWidth fields < payload.length then
        .error (.payloadMismatch payload.length (payloadWidth fields) fields)
      else .ok (recordAt fields payload) := by
  have hrun := (reads_decodeFields fields payload).2 (Nat.zero_le _)
  rw [decodePayload, Cursor.new, hrun]
  by_cases hfit : payloadWidth fields ≤ payload.length
  · have hshort : ¬ payload.length < payloadWidth fields := by omega
    rw [if_pos hfit, if_neg hshort]
    by_cases hlong : payloadWidth fields < payload.length
    · have hleft : Cursor.remaining ⟨payload, payloadWidth fields⟩ ≠ 0 :=
        Nat.sub_ne_zero_of_lt hlong
      simp [hleft, hlong]
    · have hleft : Cursor.remaining ⟨payload, payloadWidth fields⟩ = 0 :=
        Nat.sub_eq_zero_of_le (not_lt.mp hlong)
      simp [hleft, hlong]
  · rw [if_neg hfit, if_pos (by omega)]

theorem decodePayload_exact (fields : UInt32) (payload : Bytes) :
    ((∃ r, decodePayload fields payload = .ok r) ↔ payload.length = payloadWidth fields) ∧
    (decodePayload fields payload = .error .truncatedRecord ↔
      payload.length < payloadWidth fields) ∧
    (decodePayload fields payload =
        .error (.payloadMismatch payload.length (payloadWidth fields) fields) ↔
      payloadWidth fields < payload.length) ∧
    (∀ r, decodePayload fields payload = .ok r → r = recordAt fields payload) ∧
    (∀ n c c' bs, 0 < n → (Cursor.take n).run c = .ok (bs, c') →
      c.pos + n ≤ c.buf.length ∧ bs.length = n) := by
  rw [decodePayload_eq]
  rcases lt_trichotomy payload.length (payloadWidth fields) with hlt | heq | hgt
  · rw [if_pos hlt]
    exact ⟨by simp [hlt.ne], by simp [hlt], by simp [hlt.le], by simp, fun _ _ _ _ ↦ bounds_of_take⟩
  · rw [if_neg heq.not_lt, if_neg heq.not_gt]
    exact ⟨by simp [heq], by simp [heq], by simp [heq], by simp, fun _ _ _ _ ↦ bounds_of_take⟩
  · rw [if_neg hgt.not_gt, if_pos hgt]
    exact ⟨by simp [hgt.ne'], by simp [hgt.le], by simp [hgt], by simp,
      fun _ _ _ _ ↦ bounds_of_take⟩

/-- Both family bits of the agent address, and a bit without a group. -/
theorem decodePayload_exact_bothFamilies :
    ∃ r, decodePayload (fieldAgentAddr4 ||| fieldAgentAddr6 ||| fieldBit 25)
        (List.replicate 20 0x11) = .ok r ∧
      r.agentAddr = some (.v6 (Ipv6Addr.ofOctets (List.replicate 16 0x11))) := by
  obtain ⟨hok, -, -, hrecord, -⟩ := decodePayload_exact
    (fieldAgentAddr4 ||| fieldAgentAddr6 ||| fieldBit 25) (List.replicate 20 0x11)
  obtain ⟨r, hr⟩ := hok.mpr (by decide)
  refine ⟨r, hr, ?_⟩
  rw [hrecord r hr]
  decide

end TrafficMap.FlowdParse
