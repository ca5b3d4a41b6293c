import Mathlib.Data.Nat.Bitwise
import TrafficMap.FlowdParse.Format

/-!
# The flowd store-v1 writer

The writer that the format's documentation describes: a version byte, the
payload length in words, two reserved bytes, the mask of the groups that are
present, and these groups in bit order with every integer big-endian.  Reserved
bytes and pads are arbitrary.  `decodeFields` undoes the payload of every
record whose groups are wholly present or wholly absent.
-/

namespace TrafficMap.FlowdParse

open Wire

/-! ## Groups of a record -/

structure Padding where
  protoFlagsTos : UInt8
  agentInfo : UInt16
  asInfo : UInt16
deriving DecidableEq, Repr

/-- Every group of the record is wholly present or wholly absent. -/
structure Grouped (r : FlowRecord) : Prop where
  recvTime : r.recvUsec.isSome = r.recvSec.isSome
  protocol : r.protocol.isSome = r.tcpFlags.isSome
  tos : r.tos.isSome = r.tcpFlags.isSome
  dstPort : r.dstPort.isSome = r.srcPort.isSome
  ifIndexOut : r.ifIndexOut.isSome = r.ifIndexIn.isSome
  agentTimeSec : r.agentTimeSec.isSome = r.sysUptimeMs.isSome
  agentTimeNanosec : r.agentTimeNanosec.isSome = r.sysUptimeMs.isSome
  netflowVersion : r.netflowVersion.isSome = r.sysUptimeMs.isSome
  flowFinish : r.flowFinish.isSome = r.flowStart.isSome
  dstAs : r.dstAs.isSome = r.srcAs.isSome
  srcMask : r.srcMask.isSome = r.srcAs.isSome
  dstMask : r.dstMask.isSome = r.srcAs.isSome
  engineId : r.engineId.isSome = r.engineType.isSome
  flowSequence : r.flowSequence.isSome = r.engineType.isSome
  sourceId : r.sourceId.isSome = r.engineType.isSome

def group₁ {α : Type} (enc : α → Bytes) (a : Option α) : Option Bytes := a.map enc

def group₂ {α : Type} (enc : α → Bytes) (a b : Option α) : Option Bytes := do
  return enc (← a) ++ enc (← b)

def v4Group : Option IpAddr → Option Bytes
  | some (.v4 a) => some a.octets
  | _ => none

def v6Group : Option IpAddr → Option Bytes
  | some (.v6 a) => some a.octets
  | _ => none

def protoFlagsTosGroup (p : Padding) (r : FlowRecord) : Option Bytes := do
  return [← r.tcpFlags, ← r.protocol, ← r.tos, p.protoFlagsTos]

def agentInfoGroup (p : Padding) (r : FlowRecord) : Option Bytes := do
  return u32ToBe (← r.sysUptimeMs) ++ (u32ToBe (← r.agentTimeSec) ++
    (u32ToBe (← r.agentTimeNanosec) ++ (u16ToBe (← r.netflowVersion) ++ u16ToBe p.agentInfo)))

def asInfoGroup (p : Padding) (r : FlowRecord) : Option Bytes := do
  return u32ToBe (← r.srcAs) ++ (u32ToBe (← r.dstAs) ++
    ([← r.srcMask] ++ ([← r.dstMask] ++ u16ToBe p.asInfo)))

def flowEngineInfoGroup (r : FlowRecord) : Option Bytes := do
  return u16ToBe (← r.engineType) ++ (u16ToBe (← r.engineId) ++
    (u32ToBe (← r.flowSequence) ++ u32ToBe (← r.sourceId)))

/-- The optional groups of a record with their mask bits, in bit order. -/
def groups (p : Padding) (r : FlowRecord) : List (ℕ × Option Bytes) :=
  [(0, group₁ u32ToBe r.tag),
   (1, group₂ u32ToBe r.recvSec r.recvUsec),
   (2, protoFlagsTosGroup p r),
   (3, v4Group r.agentAddr), (4, v6Group r.agentAddr),
   (5, v4Group r.srcAddr), (6, v6Group r.srcAddr),
   (7, v4Group r.dstAddr), (8, v6Group r.dstAddr),
   (9, v4Group r.gatewayAddr), (10, v6Group r.gatewayAddr),
   (11, group₂ u16ToBe r.srcPort r.dstPort),
   (12, group₁ u64ToBe r.packets),
   (13, group₁ u64ToBe r.octets),
   (14, group₂ u32ToBe r.ifIndexIn r.ifIndexOut),
   (15, agentInfoGroup p r),
   (16, group₂ u32ToBe r.flowStart r.flowFinish),
   (17, asInfoGroup p r),
   (18, flowEngineInfoGroup r),
   (30, group₁ u32ToBe r.crc32)]

def maskBits (gs : List (ℕ × Option Bytes)) : ℕ :=
  gs.foldr (fun g m ↦ (if g.2.isSome then 2 ^ g.1 else 0) ||| m) 0

def fieldsOf (p : Padding) (r : FlowRecord) : UInt32 :=
  UInt32.ofNat (maskBits (groups p r))

def payloadOf (p : Padding) (r : FlowRecord) : Bytes :=
  (groups p r).flatMap fun g ↦ g.2.getD []

/-! ## The mask -/

theorem testBit_maskBits (gs : List (ℕ × Option Bytes)) (k : ℕ) :
    (maskBits gs).testBit k = gs.any fun g ↦ decide (g.1 = k) && g.2.isSome := by
  induction gs with
  | nil => simp [maskBits]
  | cons g gs ih =>
      have hcons : maskBits (g :: gs) =
          (if g.2.isSome then 2 ^ g.1 else 0) ||| maskBits gs := rfl
      rw [hcons, Nat.testBit_or, ih, List.any_cons]
      cases g.2.isSome <;> simp [Nat.testBit_two_pow]

theorem and_fieldBit_ne_zero (fields : UInt32) {k : ℕ} (hk : k < 32) :
    (fields &&& fieldBit k != 0) = fields.toNat.testBit k := by
  have hpow : 2 ^ k < 2 ^ 32 := Nat.pow_lt_pow_right (by decide) hk
  have hbit : (fieldBit k).toNat = 2 ^ k := by
    simpa [fieldBit] using Nat.mod_eq_of_lt hpow
  have hand : (fields &&& fieldBit k).toNat =
      (fields.toNat.testBit k).toNat * 2 ^ k := by
    rw [UInt32.toNat_and, hbit, Nat.and_two_pow]
  cases hb : fields.toNat.testBit k with
  | true =>
      have hne : fields &&& fieldBit k ≠ 0 := by
        intro h
        have hzero := congrArg UInt32.toNat h
        rw [hand, hb] at hzero
        simp at hzero
      simpa using hne
  | false =>
      have hzero : fields &&& fieldBit k = 0 := by
        apply UInt32.toNat_inj.mp
        rw [hand, hb]
        simp
      simp [hzero]

/-- The mask written for a record has the bit of a group set exactly when the
group is written. -/
theorem fieldsOf_and_fieldBit {p : Padding} {r : FlowRecord} {k : ℕ} {o : Option Bytes}
    (hmem : (k, o) ∈ groups p r) : (fieldsOf p r &&& fieldBit k != 0) = o.isSome := by
  have hkeys : (groups p r).map Prod.fst = List.range 19 ++ [30] := rfl
  have hnodup : ((groups p r).map Prod.fst).Nodup := by
    rw [hkeys]
    decide
  have hlt : k < 32 := by
    have hkey := List.mem_map_of_mem (f := Prod.fst) hmem
    rw [hkeys, List.mem_append, List.mem_range, List.mem_singleton] at hkey
    omega
  rw [and_fieldBit_ne_zero _ hlt, fieldsOf, UInt32.toNat_ofNat', Nat.testBit_mod_two_pow,
    testBit_maskBits, decide_eq_true hlt, Bool.true_and, Bool.eq_iff_iff, List.any_eq_true]
  constructor
  · rintro ⟨g, hg, hsome⟩
    rw [Bool.and_eq_true, decide_eq_true_iff] at hsome
    have hsame : g = (k, o) := List.inj_on_of_nodup_map hnodup hg hmem hsome.1
    rw [hsame] at hsome
    exact hsome.2
  · intro hsome
    exact ⟨(k, o), hmem, by simpa using hsome⟩

/-! ## What each reader consumes -/

theorem consumes_take (bs : Bytes) : Consumes (Cursor.take bs.length) bs bs := by
  intro pre suf
  have hfits : ¬ Cursor.remaining (Cursor.between pre (bs ++ suf)) < bs.length := by
    simp [Cursor.remaining, Cursor.between]
  rw [StateT.run, Cursor.take, if_neg hfits]
  simp [Cursor.between, pure, Except.pure]

theorem consumes_word {α : Type} {n : ℕ} {bs : Bytes} (decode : Bytes → α)
    (hlen : bs.length = n) :
    Consumes (do let b ← Cursor.take n; return decode b) bs (decode bs) := by
  subst hlen
  exact (consumes_take bs).bind_pure (Consumes.pure _)

theorem consumes_u8 (b : UInt8) : Consumes Cursor.u8 [b] b :=
  consumes_word (fun b ↦ b.headD 0) rfl

theorem consumes_u16 (n : UInt16) : Consumes Cursor.u16 (u16ToBe n) n := by
  simpa [Cursor.u16] using consumes_word u16FromBe (length_u16ToBe n)

theorem consumes_u32 (n : UInt32) : Consumes Cursor.u32 (u32ToBe n) n := by
  simpa [Cursor.u32] using consumes_word u32FromBe (length_u32ToBe n)

theorem consumes_u64 (n : UInt64) : Consumes Cursor.u64 (u64ToBe n) n := by
  simpa [Cursor.u64] using consumes_word u64FromBe (length_u64ToBe n)

theorem consumes_v4 (a : Ipv4Addr) : Consumes Cursor.v4 a.octets (.v4 a) := by
  simpa [Cursor.v4] using
    consumes_word (fun b ↦ IpAddr.v4 (Ipv4Addr.ofOctets b)) a.length_octets

theorem consumes_v6 (a : Ipv6Addr) : Consumes Cursor.v6 a.octets (.v6 a) := by
  simpa [Cursor.v6] using
    consumes_word (fun b ↦ IpAddr.v6 (Ipv6Addr.ofOctets b)) a.length_octets

theorem consumes_onField {fields bit : UInt32} {g : Option Bytes}
    {read : FlowRecord → Decode FlowRecord} {acc out : FlowRecord}
    (hbit : (fields &&& bit != 0) = g.isSome)
    (hsome : ∀ bs, g = some bs → Consumes (read acc) bs out)
    (hnone : g = none → out = acc) :
    Consumes (onField fields bit read acc) (g.getD []) out := by
  cases hg : g with
  | none =>
      rw [onField, hbit, hg, hnone hg]
      exact Consumes.pure acc
  | some bs =>
      rw [onField, hbit, hg]
      exact hsome bs hg

section Groups

variable {α : Type} {fields bit : UInt32} {acc out : FlowRecord}

theorem eq_none_of_isSome_eq {β γ : Type} {o : Option β} {o' : Option γ}
    (h : o.isSome = o'.isSome) (hnone : o' = none) : o = none := by
  rw [hnone] at h
  simpa using h

theorem exists_of_isSome_eq {β γ : Type} {o : Option β} {o' : Option γ} {c : γ}
    (h : o.isSome = o'.isSome) (hsome : o' = some c) : ∃ b, o = some b := by
  rw [hsome] at h
  exact Option.isSome_iff_exists.mp h

/-- A group is there exactly if its first column is. -/
theorem consumes_onFirst {g : Option Bytes} {read : FlowRecord → Decode FlowRecord}
    (first : Option α) (hbit : (fields &&& bit != 0) = g.isSome)
    (hnone : first = none → g = none ∧ out = acc)
    (hsome : ∀ a, first = some a → ∃ bs, g = some bs ∧ Consumes (read acc) bs out) :
    Consumes (onField fields bit read acc) (g.getD []) out := by
  cases hfirst : first with
  | none =>
      obtain ⟨hg, hout⟩ := hnone hfirst
      refine consumes_onField hbit (fun bs hbs ↦ ?_) fun _ ↦ hout
      cases hg.symm.trans hbs
  | some a =>
      obtain ⟨bs, hg, hread⟩ := hsome a hfirst
      refine consumes_onField hbit (fun bs' hbs ↦ ?_) (fun h ↦ ?_)
      · obtain rfl := Option.some.inj (hg.symm.trans hbs)
        exact hread
      · cases hg.symm.trans h

theorem consumes_readOne {read : Decode α} {enc : α → Bytes}
    (hread : ∀ a, Consumes read (enc a) a) {set : FlowRecord → α → FlowRecord}
    (put : FlowRecord → Option α → FlowRecord) {o : Option α}
    (hbit : (fields &&& bit != 0) = (group₁ enc o).isSome)
    (hset : ∀ a, set acc a = put acc (some a)) (hput : put acc none = acc) :
    Consumes (onField fields bit (readOne read set) acc)
      ((group₁ enc o).getD []) (put acc o) := by
  refine consumes_onFirst o hbit (fun ho ↦ ?_) fun a ho ↦ ?_
  · rw [ho]
    exact ⟨rfl, hput⟩
  · rw [ho]
    refine ⟨enc a, rfl, ?_⟩
    rw [← hset a]
    exact (hread a).bind_pure (Consumes.pure _)

theorem consumes_readTwo {read : Decode α} {enc : α → Bytes}
    (hread : ∀ a, Consumes read (enc a) a) {set : FlowRecord → α → α → FlowRecord}
    (put : FlowRecord → Option α → Option α → FlowRecord) {o₁ o₂ : Option α}
    (hboth : o₂.isSome = o₁.isSome)
    (hbit : (fields &&& bit != 0) = (group₂ enc o₁ o₂).isSome)
    (hset : ∀ a b, set acc a b = put acc (some a) (some b)) (hput : put acc none none = acc) :
    Consumes (onField fields bit (readTwo read read set) acc)
      ((group₂ enc o₁ o₂).getD []) (put acc o₁ o₂) := by
  refine consumes_onFirst o₁ hbit (fun ho₁ ↦ ?_) fun a ho₁ ↦ ?_
  · have ho₂ := eq_none_of_isSome_eq hboth ho₁
    rw [ho₁, ho₂]
    exact ⟨rfl, hput⟩
  · obtain ⟨b, ho₂⟩ := exists_of_isSome_eq hboth ho₁
    rw [ho₁, ho₂]
    refine ⟨enc a ++ enc b, rfl, ?_⟩
    rw [← hset a b]
    exact (hread a).bind ((hread b).bind_pure (Consumes.pure _))

def v4Part : Option IpAddr → Option IpAddr
  | some (.v4 a) => some (.v4 a)
  | _ => none

theorem consumes_readAddr4 {set : FlowRecord → IpAddr → FlowRecord}
    (put : FlowRecord → Option IpAddr → FlowRecord) {o : Option IpAddr}
    (hbit : (fields &&& bit != 0) = (v4Group o).isSome)
    (hset : ∀ a, set acc a = put acc (some a)) (hput : put acc none = acc) :
    Consumes (onField fields bit (readOne Cursor.v4 set) acc)
      ((v4Group o).getD []) (put acc (v4Part o)) := by
  refine consumes_onField hbit ?_ ?_
  · intro bs hbs
    match o, hbs with
    | some (.v4 a), hbs =>
        obtain rfl : a.octets = bs := by simpa [v4Group] using hbs
        rw [v4Part, ← hset]
        exact (consumes_v4 a).bind_pure (Consumes.pure _)
    | some (.v6 a), hbs => simp [v4Group] at hbs
  · intro h
    match o, h with
    | none, _ => exact hput
    | some (.v6 a), _ => exact hput

theorem consumes_readAddr6 {set : FlowRecord → IpAddr → FlowRecord}
    (put : FlowRecord → Option IpAddr → FlowRecord) {o : Option IpAddr}
    (hbit : (fields &&& bit != 0) = (v6Group o).isSome)
    (hset : ∀ a, set (put acc (v4Part o)) a = put acc (some a)) :
    Consumes (onField fields bit (readOne Cursor.v6 set) (put acc (v4Part o)))
      ((v6Group o).getD []) (put acc o) := by
  refine consumes_onField hbit ?_ ?_
  · intro bs hbs
    match o, hbs with
    | some (.v4 a), hbs => simp [v6Group] at hbs
    | some (.v6 a), hbs =>
        obtain rfl : a.octets = bs := by simpa [v6Group] using hbs
        rw [← hset]
        exact (consumes_v6 a).bind_pure (Consumes.pure _)
  · intro h
    match o, h with
    | none, _ => rfl
    | some (.v4 a), _ => rfl

theorem consumes_protoFlagsTos {p : Padding} {r : FlowRecord} (hr : Grouped r)
    (hbit : (fields &&& bit != 0) = (protoFlagsTosGroup p r).isSome)
    (hacc : acc.tcpFlags = none ∧ acc.protocol = none ∧ acc.tos = none) :
    Consumes (onField fields bit readProtoFlagsTos acc) ((protoFlagsTosGroup p r).getD [])
      { acc with tcpFlags := r.tcpFlags, protocol := r.protocol, tos := r.tos } := by
  refine consumes_onFirst r.tcpFlags hbit (fun hflags ↦ ?_) fun flags hflags ↦ ?_
  · have hp := eq_none_of_isSome_eq hr.protocol hflags
    have ht := eq_none_of_isSome_eq hr.tos hflags
    cases acc
    simp_all [protoFlagsTosGroup]
  · obtain ⟨proto, hp⟩ := exists_of_isSome_eq hr.protocol hflags
    obtain ⟨tos, ht⟩ := exists_of_isSome_eq hr.tos hflags
    refine ⟨[flags] ++ ([proto] ++ ([tos] ++ [p.protoFlagsTos])), ?_, ?_⟩
    · simp [protoFlagsTosGroup, hflags, hp, ht]
    · rw [hflags, hp, ht]
      exact (consumes_u8 flags).bind ((consumes_u8 proto).bind ((consumes_u8 tos).bind
        ((consumes_u8 _).bind_pure (Consumes.pure _))))

theorem consumes_agentInfo {p : Padding} {r : FlowRecord} (hr : Grouped r)
    (hbit : (fields &&& bit != 0) = (agentInfoGroup p r).isSome)
    (hacc : acc.sysUptimeMs = none ∧ acc.agentTimeSec = none ∧
      acc.agentTimeNanosec = none ∧ acc.netflowVersion = none) :
    Consumes (onField fields bit readAgentInfo acc) ((agentInfoGroup p r).getD [])
      { acc with
        sysUptimeMs := r.sysUptimeMs, agentTimeSec := r.agentTimeSec,
        agentTimeNanosec := r.agentTimeNanosec, netflowVersion := r.netflowVersion } := by
  refine consumes_onFirst r.sysUptimeMs hbit (fun hup ↦ ?_) fun uptime hup ↦ ?_
  · have hs := eq_none_of_isSome_eq hr.agentTimeSec hup
    have hn := eq_none_of_isSome_eq hr.agentTimeNanosec hup
    have hv := eq_none_of_isSome_eq hr.netflowVersion hup
    cases acc
    simp_all [agentInfoGroup]
  · obtain ⟨sec, hs⟩ := exists_of_isSome_eq hr.agentTimeSec hup
    obtain ⟨nano, hn⟩ := exists_of_isSome_eq hr.agentTimeNanosec hup
    obtain ⟨version, hv⟩ := exists_of_isSome_eq hr.netflowVersion hup
    refine ⟨u32ToBe uptime ++ (u32ToBe sec ++ (u32ToBe nano ++
      (u16ToBe version ++ u16ToBe p.agentInfo))), ?_, ?_⟩
    · simp [agentInfoGroup, hup, hs, hn, hv]
    · rw [hup, hs, hn, hv]
      exact (consumes_u32 uptime).bind ((consumes_u32 sec).bind ((consumes_u32 nano).bind
        ((consumes_u16 version).bind ((consumes_u16 _).bind_pure (Consumes.pure _)))))

theorem consumes_asInfo {p : Padding} {r : FlowRecord} (hr : Grouped r)
    (hbit : (fields &&& bit != 0) = (asInfoGroup p r).isSome)
    (hacc : acc.srcAs = none ∧ acc.dstAs = none ∧ acc.srcMask = none ∧ acc.dstMask = none) :
    Consumes (onField fields bit readAsInfo acc) ((asInfoGroup p r).getD [])
      { acc with
        srcAs := r.srcAs, dstAs := r.dstAs, srcMask := r.srcMask, dstMask := r.dstMask } := by
  refine consumes_onFirst r.srcAs hbit (fun hsrc ↦ ?_) fun src hsrc ↦ ?_
  · have hd := eq_none_of_isSome_eq hr.dstAs hsrc
    have hs := eq_none_of_isSome_eq hr.srcMask hsrc
    have hm := eq_none_of_isSome_eq hr.dstMask hsrc
    cases acc
    simp_all [asInfoGroup]
  · obtain ⟨dst, hd⟩ := exists_of_isSome_eq hr.dstAs hsrc
    obtain ⟨srcMask, hs⟩ := exists_of_isSome_eq hr.srcMask hsrc
    obtain ⟨dstMask, hm⟩ := exists_of_isSome_eq hr.dstMask hsrc
    refine ⟨u32ToBe src ++ (u32ToBe dst ++ ([srcMask] ++ ([dstMask] ++ u16ToBe p.asInfo))), ?_, ?_⟩
    · simp [asInfoGroup, hsrc, hd, hs, hm]
    · rw [hsrc, hd, hs, hm]
      exact (consumes_u32 src).bind ((consumes_u32 dst).bind ((consumes_u8 srcMask).bind
        ((consumes_u8 dstMask).bind ((consumes_u16 _).bind_pure (Consumes.pure _)))))

theorem consumes_flowEngineInfo {r : FlowRecord} (hr : Grouped r)
    (hbit : (fields &&& bit != 0) = (flowEngineInfoGroup r).isSome)
    (hacc : acc.engineType = none ∧ acc.engineId = none ∧
      acc.flowSequence = none ∧ acc.sourceId = none) :
    Consumes (onField fields bit readFlowEngineInfo acc) ((flowEngineInfoGroup r).getD [])
      { acc with
        engineType := r.engineType, engineId := r.engineId,
        flowSequence := r.flowSequence, sourceId := r.sourceId } := by
  refine consumes_onFirst r.engineType hbit (fun htype ↦ ?_) fun engineType htype ↦ ?_
  · have hi := eq_none_of_isSome_eq hr.engineId htype
    have hq := eq_none_of_isSome_eq hr.flowSequence htype
    have hs := eq_none_of_isSome_eq hr.sourceId htype
    cases acc
    simp_all [flowEngineInfoGroup]
  · obtain ⟨engineId, hi⟩ := exists_of_isSome_eq hr.engineId htype
    obtain ⟨sequence, hq⟩ := exists_of_isSome_eq hr.flowSequence htype
    obtain ⟨sourceId, hs⟩ := exists_of_isSome_eq hr.sourceId htype
    refine ⟨u16ToBe engineType ++ (u16ToBe engineId ++ (u32ToBe sequence ++
      u32ToBe sourceId)), ?_, ?_⟩
    · simp [flowEngineInfoGroup, htype, hi, hq, hs]
    · rw [htype, hi, hq, hs]
      exact (consumes_u16 engineType).bind ((consumes_u16 engineId).bind
        ((consumes_u32 sequence).bind ((consumes_u32 sourceId).bind_pure (Consumes.pure _))))

end Groups

/-! ## The whole payload -/

/-- The decoder steps over the payload of a record and returns the record. -/
theorem consumes_decodeFields (p : Padding) {r : FlowRecord} (hr : Grouped r) :
    Consumes (decodeFields (fieldsOf p r)) (payloadOf p r) r := by
  simp only [decodeFields, payloadOf, groups, List.flatMap_cons, List.flatMap_nil,
    List.append_nil]
  refine Consumes.bind (consumes_readOne consumes_u32
    (fun r o ↦ { r with tag := o })
    (fieldsOf_and_fieldBit (by simp [groups])) (fun _ ↦ rfl) rfl) ?_
  refine Consumes.bind (consumes_readTwo consumes_u32
    (fun r o₁ o₂ ↦ { r with recvSec := o₁, recvUsec := o₂ }) hr.recvTime
    (fieldsOf_and_fieldBit (by simp [groups])) (fun _ _ ↦ rfl) rfl) ?_
  refine Consumes.bind (consumes_protoFlagsTos hr
    (fieldsOf_and_fieldBit (by simp [groups])) ⟨rfl, rfl, rfl⟩) ?_
  refine Consumes.bind (consumes_readAddr4
    (fun r o ↦ { r with agentAddr := o })
    (fieldsOf_and_fieldBit (by simp [groups])) (fun _ ↦ rfl) rfl) ?_
  refine Consumes.bind (consumes_readAddr6
    (fun r o ↦ { r with agentAddr := o })
    (fieldsOf_and_fieldBit (by simp [groups])) (fun _ ↦ rfl)) ?_
  refine Consumes.bind (consumes_readAddr4
    (fun r o ↦ { r with srcAddr := o })
    (fieldsOf_and_fieldBit (by simp [groups])) (fun _ ↦ rfl) rfl) ?_
  refine Consumes.bind (consumes_readAddr6
    (fun r o ↦ { r with srcAddr := o })
    (fieldsOf_and_fieldBit (by simp [groups])) (fun _ ↦ rfl)) ?_
  refine Consumes.bind (consumes_readAddr4
    (fun r o ↦ { r with dstAddr := o })
    (fieldsOf_and_fieldBit (by simp [groups])) (fun _ ↦ rfl) rfl) ?_
  refine Consumes.bind (consumes_readAddr6
    (fun r o ↦ { r with dstAddr := o })
    (fieldsOf_and_fieldBit (by simp [groups])) (fun _ ↦ rfl)) ?_
  refine Consumes.bind (consumes_readAddr4
    (fun r o ↦ { r with gatewayAddr := o })
    (fieldsOf_and_fieldBit (by simp [groups])) (fun _ ↦ rfl) rfl) ?_
  refine Consumes.bind (consumes_readAddr6
    (fun r o ↦ { r with gatewayAddr := o })
    (fieldsOf_and_fieldBit (by simp [groups])) (fun _ ↦ rfl)) ?_
  refine Consumes.bind (consumes_readTwo consumes_u16
    (fun r o₁ o₂ ↦ { r with srcPort := o₁, dstPort := o₂ }) hr.dstPort
    (fieldsOf_and_fieldBit (by simp [groups])) (fun _ _ ↦ rfl) rfl) ?_
  refine Consumes.bind (consumes_readOne consumes_u64
    (fun r o ↦ { r with packets := o })
    (fieldsOf_and_fieldBit (by simp [groups])) (fun _ ↦ rfl) rfl) ?_
  refine Consumes.bind (consumes_readOne consumes_u64
    (fun r o ↦ { r with octets := o })
    (fieldsOf_and_fieldBit (by simp [groups])) (fun _ ↦ rfl) rfl) ?_
  refine Consumes.bind (consumes_readTwo consumes_u32
    (fun r o₁ o₂ ↦ { r with ifIndexIn := o₁, ifIndexOut := o₂ }) hr.ifIndexOut
    (fieldsOf_and_fieldBit (by simp [groups])) (fun _ _ ↦ rfl) rfl) ?_
  refine Consumes.bind (consumes_agentInfo hr
    (fieldsOf_and_fieldBit (by simp [groups])) ⟨rfl, rfl, rfl, rfl⟩) ?_
  refine Consumes.bind (consumes_readTwo consumes_u32
    (fun r o₁ o₂ ↦ { r with flowStart := o₁, flowFinish := o₂ }) hr.flowFinish
    (fieldsOf_and_fieldBit (by simp [groups])) (fun _ _ ↦ rfl) rfl) ?_
  refine Consumes.bind (consumes_asInfo hr
    (fieldsOf_and_fieldBit (by simp [groups])) ⟨rfl, rfl, rfl, rfl⟩) ?_
  refine Consumes.bind (consumes_flowEngineInfo hr
    (fieldsOf_and_fieldBit (by simp [groups])) ⟨rfl, rfl, rfl, rfl⟩) ?_
  exact consumes_readOne consumes_u32
    (fun r o ↦ { r with crc32 := o })
    (fieldsOf_and_fieldBit (by simp [groups])) (fun _ ↦ rfl) rfl

end TrafficMap.FlowdParse
