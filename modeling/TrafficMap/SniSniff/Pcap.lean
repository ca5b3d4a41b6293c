import TrafficMap.FlowdParse.Stream
import TrafficMap.SniSniff.ClientHello
import Mathlib.Tactic.Linarith
import Mathlib.Tactic.NormNum

/-!
# The capture on standard input

The loop of `main` in `crates/sni-sniff`: the global header of a pcap stream
tells the byte order, and then every record is a header of 16 bytes and a packet
read into a buffer that only grows.  A time is the seconds plus a millionth of
the fraction, whichever of the four magic numbers the stream starts with.
-/

namespace TrafficMap.SniSniff

open Wire Checked FlowdParse

/-- Four bytes in the order of the stream. -/
def readU32 (b : Bytes) (le : Bool) : UInt32 :=
  u32FromBe (if le then (b.take 4).reverse else b.take 4)

/-! ## The reader -/

/-- How `main` ends. -/
inductive Exit where
  | streamEnded
  | globalHeader (e : ErrorKind)
  | badMagic
  | recordHeader (e : ErrorKind)
  | packetBody (e : ErrorKind)
  | panicked (p : Panic)
deriving DecidableEq, Repr

structure Capture where
  ts : ℚ
  data : Bytes
  /-- The connection and the name in its ClientHello, if the packet has them. -/
  hello : Option (Conn × Bytes)

/-- Little-endian or not, from the first four bytes. -/
def byteOrder (magic : Bytes) : Option Bool :=
  if magic = [0xd4, 0xc3, 0xb2, 0xa1] ∨ magic = [0x4d, 0x3c, 0xb2, 0xa1] then some true
  else if magic = [0xa1, 0xb2, 0xc3, 0xd4] ∨ magic = [0xa1, 0xb2, 0x3c, 0x4d] then some false
  else none

def parseHello (linktype : UInt32) (data : Bytes) : Checked (Conn × Bytes) := do
  let conn ← parsePacket linktype data
  let sni ← parseClientHelloSni conn.tcpPayload
  return (conn, sni)

/-- `pkt.resize(incl, 0)` where `pkt` is too short. -/
def grow (pkt : Bytes) (incl : ℕ) : Bytes :=
  if pkt.length < incl then pkt ++ List.replicate (incl - pkt.length) 0 else pkt

inductive Turn where
  | stop (e : Exit)
  | packet (ts : ℚ) (r : Reader) (pkt : Bytes) (incl : ℕ)

/-- One record: its time, what is left of the stream and the buffer it is in. -/
def nextPacket (le : Bool) (r : Reader) (pkt : Bytes) : Turn :=
  match r.readExact 16 with
  | (.error .unexpectedEof, _) => .stop .streamEnded
  | (.error e, _) => .stop (.recordHeader e)
  | (.ok hdr, r) =>
      let incl := (readU32 (hdr.drop 8) le).toNat
      let pkt := grow pkt incl
      match r.readExact incl with
      | (.error e, _) => .stop (.packetBody e)
      | (.ok body, r) =>
          let ts : ℚ := (readU32 hdr le).toNat + (readU32 (hdr.drop 4) le).toNat / 10 ^ 6
          .packet ts r (body ++ pkt.drop incl) incl

theorem length_readExact {n : ℕ} {r r' : Reader} {bs : Bytes} (h : r.readExact n = (.ok bs, r')) :
    r'.data.length + n = r.data.length := by
  rw [Reader.readExact] at h
  split at h
  · obtain ⟨-, rfl⟩ := Prod.mk.inj h
    rw [List.length_drop]
    omega
  · cases h

theorem length_lt_of_nextPacket {le : Bool} {r r' : Reader} {pkt pkt' : Bytes} {ts : ℚ} {incl : ℕ}
    (h : nextPacket le r pkt = .packet ts r' pkt' incl) : r'.data.length < r.data.length := by
  rw [nextPacket] at h
  split at h
  · cases h
  · cases h
  · rename_i hdr r₁ hhdr
    dsimp only at h
    split at h
    · cases h
    · rename_i body r₂ hbody
      obtain ⟨-, rfl, -, -⟩ := Turn.packet.inj h
      have := length_readExact hhdr
      have := length_readExact hbody
      omega

/-- The packets that the loop gets to, and how it ends. -/
def packetLoop (le : Bool) (linktype : UInt32) (r : Reader) (pkt : Bytes) : List Capture × Exit :=
  match _h : nextPacket le r pkt with
  | .stop e => ([], e)
  | .packet ts r' pkt' incl =>
      let data := pkt'.take incl
      match (parseHello linktype data).run with
      | .error p => ([⟨ts, data, none⟩], .panicked p)
      | .ok hello =>
          let (captures, e) := packetLoop le linktype r' pkt'
          (⟨ts, data, hello⟩ :: captures, e)
termination_by r.data.length
decreasing_by exact length_lt_of_nextPacket _h

def readCapture (r : Reader) : List Capture × Exit :=
  match r.readExact 24 with
  | (.error e, _) => ([], .globalHeader e)
  | (.ok gh, r) =>
      match byteOrder (gh.take 4) with
      | none => ([], .badMagic)
      | some le => packetLoop le (readU32 (gh.drop 20) le) r (List.replicate 65536 0)

/-! ## The format -/

inductive Resolution where
  | micro
  | nano
deriving DecidableEq

def Resolution.perSecond : Resolution → ℕ
  | .micro => 10 ^ 6
  | .nano => 10 ^ 9

structure Encoding where
  le : Bool
  resolution : Resolution

namespace Encoding

def u32 (enc : Encoding) (n : UInt32) : Bytes :=
  if enc.le then (u32ToBe n).reverse else u32ToBe n

def magic (enc : Encoding) : Bytes :=
  match enc.resolution with
  | .micro => enc.u32 0xa1b2c3d4
  | .nano => enc.u32 0xa1b23c4d

@[simp] theorem length_u32 (enc : Encoding) (n : UInt32) : (enc.u32 n).length = 4 := by
  rw [u32]
  split <;> simp

@[simp] theorem readU32_u32 (enc : Encoding) (n : UInt32) (suf : Bytes) :
    readU32 (enc.u32 n ++ suf) enc.le = n := by
  have htake : (enc.u32 n ++ suf).take 4 = enc.u32 n := List.take_left' (enc.length_u32 n)
  rw [readU32, htake, u32]
  cases enc.le <;> simp

@[simp] theorem byteOrder_magic (enc : Encoding) : byteOrder enc.magic = some enc.le := by
  obtain ⟨le, resolution⟩ := enc
  cases le <;> cases resolution <;> decide

@[simp] theorem length_magic (enc : Encoding) : enc.magic.length = 4 := by
  rw [magic]
  split <;> simp

end Encoding

structure GlobalHeader where
  linktype : UInt32
  /-- Version, time zone, accuracy and snap length. -/
  middle : Bytes
  length_middle : middle.length = 16

def GlobalHeader.bytes (gh : GlobalHeader) (enc : Encoding) : Bytes :=
  enc.magic ++ gh.middle ++ enc.u32 gh.linktype

structure Packet where
  sec : UInt32
  frac : UInt32
  data : Bytes
  length_data : data.length < 2 ^ 32
  origLen : UInt32

namespace Packet

/-- The capture time, at the resolution the magic number announces. -/
def time (p : Packet) (enc : Encoding) : ℚ := p.sec.toNat + p.frac.toNat / enc.resolution.perSecond

def header (p : Packet) (enc : Encoding) : Bytes :=
  enc.u32 p.sec ++ enc.u32 p.frac ++ enc.u32 (UInt32.ofNat p.data.length) ++ enc.u32 p.origLen

def bytes (p : Packet) (enc : Encoding) : Bytes := p.header enc ++ p.data

@[simp] theorem length_header (p : Packet) (enc : Encoding) : (p.header enc).length = 16 := by
  simp [header]

end Packet

def captureBytes (enc : Encoding) (gh : GlobalHeader) (ps : List Packet) : Bytes :=
  gh.bytes enc ++ ps.flatMap fun p ↦ p.bytes enc

/-! ## Reading back -/

/-- The time that the loop makes of a packet's two words. -/
def Packet.ts (p : Packet) : ℚ := p.sec.toNat + p.frac.toNat / 10 ^ 6

theorem nextPacket_bytes (enc : Encoding) (p : Packet) (suf pkt : Bytes) :
    nextPacket enc.le ⟨p.bytes enc ++ suf, none⟩ pkt =
      .packet p.ts ⟨suf, none⟩ (p.data ++ (grow pkt p.data.length).drop p.data.length)
        p.data.length := by
  have hincl : (UInt32.ofNat p.data.length).toNat = p.data.length :=
    UInt32.toNat_ofNat_of_lt' p.length_data
  have hsec : readU32 (p.header enc) enc.le = p.sec := by
    simp only [Packet.header, List.append_assoc, Encoding.readU32_u32]
  have hfrac : readU32 ((p.header enc).drop 4) enc.le = p.frac := by
    simp only [Packet.header, List.append_assoc]
    rw [List.drop_left' (enc.length_u32 _), Encoding.readU32_u32]
  have hlen : readU32 ((p.header enc).drop 8) enc.le = UInt32.ofNat p.data.length := by
    have hfront : (enc.u32 p.sec ++ enc.u32 p.frac).length = 8 := by simp
    rw [Packet.header, List.append_assoc, List.drop_left' hfront, Encoding.readU32_u32]
  rw [nextPacket, Packet.bytes, List.append_assoc, readExact_append (p.length_header enc)]
  simp only [hsec, hfrac, hlen, hincl, readExact_append rfl]
  rfl

theorem packetLoop_nil (le : Bool) (linktype : UInt32) (pkt : Bytes) :
    packetLoop le linktype ⟨[], none⟩ pkt = ([], .streamEnded) := by
  have hnext : nextPacket le ⟨[], none⟩ pkt = .stop .streamEnded := rfl
  rw [packetLoop]
  split
  · rename_i h
    obtain rfl := Turn.stop.inj (hnext.symm.trans h)
    rfl
  · rename_i h
    cases hnext.symm.trans h

theorem packetLoop_cons (enc : Encoding) (linktype : UInt32) (p : Packet) (suf pkt : Bytes) :
    ∃ pkt', packetLoop enc.le linktype ⟨p.bytes enc ++ suf, none⟩ pkt =
      match (parseHello linktype p.data).run with
      | .error e => ([⟨p.ts, p.data, none⟩], .panicked e)
      | .ok hello =>
          let (captures, e) := packetLoop enc.le linktype ⟨suf, none⟩ pkt'
          (⟨p.ts, p.data, hello⟩ :: captures, e) := by
  have hnext := nextPacket_bytes enc p suf pkt
  rw [packetLoop]
  split
  · rename_i h
    cases hnext.symm.trans h
  · rename_i ts r' pkt' incl h
    obtain ⟨rfl, rfl, rfl, rfl⟩ := Turn.packet.inj (hnext.symm.trans h)
    rw [List.take_left' rfl]
    exact ⟨_, rfl⟩

theorem noPanic_parseHello_iff (linktype : UInt32) (data : Bytes) :
    NoPanic (parseHello linktype data) ↔ NoPanic (parsePacket linktype data) :=
  noPanic_bind_iff fun conn ↦
    (noPanic_parseClientHelloSni conn.tcpPayload).bind fun _ ↦ noPanic_pure _

/-- The packets up to the first whose headers make the parser panic. -/
def reached (linktype : UInt32) : List Packet → List Packet
  | [] => []
  | p :: ps =>
      match (parseHello linktype p.data).run with
      | .error _ => [p]
      | .ok _ => p :: reached linktype ps

def pairs (captures : List Capture) : List (ℚ × Bytes) := captures.map fun c ↦ (c.ts, c.data)

theorem pairs_packetLoop (enc : Encoding) (linktype : UInt32) (ps : List Packet) (pkt : Bytes) :
    pairs (packetLoop enc.le linktype ⟨ps.flatMap fun p ↦ p.bytes enc, none⟩ pkt).1 =
      (reached linktype ps).map fun p ↦ (p.ts, p.data) := by
  induction ps generalizing pkt with
  | nil =>
      rw [List.flatMap_nil, packetLoop_nil]
      rfl
  | cons p ps ih =>
      obtain ⟨pkt', hloop⟩ := packetLoop_cons enc linktype p (ps.flatMap fun p ↦ p.bytes enc) pkt
      rw [List.flatMap_cons, hloop, reached]
      cases (parseHello linktype p.data).run with
      | error e => rfl
      | ok hello => exact congrArg ((p.ts, p.data) :: ·) (ih pkt')

theorem pairs_readCapture (enc : Encoding) (gh : GlobalHeader) (ps : List Packet) :
    pairs (readCapture ⟨captureBytes enc gh ps, none⟩).1 =
      (reached gh.linktype ps).map fun p ↦ (p.ts, p.data) := by
  have hlength : (gh.bytes enc).length = 24 := by simp [GlobalHeader.bytes, gh.length_middle]
  have hmagic : (gh.bytes enc).take 4 = enc.magic := by
    rw [GlobalHeader.bytes, List.append_assoc, List.take_left' enc.length_magic]
  have hlinktype : readU32 ((gh.bytes enc).drop 20) enc.le = gh.linktype := by
    have hfront : (enc.magic ++ gh.middle).length = 20 := by simp [gh.length_middle]
    rw [GlobalHeader.bytes, List.drop_left' hfront]
    simpa using enc.readU32_u32 gh.linktype []
  rw [readCapture, captureBytes, readExact_append hlength]
  simp only [hmagic, Encoding.byteOrder_magic, hlinktype]
  exact pairs_packetLoop enc gh.linktype ps _

theorem reached_sublist (linktype : UInt32) (ps : List Packet) :
    List.Sublist (reached linktype ps) ps := by
  induction ps with
  | nil => exact List.Sublist.refl _
  | cons p ps ih =>
      rw [reached]
      split
      · exact (List.nil_sublist ps).cons_cons p
      · exact ih.cons_cons p

theorem reached_eq_self_iff (linktype : UInt32) (ps : List Packet) :
    reached linktype ps = ps ↔ ∀ p ∈ ps.dropLast, NoPanic (parsePacket linktype p.data) := by
  induction ps with
  | nil => simp [reached]
  | cons p ps ih =>
      cases ps with
      | nil =>
          rw [reached]
          split <;> simp [reached]
      | cons q ps =>
          rw [List.dropLast_cons_of_ne_nil (List.cons_ne_nil q ps), List.forall_mem_cons,
            ← noPanic_parseHello_iff, ← ih, reached]
          cases hrun : (parseHello linktype p.data).run with
          | error e =>
              have hpanic : ¬ NoPanic (parseHello linktype p.data) := by
                rintro ⟨o, ho⟩
                cases hrun.symm.trans ho
              simp [hpanic]
          | ok o =>
              have hcalm : NoPanic (parseHello linktype p.data) := ⟨o, hrun⟩
              simp [hcalm]

theorem ts_eq_time_iff (p : Packet) (enc : Encoding) :
    p.ts = p.time enc ↔ enc.resolution = .micro ∨ p.frac = 0 := by
  rw [Packet.ts, Packet.time]
  cases enc.resolution with
  | micro => norm_num [Resolution.perSecond]
  | nano =>
      have hne : Resolution.nano ≠ .micro := by decide
      have hcancel : ∀ s x : ℚ, s + x / 10 ^ 6 = s + x / (10 ^ 9 : ℕ) ↔ x = 0 := by
        intro s x
        push_cast
        constructor <;> intro h <;> linarith
      have hzero : (p.frac.toNat : ℚ) = 0 ↔ p.frac = 0 := by
        rw [← UInt32.toNat_inj]
        simp
      simp only [Resolution.perSecond, hne, false_or, hcancel, hzero]

/-- The loop's times and packets are those of the capture. -/
def RecoversCapture (enc : Encoding) (gh : GlobalHeader) (ps : List Packet) : Prop :=
  pairs (readCapture ⟨captureBytes enc gh ps, none⟩).1 = ps.map fun p ↦ (p.time enc, p.data)

/-- The packets always come back whole; the times do when the capture counts
microseconds. -/
theorem recoversCapture_iff (enc : Encoding) (gh : GlobalHeader) (ps : List Packet) :
    RecoversCapture enc gh ps ↔
      (enc.resolution = .micro ∨ ∀ p ∈ ps, p.frac = 0) ∧
        ∀ p ∈ ps.dropLast, NoPanic (parsePacket gh.linktype p.data) := by
  have htimes : (∀ p ∈ ps, (p.ts, p.data) = (p.time enc, p.data)) ↔
      enc.resolution = .micro ∨ ∀ p ∈ ps, p.frac = 0 := by
    simp only [Prod.mk.injEq, and_true, ts_eq_time_iff]
    by_cases hmicro : enc.resolution = .micro <;> simp [hmicro]
  rw [RecoversCapture, pairs_readCapture, ← htimes, ← reached_eq_self_iff]
  constructor
  · intro h
    have hlength : (reached gh.linktype ps).length = ps.length := by
      simpa using congrArg List.length h
    have hall := (reached_sublist gh.linktype ps).eq_of_length hlength
    rw [hall] at h
    exact ⟨List.map_inj_left.mp h, hall⟩
  · rintro ⟨htime, hall⟩
    rw [hall]
    exact List.map_inj_left.mpr htime

/-- A packet captured half a second after second zero, counted in nanoseconds. -/
def halfSecond : Packet := ⟨0, 500000000, [], by decide, 0⟩

theorem not_recoversCapture_nano :
    ¬ RecoversCapture ⟨true, .nano⟩ ⟨1, List.replicate 16 0, rfl⟩ [halfSecond] := by
  intro h
  have hall : reached 1 [halfSecond] = [halfSecond] :=
    (reached_eq_self_iff 1 [halfSecond]).mpr (List.forall_mem_nil _)
  rw [RecoversCapture, pairs_readCapture, hall] at h
  obtain ⟨hts, -⟩ := Prod.mk.inj (List.cons.inj h).1
  rcases (ts_eq_time_iff halfSecond ⟨true, .nano⟩).mp hts with hmicro | hzero
  · cases hmicro
  · revert hzero
    decide

end TrafficMap.SniSniff
