import TrafficMap.SniSniff.Packet

/-!
# Frames as they are built

The other direction of the packet parser: a TCP segment behind an IPv4 or an
IPv6 header, put on one of the link types that a capture can announce.  Header
options have any content and any length a header can declare; fields that the
parser skips have any value.  The parser recovers the connection of every such
frame.
-/

namespace TrafficMap.SniSniff

open Wire Checked

/-! ## Headers -/

/-- Header options, in whole words of four bytes; a header length counts them
in four bits together with the five fixed words. -/
structure HeaderOptions where
  bytes : Bytes
  words : ℕ
  length_bytes : bytes.length = 4 * words
  words_le : words ≤ 10

structure TcpHeader where
  srcPort : UInt16
  dstPort : UInt16
  seq : UInt32
  ack : UInt32
  reserved : Fin 16
  flags : UInt8
  window : UInt16
  checksum : UInt16
  urgent : UInt16
  options : HeaderOptions

structure Ipv4Header where
  tos : UInt8
  totalLength : UInt16
  identification : UInt16
  fragment : UInt16
  ttl : UInt8
  checksum : UInt16
  src : Ipv4Addr
  dst : Ipv4Addr
  options : HeaderOptions

structure Ipv6Header where
  trafficClass : UInt8
  flowLabel : Fin (2 ^ 20)
  payloadLength : UInt16
  hopLimit : UInt8
  src : Ipv6Addr
  dst : Ipv6Addr

inductive IpHeader where
  | v4 (h : Ipv4Header)
  | v6 (h : Ipv6Header)

structure MacAddr where
  octets : Bytes
  length_octets : octets.length = 6

/-- What stands in front of the IP header. -/
inductive Link where
  | raw
  | null (family : UInt32)
  | ethernet (dst src : MacAddr)
  | tagged (dst src : MacAddr) (tci : UInt16)

structure Frame where
  link : Link
  ip : IpHeader
  tcp : TcpHeader
  payload : Bytes

/-! ## Their bytes -/

def TcpHeader.bytes (h : TcpHeader) : Bytes :=
  u16ToBe h.srcPort ++ (u16ToBe h.dstPort ++ (u32ToBe h.seq ++ (u32ToBe h.ack ++
    (UInt8.ofNat (16 * (5 + h.options.words) + h.reserved) :: h.flags ::
      (u16ToBe h.window ++ (u16ToBe h.checksum ++ (u16ToBe h.urgent ++ h.options.bytes)))))))

def Ipv4Header.bytes (h : Ipv4Header) : Bytes :=
  UInt8.ofNat (64 + (5 + h.options.words)) :: h.tos :: (u16ToBe h.totalLength ++
    (u16ToBe h.identification ++ (u16ToBe h.fragment ++ (h.ttl :: 6 ::
      (u16ToBe h.checksum ++ (h.src.octets ++ (h.dst.octets ++ h.options.bytes)))))))

def Ipv6Header.bytes (h : Ipv6Header) : Bytes :=
  toBe 4 (6 * 2 ^ 28 + h.trafficClass.toNat * 2 ^ 20 + h.flowLabel) ++
    (u16ToBe h.payloadLength ++ (6 :: h.hopLimit :: (h.src.octets ++ h.dst.octets)))

namespace IpHeader

def bytes : IpHeader → Bytes
  | v4 h => h.bytes
  | v6 h => h.bytes

def src : IpHeader → IpAddr
  | v4 h => .v4 h.src
  | v6 h => .v6 h.src

def dst : IpHeader → IpAddr
  | v4 h => .v4 h.dst
  | v6 h => .v6 h.dst

def ethertype : IpHeader → UInt16
  | v4 _ => 0x0800
  | v6 _ => 0x86DD

end IpHeader

namespace Link

def linktype : Link → UInt32
  | raw => linktypeRaw
  | null _ => linktypeNull
  | ethernet _ _ => linktypeEthernet
  | tagged _ _ _ => linktypeEthernet

def bytes (ethertype : UInt16) : Link → Bytes
  | raw => []
  | null family => u32ToBe family
  | ethernet dst src => dst.octets ++ src.octets ++ u16ToBe ethertype
  | tagged dst src tci =>
      dst.octets ++ src.octets ++ u16ToBe 0x8100 ++ u16ToBe tci ++ u16ToBe ethertype

end Link

namespace Frame

def segment (f : Frame) : Bytes := f.tcp.bytes ++ f.payload

def bytes (f : Frame) : Bytes :=
  f.link.bytes f.ip.ethertype ++ (f.ip.bytes ++ f.segment)

def conn (f : Frame) : Conn where
  src := f.ip.src
  srcPort := f.tcp.srcPort
  dst := f.ip.dst
  dstPort := f.tcp.dstPort
  tcpPayload := f.payload

end Frame

/-! ## Reading what was laid out -/

section Run

variable {α β : Type}

theorem run_bind_of_some {x : Checked α} {a : α} (h : x.run = .ok (some a)) (f : α → Checked β) :
    (x >>= f).run = (f a).run := by
  rw [OptionT.run_bind, h]
  rfl

theorem take_drop_append {pre mid suf : Bytes} :
    ((pre ++ (mid ++ suf)).take (pre.length + mid.length)).drop pre.length = mid := by
  rw [List.take_length_add_append, List.drop_left, List.take_left]

theorem run_getRange_append (pre mid suf : Bytes) :
    (getRange (pre ++ (mid ++ suf)) pre.length (pre.length + mid.length)).run =
      .ok (some mid) := by
  rw [run_getRange (by simp [← Nat.add_assoc]), take_drop_append]

theorem run_slice_append (pre mid suf : Bytes) :
    (slice (pre ++ (mid ++ suf)) pre.length (pre.length + mid.length)).run = .ok (some mid) := by
  rw [run_slice (by simp [← Nat.add_assoc]), take_drop_append]

theorem run_getFrom_append (pre suf : Bytes) :
    (getFrom (pre ++ suf) pre.length).run = .ok (some suf) := by
  rw [run_getFrom (by simp), List.drop_left]

theorem run_readU16 (n : UInt16) : (readU16 (u16ToBe n) false).run = .ok (some n) := by
  have hn : u16FromBe (u16ToBe n) = n := u16FromBe_u16ToBe n
  exact congrArg (fun m ↦ Except.ok (some m)) hn

end Run

theorem toNat_dataOffset {words : ℕ} (h : words ≤ 10) (reserved : Fin 16) :
    (UInt8.ofNat (16 * (5 + words) + reserved) >>> 4).toNat = 5 + words := by
  have hlow := reserved.isLt
  have hfit : (16 * (5 + words) + reserved) % 2 ^ 8 = 16 * (5 + words) + reserved :=
    Nat.mod_eq_of_lt (by omega)
  rw [UInt8.toNat_shiftRight, UInt8.toNat_ofNat', hfit, Nat.shiftRight_eq_div_pow]
  change (16 * (5 + words) + reserved) / 16 = 5 + words
  omega

theorem ihl_eq {words : ℕ} (h : words ≤ 10) :
    UInt8.ofNat (64 + (5 + words)) >>> 4 = 4 ∧
      (UInt8.ofNat (64 + (5 + words)) &&& 0x0f).toNat = 5 + words := by
  have hall : ∀ w : Fin 11, UInt8.ofNat (64 + (5 + w)) >>> 4 = 4 ∧
      (UInt8.ofNat (64 + (5 + w)) &&& 0x0f).toNat = 5 + w := by decide
  exact hall ⟨words, by omega⟩

theorem run_parseTcp (src dst : IpAddr) (h : TcpHeader) (payload : Bytes) :
    (parseTcp src dst (h.bytes ++ payload)).run =
      .ok (some ⟨src, h.srcPort, dst, h.dstPort, payload⟩) := by
  have hsrc : (getRange (h.bytes ++ payload) 0 2).run = .ok (some (u16ToBe h.srcPort)) :=
    run_getRange_append [] (u16ToBe h.srcPort) (h.bytes.drop 2 ++ payload)
  have hdst : (getRange (h.bytes ++ payload) 2 4).run = .ok (some (u16ToBe h.dstPort)) :=
    run_getRange_append (u16ToBe h.srcPort) (u16ToBe h.dstPort) (h.bytes.drop 4 ++ payload)
  have hoff : (get (h.bytes ++ payload) 12).run =
      .ok (some (UInt8.ofNat (16 * (5 + h.options.words) + h.reserved))) := rfl
  have hlen : h.bytes.length = (5 + h.options.words) * 4 := by
    simp [TcpHeader.bytes, h.options.length_bytes]
    omega
  rw [parseTcp, run_bind_of_some hsrc, run_bind_of_some (run_readU16 _), run_bind_of_some hdst,
    run_bind_of_some (run_readU16 _), run_bind_of_some hoff,
    toNat_dataOffset h.options.words_le, ← hlen, run_bind_of_some (run_getFrom_append _ _)]
  rfl

theorem run_parseIpv4 (h : Ipv4Header) (l4 : Bytes) :
    (parseIpv4 (h.bytes ++ l4)).run = .ok (some (.v4 h.src, .v4 h.dst, l4)) := by
  have hlen : h.bytes.length = (5 + h.options.words) * 4 := by
    simp [Ipv4Header.bytes, h.options.length_bytes]
    omega
  have hihl : (index (h.bytes ++ l4) 0).run =
      .ok (some (UInt8.ofNat (64 + (5 + h.options.words)))) := rfl
  have hproto : (get (h.bytes ++ l4) 9).run = .ok (some 6) := rfl
  have hsrc : Ipv4Addr.ofOctets h.src.octets = h.src := Ipv4Addr.ofOctets_octets h.src
  have hdst : Ipv4Addr.ofOctets h.dst.octets = h.dst := Ipv4Addr.ofOctets_octets h.dst
  have hbig : ¬ (5 + h.options.words) * 4 < 20 := by omega
  have hlong : 20 ≤ (h.bytes ++ l4).length := by
    rw [List.length_append]
    omega
  have hrest : (getFrom (h.bytes ++ l4) ((5 + h.options.words) * 4)).run = .ok (some l4) :=
    hlen ▸ run_getFrom_append h.bytes l4
  rw [parseIpv4, run_bind_of_some hihl, (ihl_eq h.options.words_le).2, if_neg hbig,
    run_bind_of_some hproto, if_neg (not_not.mpr rfl)]
  -- The eight address bytes.
  iterate 8 rw [run_bind_of_some (run_index (by omega))]
  rw [run_bind_of_some hrest]
  change (pure (.v4 (Ipv4Addr.ofOctets h.src.octets), .v4 (Ipv4Addr.ofOctets h.dst.octets), l4) :
    Checked (IpAddr × IpAddr × Bytes)).run = _
  rw [hsrc, hdst]
  rfl

/-- The version is the high half of the first byte. -/
theorem version_ipv6 (h : Ipv6Header) :
    ∃ b tail, h.bytes = b :: tail ∧ b >>> 4 = 6 := by
  refine ⟨_, _, rfl, ?_⟩
  have hclass := h.trafficClass.toNat_lt
  have hflow := h.flowLabel.isLt
  apply UInt8.toNat_inj.mp
  rw [UInt8.toNat_shiftRight, UInt8.toNat_ofNat', Nat.shiftRight_eq_div_pow]
  change (6 * 2 ^ 28 + h.trafficClass.toNat * 2 ^ 20 + h.flowLabel) / 256 ^ 3 % 256 / 16 = 6
  omega

theorem run_parseIpv6 (h : Ipv6Header) (l4 : Bytes) :
    (parseIpv6 (h.bytes ++ l4)).run = .ok (some (.v6 h.src, .v6 h.dst, l4)) := by
  have hlen : h.bytes.length = 40 := by simp [Ipv6Header.bytes]
  have hproto : (index (h.bytes ++ l4) 6).run = .ok (some 6) := rfl
  have hsrc : (slice (h.bytes ++ l4) 8 24).run = .ok (some h.src.octets) :=
    run_slice_append (h.bytes.take 8) h.src.octets (h.dst.octets ++ l4)
  have hdst : (slice (h.bytes ++ l4) 24 40).run = .ok (some h.dst.octets) :=
    run_slice_append (h.bytes.take 24) h.dst.octets l4
  have hrest : (getFrom (h.bytes ++ l4) 40).run = .ok (some l4) :=
    hlen ▸ run_getFrom_append h.bytes l4
  have hlong : ¬ (h.bytes ++ l4).length < 40 := by
    rw [List.length_append]
    omega
  rw [parseIpv6, if_neg hlong, run_bind_of_some hproto, if_neg (not_not.mpr rfl),
    run_bind_of_some hsrc, run_bind_of_some hdst, run_bind_of_some hrest,
    Ipv6Addr.ofOctets_octets, Ipv6Addr.ofOctets_octets]
  rfl

theorem run_parseIpTcp (f : Frame) :
    (parseIpTcp (f.ip.bytes ++ f.segment)).run = .ok (some f.conn) := by
  have htcp : (parseTcp f.ip.src f.ip.dst f.segment).run = .ok (some f.conn) :=
    run_parseTcp _ _ f.tcp f.payload
  rw [parseIpTcp]
  cases hip : f.ip with
  | v4 h =>
      have hversion : (get (h.bytes ++ f.segment) 0).run =
          .ok (some (UInt8.ofNat (64 + (5 + h.options.words)))) := rfl
      rw [hip] at htcp
      rw [IpHeader.bytes, run_bind_of_some hversion,
        if_pos (ihl_eq h.options.words_le).1, run_bind_of_some (run_parseIpv4 h f.segment)]
      exact htcp
  | v6 h =>
      obtain ⟨b, tail, hbytes, hb⟩ := version_ipv6 h
      have hversion : (get (h.bytes ++ f.segment) 0).run = .ok (some b) := by
        rw [hbytes]
        rfl
      have hnot : ¬ b >>> 4 = 4 := by
        rw [hb]
        decide
      rw [hip] at htcp
      rw [IpHeader.bytes, run_bind_of_some hversion, if_neg hnot, if_pos hb,
        run_bind_of_some (run_parseIpv6 h f.segment)]
      exact htcp

/-! ## Links -/

theorem ethertype_passes (ip : IpHeader) : ip.ethertype = 0x0800 ∨ ip.ethertype = 0x86DD := by
  cases ip with
  | v4 h => exact Or.inl rfl
  | v6 h => exact Or.inr rfl

theorem length_macs (dst src : MacAddr) : (dst.octets ++ src.octets).length = 12 := by
  rw [List.length_append, dst.length_octets, src.length_octets]

section Strip

variable {ethertype : UInt16} (hpass : ethertype = 0x0800 ∨ ethertype = 0x86DD)
include hpass

theorem ne_vlan_of_passes : ethertype ≠ 0x8100 := by
  rcases hpass with rfl | rfl
  · decide
  · decide

theorem run_stripEthernet {macs : Bytes} (hmacs : macs.length = 12) (l3 : Bytes) :
    (stripEthernet (macs ++ u16ToBe ethertype ++ l3)).run = .ok (some l3) := by
  have hhead : (macs ++ u16ToBe ethertype).length = 14 := by simp [hmacs]
  have htype := run_getRange_append macs (u16ToBe ethertype) l3
  have hrest := run_getFrom_append (macs ++ u16ToBe ethertype) l3
  rw [hmacs, length_u16ToBe, ← List.append_assoc] at htype
  rw [hhead] at hrest
  rw [stripEthernet, run_bind_of_some htype, run_bind_of_some (run_readU16 _),
    if_neg (ne_vlan_of_passes hpass), if_pos hpass]
  exact hrest

theorem run_stripTagged {macs : Bytes} (hmacs : macs.length = 12) (tci : UInt16) (l3 : Bytes) :
    (stripEthernet (macs ++ u16ToBe 0x8100 ++ u16ToBe tci ++ u16ToBe ethertype ++ l3)).run =
      .ok (some l3) := by
  have hfront : (macs ++ u16ToBe 0x8100 ++ u16ToBe tci).length = 16 := by simp [hmacs]
  have hhead : (macs ++ u16ToBe 0x8100 ++ u16ToBe tci ++ u16ToBe ethertype).length = 18 := by
    simp [hmacs]
  have htag := run_getRange_append macs (u16ToBe 0x8100)
    (u16ToBe tci ++ (u16ToBe ethertype ++ l3))
  have htype := run_getRange_append (macs ++ u16ToBe 0x8100 ++ u16ToBe tci)
    (u16ToBe ethertype) l3
  have hrest := run_getFrom_append
    (macs ++ u16ToBe 0x8100 ++ u16ToBe tci ++ u16ToBe ethertype) l3
  simp only [hmacs, length_u16ToBe, ← List.append_assoc] at htag
  rw [hfront, length_u16ToBe, ← List.append_assoc] at htype
  rw [hhead] at hrest
  rw [stripEthernet, run_bind_of_some htag, run_bind_of_some (run_readU16 _), if_pos rfl,
    run_bind_of_some htype, run_bind_of_some (run_readU16 _), if_pos hpass]
  exact hrest

theorem run_stripLink (link : Link) (l3 : Bytes) :
    (stripLink link.linktype (link.bytes ethertype ++ l3)).run = .ok (some l3) := by
  cases link with
  | raw => rfl
  | null family => exact run_getFrom_append (u32ToBe family) l3
  | ethernet dst src => exact run_stripEthernet hpass (length_macs dst src) l3
  | tagged dst src tci => exact run_stripTagged hpass (length_macs dst src) tci l3

end Strip

/-- Parsing undoes framing. -/
theorem parsePacket_frame (f : Frame) :
    (parsePacket f.link.linktype f.bytes).run = .ok (some f.conn) := by
  rw [parsePacket, Frame.bytes, run_bind_of_some (run_stripLink (ethertype_passes f.ip) f.link _)]
  exact run_parseIpTcp f

end TrafficMap.SniSniff
