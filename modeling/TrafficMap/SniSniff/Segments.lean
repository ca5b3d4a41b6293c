import TrafficMap.SniSniff.Frame

/-!
# Segments in frames

What the headers of a frame say of the segment it carries: the fields that
delimit the datagram and the TCP header, whether the parser consults them or
not.
-/

namespace TrafficMap.SniSniff

open Wire Checked

/-! ## Header fields -/

/-- The two bytes at `i`, in network order. -/
def word (b : Bytes) (i : ℕ) : ℕ := ofBe ((b.drop i).take 2)

def version (ip : Bytes) : UInt8 := ip.getD 0 0 >>> 4

def headerLength (ip : Bytes) : ℕ :=
  if version ip = 4 then (ip.getD 0 0 &&& 0x0f).toNat * 4 else 40

/-- The protocol, or the next header. -/
def protocol (ip : Bytes) : UInt8 := if version ip = 4 then ip.getD 9 0 else ip.getD 6 0

/-- In units of eight bytes; a packet of version 6 has its fragments elsewhere. -/
def fragmentOffset (ip : Bytes) : ℕ := if version ip = 4 then word ip 6 % 2 ^ 13 else 0

/-- Where the datagram ends, by its total length or its payload length. -/
def datagramEnd (ip : Bytes) : ℕ := if version ip = 4 then word ip 2 else 40 + word ip 4

/-- The length of the TCP header in words. -/
def dataOffset (ip : Bytes) : ℕ := ((ip.drop (headerLength ip)).getD 12 0 >>> 4).toNat

/-- Where the TCP header ends. -/
def tcpEnd (ip : Bytes) : ℕ := headerLength ip + 4 * dataOffset ip

/-- The endpoints that the headers name, with some payload. -/
def connWith (ip payload : Bytes) : Conn where
  src := if version ip = 4 then .v4 (Ipv4Addr.ofOctets ((ip.drop 12).take 4))
    else .v6 (Ipv6Addr.ofOctets ((ip.drop 8).take 16))
  srcPort := u16FromBe ((ip.drop (headerLength ip)).take 2)
  dst := if version ip = 4 then .v4 (Ipv4Addr.ofOctets ((ip.drop 16).take 4))
    else .v6 (Ipv6Addr.ofOctets ((ip.drop 24).take 16))
  dstPort := u16FromBe ((ip.drop (headerLength ip + 2)).take 2)
  tcpPayload := payload

section Version

variable {ip : Bytes}

theorem headerLength_v4 (h : version ip = 4) : headerLength ip = (ip.getD 0 0 &&& 0x0f).toNat * 4 :=
  if_pos h

theorem headerLength_v6 (h : version ip ≠ 4) : headerLength ip = 40 := if_neg h

theorem connWith_v4 (h : version ip = 4) (payload : Bytes) : connWith ip payload =
    ⟨.v4 (Ipv4Addr.ofOctets ((ip.drop 12).take 4)), u16FromBe ((ip.drop (headerLength ip)).take 2),
      .v4 (Ipv4Addr.ofOctets ((ip.drop 16).take 4)),
      u16FromBe ((ip.drop (headerLength ip + 2)).take 2), payload⟩ := by
  rw [connWith, if_pos h, if_pos h]

theorem connWith_v6 (h : version ip ≠ 4) (payload : Bytes) : connWith ip payload =
    ⟨.v6 (Ipv6Addr.ofOctets ((ip.drop 8).take 16)), u16FromBe ((ip.drop (headerLength ip)).take 2),
      .v6 (Ipv6Addr.ofOctets ((ip.drop 24).take 16)),
      u16FromBe ((ip.drop (headerLength ip + 2)).take 2), payload⟩ := by
  rw [connWith, if_neg h, if_neg h]

end Version

/-! ## Segments -/

/-- An IPv4 packet that is not a later fragment, or an IPv6 packet, with a whole TCP
header inside the datagram. -/
structure TcpDatagram (ip : Bytes) : Prop where
  version : version ip = 4 ∨ version ip = 6
  header : 20 ≤ headerLength ip
  protocol : protocol ip = 6
  fragment : fragmentOffset ip = 0
  offset : 5 ≤ dataOffset ip
  captured : tcpEnd ip ≤ ip.length
  within : tcpEnd ip ≤ datagramEnd ip

def ethertypeOf (ip : Bytes) : UInt16 := if version ip = 4 then 0x0800 else 0x86DD

/-- The frame holds the packet behind its link header. -/
def OnLink (linktype : UInt32) (data ip : Bytes) : Prop :=
  ∃ link : Link, link.linktype = linktype ∧ data = link.bytes (ethertypeOf ip) ++ ip

/-- The frame carries a TCP segment of this connection. -/
def Carries (linktype : UInt32) (data : Bytes) (conn : Conn) : Prop :=
  ∃ ip, OnLink linktype data ip ∧ TcpDatagram ip ∧
    conn = connWith ip ((ip.take (datagramEnd ip)).drop (tcpEnd ip))

/-- Some connection only for a segment, and none for anything else. -/
structure SegmentsOnly (linktype : UInt32) (data : Bytes) : Prop where
  sound : ∀ conn, (parsePacket linktype data).run = .ok (some conn) → Carries linktype data conn
  rejects : (∀ conn, ¬ Carries linktype data conn) → (parsePacket linktype data).run = .ok none

/-! ## What the parser checks -/

/-- The checks of `parse_ip_tcp`. -/
structure Passes (ip : Bytes) : Prop where
  version : version ip = 4 ∨ version ip = 6
  header : 20 ≤ headerLength ip
  protocol : protocol ip = 6
  ports : headerLength ip + 13 ≤ ip.length
  captured : tcpEnd ip ≤ ip.length

theorem run_readU16_eq_some {b : Bytes} {n : UInt16} (hb : b.length = 2) :
    (readU16 b false).run = .ok (some n) ↔ u16FromBe b = n := by
  match b, hb with
  | [b₀, b₁], _ => exact run_pure_eq_some

theorem length_word {b : Bytes} {lo : ℕ} (h : lo + 2 ≤ b.length) :
    ((b.drop lo).take 2).length = 2 := by
  rw [List.length_take, List.length_drop]
  omega

theorem range_eq (b : Bytes) (lo n : ℕ) : (b.take (lo + n)).drop lo = (b.drop lo).take n := by
  rw [List.drop_take, Nat.add_sub_cancel_left]

theorem run_parseTcp_eq_some {src dst : IpAddr} {l4 : Bytes} {conn : Conn} :
    (parseTcp src dst l4).run = .ok (some conn) ↔
      13 ≤ l4.length ∧ (l4.getD 12 0 >>> 4).toNat * 4 ≤ l4.length ∧
        ⟨src, u16FromBe (l4.take 2), dst, u16FromBe ((l4.drop 2).take 2),
          l4.drop ((l4.getD 12 0 >>> 4).toNat * 4)⟩ = conn := by
  have hsrc : (l4.take 2).drop 0 = l4.take 2 := rfl
  have hdst : (l4.take 4).drop 2 = (l4.drop 2).take 2 := range_eq l4 2 2
  simp only [parseTcp, run_bind_eq_some, run_getRange_eq_some, run_get_eq_some,
    run_getFrom_eq_some, run_pure_eq_some, hsrc, hdst]
  have hread : ∀ lo n, lo + 2 ≤ l4.length →
      ((readU16 ((l4.drop lo).take 2) false).run = .ok (some n) ↔
        u16FromBe ((l4.drop lo).take 2) = n) :=
    fun lo n h ↦ run_readU16_eq_some (length_word h)
  constructor
  · rintro ⟨-, ⟨h2, rfl⟩, srcPort, hsrcPort, -, ⟨h4, rfl⟩, dstPort, hdstPort, -, ⟨h12, rfl⟩, -,
      ⟨hoff, rfl⟩, rfl⟩
    refine ⟨h12, hoff, ?_⟩
    rw [← (hread 0 srcPort h2).mp hsrcPort, ← (hread 2 dstPort h4).mp hdstPort]
    rfl
  · rintro ⟨h13, hoff, rfl⟩
    have hports := (hread 0 _ (by omega)).mpr rfl
    have hports' := (hread 2 _ (by omega)).mpr rfl
    exact ⟨_, ⟨by omega, rfl⟩, _, hports, _, ⟨by omega, rfl⟩, _, hports', _, ⟨h13, rfl⟩, _,
      ⟨hoff, rfl⟩, rfl⟩

/-- Four bytes read one by one. -/
theorem four_bytes {b : Bytes} {i : ℕ} (h : i + 4 ≤ b.length) :
    [b.getD i 0, b.getD (i + 1) 0, b.getD (i + 2) 0, b.getD (i + 3) 0] = (b.drop i).take 4 := by
  rw [List.drop_eq_getElem_cons (by omega), List.drop_eq_getElem_cons (by omega),
    List.drop_eq_getElem_cons (by omega), List.drop_eq_getElem_cons (by omega)]
  have hget : ∀ k, (hk : k < b.length) → b.getD k 0 = b[k] := fun k hk ↦ by simp [List.getD, hk]
  rw [hget i (by omega), hget (i + 1) (by omega), hget (i + 2) (by omega), hget (i + 3) (by omega)]
  rfl

theorem run_parseIpv4_eq_some {ip : Bytes} {r : IpAddr × IpAddr × Bytes} :
    (parseIpv4 ip).run = .ok (some r) ↔
      20 ≤ (ip.getD 0 0 &&& 0x0f).toNat * 4 ∧ ip.getD 9 0 = 6 ∧
        (ip.getD 0 0 &&& 0x0f).toNat * 4 ≤ ip.length ∧
          (.v4 (Ipv4Addr.ofOctets ((ip.drop 12).take 4)),
            .v4 (Ipv4Addr.ofOctets ((ip.drop 16).take 4)),
            ip.drop ((ip.getD 0 0 &&& 0x0f).toNat * 4)) = r := by
  simp only [parseIpv4]
  rw [run_bind_eq_some]
  simp only [run_index_eq_some]
  constructor
  · rintro ⟨_, ⟨h0, rfl⟩, h⟩
    split at h
    · exact absurd h run_failure_bind_ne_some
    · rename_i hihl
      obtain ⟨proto, hproto, h⟩ := run_bind_eq_some.mp h
      obtain ⟨h9, rfl⟩ := run_get_eq_some.mp hproto
      split at h
      · exact absurd h run_failure_bind_ne_some
      · rename_i htcp
        simp only [run_bind_eq_some, run_index_eq_some, run_getFrom_eq_some, run_pure_eq_some] at h
        obtain ⟨_, ⟨-, rfl⟩, _, ⟨-, rfl⟩, _, ⟨-, rfl⟩, _, ⟨-, rfl⟩, _, ⟨-, rfl⟩, _, ⟨-, rfl⟩,
          _, ⟨-, rfl⟩, _, ⟨h19, rfl⟩, _, ⟨hlen, rfl⟩, rfl⟩ := h
        rw [four_bytes (i := 12) (by omega), four_bytes (i := 16) (by omega)]
        exact ⟨not_lt.mp hihl, not_not.mp htcp, hlen, rfl⟩
  · rintro ⟨hihl, htcp, hlen, rfl⟩
    refine ⟨_, ⟨by omega, rfl⟩, ?_⟩
    rw [if_neg (not_lt.mpr hihl), run_bind_eq_some]
    refine ⟨_, run_get_eq_some.mpr ⟨by omega, rfl⟩, ?_⟩
    rw [if_neg (not_not.mpr htcp)]
    simp only [run_bind_eq_some, run_index_eq_some, run_getFrom_eq_some, run_pure_eq_some]
    rw [← four_bytes (i := 12) (by omega), ← four_bytes (i := 16) (by omega)]
    exact ⟨_, ⟨by omega, rfl⟩, _, ⟨by omega, rfl⟩, _, ⟨by omega, rfl⟩, _, ⟨by omega, rfl⟩,
      _, ⟨by omega, rfl⟩, _, ⟨by omega, rfl⟩, _, ⟨by omega, rfl⟩, _, ⟨by omega, rfl⟩,
      _, ⟨hlen, rfl⟩, rfl⟩

theorem run_parseIpv6_eq_some {ip : Bytes} {r : IpAddr × IpAddr × Bytes} :
    (parseIpv6 ip).run = .ok (some r) ↔ 40 ≤ ip.length ∧ ip.getD 6 0 = 6 ∧
      (.v6 (Ipv6Addr.ofOctets ((ip.drop 8).take 16)),
        .v6 (Ipv6Addr.ofOctets ((ip.drop 24).take 16)), ip.drop 40) = r := by
  have hsrc : (ip.take 24).drop 8 = (ip.drop 8).take 16 := range_eq ip 8 16
  have hdst : (ip.take 40).drop 24 = (ip.drop 24).take 16 := range_eq ip 24 16
  rw [parseIpv6]
  by_cases h40 : ip.length < 40
  · rw [if_pos h40]
    exact iff_of_false run_failure_bind_ne_some fun h ↦ absurd h.1 (not_le.mpr h40)
  · rw [if_neg h40, run_bind_eq_some]
    simp only [run_index_eq_some]
    constructor
    · rintro ⟨_, ⟨-, rfl⟩, h⟩
      split at h
      · exact absurd h run_failure_bind_ne_some
      · rename_i htcp
        simp only [run_bind_eq_some, run_slice_eq_some, run_getFrom_eq_some, run_pure_eq_some] at h
        obtain ⟨_, ⟨-, rfl⟩, _, ⟨-, rfl⟩, _, ⟨hlen, rfl⟩, rfl⟩ := h
        rw [hsrc, hdst]
        exact ⟨hlen, not_not.mp htcp, rfl⟩
    · rintro ⟨hlen, htcp, rfl⟩
      refine ⟨_, ⟨by omega, rfl⟩, ?_⟩
      rw [if_neg (not_not.mpr htcp)]
      simp only [run_bind_eq_some, run_slice_eq_some, run_getFrom_eq_some, run_pure_eq_some]
      rw [← hsrc, ← hdst]
      exact ⟨_, ⟨by omega, rfl⟩, _, ⟨hlen, rfl⟩, _, ⟨hlen, rfl⟩, rfl⟩

theorem run_parseTcp_drop {ip : Bytes} (h : headerLength ip ≤ ip.length) (src dst : IpAddr)
    {conn : Conn} :
    (parseTcp src dst (ip.drop (headerLength ip))).run = .ok (some conn) ↔
      headerLength ip + 13 ≤ ip.length ∧ tcpEnd ip ≤ ip.length ∧
        ⟨src, u16FromBe ((ip.drop (headerLength ip)).take 2), dst,
          u16FromBe ((ip.drop (headerLength ip + 2)).take 2), ip.drop (tcpEnd ip)⟩ = conn := by
  have hports : 13 ≤ ip.length - headerLength ip ↔ headerLength ip + 13 ≤ ip.length := by omega
  have hend : dataOffset ip * 4 ≤ ip.length - headerLength ip ↔ tcpEnd ip ≤ ip.length := by
    rw [tcpEnd]
    omega
  rw [run_parseTcp_eq_some, List.length_drop, hports, List.drop_drop, List.drop_drop,
    ← dataOffset, hend, tcpEnd, mul_comm 4]

/-- What the parser returns ends with the bytes, not with the datagram. -/
theorem run_parseIpTcp_eq_some {ip : Bytes} {conn : Conn} :
    (parseIpTcp ip).run = .ok (some conn) ↔
      Passes ip ∧ connWith ip (ip.drop (tcpEnd ip)) = conn := by
  rw [parseIpTcp, run_bind_eq_some]
  simp only [run_get_eq_some]
  constructor
  · rintro ⟨_, ⟨h0, rfl⟩, h⟩
    split at h
    · rename_i hv
      obtain ⟨r, hip, htcp⟩ := run_bind_eq_some.mp h
      obtain ⟨hihl, hproto, hlen, rfl⟩ := run_parseIpv4_eq_some.mp hip
      rw [← headerLength_v4 hv] at hihl hlen htcp
      obtain ⟨hports, hend, rfl⟩ := (run_parseTcp_drop hlen _ _).mp htcp
      exact ⟨⟨Or.inl hv, hihl, (if_pos hv).trans hproto, hports, hend⟩, connWith_v4 hv _⟩
    · rename_i hnot
      split at h
      · rename_i hv
        obtain ⟨r, hip, htcp⟩ := run_bind_eq_some.mp h
        obtain ⟨hlen, hproto, rfl⟩ := run_parseIpv6_eq_some.mp hip
        have hhead : headerLength ip = 40 := headerLength_v6 hnot
        have hbig : 20 ≤ headerLength ip := by omega
        rw [← hhead] at hlen htcp
        obtain ⟨hports, hend, rfl⟩ := (run_parseTcp_drop hlen _ _).mp htcp
        exact ⟨⟨Or.inr hv, hbig, (if_neg hnot).trans hproto, hports, hend⟩, connWith_v6 hnot _⟩
      · exact absurd h run_failure_bind_ne_some
  · rintro ⟨hpass, rfl⟩
    have hports := hpass.ports
    have hlen : headerLength ip ≤ ip.length := by omega
    have htcp := fun src dst ↦
      (run_parseTcp_drop hlen src dst).mpr ⟨hports, hpass.captured, rfl⟩
    refine ⟨_, ⟨by omega, rfl⟩, ?_⟩
    have hproto := hpass.protocol
    by_cases hv : version ip = 4
    · rw [protocol, if_pos hv] at hproto
      have hihl := headerLength_v4 hv ▸ hpass.header
      have hip := run_parseIpv4_eq_some.mpr ⟨hihl, hproto, headerLength_v4 hv ▸ hlen, rfl⟩
      rw [← version, if_pos hv, run_bind_eq_some]
      refine ⟨_, hip, ?_⟩
      rw [connWith_v4 hv, ← headerLength_v4 hv, htcp]
    · rw [protocol, if_neg hv] at hproto
      have hip := run_parseIpv6_eq_some.mpr ⟨headerLength_v6 hv ▸ hlen, hproto, rfl⟩
      rw [← version, if_neg hv, if_pos (hpass.version.resolve_left hv), run_bind_eq_some]
      refine ⟨_, hip, ?_⟩
      rw [connWith_v6 hv, ← headerLength_v6 hv, htcp]

/-! ## The exact condition -/

/-- What the parser does not look at, as it is for a segment. -/
structure Delimited (linktype : UInt32) (data ip : Bytes) : Prop where
  link : OnLink linktype data ip
  fragment : fragmentOffset ip = 0
  offset : 5 ≤ dataOffset ip
  trailer : ip.length ≤ datagramEnd ip

theorem OnLink.run_stripLink {linktype : UInt32} {data ip : Bytes} (h : OnLink linktype data ip) :
    (stripLink linktype data).run = .ok (some ip) := by
  obtain ⟨link, rfl, rfl⟩ := h
  refine SniSniff.run_stripLink ?_ link ip
  rw [ethertypeOf]
  split
  · exact Or.inl rfl
  · exact Or.inr rfl

theorem run_parsePacket_eq_some {linktype : UInt32} {data : Bytes} {conn : Conn} :
    (parsePacket linktype data).run = .ok (some conn) ↔
      ∃ ip, (stripLink linktype data).run = .ok (some ip) ∧ Passes ip ∧
        connWith ip (ip.drop (tcpEnd ip)) = conn := by
  simp only [parsePacket, run_bind_eq_some, run_parseIpTcp_eq_some]

/-- A datagram that ends no earlier than its bytes. -/
theorem carries_of_delimited {linktype : UInt32} {data ip : Bytes} (hpass : Passes ip)
    (h : Delimited linktype data ip) :
    Carries linktype data (connWith ip (ip.drop (tcpEnd ip))) := by
  refine ⟨ip, h.link, ⟨hpass.version, hpass.header, hpass.protocol, h.fragment, h.offset,
    hpass.captured, hpass.captured.trans h.trailer⟩, ?_⟩
  rw [List.take_of_length_le h.trailer]

theorem delimited_of_carries {linktype : UInt32} {data ip : Bytes} (hpass : Passes ip)
    (hstrip : (stripLink linktype data).run = .ok (some ip))
    (h : Carries linktype data (connWith ip (ip.drop (tcpEnd ip)))) :
    Delimited linktype data ip := by
  obtain ⟨ip', hlink, hdatagram, hconn⟩ := h
  obtain rfl : ip' = ip := Option.some.inj (Except.ok.inj (hlink.run_stripLink.symm.trans hstrip))
  refine ⟨hlink, hdatagram.fragment, hdatagram.offset, ?_⟩
  have hlen := congrArg (fun c ↦ c.tcpPayload.length) hconn
  have hcaptured := hpass.captured
  have hwithin := hdatagram.within
  simp only [connWith, List.length_drop, List.length_take] at hlen
  omega

theorem segmentsOnly_iff (linktype : UInt32) (data : Bytes) : SegmentsOnly linktype data ↔
    ∀ ip, (stripLink linktype data).run = .ok (some ip) →
      ¬ ShortIpv4 ip ∧ (Passes ip → Delimited linktype data ip) := by
  constructor
  · intro h ip hip
    refine ⟨?_, ?_⟩
    · have hnone : ShortIpv4 ip → ∀ conn, ¬ Carries linktype data conn := by
        intro hshort conn hcarries
        obtain ⟨ip', hlink, hdatagram, -⟩ := hcarries
        obtain rfl := Option.some.inj (Except.ok.inj (hlink.run_stripLink.symm.trans hip))
        have hlt := hshort.2.1
        have hheader := hdatagram.header
        have hcaptured := hdatagram.captured
        rw [tcpEnd] at hcaptured
        omega
      intro hshort
      have hrun : NoPanic (parsePacket linktype data) := ⟨none, h.rejects (hnone hshort)⟩
      rw [parsePacket, (noPanic_stripLink linktype data).bind_iff] at hrun
      exact (noPanic_parseIpTcp_iff ip).mp (hrun ip hip) hshort
    · intro hpass
      exact delimited_of_carries hpass hip
        (h.sound _ (run_parsePacket_eq_some.mpr ⟨ip, hip, hpass, rfl⟩))
  · intro h
    have hsound : ∀ conn, (parsePacket linktype data).run = .ok (some conn) →
        Carries linktype data conn := by
      intro conn hconn
      obtain ⟨ip, hip, hpass, rfl⟩ := run_parsePacket_eq_some.mp hconn
      exact carries_of_delimited hpass ((h ip hip).2 hpass)
    refine ⟨hsound, ?_⟩
    intro hnone
    have hrun : NoPanic (parsePacket linktype data) := by
      rw [parsePacket, (noPanic_stripLink linktype data).bind_iff]
      exact fun ip hip ↦ (noPanic_parseIpTcp_iff ip).mpr (h ip hip).1
    obtain ⟨o, ho⟩ := hrun
    cases o with
    | none => exact ho
    | some conn => exact absurd (hsound conn ho) (hnone conn)

/-- An acknowledgement without payload, padded to the least length of a frame. -/
def paddedFrame : Bytes :=
  [0, 0, 0, 0, 0, 1, 0, 0, 0, 0, 0, 2, 0x08, 0x00,
    0x45, 0, 0, 40, 0, 0, 0, 0, 64, 6, 0, 0, 10, 0, 0, 2, 8, 8, 8, 8,
    0xC3, 0x50, 0x01, 0xBB, 0, 0, 0, 0, 0, 0, 0, 0, 0x50, 0x10, 0, 0, 0, 0, 0, 0,
    0, 0, 0, 0, 0, 0]

/-- The padding comes out as payload. -/
theorem not_segmentsOnly_paddedFrame :
    ((parsePacket linktypeEthernet paddedFrame).run.map fun c ↦ c.map Conn.tcpPayload) =
      .ok (some [0, 0, 0, 0, 0, 0]) ∧ ¬ SegmentsOnly linktypeEthernet paddedFrame := by
  have hrun : ((parsePacket linktypeEthernet paddedFrame).run.map fun c ↦ c.map Conn.tcpPayload) =
      .ok (some [0, 0, 0, 0, 0, 0]) := by decide +kernel
  refine ⟨hrun, ?_⟩
  intro h
  cases hpacket : (parsePacket linktypeEthernet paddedFrame).run with
  | error p =>
      rw [hpacket] at hrun
      cases hrun
  | ok o =>
      cases o with
      | none =>
          rw [hpacket] at hrun
          cases hrun
      | some conn =>
          obtain ⟨ip, hlink, hdatagram, rfl⟩ := h.sound conn hpacket
          have hstrip : (stripLink linktypeEthernet paddedFrame).run =
              .ok (some (paddedFrame.drop 14)) := by decide +kernel
          obtain rfl := Option.some.inj (Except.ok.inj (hlink.run_stripLink.symm.trans hstrip))
          rw [hpacket] at hrun
          have hpayload := Option.some.inj (Except.ok.inj hrun)
          exact absurd hpayload (by decide +kernel)

end TrafficMap.SniSniff
