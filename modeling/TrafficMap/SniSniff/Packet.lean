import TrafficMap.Lib.Checked
import TrafficMap.Net

/-!
# Link, IP and TCP headers

The packet half of `crates/sni-sniff`: strip the link-layer header that the
capture's link type announces, then the IP and the TCP header, and keep the
connection with its TCP payload.  The IPv4 path checks byte 9 with `get` and
then indexes bytes 12 to 19 directly.
-/

namespace TrafficMap.SniSniff

open Wire Checked

def linktypeEthernet : UInt32 := 1
def linktypeRaw : UInt32 := 101
def linktypeNull : UInt32 := 0

def readU16 (b : Bytes) (le : Bool) : Checked UInt16 := do
  let b₀ ← index b 0
  let b₁ ← index b 1
  return if le then u16FromBe [b₁, b₀] else u16FromBe [b₀, b₁]

structure Conn where
  src : IpAddr
  srcPort : UInt16
  dst : IpAddr
  dstPort : UInt16
  tcpPayload : Bytes
deriving DecidableEq, Repr

/-- The L3 payload after an Ethernet header, following one optional 802.1Q VLAN
tag.  Only IPv4/IPv6 ethertypes pass through. -/
def stripEthernet (data : Bytes) : Checked Bytes := do
  let ethertype ← readU16 (← getRange data 12 14) false
  if ethertype = 0x8100 then
    -- VLAN: 2 bytes TCI + 2 bytes inner ethertype
    let ethertype ← readU16 (← getRange data 16 18) false
    if ethertype = 0x0800 ∨ ethertype = 0x86DD then getFrom data 18 else failure
  else if ethertype = 0x0800 ∨ ethertype = 0x86DD then getFrom data 14 else failure

/-- Version 4 of `parse_ip_tcp`: the two addresses and the L4 bytes. -/
def parseIpv4 (ip : Bytes) : Checked (IpAddr × IpAddr × Bytes) := do
  let ihl := ((← index ip 0) &&& 0x0f).toNat * 4
  if ihl < 20 then failure
  if (← get ip 9) ≠ 6 then failure -- not TCP
  let s₀ ← index ip 12
  let s₁ ← index ip 13
  let s₂ ← index ip 14
  let s₃ ← index ip 15
  let d₀ ← index ip 16
  let d₁ ← index ip 17
  let d₂ ← index ip 18
  let d₃ ← index ip 19
  let l4 ← getFrom ip ihl
  return (.v4 (Ipv4Addr.ofOctets [s₀, s₁, s₂, s₃]), .v4 (Ipv4Addr.ofOctets [d₀, d₁, d₂, d₃]), l4)

def parseIpv6 (ip : Bytes) : Checked (IpAddr × IpAddr × Bytes) := do
  if ip.length < 40 then failure
  if (← index ip 6) ≠ 6 then failure -- TCP only; skip extension-header chains
  let s ← slice ip 8 24
  let d ← slice ip 24 40
  let l4 ← getFrom ip 40
  return (.v6 (Ipv6Addr.ofOctets s), .v6 (Ipv6Addr.ofOctets d), l4)

/-- The TCP part of `parse_ip_tcp`. -/
def parseTcp (src dst : IpAddr) (l4 : Bytes) : Checked Conn := do
  let srcPort ← readU16 (← getRange l4 0 2) false
  let dstPort ← readU16 (← getRange l4 2 4) false
  let dataOff := ((← get l4 12) >>> 4).toNat * 4
  let tcpPayload ← getFrom l4 dataOff
  return { src, srcPort, dst, dstPort, tcpPayload }

def parseIpTcp (ip : Bytes) : Checked Conn := do
  let version := (← get ip 0) >>> 4
  let (src, dst, l4) ←
    if version = 4 then parseIpv4 ip
    else if version = 6 then parseIpv6 ip
    else failure
  parseTcp src dst l4

def stripLink (linktype : UInt32) (data : Bytes) : Checked Bytes :=
  if linktype = linktypeEthernet then stripEthernet data
  else if linktype = linktypeRaw then pure data
  else if linktype = linktypeNull then getFrom data 4
  else failure

def parsePacket (linktype : UInt32) (data : Bytes) : Checked Conn := do
  let l3 ← stripLink linktype data
  parseIpTcp l3

/-! ## Where parsing can panic -/

theorem noPanic_readU16 {b : Bytes} (hb : 2 ≤ b.length) (le : Bool) : NoPanic (readU16 b le) := by
  simp only [readU16, noPanic_index_bind]
  exact ⟨by omega, by omega, noPanic_pure _⟩

theorem two_le_length_range {b : Bytes} {lo : ℕ} (h : lo + 2 ≤ b.length) :
    2 ≤ ((b.take (lo + 2)).drop lo).length := by
  rw [List.length_drop, List.length_take]
  omega

theorem noPanic_stripEthernet (data : Bytes) : NoPanic (stripEthernet data) := by
  have hpass : ∀ (ethertype : UInt16) (off : ℕ), NoPanic
      (if ethertype = 0x0800 ∨ ethertype = 0x86DD then getFrom data off else failure) := by
    intro ethertype off
    split
    · exact noPanic_getFrom data off
    · exact noPanic_failure
  simp only [stripEthernet, noPanic_getRange_bind]
  intro h14
  refine (noPanic_readU16 (two_le_length_range h14) _).bind fun ethertype ↦ ?_
  split
  · rw [noPanic_getRange_bind]
    intro h18
    exact (noPanic_readU16 (two_le_length_range h18) _).bind fun inner ↦ hpass inner 18
  · exact hpass ethertype 14

theorem noPanic_stripLink (linktype : UInt32) (data : Bytes) :
    NoPanic (stripLink linktype data) := by
  rw [stripLink]
  split
  · exact noPanic_stripEthernet data
  · split
    · exact noPanic_pure data
    · split
      · exact noPanic_getFrom data 4
      · exact noPanic_failure

theorem noPanic_parseTcp (src dst : IpAddr) (l4 : Bytes) : NoPanic (parseTcp src dst l4) := by
  simp only [parseTcp, noPanic_getRange_bind]
  intro h2
  refine (noPanic_readU16 (two_le_length_range h2) _).bind fun srcPort ↦ ?_
  rw [noPanic_getRange_bind]
  intro h4
  refine (noPanic_readU16 (two_le_length_range h4) _).bind fun dstPort ↦ ?_
  rw [noPanic_get_bind]
  intro h12
  exact (noPanic_getFrom _ _).bind fun _ ↦ noPanic_pure _

theorem noPanic_parseIpv6 (ip : Bytes) : NoPanic (parseIpv6 ip) := by
  rw [parseIpv6]
  by_cases h : ip.length < 40
  · simp [h]
  · have h40 : 40 ≤ ip.length := not_lt.mp h
    simp only [if_neg h, noPanic_index_bind]
    refine ⟨by omega, ?_⟩
    split
    · exact noPanic_failure_bind _
    · simp only [noPanic_slice_bind]
      exact ⟨by omega, h40, (noPanic_getFrom _ _).bind fun _ ↦ noPanic_pure _⟩

/-- An IPv4 header that names TCP and a full header length, cut between the
byte that is checked and the last one that is indexed. -/
def ShortIpv4 (ip : Bytes) : Prop :=
  10 ≤ ip.length ∧ ip.length < 20 ∧ ip.getD 0 0 >>> 4 = 4 ∧
    5 ≤ (ip.getD 0 0 &&& 0x0f).toNat ∧ ip.getD 9 0 = 6

theorem noPanic_parseIpv4_iff {ip : Bytes} (h0 : 0 < ip.length) :
    NoPanic (parseIpv4 ip) ↔
      (20 ≤ (ip[0] &&& 0x0f).toNat * 4 → ∀ _ : 9 < ip.length, ip[9] = 6 → 20 ≤ ip.length) := by
  simp only [parseIpv4, noPanic_index_bind, exists_prop_of_true h0]
  by_cases hihl : (ip[0] &&& 0x0f).toNat * 4 < 20
  · have hnot : ¬ 20 ≤ (ip[0] &&& 0x0f).toNat * 4 := by omega
    simp only [if_pos hihl, noPanic_failure_bind, hnot, false_implies]
  · simp only [if_neg hihl, noPanic_get_bind]
    refine ⟨fun h _ h9 hproto ↦ ?_, fun h h9 ↦ ?_⟩
    · have hrun := h h9
      simp only [hproto, ne_eq, not_true_eq_false, if_false, noPanic_index_bind] at hrun
      -- The last address byte is indexed only after the others were in bounds.
      obtain ⟨_, _, _, _, _, _, _, h19, _⟩ := hrun
      omega
    · split
      · exact noPanic_failure_bind _
      · next hproto =>
          have h20 : 20 ≤ ip.length := h (by omega) h9 (by simpa using hproto)
          simp only [noPanic_index_bind]
          exact ⟨by omega, by omega, by omega, by omega, by omega, by omega, by omega, by omega,
            (noPanic_getFrom _ _).bind fun _ ↦ noPanic_pure _⟩

theorem noPanic_parseIpTcp_iff (ip : Bytes) : NoPanic (parseIpTcp ip) ↔ ¬ ShortIpv4 ip := by
  simp only [parseIpTcp, noPanic_get_bind]
  by_cases h0 : 0 < ip.length
  · have hhead : ip.getD 0 0 = ip[0] := by simp [List.getD, h0]
    have htcp : ∀ r : IpAddr × IpAddr × Bytes, NoPanic (parseTcp r.1 r.2.1 r.2.2) :=
      fun r ↦ noPanic_parseTcp r.1 r.2.1 r.2.2
    simp only [h0, forall_true_left]
    by_cases h4 : ip[0] >>> 4 = 4
    · have hproto : ∀ h9 : 9 < ip.length, ip.getD 9 0 = ip[9] := fun h9 ↦ by simp [List.getD, h9]
      rw [if_pos h4, noPanic_bind_iff htcp, noPanic_parseIpv4_iff h0, ShortIpv4, hhead]
      constructor
      · rintro h ⟨h10, hlt, -, hihl, h9⟩
        have h20 := h (by omega) (by omega) (by rwa [← hproto])
        omega
      · intro h hihl h9 htcp
        by_contra hlt
        exact h ⟨h9, by omega, h4, by omega, by rwa [hproto h9]⟩
    · have hnot : ¬ ShortIpv4 ip := fun h ↦ h4 (hhead ▸ h.2.2.1)
      simp only [if_neg h4, hnot, not_false_eq_true, iff_true]
      split
      · exact (noPanic_parseIpv6 ip).bind htcp
      · exact noPanic_failure_bind _
  · have hnot : ¬ ShortIpv4 ip := fun h ↦ by
      have := h.1
      omega
    simp [h0, hnot]

/-- Parsing a packet panics exactly when its L3 bytes are an IPv4 TCP header
cut between byte 10 and byte 20. -/
theorem noPanic_parsePacket_iff (linktype : UInt32) (data : Bytes) :
    NoPanic (parsePacket linktype data) ↔
      ∀ ip, (stripLink linktype data).run = .ok (some ip) → ¬ ShortIpv4 ip := by
  rw [parsePacket, (noPanic_stripLink linktype data).bind_iff]
  exact forall₂_congr fun ip _ ↦ noPanic_parseIpTcp_iff ip

def shortPacket : Bytes := [0x45, 0, 0, 40, 0, 0, 0, 0, 64, 6, 0, 0]

theorem panic_shortPacket : ¬ NoPanic (parsePacket linktypeRaw shortPacket) := by
  have hrun : (parsePacket linktypeRaw shortPacket).run = .error ⟨12, 12⟩ := by decide
  rintro ⟨o, ho⟩
  rw [hrun] at ho
  cases ho

end TrafficMap.SniSniff
