import TrafficMap.Inet

/-!
# Reserved ranges

`crates/geoip/src/bogon.rs`: which reserved or special-use class an address
belongs to.
-/

namespace TrafficMap

open Ingestor Ingestor.IpNetwork

namespace Geo

def v6Segments (segments : List ℕ) (len : ℕ) : IpNetwork :=
  ⟨.v6 ⟨BitVec.ofNat 128 (segments.foldl (fun n s ↦ n * 2 ^ 16 + s) 0)⟩, len⟩

def bogons : List (IpNetwork × String) :=
  -- IPv4
  [(v4Net 0 0 0 0 8, "\"this\" network"),
    (v4Net 10 0 0 0 8, "private-use"),
    (v4Net 172 16 0 0 12, "private-use"),
    (v4Net 192 168 0 0 16, "private-use"),
    (v4Net 100 64 0 0 10, "carrier-grade NAT"),
    (v4Net 127 0 0 0 8, "loopback"),
    (v4Net 169 254 0 0 16, "link-local"),
    (v4Net 192 0 0 0 24, "IETF protocol assignments"),
    (v4Net 192 0 2 0 24, "TEST-NET-1"),
    (v4Net 198 18 0 0 15, "benchmark testing"),
    (v4Net 198 51 100 0 24, "TEST-NET-2"),
    (v4Net 203 0 113 0 24, "TEST-NET-3"),
    (v4Net 224 0 0 0 4, "multicast"),
    (v4Net 240 0 0 0 4, "future use"),
    -- IPv6
    (v6Segments [0, 0, 0, 0, 0, 0, 0, 0] 128, "node-scope unspecified"),
    (v6Segments [0, 0, 0, 0, 0, 0, 0, 1] 128, "node-scope loopback"),
    (v6Segments [0, 0, 0, 0, 0, 0xffff, 0, 0] 96, "IPv4-mapped"),
    (v6Segments [0, 0, 0, 0, 0, 0, 0, 0] 96, "IPv4-compatible"),
    (v6Segments [0x100, 0, 0, 0, 0, 0, 0, 0] 64, "remotely triggered black hole"),
    (v6Segments [0x2001, 0x10, 0, 0, 0, 0, 0, 0] 28, "ORCHID"),
    (v6Segments [0x2001, 0xdb8, 0, 0, 0, 0, 0, 0] 32, "documentation prefix"),
    (v6Segments [0x3fff, 0, 0, 0, 0, 0, 0, 0] 20, "documentation prefix"),
    (v6Segments [0xfc00, 0, 0, 0, 0, 0, 0, 0] 7, "ULA"),
    (v6Segments [0xfe80, 0, 0, 0, 0, 0, 0, 0] 10, "link-local unicast"),
    (v6Segments [0xfec0, 0, 0, 0, 0, 0, 0, 0] 10, "site-local unicast"),
    (v6Segments [0xff00, 0, 0, 0, 0, 0, 0, 0] 8, "multicast v6")]

def bogonClass (address : IpAddr) : Option String :=
  (bogons.find? fun range ↦ within (toNet address) range.1).map Prod.snd

/-- The lookup over a table in any order. -/
def classIn (ranges : List (IpNetwork × String)) (address : IpAddr) : Option String :=
  (ranges.find? fun range ↦ within (toNet address) range.1).map Prod.snd

theorem bogonClass_eq (address : IpAddr) : bogonClass address = classIn bogons address := rfl

example : bogonClass (.v4 ⟨0xC0000205⟩) = some "TEST-NET-1" := by decide

/-! ## Local addresses -/

section Local

theorem isSome_bogonClass {address : IpAddr} {range : IpNetwork × String} (hmem : range ∈ bogons)
    (h : within (toNet address) range.1 = true) : (bogonClass address).isSome = true := by
  rw [bogonClass, Option.isSome_map, List.find?_isSome]
  exact ⟨range, hmem, h⟩

theorem isSome_of_v4Net {a : Ipv4Addr} {o₀ o₁ o₂ o₃ len : ℕ} {kind : String}
    (hmem : (v4Net o₀ o₁ o₂ o₃ len, kind) ∈ bogons) (hlen : len ≤ 32)
    (h : a.toBits.toNat / 2 ^ (32 - len) =
      (o₀ * 2 ^ 24 + o₁ * 2 ^ 16 + o₂ * 2 ^ 8 + o₃) % 2 ^ 32 / 2 ^ (32 - len)) :
    (bogonClass (.v4 a)).isSome = true :=
  isSome_bogonClass hmem ((within_v4Net a hlen).mpr h)

theorem within_v6Segments (a : Ipv6Addr) {segments : List ℕ} {len : ℕ} (hlen : len ≤ 128) :
    within (toNet (.v6 a)) (v6Segments segments len) = true ↔
      a.toBits.toNat / 2 ^ (128 - len) =
        segments.foldl (fun n s ↦ n * 2 ^ 16 + s) 0 % 2 ^ 128 / 2 ^ (128 - len) := by
  simp [within, toNet, v6Segments, hlen]

theorem isSome_of_v6Segments {a : Ipv6Addr} {segments : List ℕ} {len : ℕ} {kind : String}
    (hmem : (v6Segments segments len, kind) ∈ bogons) (hlen : len ≤ 128)
    (h : a.toBits.toNat / 2 ^ (128 - len) =
      segments.foldl (fun n s ↦ n * 2 ^ 16 + s) 0 % 2 ^ 128 / 2 ^ (128 - len)) :
    (bogonClass (.v6 a)).isSome = true :=
  isSome_bogonClass hmem ((within_v6Segments a hlen).mpr h)

theorem isSome_bogonClass_v4 {a : Ipv4Addr} (h : LocalV4 a.toBits.toNat) :
    (bogonClass (.v4 a)).isSome = true := by
  have hlt := a.toBits.toNat_lt
  rcases h with h | h | h | h | h | h | h | h | h
  · have hmem : (v4Net 10 0 0 0 8, "private-use") ∈ bogons := by decide
    exact isSome_of_v4Net hmem (by decide) (by omega)
  · have hmem : (v4Net 172 16 0 0 12, "private-use") ∈ bogons := by decide
    exact isSome_of_v4Net hmem (by decide) (by omega)
  · have hmem : (v4Net 192 168 0 0 16, "private-use") ∈ bogons := by decide
    exact isSome_of_v4Net hmem (by decide) (by omega)
  · have hmem : (v4Net 127 0 0 0 8, "loopback") ∈ bogons := by decide
    exact isSome_of_v4Net hmem (by decide) (by omega)
  · have hmem : (v4Net 169 254 0 0 16, "link-local") ∈ bogons := by decide
    exact isSome_of_v4Net hmem (by decide) (by omega)
  · have hmem : (v4Net 100 64 0 0 10, "carrier-grade NAT") ∈ bogons := by decide
    exact isSome_of_v4Net hmem (by decide) (by omega)
  · have hmem : (v4Net 224 0 0 0 4, "multicast") ∈ bogons := by decide
    exact isSome_of_v4Net hmem (by decide) (by omega)
  · -- broadcast has no range of its own
    have hmem : (v4Net 240 0 0 0 4, "future use") ∈ bogons := by decide
    exact isSome_of_v4Net hmem (by decide) (by omega)
  · have hmem : (v4Net 0 0 0 0 8, "\"this\" network") ∈ bogons := by decide
    exact isSome_of_v4Net hmem (by decide) (by omega)

theorem isSome_bogonClass_v6 {a : Ipv6Addr} (h : LocalV6 a.toBits.toNat) :
    (bogonClass (.v6 a)).isSome = true := by
  rcases h with h | h | h | h | h
  · have hmem : (v6Segments [0xfc00, 0, 0, 0, 0, 0, 0, 0] 7, "ULA") ∈ bogons := by decide
    exact isSome_of_v6Segments hmem (by decide) h
  · have hmem : (v6Segments [0xfe80, 0, 0, 0, 0, 0, 0, 0] 10, "link-local unicast") ∈ bogons := by
      decide
    exact isSome_of_v6Segments hmem (by decide) h
  · have hmem : (v6Segments [0xff00, 0, 0, 0, 0, 0, 0, 0] 8, "multicast v6") ∈ bogons := by decide
    exact isSome_of_v6Segments hmem (by decide) h
  · have hmem : (v6Segments [0, 0, 0, 0, 0, 0, 0, 1] 128, "node-scope loopback") ∈ bogons := by
      decide
    exact isSome_of_v6Segments hmem (by decide) ((Nat.div_one _).trans h)
  · have hmem : (v6Segments [0, 0, 0, 0, 0, 0, 0, 0] 128, "node-scope unspecified") ∈ bogons := by
      decide
    exact isSome_of_v6Segments hmem (by decide) ((Nat.div_one _).trans h)

/-- An address that is treated as local has a reserved class. -/
theorem reserved_of_isLocal (ip : IpAddr) (h : isLocal ip = true) :
    (bogonClass ip).isSome = true := by
  cases ip with
  | v4 a => exact isSome_bogonClass_v4 ((isLocalV4_iff a).mp h)
  | v6 a => exact isSome_bogonClass_v6 ((isLocalV6_iff a).mp h)

theorem reserved_broadcast : (bogonClass (.v4 ⟨0xFFFFFFFF⟩)).isSome = true :=
  reserved_of_isLocal (.v4 ⟨0xFFFFFFFF⟩) (by decide)

end Local

/-! ## Order of the table -/

section Order

variable {α β : Type} {p : α → Bool} {f : α → β} {l : List α}

theorem find?_map_of_forall {a : α} (ha : a ∈ l) (hpa : p a = true)
    (h : ∀ b ∈ l, p b = true → f b = f a) : (l.find? p).map f = some (f a) := by
  cases hfind : l.find? p with
  | none => exact absurd hpa (List.find?_eq_none.mp hfind a ha)
  | some b => exact congrArg some (h b (List.mem_of_find?_eq_some hfind) (List.find?_some hfind))

/-- The first match is the same in every order exactly if all matches are. -/
theorem find?_map_perm_iff : (∀ l' : List α, l'.Perm l → (l'.find? p).map f = (l.find? p).map f) ↔
    ∀ a ∈ l, p a = true → ∀ b ∈ l, p b = true → f a = f b := by
  constructor
  · intro h
    have hfirst : ∀ a ∈ l, p a = true → (l.find? p).map f = some (f a) := by
      intro a ha hpa
      obtain ⟨s, t, hl⟩ := List.append_of_mem ha
      have hperm : (a :: (s ++ t)).Perm l := hl ▸ List.perm_middle.symm
      rw [← h _ hperm, List.find?_cons_of_pos hpa, Option.map_some]
    intro a ha hpa b hb hpb
    exact Option.some.inj ((hfirst a ha hpa).symm.trans (hfirst b hb hpb))
  · intro h l' hperm
    cases hfind : l.find? p with
    | none =>
        rw [List.find?_eq_none.mpr]
        intro a ha
        exact List.find?_eq_none.mp hfind a (hperm.subset ha)
    | some a =>
        have ha := List.mem_of_find?_eq_some hfind
        have hpa := List.find?_some hfind
        exact find?_map_of_forall (hperm.symm.subset ha) hpa
          fun b hb hpb ↦ h b (hperm.subset hb) hpb a ha hpa

end Order

section Overlap

/-- One of the two networks lies within the other. -/
def overlap (n n' : IpNetwork) : Bool :=
  let len := min n.prefixLen n'.prefixLen
  match n.ip, n'.ip with
  | .v4 x, .v4 y => x.toBits.toNat / 2 ^ (32 - len) == y.toBits.toNat / 2 ^ (32 - len)
  | .v6 x, .v6 y => x.toBits.toNat / 2 ^ (128 - len) == y.toBits.toNat / 2 ^ (128 - len)
  | _, _ => false

/-- Leading bits that agree go on agreeing when there are fewer. -/
theorem leading_of_le {x y w len len' : ℕ} (hle : len' ≤ len) (hlen : len ≤ w)
    (h : x / 2 ^ (w - len) = y / 2 ^ (w - len)) : x / 2 ^ (w - len') = y / 2 ^ (w - len') := by
  have hpow : 2 ^ (w - len') = 2 ^ (w - len) * 2 ^ (len - len') := by
    rw [← pow_add]
    congr 1
    omega
  rw [hpow, ← Nat.div_div_eq_div_mul, ← Nat.div_div_eq_div_mul, h]

theorem leading_min {x y a w len len' : ℕ} (hlen : len ≤ w) (hlen' : len' ≤ w)
    (h : a / 2 ^ (w - len) = x / 2 ^ (w - len)) (h' : a / 2 ^ (w - len') = y / 2 ^ (w - len')) :
    x / 2 ^ (w - min len len') = y / 2 ^ (w - min len len') :=
  (leading_of_le (min_le_left len len') hlen h.symm).trans
    (leading_of_le (min_le_right len len') hlen' h')

theorem overlap_of_within {address : IpAddr} {n n' : IpNetwork}
    (h : within (toNet address) n = true) (h' : within (toNet address) n' = true) :
    overlap n n' = true := by
  obtain ⟨ip, len⟩ := n
  obtain ⟨ip', len'⟩ := n'
  simp only [within, Bool.and_eq_true, decide_eq_true_eq] at h h'
  cases address with
  | v4 a =>
      cases ip with
      | v6 x => exact absurd h.2 (by simp [toNet])
      | v4 x =>
          cases ip' with
          | v6 y => exact absurd h'.2 (by simp [toNet])
          | v4 y => exact beq_iff_eq.mpr (leading_min h.1 h'.1 (beq_iff_eq.mp h.2)
              (beq_iff_eq.mp h'.2))
  | v6 a =>
      cases ip with
      | v4 x => exact absurd h.2 (by simp [toNet])
      | v6 x =>
          cases ip' with
          | v4 y => exact absurd h'.2 (by simp [toNet])
          | v6 y => exact beq_iff_eq.mpr (leading_min h.1 h'.1 (beq_iff_eq.mp h.2)
              (beq_iff_eq.mp h'.2))

/-- Of the ranges with different classes only the two that hold a single address
overlap another. -/
theorem overlap_bogons : ∀ r ∈ bogons, ∀ r' ∈ bogons, overlap r.1 r'.1 = true → r.2 ≠ r'.2 →
    ∃ s ∈ [r, r'], s.1 = ⟨.v6 ⟨0⟩, 128⟩ ∨ s.1 = ⟨.v6 ⟨1⟩, 128⟩ := by
  decide +kernel

theorem eq_of_within_single {address : IpAddr} {x : BitVec 128}
    (h : within (toNet address) ⟨.v6 ⟨x⟩, 128⟩ = true) : address = .v6 ⟨x⟩ := by
  cases address with
  | v4 a => simp [within, toNet] at h
  | v6 a =>
      simp only [within, toNet, le_refl, decide_true, Bool.true_and, beq_iff_eq, Nat.sub_self,
        pow_zero, Nat.div_one] at h
      rw [← BitVec.eq_of_toNat_eq h]

/-- The class of an address is the same in every order of the table exactly if
the address is neither unspecified nor the loopback of IPv6. -/
theorem classIn_perm_iff (address : IpAddr) :
    (∀ ranges, ranges.Perm bogons → classIn ranges address = bogonClass address) ↔
      address ≠ .v6 ⟨0⟩ ∧ address ≠ .v6 ⟨1⟩ := by
  rw [bogonClass_eq]
  refine find?_map_perm_iff.trans ⟨fun h ↦ ?_, fun ⟨hzero, hone⟩ r hr hin r' hr' hin' ↦ ?_⟩
  · have hboth : ∀ n n' : IpNetwork × String, n ∈ bogons → n' ∈ bogons → n.2 ≠ n'.2 →
        ¬ (within (toNet address) n.1 = true ∧ within (toNet address) n'.1 = true) :=
      fun n n' hn hn' hne ⟨hin, hin'⟩ ↦ hne (h n hn hin n' hn' hin')
    constructor
    · rintro rfl
      refine hboth (v6Segments [0, 0, 0, 0, 0, 0, 0, 0] 128, "node-scope unspecified")
        (v6Segments [0, 0, 0, 0, 0, 0, 0, 0] 96, "IPv4-compatible") ?_ ?_ ?_ ?_
      all_goals decide
    · rintro rfl
      refine hboth (v6Segments [0, 0, 0, 0, 0, 0, 0, 1] 128, "node-scope loopback")
        (v6Segments [0, 0, 0, 0, 0, 0, 0, 0] 96, "IPv4-compatible") ?_ ?_ ?_ ?_
      all_goals decide
  · by_contra hne
    obtain ⟨s, hs, hsingle⟩ := overlap_bogons r hr r' hr' (overlap_of_within hin hin') hne
    have hwithin : within (toNet address) s.1 = true := by
      rcases List.mem_pair.mp hs with rfl | rfl
      · exact hin
      · exact hin'
    rcases hsingle with hs | hs
    · exact hzero (eq_of_within_single (hs ▸ hwithin))
    · exact hone (eq_of_within_single (hs ▸ hwithin))

theorem unspecified_ambiguous : ¬ ∀ (address : IpAddr) (ranges : List (IpNetwork × String)),
    ranges.Perm bogons → classIn ranges address = bogonClass address := by
  intro h
  have hreverse := h (.v6 ⟨0⟩) bogons.reverse (List.reverse_perm bogons)
  exact absurd hreverse (by decide)

end Overlap

end Geo

end TrafficMap
