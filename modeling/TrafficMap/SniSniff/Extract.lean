import TrafficMap.SniSniff.HelloHead

/-!
# Complete hellos

The writer of a TLS record that holds one whole ClientHello, every length the
length of what it delimits, and what the parser returns on the record it
writes.
-/

namespace TrafficMap.SniSniff

open Wire Checked

abbrev Item (tw lw : ℕ) :=
  {item : ℕ × Bytes // item.1 < 256 ^ tw ∧ item.2.length < 256 ^ lw}

def itemsBytes {tw lw : ℕ} (items : List (Item tw lw)) : Bytes :=
  (items.map Subtype.val).flatMap (tlv tw lw)

theorem tlvs_itemsBytes {tw lw : ℕ} (htw : 0 < tw) (items : List (Item tw lw)) :
    tlvs tw lw (itemsBytes items) = items.map Subtype.val := by
  have hfit : ∀ item ∈ items.map Subtype.val, item.1 < 256 ^ tw ∧ item.2.length < 256 ^ lw := by
    intro item hitem
    obtain ⟨i, -, rfl⟩ := List.mem_map.mp hitem
    exact i.2
  have hnil : tlvs tw lw [] = [] := rfl
  have h := tlvs_flatMap_append htw hfit []
  rwa [List.append_nil, hnil, List.append_nil] at h

/-- The content of a record with one ClientHello. -/
structure ClientHello where
  recordVersion : Bytes
  clientVersion : Bytes
  random : Bytes
  sessionId : Bytes
  cipherSuites : Bytes
  compression : Bytes
  extensions : List (Item 2 2)
  length_recordVersion : recordVersion.length = 2
  length_clientVersion : clientVersion.length = 2
  length_random : random.length = 32
  sessionId_lt : sessionId.length < 256 ^ 1
  cipherSuites_lt : cipherSuites.length < 256 ^ 2
  compression_lt : compression.length < 256 ^ 1

namespace ClientHello

def body (ch : ClientHello) : Bytes :=
  ch.clientVersion ++ (ch.random ++ (vec 1 ch.sessionId ++ (vec 2 ch.cipherSuites ++
    (vec 1 ch.compression ++ vec 2 (itemsBytes ch.extensions)))))

def handshake (ch : ClientHello) : Bytes := [0x01] ++ vec 3 ch.body

def record (ch : ClientHello) : Bytes := [0x16] ++ (ch.recordVersion ++ vec 2 ch.handshake)

/-- The handshake fits one record. -/
def Fits (ch : ClientHello) : Prop := ch.handshake.length < 256 ^ 2

instance (ch : ClientHello) : Decidable ch.Fits := inferInstanceAs (Decidable (_ < _))

/-- The first `server_name` extension lists `name` as its first host name, all
of it of bytes that `ok` accepts. -/
def Lists (ok : UInt8 → Bool) (ch : ClientHello) (name : Bytes) : Prop :=
  ∃ (es es' : List (Item 2 2)) (sn : Item 2 2) (ns ns' : List (Item 1 2)) (host : Item 1 2),
    ch.extensions = es ++ sn :: es' ∧ (∀ e ∈ es, e.1.1 ≠ 0) ∧
    sn.1 = (0, vec 2 (itemsBytes (ns ++ host :: ns'))) ∧ (∀ n ∈ ns, n.1.1 ≠ 0) ∧
    host.1 = (0, name) ∧ name ≠ [] ∧ name.length ≤ 253 ∧ ∀ b ∈ name, ok b = true

theorem length_handshake (ch : ClientHello) : ch.handshake.length = 4 + ch.body.length := by
  simp only [handshake, List.length_append, List.length_singleton, length_vec]
  omega

theorem extensions_lt {ch : ClientHello} (h : ch.Fits) :
    (itemsBytes ch.extensions).length < 256 ^ 2 := by
  have hbody : (itemsBytes ch.extensions).length ≤ ch.body.length := by
    simp only [body, List.length_append, length_vec]
    omega
  have hlen := ch.length_handshake
  have hfits : ch.handshake.length < 256 ^ 2 := h
  omega

def head (ch : ClientHello) (h : ch.Fits) : HelloHead where
  hsLen := ch.body.length
  clientVersion := ch.clientVersion
  random := ch.random
  sessionId := ch.sessionId
  cipherSuites := ch.cipherSuites
  compression := ch.compression
  extTotal := (itemsBytes ch.extensions).length
  recordVersion := ch.recordVersion
  recordLen := ch.handshake.length
  hsLen_lt := by
    have hlen := ch.length_handshake
    have hfits : ch.handshake.length < 256 ^ 2 := h
    omega
  length_clientVersion := ch.length_clientVersion
  length_random := ch.length_random
  sessionId_lt := ch.sessionId_lt
  cipherSuites_lt := ch.cipherSuites_lt
  compression_lt := ch.compression_lt
  extTotal_lt := extensions_lt h
  length_recordVersion := ch.length_recordVersion
  recordLen_lt := h

theorem record_eq (ch : ClientHello) (h : ch.Fits) :
    ch.record = (ch.head h).bytes ++ itemsBytes ch.extensions := by
  have hvec : vec 2 ch.handshake = toBe 2 ch.handshake.length ++ ([0x01] ++
      (toBe 3 ch.body.length ++ (ch.clientVersion ++ (ch.random ++ (vec 1 ch.sessionId ++
        (vec 2 ch.cipherSuites ++ (vec 1 ch.compression ++
          vec 2 (itemsBytes ch.extensions)))))))) :=
    rfl
  rw [record, hvec]
  simp [HelloHead.bytes, HelloHead.recordHeader, Handshake.bytes, head, vec]

end ClientHello

/-! ## The name that is found -/

theorem isUtf8_of_ascii {s : Bytes} (h : ∀ b ∈ s, b < 0x80) : isUtf8 s = true := by
  induction s with
  | nil => rfl
  | cons b s ih =>
      have hb : utf8Tail b = some [] := by
        rw [utf8Tail, if_pos (h b (by simp))]
      have hs := ih fun c hc ↦ h c (List.mem_cons_of_mem _ hc)
      rw [isUtf8, utf8Check, hb]
      exact hs

theorem lt_of_isAsciiGraphic {b : UInt8} (h : isAsciiGraphic b = true) : b < 0x80 := by
  simp only [isAsciiGraphic, Bool.and_eq_true, decide_eq_true_eq] at h
  exact UInt8.lt_of_le_of_lt h.2 (by decide)

theorem isHostname_iff {s : Bytes} :
    isHostname s = true ↔ s ≠ [] ∧ s.length ≤ 253 ∧ ∀ b ∈ s, isAsciiGraphic b = true := by
  simp [isHostname, and_assoc]

theorem isUtf8_of_isHostname {s : Bytes} (h : isHostname s = true) : isUtf8 s = true :=
  isUtf8_of_ascii fun b hb ↦ lt_of_isAsciiGraphic ((isHostname_iff.mp h).2.2 b hb)

theorem firstHost_append {ns : List (ℕ × Bytes)} (h : ∀ n ∈ ns, n.1 ≠ 0)
    (ns' : List (ℕ × Bytes)) : firstHost (ns ++ ns') = firstHost ns' := by
  induction ns with
  | nil => rfl
  | cons n ns ih =>
      rw [List.cons_append, firstHost, if_neg (h n (by simp)),
        ih fun m hm ↦ h m (List.mem_cons_of_mem _ hm)]

theorem firstHost_host {name : Bytes} (h : isHostname name = true) (ns : List (ℕ × Bytes)) :
    firstHost ((0, name) :: ns) = some (asciiLower name) := by
  rw [firstHost, if_pos rfl, if_pos (isUtf8_of_isHostname h), if_pos h]

theorem sniOf_append {es : List (ℕ × Bytes)} (h : ∀ e ∈ es, e.1 ≠ 0) (body : Bytes)
    (es' : List (ℕ × Bytes)) : sniOf (es ++ (0, body) :: es') = serverName body := by
  have hnone : es.find? (fun e ↦ decide (e.1 = 0)) = none := by
    simpa [List.find?_eq_none] using h
  simp [sniOf, List.find?_append, hnone]

theorem serverName_vec {names : List (Item 1 2)} :
    serverName (vec 2 (itemsBytes names)) = firstHost (names.map Subtype.val) := by
  have hdrop : (vec 2 (itemsBytes names)).drop 2 = itemsBytes names := by
    rw [vec, List.drop_append_of_le_length (by simp), List.drop_of_length_le (by simp),
      List.nil_append]
  rw [serverName, if_pos (by simp), hdrop, tlvs_itemsBytes (by decide)]

/-- Out of a record that holds one whole ClientHello the parser gets the first
host name, in lower case, if its bytes are graphic ASCII. -/
theorem parse_record_eq_name {ch : ClientHello} {name : Bytes} (hfits : ch.Fits)
    (hlists : ch.Lists isAsciiGraphic name) :
    (parseClientHelloSni ch.record).run = .ok (some (asciiLower name)) := by
  obtain ⟨es, es', sn, ns, ns', host, hexts, hes, hsn, hns, hhost, hne, hlen, hok⟩ := hlists
  have hname : isHostname name = true := isHostname_iff.mpr ⟨hne, hlen, hok⟩
  have hes' : ∀ e ∈ es.map Subtype.val, e.1 ≠ 0 := by
    simpa using fun a b hab he ↦ hes ⟨(a, b), hab⟩ he
  have hns' : ∀ n ∈ ns.map Subtype.val, n.1 ≠ 0 := by
    simpa using fun a b hab hn ↦ hns ⟨(a, b), hab⟩ hn
  rw [ch.record_eq hfits, run_parse_head, tlvs_itemsBytes (by decide), hexts, List.map_append,
    List.map_cons, hsn, sniOf_append hes', serverName_vec, List.map_append, List.map_cons, hhost,
    firstHost_append hns', firstHost_host hname]

/-! ## Two records -/

def listed (name : Bytes) (h : name.length < 256) : List (Item 1 2) :=
  [⟨(1, [0x61]), by decide⟩, ⟨(0, name), Nat.pos_of_ne_zero (by decide), h.trans (by decide)⟩]

theorem length_listed (name : Bytes) (h : name.length < 256) :
    (vec 2 (itemsBytes (listed name h))).length = 9 + name.length := by
  simp [listed, itemsBytes, tlv]
  omega

/-- A hello with one extension in front of the `server_name` that lists
`name`. -/
def twoNames (name : Bytes) (h : name.length < 256) : ClientHello where
  recordVersion := [0x03, 0x01]
  clientVersion := [0x03, 0x03]
  random := List.replicate 32 0
  sessionId := [0x2A]
  cipherSuites := [0x13, 0x01, 0x13, 0x02]
  compression := [0x00]
  extensions :=
    [⟨(0x0010, [0x00]), by decide⟩,
      ⟨(0, vec 2 (itemsBytes (listed name h))), Nat.pos_of_ne_zero (by decide), by
        rw [length_listed]
        omega⟩]
  length_recordVersion := rfl
  length_clientVersion := rfl
  length_random := rfl
  sessionId_lt := by decide
  cipherSuites_lt := by decide
  compression_lt := by decide

theorem fits_twoNames (name : Bytes) (h : name.length < 256) : (twoNames name h).Fits := by
  simp [ClientHello.Fits, ClientHello.handshake, ClientHello.body, twoNames, itemsBytes, tlv,
    listed]
  omega

theorem lists_twoNames {ok : UInt8 → Bool} {name : Bytes} (h : name.length < 256) (hne : name ≠ [])
    (hlen : name.length ≤ 253) (hok : ∀ b ∈ name, ok b = true) :
    (twoNames name h).Lists ok name :=
  ⟨[⟨(0x0010, [0x00]), by decide⟩], [], _, [⟨(1, [0x61]), by decide⟩], [],
    ⟨(0, name), Nat.pos_of_ne_zero (by decide), h.trans (by decide)⟩, rfl, by decide, rfl,
    by decide, rfl, hne, hlen, hok⟩

/-- The parser lowers the letters of `Qq.com`. -/
theorem parse_record_eq_name_qq :
    (parseClientHelloSni (twoNames [0x51, 0x71, 0x2E, 0x63, 0x6F, 0x6D] (by decide)).record).run =
      .ok (some [0x71, 0x71, 0x2E, 0x63, 0x6F, 0x6D]) :=
  parse_record_eq_name (fits_twoNames _ _)
    (lists_twoNames (by decide) (by decide) (by decide) (List.all_eq_true.mp rfl))

/-- `is_ascii` and not `is_ascii_control`: a space is printable. -/
def isAsciiPrintable (b : UInt8) : Bool := decide (0x20 ≤ b) && decide (b ≤ 0x7E)

/-- A printable name with a space in it is not found. -/
theorem not_parse_record_space :
    (twoNames [0x61, 0x20, 0x62] (by decide)).Fits ∧
      (twoNames [0x61, 0x20, 0x62] (by decide)).Lists isAsciiPrintable [0x61, 0x20, 0x62] ∧
      (parseClientHelloSni (twoNames [0x61, 0x20, 0x62] (by decide)).record).run ≠
        .ok (some (asciiLower [0x61, 0x20, 0x62])) := by
  refine ⟨fits_twoNames _ _, lists_twoNames _ (by decide) (by decide) (List.all_eq_true.mp rfl), ?_⟩
  decide +kernel

end TrafficMap.SniSniff
