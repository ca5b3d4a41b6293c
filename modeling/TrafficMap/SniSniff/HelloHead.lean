import TrafficMap.SniSniff.HelloWalk

/-!
# The fixed part of a ClientHello

A TLS record that starts with a ClientHello, up to and including its extensions
length.  The parser answers only on payloads of this shape, the shape of a
payload is unique, and behind it the parser returns the name that the
extensions yield.
-/

namespace TrafficMap.SniSniff

open Wire Checked

/-- The handshake header of a ClientHello and its fields in front of the
extensions, with the two lengths as they are written. -/
structure Handshake where
  hsLen : ℕ
  clientVersion : Bytes
  random : Bytes
  sessionId : Bytes
  cipherSuites : Bytes
  compression : Bytes
  extTotal : ℕ
  hsLen_lt : hsLen < 256 ^ 3
  length_clientVersion : clientVersion.length = 2
  length_random : random.length = 32
  sessionId_lt : sessionId.length < 256 ^ 1
  cipherSuites_lt : cipherSuites.length < 256 ^ 2
  compression_lt : compression.length < 256 ^ 1
  extTotal_lt : extTotal < 256 ^ 2

structure HelloHead extends Handshake where
  recordVersion : Bytes
  recordLen : ℕ
  length_recordVersion : recordVersion.length = 2
  recordLen_lt : recordLen < 256 ^ 2

namespace Handshake

def bytes (ch : Handshake) : Bytes :=
  [0x01] ++ (toBe 3 ch.hsLen ++ (ch.clientVersion ++ (ch.random ++ (vec 1 ch.sessionId ++
    (vec 2 ch.cipherSuites ++ (vec 1 ch.compression ++ toBe 2 ch.extTotal))))))

end Handshake

theorem toBe_inj {w a b : ℕ} (ha : a < 256 ^ w) (hb : b < 256 ^ w) (h : toBe w a = toBe w b) :
    a = b := by
  have := congrArg ofBe h
  rwa [ofBe_toBe_of_lt ha, ofBe_toBe_of_lt hb] at this

namespace Handshake

theorem bytes_append_inj {ch ch' : Handshake} {rest rest' : Bytes}
    (h : ch.bytes ++ rest = ch'.bytes ++ rest') : ch = ch' ∧ rest = rest' := by
  simp only [bytes, List.append_assoc] at h
  obtain ⟨-, h⟩ := List.append_inj h rfl
  obtain ⟨hlen, h⟩ := List.append_inj h (by simp)
  obtain ⟨hver, h⟩ := List.append_inj h (by rw [ch.length_clientVersion, ch'.length_clientVersion])
  obtain ⟨hrand, h⟩ := List.append_inj h (by rw [ch.length_random, ch'.length_random])
  obtain ⟨hsid, h⟩ := vec_append_inj ch.sessionId_lt ch'.sessionId_lt h
  obtain ⟨hcs, h⟩ := vec_append_inj ch.cipherSuites_lt ch'.cipherSuites_lt h
  obtain ⟨hcomp, h⟩ := vec_append_inj ch.compression_lt ch'.compression_lt h
  obtain ⟨hext, h⟩ := List.append_inj h (by simp)
  have hlen' := toBe_inj ch.hsLen_lt ch'.hsLen_lt hlen
  have hext' := toBe_inj ch.extTotal_lt ch'.extTotal_lt hext
  refine ⟨?_, h⟩
  cases ch
  cases ch'
  simp_all

end Handshake

namespace HelloHead

def recordHeader (hd : HelloHead) : Bytes :=
  [0x16] ++ (hd.recordVersion ++ toBe 2 hd.recordLen)

def bytes (hd : HelloHead) : Bytes := hd.recordHeader ++ hd.toHandshake.bytes

@[simp] theorem length_recordHeader (hd : HelloHead) : hd.recordHeader.length = 5 := by
  simp [recordHeader, hd.length_recordVersion]

theorem length_bytes (hd : HelloHead) : hd.bytes.length = 5 + hd.toHandshake.bytes.length := by
  simp [bytes]

theorem bytes_append_inj {hd hd' : HelloHead} {rest rest' : Bytes}
    (h : hd.bytes ++ rest = hd'.bytes ++ rest') : hd = hd' ∧ rest = rest' := by
  simp only [bytes, recordHeader, List.append_assoc] at h
  obtain ⟨-, h⟩ := List.append_inj h rfl
  obtain ⟨hver, h⟩ := List.append_inj h (by rw [hd.length_recordVersion, hd'.length_recordVersion])
  obtain ⟨hlen, h⟩ := List.append_inj h (by simp)
  obtain ⟨hch, h⟩ := Handshake.bytes_append_inj h
  have hlen' := toBe_inj hd.recordLen_lt hd'.recordLen_lt hlen
  refine ⟨?_, h⟩
  cases hd
  cases hd'
  simp_all

end HelloHead

/-! ## The parser on a head -/

theorem Fixed.consumes {α : Type} {p : Parse α} {n : ℕ} {f : Bytes → α} (hp : Fixed p n f)
    {bs : Bytes} (hlen : bs.length = n) : Consumes p bs (f bs) := by
  intro pre suf
  subst hlen
  have h := hp pre (bs ++ suf)
  rw [if_pos (by simp), List.take_left, List.drop_left] at h
  exact h

theorem consumes_skipVec {τ β : Type} {w : ℕ} {len : Parse τ} {f : Bytes → τ}
    (toNat : τ → ℕ) (hlen : Fixed len w f) {bs cs : Bytes} {k : Unit → Parse β} {b : β}
    (hval : toNat (f (toBe w bs.length)) = bs.length) (hk : Consumes (k ()) cs b) :
    Consumes (len >>= fun n ↦ Cursor.skip (toNat n) >>= k) (vec w bs ++ cs) b := by
  rw [vec, List.append_assoc]
  refine (hlen.consumes (length_toBe w bs.length)).bind ?_
  rw [hval]
  exact ((fixed_skip bs.length).consumes rfl).bind hk

theorem toNat_headD_toBe {n : ℕ} (h : n < 256 ^ 1) : ((toBe 1 n).headD 0).toNat = n := by
  have := ofBe_toBe_of_lt h
  simpa [toBe, ofBe] using this

theorem toNat_u16FromBe_toBe {n : ℕ} (h : n < 256 ^ 2) : (u16FromBe (toBe 2 n)).toNat = n := by
  rw [u16FromBe, ofBe_toBe_of_lt h, UInt16.toNat_ofNat']
  exact Nat.mod_eq_of_lt (by simpa using h)

theorem consumes_skipHello (ch : Handshake) : Consumes skipHello ch.bytes () := by
  refine (fixed_u8.consumes (show ([0x01] : Bytes).length = 1 from rfl)).bind ?_
  refine (fixed_u24.consumes (length_toBe 3 ch.hsLen)).bind ?_
  refine ((fixed_skip 2).consumes ch.length_clientVersion).bind ?_
  refine ((fixed_skip 32).consumes ch.length_random).bind ?_
  refine consumes_skipVec UInt8.toNat fixed_u8 (toNat_headD_toBe ch.sessionId_lt) ?_
  refine consumes_skipVec UInt16.toNat fixed_u16
    (toNat_u16FromBe_toBe ch.cipherSuites_lt) ?_
  refine consumes_skipVec UInt8.toNat fixed_u8 (toNat_headD_toBe ch.compression_lt) ?_
  exact (fixed_u16.consumes (length_toBe 2 ch.extTotal)).bind_pure (Consumes.pure _)

theorem run_walk (p : Parse Bytes) (msg : Bytes) :
    (do let (sni, _) ← p.run (Cursor.new msg); return sni : Checked Bytes).run =
      evalAt p [] msg := by
  rw [OptionT.run_bind, evalAt, Cursor.new_eq_between]
  cases (p.run (Cursor.between [] msg)).run with
  | error e => rfl
  | ok o => cases o <;> rfl

theorem run_parse_record {payload : Bytes} (hhead : payload[0]? = some 0x16)
    (hlen : 5 ≤ payload.length) :
    (parseClientHelloSni payload).run =
      evalAt (do skipHello; walkExtensions ((payload.drop 5).length + 1)) [] (payload.drop 5) := by
  rw [← run_walk, parseClientHelloSni, OptionT.run_bind, run_get, hhead]
  change (getFrom payload 5 >>= _ : Checked Bytes).run = _
  rw [OptionT.run_bind, run_getFrom hlen]
  rfl

theorem run_parse_other {payload : Bytes}
    (h : ¬ (payload[0]? = some 0x16 ∧ 5 ≤ payload.length)) :
    (parseClientHelloSni payload).run = .ok none := by
  rw [parseClientHelloSni, OptionT.run_bind, run_get]
  cases hhead : payload[0]? with
  | none => rfl
  | some b =>
      by_cases hb : b = 0x16
      · subst hb
        have hshort : payload.length < 5 := by
          by_contra hle
          exact h ⟨hhead, by omega⟩
        change (getFrom payload 5 >>= _ : Checked Bytes).run = _
        rw [OptionT.run_bind, run_getFrom_of_lt hshort]
        rfl
      · change (if b ≠ 0x16 then _ else _ : Checked Bytes).run = _
        rw [if_pos hb]
        rfl

theorem evalAt_bind_of_consumes {α β : Type} {p : Parse α} {bs : Bytes} {a : α}
    (hp : Consumes p bs a) (k : α → Parse β) (pre suf : Bytes) :
    evalAt (p >>= k) pre (bs ++ suf) = evalAt (k a) (pre ++ bs) suf := by
  rw [evalAt, StateT.run_bind, hp pre suf, pure_bind]
  rfl

/-- Behind the head the parser returns the name of the extension chain in the
captured bytes, whatever the lengths in the head say. -/
theorem run_parse_head (hd : HelloHead) (rest : Bytes) :
    (parseClientHelloSni (hd.bytes ++ rest)).run = .ok (sniOf (tlvs 2 2 rest)) := by
  have hmsg : (hd.bytes ++ rest).drop 5 = hd.toHandshake.bytes ++ rest := by
    rw [HelloHead.bytes, List.append_assoc, ← hd.length_recordHeader, List.drop_left]
  have hlen : 5 ≤ (hd.bytes ++ rest).length := by
    rw [List.length_append, hd.length_bytes]
    omega
  rw [run_parse_record rfl hlen, hmsg, evalAt_bind_of_consumes (consumes_skipHello hd.toHandshake),
    evalAt_walkExtensions, tlvChain_of_le (by decide)]
  rw [List.length_append]
  omega

/-! ## Payloads the parser answers on -/

theorem Fixed.of_some {α β : Type} {p : Parse α} {n : ℕ} {f : Bytes → α} (hp : Fixed p n f)
    {k : α → Parse β} {pre suf : Bytes} {r : β} (h : evalAt (p >>= k) pre suf = .ok (some r)) :
    ∃ bs suf', bs.length = n ∧ suf = bs ++ suf' ∧
      evalAt (k (f bs)) (pre ++ bs) suf' = .ok (some r) := by
  rw [hp.evalAt_bind] at h
  split at h
  · next hlen => exact ⟨_, _, List.length_take_of_le hlen, (List.take_append_drop n suf).symm, h⟩
  · cases h

theorem vec_of_skip {w n : ℕ} {len bs : Bytes} (hlen : len.length = w) (hn : ofBe len = n)
    (hbs : bs.length = n) : vec w bs = len ++ bs := by
  subst hlen hn
  rw [vec, hbs, toBe_ofBe]

theorem ofBe_of_length_one {bs : Bytes} (h : bs.length = 1) : ofBe bs = (bs.headD 0).toNat := by
  obtain ⟨b, rfl⟩ := List.length_eq_one_iff.mp h
  simp [ofBe]

/-- The walk gets past the fixed fields only where they stand. -/
theorem exists_handshake {β : Type} {k : Parse β} {msg : Bytes} {r : β}
    (h : evalAt (do skipHello; k) [] msg = .ok (some r)) :
    ∃ ch : Handshake, ∃ rest, msg = ch.bytes ++ rest := by
  rw [skipHello, bind_assoc] at h
  obtain ⟨hsType, s₀, hlen₀, hs₀, h⟩ := fixed_u8.of_some h
  by_cases htype : hsType.headD 0 ≠ 0x01
  · rw [if_pos htype] at h
    cases h
  · rw [if_neg htype] at h
    simp only [bind_assoc] at h
    obtain ⟨hsLen, s₁, hlen₁, hs₁, h⟩ := fixed_u24.of_some h
    obtain ⟨ver, s₂, hver, hs₂, h⟩ := (fixed_skip 2).of_some h
    obtain ⟨random, s₃, hrandom, hs₃, h⟩ := (fixed_skip 32).of_some h
    obtain ⟨sidLen, s₄, hsidLen, hs₄, h⟩ := fixed_u8.of_some h
    obtain ⟨sid, s₅, hsid, hs₅, h⟩ := (fixed_skip _).of_some h
    obtain ⟨csLen, s₆, hcsLen, hs₆, h⟩ := fixed_u16.of_some h
    obtain ⟨cs, s₇, hcs, hs₇, h⟩ := (fixed_skip _).of_some h
    obtain ⟨compLen, s₈, hcompLen, hs₈, h⟩ := fixed_u8.of_some h
    obtain ⟨comp, s₉, hcomp, hs₉, h⟩ := (fixed_skip _).of_some h
    obtain ⟨extTotal, rest, hext, hs₁₀, -⟩ := fixed_u16.of_some h
    have hbyte : hsType = [0x01] := by
      obtain ⟨b, rfl⟩ := List.length_eq_one_iff.mp hlen₀
      simpa using htype
    have hsLen_lt : ofBe hsLen < 256 ^ 3 := hlen₁ ▸ ofBe_lt hsLen
    have hsid_lt : sid.length < 256 ^ 1 := by
      rw [hsid]
      exact (sidLen.headD 0).toNat_lt
    have hcs_lt : cs.length < 256 ^ 2 := by
      rw [hcs]
      exact (u16FromBe csLen).toNat_lt
    have hcomp_lt : comp.length < 256 ^ 1 := by
      rw [hcomp]
      exact (compLen.headD 0).toNat_lt
    have hext_lt : ofBe extTotal < 256 ^ 2 := hext ▸ ofBe_lt extTotal
    refine ⟨⟨ofBe hsLen, ver, random, sid, cs, comp, ofBe extTotal, hsLen_lt, hver, hrandom,
      hsid_lt, hcs_lt, hcomp_lt, hext_lt⟩, rest, ?_⟩
    have hhsLen : toBe 3 (ofBe hsLen) = hsLen := hlen₁ ▸ toBe_ofBe hsLen
    have hextTotal : toBe 2 (ofBe extTotal) = extTotal := hext ▸ toBe_ofBe extTotal
    simp only [Handshake.bytes, hhsLen, hextTotal,
      vec_of_skip hsidLen (ofBe_of_length_one hsidLen) hsid,
      vec_of_skip hcsLen (toNat_u16FromBe hcsLen.le).symm hcs,
      vec_of_skip hcompLen (ofBe_of_length_one hcompLen) hcomp, List.append_assoc]
    rw [hs₀, hbyte, hs₁, hs₂, hs₃, hs₄, hs₅, hs₆, hs₇, hs₈, hs₉, hs₁₀]

/-- The parser answers only on payloads that start with a hello's head. -/
theorem exists_head_of_run {payload name : Bytes}
    (h : (parseClientHelloSni payload).run = .ok (some name)) :
    ∃ hd : HelloHead, ∃ rest, payload = hd.bytes ++ rest := by
  by_cases hrec : payload[0]? = some 0x16 ∧ 5 ≤ payload.length
  · obtain ⟨hhead, hlen⟩ := hrec
    rw [run_parse_record hhead hlen] at h
    obtain ⟨ch, rest, hmsg⟩ := exists_handshake h
    clear h
    match payload, hlen with
    | b₀ :: b₁ :: b₂ :: b₃ :: b₄ :: tail, _ =>
        obtain rfl : b₀ = 0x16 := by simpa using hhead
        obtain rfl : tail = ch.bytes ++ rest := hmsg
        have hlen₂ : toBe 2 (ofBe [b₃, b₄]) = [b₃, b₄] := toBe_ofBe [b₃, b₄]
        refine ⟨⟨ch, [b₁, b₂], ofBe [b₃, b₄], rfl, ofBe_lt [b₃, b₄]⟩, rest, ?_⟩
        simp [HelloHead.bytes, HelloHead.recordHeader, hlen₂]
  · rw [run_parse_other hrec] at h
    cases h

end TrafficMap.SniSniff
