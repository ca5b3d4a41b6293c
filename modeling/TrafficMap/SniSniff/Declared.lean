import TrafficMap.SniSniff.Extract

/-!
# Declared lengths

What the lengths in a payload delimit: the extensions block inside the record,
the handshake and the extensions length, and the names inside the list length
of a `server_name` extension.  The parser reads these lengths and walks past
them, so it can return a name that no declared extension lists.
-/

namespace TrafficMap.SniSniff

open Wire Checked

/-- The captured bytes of the extensions block: no further than the record, the
handshake message and the block itself are declared to reach. -/
def extensionsBlock (hd : HelloHead) (rest : Bytes) : Bytes :=
  rest.take (min (5 + hd.recordLen - hd.bytes.length)
    (min (9 + hd.hsLen - hd.bytes.length) hd.extTotal))

def nameList (ext : Bytes) : Bytes := (ext.drop 2).take (ofBe (ext.take 2))

/-- The extension lists a host name that is `name` up to ASCII case. -/
def ListsName (ext name : Bytes) : Prop :=
  ∃ n ∈ tlvs 1 2 (nameList ext), n.1 = 0 ∧ asciiLower n.2 = asciiLower name

/-- The payload starts with a ClientHello whose extensions block has a
`server_name` extension that lists `name`. -/
def Declares (payload name : Bytes) : Prop :=
  ∃ (hd : HelloHead) (rest : Bytes), payload = hd.bytes ++ rest ∧
    ∃ e ∈ tlvs 2 2 (extensionsBlock hd rest), e.1 = 0 ∧ ListsName e.2 name

def SniSound (payload : Bytes) : Prop :=
  ∀ name, (parseClientHelloSni payload).run = .ok (some name) → Declares payload name

/-- `(0, host)` is the first entry of `ns ++ (0, host) :: _` that passes for a
host name, and no host name in front of it is other than UTF-8. -/
def FirstUsable (ns : List (ℕ × Bytes)) (host : Bytes) : Prop :=
  isHostname host = true ∧
    ∀ n ∈ ns, n.1 = 0 → isUtf8 n.2 = true ∧ isHostname n.2 = false

/-- The first `server_name` extension among the captured bytes, if it has a
usable host name, lies within the declared extensions block; and the first of
its usable names lies within the declared list, or else a later extension of
the block lists the same name. -/
def LengthsCover (payload : Bytes) : Prop :=
  ∀ (hd : HelloHead) (rest : Bytes) (es es' : List (ℕ × Bytes)) (body : Bytes)
    (ns ns' : List (ℕ × Bytes)) (host : Bytes),
    payload = hd.bytes ++ rest →
    tlvs 2 2 rest = es ++ (0, body) :: es' → (∀ e ∈ es, e.1 ≠ 0) →
    tlvs 1 2 (body.drop 2) = ns ++ (0, host) :: ns' → FirstUsable ns host →
    ∃ later, tlvs 2 2 (extensionsBlock hd rest) = es ++ (0, body) :: later ∧
      (ns ++ [(0, host)] <+: tlvs 1 2 (nameList body) ∨
        ∃ e ∈ later, e.1 = 0 ∧ ListsName e.2 host)

/-! ## Names up to case -/

theorem toNat_toAsciiLowercase (b : UInt8) :
    (toAsciiLowercase b).toNat =
      if 0x41 ≤ b.toNat ∧ b.toNat ≤ 0x5A then b.toNat + 0x20 else b.toNat := by
  have hiff : 0x41 ≤ b ∧ b ≤ 0x5A ↔ 0x41 ≤ b.toNat ∧ b.toNat ≤ 0x5A :=
    and_congr UInt8.le_iff_toNat_le UInt8.le_iff_toNat_le
  simp only [toAsciiLowercase, hiff]
  split
  · rw [UInt8.toNat_add]
    exact Nat.mod_eq_of_lt (by simp; omega)
  · rfl

theorem isAsciiGraphic_toAsciiLowercase (b : UInt8) :
    isAsciiGraphic (toAsciiLowercase b) = isAsciiGraphic b := by
  have hlo : (0x21 : UInt8).toNat = 0x21 := rfl
  have hhi : (0x7E : UInt8).toNat = 0x7E := rfl
  rw [Bool.eq_iff_iff]
  simp only [isAsciiGraphic, Bool.and_eq_true, decide_eq_true_eq, UInt8.le_iff_toNat_le,
    toNat_toAsciiLowercase, hlo, hhi]
  split <;> omega

theorem toAsciiLowercase_idem (b : UInt8) :
    toAsciiLowercase (toAsciiLowercase b) = toAsciiLowercase b := by
  apply UInt8.toNat_inj.mp
  rw [toNat_toAsciiLowercase (toAsciiLowercase b), toNat_toAsciiLowercase b]
  split_ifs <;> omega

theorem isHostname_asciiLower (s : Bytes) : isHostname (asciiLower s) = isHostname s := by
  simp [isHostname, asciiLower, Function.comp_def, isAsciiGraphic_toAsciiLowercase]

theorem isHostname_congr {s t : Bytes} (h : asciiLower s = asciiLower t) :
    isHostname s = isHostname t := by
  rw [← isHostname_asciiLower s, h, isHostname_asciiLower]

theorem asciiLower_idem (s : Bytes) : asciiLower (asciiLower s) = asciiLower s := by
  simp [asciiLower, Function.comp_def, toAsciiLowercase_idem]

/-! ## Where a returned name stands -/

theorem firstHost_eq_some_iff {names : List (ℕ × Bytes)} {name : Bytes} :
    firstHost names = some name ↔ ∃ ns host ns', names = ns ++ (0, host) :: ns' ∧
      FirstUsable ns host ∧ name = asciiLower host := by
  constructor
  · intro h
    induction names with
    | nil => cases h
    | cons n names ih =>
        obtain ⟨nameType, host⟩ := n
        have skip (hskip : firstHost names = some name)
            (hhead : nameType = 0 → isUtf8 host = true ∧ isHostname host = false) :
            ∃ ns host' ns', (nameType, host) :: names = ns ++ (0, host') :: ns' ∧
              FirstUsable ns host' ∧ name = asciiLower host' := by
          obtain ⟨ns, host', ns', rfl, hfirst, hname⟩ := ih hskip
          refine ⟨(nameType, host) :: ns, host', ns', rfl, ⟨hfirst.1, ?_⟩, hname⟩
          exact List.forall_mem_cons.mpr ⟨hhead, hfirst.2⟩
        rw [firstHost] at h
        split at h
        · next htype =>
            split at h
            · next hutf =>
                split at h
                · next hhost =>
                    subst htype
                    exact ⟨[], host, names, rfl, ⟨hhost, by simp⟩, (Option.some.inj h).symm⟩
                · next hhost => exact skip h fun _ ↦ ⟨hutf, by simpa using hhost⟩
            · cases h
        · next htype => exact skip h fun h0 ↦ absurd h0 htype
  · rintro ⟨ns, host, ns', rfl, ⟨hhost, hns⟩, rfl⟩
    induction ns with
    | nil => exact firstHost_host hhost ns'
    | cons n ns ih =>
        obtain ⟨hn, hns⟩ := List.forall_mem_cons.mp hns
        rw [List.cons_append, firstHost, ih hns]
        split
        · next htype =>
            obtain ⟨hutf, hbad⟩ := hn htype
            rw [if_pos hutf, if_neg (by simp [hbad])]
        · rfl

theorem sniOf_eq_some_iff {exts : List (ℕ × Bytes)} {name : Bytes} :
    sniOf exts = some name ↔ ∃ es body es', exts = es ++ (0, body) :: es' ∧
      (∀ e ∈ es, e.1 ≠ 0) ∧ serverName body = some name := by
  constructor
  · intro h
    obtain ⟨e, hfind, hname⟩ := Option.bind_eq_some_iff.mp h
    obtain ⟨htype, es, es', hexts, hes⟩ := List.find?_eq_some_iff_append.mp hfind
    obtain ⟨extType, body⟩ := e
    obtain rfl : extType = 0 := by simpa using htype
    exact ⟨es, body, es', hexts, by simpa using hes, hname⟩
  · rintro ⟨es, body, es', rfl, hes, hname⟩
    rw [sniOf_append hes, hname]

theorem serverName_eq_firstHost (ext : Bytes) :
    serverName ext = firstHost (tlvs 1 2 (ext.drop 2)) := by
  rw [serverName]
  split
  · rfl
  · next hlen =>
      rw [List.drop_of_length_le (by omega)]
      rfl

theorem prefix_cases {α : Type} {as bs l : List α} {a : α} (h : l <+: as ++ a :: bs) :
    (∃ later, l = as ++ a :: later) ∨ l <+: as := by
  have hsplit : as ++ a :: bs = (as ++ [a]) ++ bs := by simp
  rw [hsplit] at h
  rcases List.prefix_or_prefix_of_prefix h (List.prefix_append _ bs) with hshort | hlong
  · rcases List.prefix_concat_iff.mp hshort with rfl | hl
    · exact Or.inl ⟨[], rfl⟩
    · exact Or.inr hl
  · obtain ⟨later, rfl⟩ := hlong
    exact Or.inl ⟨later, by simp⟩

theorem nameList_prefix (ext : Bytes) : tlvs 1 2 (nameList ext) <+: tlvs 1 2 (ext.drop 2) :=
  tlvs_take_prefix (by decide) _ _

theorem extensionsBlock_prefix (hd : HelloHead) (rest : Bytes) :
    tlvs 2 2 (extensionsBlock hd rest) <+: tlvs 2 2 rest :=
  tlvs_take_prefix (by decide) _ _

/-- What the parser returns is the first usable name of the first `server_name`
extension in the captured bytes. -/
theorem parse_eq_some_iff {payload name : Bytes} :
    (parseClientHelloSni payload).run = .ok (some name) ↔
      ∃ (hd : HelloHead) (rest : Bytes) (es es' : List (ℕ × Bytes)) (body : Bytes)
        (ns ns' : List (ℕ × Bytes)) (host : Bytes),
        payload = hd.bytes ++ rest ∧ tlvs 2 2 rest = es ++ (0, body) :: es' ∧
        (∀ e ∈ es, e.1 ≠ 0) ∧ tlvs 1 2 (body.drop 2) = ns ++ (0, host) :: ns' ∧
        FirstUsable ns host ∧ name = asciiLower host := by
  constructor
  · intro h
    obtain ⟨hd, rest, rfl⟩ := exists_head_of_run h
    rw [run_parse_head] at h
    obtain ⟨es, body, es', hexts, hes, hbody⟩ := sniOf_eq_some_iff.mp (Except.ok.inj h)
    rw [serverName_eq_firstHost] at hbody
    obtain ⟨ns, host, ns', hnames, hfirst, hname⟩ := firstHost_eq_some_iff.mp hbody
    exact ⟨hd, rest, es, es', body, ns, ns', host, rfl, hexts, hes, hnames, hfirst, hname⟩
  · rintro ⟨hd, rest, es, es', body, ns, ns', host, rfl, hexts, hes, hnames, hfirst, hname⟩
    have hbody : serverName body = some name := by
      rw [serverName_eq_firstHost]
      exact firstHost_eq_some_iff.mpr ⟨ns, host, ns', hnames, hfirst, hname⟩
    rw [run_parse_head]
    exact congrArg _ (sniOf_eq_some_iff.mpr ⟨es, body, es', hexts, hes, hbody⟩)

theorem reaches_of_listsName {body host : Bytes} {ns ns' : List (ℕ × Bytes)}
    (hnames : tlvs 1 2 (body.drop 2) = ns ++ (0, host) :: ns') (hfirst : FirstUsable ns host)
    (hlists : ListsName body host) : ns ++ [(0, host)] <+: tlvs 1 2 (nameList body) := by
  obtain ⟨n, hmem, htype, hlower⟩ := hlists
  rcases prefix_cases (hnames ▸ nameList_prefix body) with ⟨later, hlater⟩ | hshort
  · rw [hlater]
    exact ⟨later, by simp⟩
  · have hbad := (hfirst.2 n (hshort.subset hmem) htype).2
    rw [isHostname_congr hlower, hfirst.1] at hbad
    cases hbad

/-- The parser returns declared names only, on exactly those payloads whose
lengths cover the name it finds. -/
theorem sniSound_iff (payload : Bytes) : SniSound payload ↔ LengthsCover payload := by
  constructor
  · intro hsound hd rest es es' body ns ns' host hpayload hexts hes hnames hfirst
    obtain ⟨hd', rest', hpayload', e, hmem, htype, hlists⟩ := hsound (asciiLower host)
      (parse_eq_some_iff.mpr
        ⟨hd, rest, es, es', body, ns, ns', host, hpayload, hexts, hes, hnames, hfirst, rfl⟩)
    obtain ⟨rfl, rfl⟩ := HelloHead.bytes_append_inj (hpayload.symm.trans hpayload')
    have hlists' : ListsName e.2 host := by
      simpa only [ListsName, asciiLower_idem] using hlists
    -- the extension that lists the name is not in front of the first `server_name`
    rcases prefix_cases (hexts ▸ extensionsBlock_prefix hd rest) with ⟨later, hlater⟩ | hshort
    · refine ⟨later, hlater, ?_⟩
      rw [hlater, List.mem_append, List.mem_cons] at hmem
      rcases hmem with hmem | rfl | hmem
      · exact absurd htype (hes e hmem)
      · exact Or.inl (reaches_of_listsName hnames hfirst hlists')
      · exact Or.inr ⟨e, hmem, htype, hlists'⟩
    · exact absurd htype (hes e (hshort.subset hmem))
  · intro hcover name hname
    obtain ⟨hd, rest, es, es', body, ns, ns', host, hpayload, hexts, hes, hnames, hfirst, rfl⟩ :=
      parse_eq_some_iff.mp hname
    obtain ⟨later, hlater, hdecl⟩ :=
      hcover hd rest es es' body ns ns' host hpayload hexts hes hnames hfirst
    have hlower : ListsName body host ∨ (∃ e ∈ later, e.1 = 0 ∧ ListsName e.2 host) := by
      refine hdecl.imp_left fun hreach ↦ ⟨(0, host), hreach.subset (by simp), rfl, rfl⟩
    refine ⟨hd, rest, hpayload, ?_⟩
    simp only [ListsName, asciiLower_idem]
    rcases hlower with hbody | ⟨e, hmem, htype, hlists⟩
    · exact ⟨(0, body), by simp [hlater], rfl, hbody⟩
    · exact ⟨e, by simp [hlater, hmem], htype, hlists⟩

/-! ## A name behind the extensions block -/

def bareHead : HelloHead where
  hsLen := 44
  clientVersion := [0x03, 0x02]
  random := List.replicate 32 0x11
  sessionId := []
  cipherSuites := [0x13, 0x01]
  compression := [0x01, 0x00]
  extTotal := 0
  recordVersion := [0x03, 0x02]
  recordLen := 48
  hsLen_lt := by decide
  length_clientVersion := rfl
  length_random := rfl
  sessionId_lt := by decide
  cipherSuites_lt := by decide
  compression_lt := by decide
  extTotal_lt := by decide
  length_recordVersion := rfl
  recordLen_lt := by decide

/-- Bytes that would list the name `a` in a `server_name` extension. -/
def trailer : Bytes := tlv 2 2 (0, vec 2 (tlv 1 2 (0, [0x61])))

theorem not_sniSound_trailer : ¬ SniSound (bareHead.bytes ++ trailer) := by
  intro hsound
  obtain ⟨hd, rest, hpayload, e, hmem, -⟩ := hsound [0x61] (by decide +kernel)
  obtain ⟨rfl, rfl⟩ := HelloHead.bytes_append_inj hpayload
  have hnone : tlvs 2 2 (extensionsBlock bareHead trailer) = [] := by decide +kernel
  rw [hnone] at hmem
  cases hmem

end TrafficMap.SniSniff
