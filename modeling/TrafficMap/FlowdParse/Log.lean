import Mathlib.Data.List.Forall2
import TrafficMap.FlowdParse.Stream

/-!
# Logs of flow records

A stored flow is a record in the shape the format can carry, with the reserved
and pad bytes its writer happened to choose.  Reading a log of stored flows
gives the records back; a log cut inside a payload is reported, and one cut
inside a header is not; a frame that does not decode ends the iteration.
-/

namespace TrafficMap.FlowdParse

open Wire Pull

/-! ## Payload lengths -/

def WordAligned (bound : ℕ) (bs : Bytes) : Prop := ∃ n ≤ bound, bs.length = 4 * n

theorem WordAligned.append {m n : ℕ} {bs cs : Bytes}
    (hb : WordAligned m bs) (hc : WordAligned n cs) : WordAligned (m + n) (bs ++ cs) := by
  obtain ⟨i, hi, hbs⟩ := hb
  obtain ⟨j, hj, hcs⟩ := hc
  exact ⟨i + j, by omega, by rw [List.length_append, hbs, hcs, mul_add]⟩

theorem wordAligned_getD {n : ℕ} {g : Option Bytes}
    (h : ∀ bs, g = some bs → bs.length = 4 * n) : WordAligned n (g.getD []) := by
  cases g with
  | none => exact ⟨0, Nat.zero_le n, rfl⟩
  | some bs => exact ⟨n, le_rfl, h bs rfl⟩

theorem wordAligned_group₁ {α : Type} {enc : α → Bytes} {n : ℕ}
    (henc : ∀ a, (enc a).length = 4 * n) (o : Option α) :
    WordAligned n ((group₁ enc o).getD []) := by
  apply wordAligned_getD
  intro bs hbs
  obtain ⟨a, _, rfl⟩ := Option.map_eq_some_iff.mp hbs
  exact henc a

theorem wordAligned_group₂ {α : Type} {enc : α → Bytes} {n : ℕ}
    (henc : ∀ a, (enc a).length = 2 * n) (o₁ o₂ : Option α) :
    WordAligned n ((group₂ enc o₁ o₂).getD []) := by
  apply wordAligned_getD
  intro bs hbs
  obtain ⟨a, _, b, _, rfl⟩ : ∃ a, o₁ = some a ∧ ∃ b, o₂ = some b ∧ enc a ++ enc b = bs := by
    simpa [group₂, Option.bind_eq_some_iff] using hbs
  rw [List.length_append, henc, henc]
  ring

theorem wordAligned_v4Group (o : Option IpAddr) : WordAligned 1 ((v4Group o).getD []) := by
  apply wordAligned_getD
  intro bs hbs
  match o, hbs with
  | some (.v4 a), hbs =>
      obtain rfl : a.octets = bs := by simpa [v4Group] using hbs
      exact a.length_octets

theorem wordAligned_v6Group (o : Option IpAddr) : WordAligned 4 ((v6Group o).getD []) := by
  apply wordAligned_getD
  intro bs hbs
  match o, hbs with
  | some (.v6 a), hbs =>
      obtain rfl : a.octets = bs := by simpa [v6Group] using hbs
      exact a.length_octets

theorem wordAligned_protoFlagsTosGroup (p : Padding) (r : FlowRecord) :
    WordAligned 1 ((protoFlagsTosGroup p r).getD []) := by
  apply wordAligned_getD
  intro bs hbs
  simp only [protoFlagsTosGroup, Option.bind_eq_bind, Option.pure_def,
    Option.bind_eq_some_iff, Option.some.injEq] at hbs
  obtain ⟨_, _, _, _, _, _, rfl⟩ := hbs
  rfl

theorem wordAligned_agentInfoGroup (p : Padding) (r : FlowRecord) :
    WordAligned 4 ((agentInfoGroup p r).getD []) := by
  apply wordAligned_getD
  intro bs hbs
  simp only [agentInfoGroup, Option.bind_eq_bind, Option.pure_def,
    Option.bind_eq_some_iff, Option.some.injEq] at hbs
  obtain ⟨_, _, _, _, _, _, _, _, rfl⟩ := hbs
  simp

theorem wordAligned_asInfoGroup (p : Padding) (r : FlowRecord) :
    WordAligned 3 ((asInfoGroup p r).getD []) := by
  apply wordAligned_getD
  intro bs hbs
  simp only [asInfoGroup, Option.bind_eq_bind, Option.pure_def,
    Option.bind_eq_some_iff, Option.some.injEq] at hbs
  obtain ⟨_, _, _, _, _, _, _, _, rfl⟩ := hbs
  simp

theorem wordAligned_flowEngineInfoGroup (r : FlowRecord) :
    WordAligned 3 ((flowEngineInfoGroup r).getD []) := by
  apply wordAligned_getD
  intro bs hbs
  simp only [flowEngineInfoGroup, Option.bind_eq_bind, Option.pure_def,
    Option.bind_eq_some_iff, Option.some.injEq] at hbs
  obtain ⟨_, _, _, _, _, _, _, _, rfl⟩ := hbs
  simp

/-- Every payload is a whole number of words, and the count fits the header's
byte. -/
theorem wordAligned_payloadOf (p : Padding) (r : FlowRecord) :
    WordAligned 44 (payloadOf p r) := by
  have hnil : WordAligned 0 [] := ⟨0, le_rfl, rfl⟩
  have h4 := wordAligned_v4Group
  have h6 := wordAligned_v6Group
  have h := (wordAligned_group₁ (n := 1) length_u32ToBe r.tag).append <|
    (wordAligned_group₂ (n := 2) length_u32ToBe r.recvSec r.recvUsec).append <|
    (wordAligned_protoFlagsTosGroup p r).append <|
    (h4 r.agentAddr).append <| (h6 r.agentAddr).append <|
    (h4 r.srcAddr).append <| (h6 r.srcAddr).append <|
    (h4 r.dstAddr).append <| (h6 r.dstAddr).append <|
    (h4 r.gatewayAddr).append <| (h6 r.gatewayAddr).append <|
    (wordAligned_group₂ (n := 1) length_u16ToBe r.srcPort r.dstPort).append <|
    (wordAligned_group₁ (n := 2) length_u64ToBe r.packets).append <|
    (wordAligned_group₁ (n := 2) length_u64ToBe r.octets).append <|
    (wordAligned_group₂ (n := 2) length_u32ToBe r.ifIndexIn r.ifIndexOut).append <|
    (wordAligned_agentInfoGroup p r).append <|
    (wordAligned_group₂ (n := 2) length_u32ToBe r.flowStart r.flowFinish).append <|
    (wordAligned_asInfoGroup p r).append <|
    (wordAligned_flowEngineInfoGroup r).append <|
    (wordAligned_group₁ (n := 1) length_u32ToBe r.crc32).append hnil
  exact ⟨h.choose, h.choose_spec.1.trans (by decide), h.choose_spec.2⟩

/-! ## Stored flows -/

/-- A record whose groups are wholly present or wholly absent, with the bytes
the format leaves to its writer.  An address field holds one address, so it
uses one family. -/
structure StoredFlow where
  record : FlowRecord
  grouped : Grouped record
  reserved : UInt16
  padding : Padding

namespace StoredFlow

def frame (s : StoredFlow) : Frame where
  lenWords := UInt8.ofNat ((payloadOf s.padding s.record).length / 4)
  reserved := s.reserved
  fields := fieldsOf s.padding s.record
  payload := payloadOf s.padding s.record
  length_payload := by
    obtain ⟨n, hn, hlen⟩ := wordAligned_payloadOf s.padding s.record
    have hbyte : (UInt8.ofNat n).toNat = n := by
      rw [UInt8.toNat_ofNat']
      exact Nat.mod_eq_of_lt (by omega)
    rw [hlen, Nat.mul_div_cancel_left _ (by decide), hbyte, mul_comm]

theorem decode_frame (s : StoredFlow) : s.frame.decode = .ok s.record := by
  have hrun := (consumes_decodeFields s.padding s.grouped).run_new
  have hdone : Cursor.remaining (Cursor.between (payloadOf s.padding s.record) []) = 0 := by
    simp [Cursor.remaining, Cursor.between]
  rw [Frame.decode, decodePayload, frame, hrun]
  simp [pure, Except.pure, hdone]

end StoredFlow

def encodeLog (log : List StoredFlow) : Bytes := encodeFrames (log.map StoredFlow.frame)

theorem map_decode_frames (log : List StoredFlow) :
    (log.map StoredFlow.frame).map Frame.decode =
      (log.map StoredFlow.record).map Except.ok := by
  simp [Function.comp_def, StoredFlow.decode_frame]

/-- Reading a log returns its records, in order, and then ends. -/
theorem flowIter_yields_log (log : List StoredFlow) :
    Yields FlowIter.next (iterOf (encodeLog log)) (log.map fun s ↦ .ok s.record) := by
  have hend : Yields FlowIter.next (iterOf []) [] := yields_short_header (by decide)
  have h := yields_frames_ok (map_decode_frames log) hend
  simpa [encodeLog, Function.comp_def] using h

/-! ## Logs cut inside a record -/

/-- The reader reports a log cut behind the records `whole`: it yields them and
then the truncation, and its call behind them does not pass for a clean end. -/
def ReportsCut (data : Bytes) (whole : List StoredFlow) : Prop :=
  Yields FlowIter.next (iterOf data)
      ((whole.map fun s ↦ .ok s.record) ++ [.error .truncatedRecord]) ∧
    (readRecord ⟨data.drop (encodeLog whole).length, none⟩).1 ≠ .ok none

theorem take_encodeLog (whole later : List StoredFlow) (s : StoredFlow) {k : ℕ}
    (hk : k < s.frame.bytes.length) :
    (encodeLog (whole ++ s :: later)).take ((encodeLog whole).length + k) =
      encodeLog whole ++ s.frame.bytes.take k := by
  have hsplit : encodeLog (whole ++ s :: later) =
      encodeLog whole ++ (s.frame.bytes ++ encodeLog later) := by
    simp [encodeLog]
  rw [hsplit, List.take_length_add_append, List.take_append_of_le_length hk.le]

theorem yields_cut_log (whole : List StoredFlow) (tail : Bytes)
    {items : List (Except ParseError FlowRecord)}
    (htail : Yields FlowIter.next (iterOf tail) items) :
    Yields FlowIter.next (iterOf (encodeLog whole ++ tail))
      ((whole.map fun s ↦ .ok s.record) ++ items) := by
  have h := yields_frames_ok (map_decode_frames whole) htail
  simpa [encodeLog, Function.comp_def] using h

/-- A log cut strictly inside a record is reported exactly when the record's
header is whole: `read_record` takes a cut header for a clean end. -/
theorem reportsCut_iff (whole later : List StoredFlow) (s : StoredFlow) (k : ℕ)
    (hlt : k < s.frame.bytes.length) :
    ReportsCut ((encodeLog (whole ++ s :: later)).take ((encodeLog whole).length + k)) whole ↔
      8 ≤ k := by
  rw [take_encodeLog whole later s hlt]
  constructor
  · rintro ⟨-, hnotEnd⟩
    by_contra hk
    have hshort : (s.frame.bytes.take k).length < 8 := by
      rw [List.length_take]
      omega
    rw [List.drop_left, readRecord_short_header hshort] at hnotEnd
    exact hnotEnd rfl
  · intro hk
    refine ⟨yields_cut_log whole _ (yields_short_payload s.frame hk hlt), ?_⟩
    rw [List.drop_left, readRecord_short_payload s.frame hk hlt]
    simp

def taggedFlow : StoredFlow where
  record := { tag := some 7 }
  grouped := by constructor <;> rfl
  reserved := 0
  padding := ⟨0, 0, 0⟩

/-- Cut behind the third byte of its header, the log of one record reads as
empty. -/
theorem not_reportsCut_header :
    ¬ ReportsCut ((encodeLog [taggedFlow]).take 3) [] := by
  have hend : readRecord ⟨(encodeLog [taggedFlow]).take 3, none⟩ = (.ok none, ⟨[], none⟩) :=
    readRecord_short_header (by decide)
  rintro ⟨-, hnotEnd⟩
  exact hnotEnd (congrArg Prod.fst hend)

theorem reportsCut_payload :
    ReportsCut ((encodeLog ([taggedFlow] ++ taggedFlow :: [])).take
      ((encodeLog [taggedFlow]).length + 9)) [taggedFlow] :=
  (reportsCut_iff [taggedFlow] [] taggedFlow 9 (by decide)).mpr (by decide)

/-! ## Undecodable frames -/

/-- What a frame should yield: its record, or one of the two errors of
`decode_payload`. -/
def ItemOf (f : Frame) : Except ParseError FlowRecord → Prop
  | .ok rec => f.decode = .ok rec
  | .error e =>
      f.decode = .error e ∧
        (e = .truncatedRecord ∨
          ∃ payload consumed fields, e = .payloadMismatch payload consumed fields)

def OneItemPerFrame (fs : List Frame) : Prop :=
  ∃ items, List.Forall₂ ItemOf fs items ∧
    Yields FlowIter.next (iterOf (encodeFrames fs)) items

theorem itemOf_iff {f : Frame} {item : Except ParseError FlowRecord} :
    ItemOf f item ↔ item = f.decode := by
  cases item with
  | ok rec => exact eq_comm
  | error e =>
      constructor
      · exact fun h ↦ h.1.symm
      · intro h
        refine ⟨h.symm, ?_⟩
        rcases decodePayload_error h.symm with he | ⟨consumed, he⟩
        · exact Or.inl he
        · exact Or.inr ⟨_, _, _, he⟩

theorem oneItemPerFrame_iff_yields {fs : List Frame} :
    OneItemPerFrame fs ↔
      Yields FlowIter.next (iterOf (encodeFrames fs)) (fs.map Frame.decode) := by
  have hitems : ∀ items, List.Forall₂ ItemOf fs items ↔ items = fs.map Frame.decode := by
    intro items
    have hrel : ItemOf = fun f item ↦ f.decode = item := by
      funext f item
      exact propext (itemOf_iff.trans eq_comm)
    rw [hrel, ← List.forall₂_map_left_iff (R := Eq), List.forall₂_eq_eq_eq]
    exact eq_comm
  constructor
  · rintro ⟨items, hall, hyields⟩
    exact (hitems items).mp hall ▸ hyields
  · intro h
    exact ⟨_, (hitems _).mpr rfl, h⟩

/-- A frame list yields one item per frame exactly when every frame but the
last decodes: the iterator is done at its first error. -/
theorem oneItemPerFrame_iff (fs : List Frame) :
    OneItemPerFrame fs ↔ ∀ f ∈ fs.dropLast, ∃ rec, f.decode = .ok rec := by
  rw [oneItemPerFrame_iff_yields]
  induction fs with
  | nil =>
      have hshort : ([] : Bytes).length < 8 := by decide
      simpa using yields_short_header hshort
  | cons f fs ih =>
      rw [encodeFrames_cons, List.map_cons]
      cases hdec : f.decode with
      | ok rec =>
          have hnext : (iterOf (f.bytes ++ encodeFrames fs)).next =
              (some (.ok rec), iterOf (encodeFrames fs)) := by
            rw [next_iterOf, readRecord_frame, hdec]
            rfl
          rw [yields_cons_iff, hnext, ih]
          cases fs with
          | nil => simp
          | cons g gs => simp [hdec]
      | error e =>
          -- The iterator has already ended, so there may be no further frame.
          have hreal := yields_frame_error hdec (encodeFrames fs)
          cases fs with
          | nil => simpa using hreal
          | cons g gs =>
              constructor
              · intro h
                simpa using h.unique hreal
              · intro h
                obtain ⟨rec, hok⟩ := h f (by simp)
                rw [hdec] at hok
                cases hok

def strayFrame : Frame where
  lenWords := 1
  reserved := 0
  fields := 0
  payload := [0, 0, 0, 0]
  length_payload := rfl

/-- Behind an undecodable frame a whole record is lost. -/
theorem not_oneItemPerFrame_stray :
    ¬ OneItemPerFrame [strayFrame, taggedFlow.frame] := by
  have hdec : strayFrame.decode = .error (.payloadMismatch 4 0 0) := by decide
  have hreal := yields_frame_error hdec (encodeFrames [taggedFlow.frame])
  intro h
  simpa using (oneItemPerFrame_iff_yields.mp h).unique hreal

end TrafficMap.FlowdParse
