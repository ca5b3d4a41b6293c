import TrafficMap.FlowdParse.Encode
import TrafficMap.Lib.Pull

/-!
# Streams of flowd records

A frame is a header with exactly the payload it announces.  Reading a frame
consumes it whatever its payload decodes to, so the iterator stays in step with
the frames of a stream for as long as it keeps calling the reader.  What it
yields is then settled by the first frame it cannot decode and by the bytes
behind the last whole frame.
-/

namespace TrafficMap.FlowdParse

open Wire Pull

/-! ## Frames -/

/-- A complete version-0x60 record on the wire. -/
structure Frame where
  lenWords : UInt8
  reserved : UInt16
  fields : UInt32
  payload : Bytes
  length_payload : payload.length = lenWords.toNat * 4

namespace Frame

def header (f : Frame) : Bytes :=
  [storeV1Version, f.lenWords] ++ (u16ToBe f.reserved ++ u32ToBe f.fields)

def bytes (f : Frame) : Bytes := f.header ++ f.payload

def decode (f : Frame) : Except ParseError FlowRecord := decodePayload f.fields f.payload

@[simp] theorem length_header (f : Frame) : f.header.length = 8 := by simp [header]

@[simp] theorem length_bytes (f : Frame) :
    f.bytes.length = 8 + f.lenWords.toNat * 4 := by
  simp [bytes, f.length_payload]

end Frame

def encodeFrames (fs : List Frame) : Bytes := fs.flatMap Frame.bytes

@[simp] theorem encodeFrames_nil : encodeFrames [] = [] := rfl

@[simp] theorem encodeFrames_cons (f : Frame) (fs : List Frame) :
    encodeFrames (f :: fs) = f.bytes ++ encodeFrames fs := rfl

@[simp] theorem encodeFrames_append (fs gs : List Frame) :
    encodeFrames (fs ++ gs) = encodeFrames fs ++ encodeFrames gs :=
  List.flatMap_append

/-! ## One record -/

theorem readExact_append {bs : Bytes} {n : ℕ} (hn : bs.length = n) (suf : Bytes)
    (fault : Option ErrorKind) :
    Reader.readExact n ⟨bs ++ suf, fault⟩ = (.ok bs, ⟨suf, fault⟩) := by
  subst hn
  simp [Reader.readExact]

theorem readExact_short {n : ℕ} {r : Reader} (h : r.data.length < n) :
    r.readExact n = (.error (r.fault.getD .unexpectedEof), { r with data := [] }) := by
  simp [Reader.readExact, h]

theorem readPayload_header (f : Frame) (r : Reader) :
    readPayload f.header r =
      match r.readExact (f.lenWords.toNat * 4) with
      | (.error .unexpectedEof, r') => (.error .truncatedRecord, r')
      | (.error e, r') => (.error (.io e), r')
      | (.ok payload, r') => ((decodePayload f.fields payload).map some, r') := by
  have hversion : f.header.getD 0 0 = storeV1Version := rfl
  have hwords : f.header.getD 1 0 = f.lenWords := rfl
  have hfields : u32FromBe (f.header.drop 4) = f.fields := u32FromBe_u32ToBe f.fields
  rw [readPayload, hversion, hwords, hfields]
  exact if_neg (not_not.mpr rfl)

theorem readRecord_frame (f : Frame) (suf : Bytes) (fault : Option ErrorKind) :
    readRecord ⟨f.bytes ++ suf, fault⟩ = (f.decode.map some, ⟨suf, fault⟩) := by
  rw [readRecord, Frame.bytes, List.append_assoc, readExact_append f.length_header]
  simp only [readPayload_header, readExact_append f.length_payload]
  rfl

/-- A header that does not arrive whole reads as the end of the stream. -/
theorem readRecord_short_header {data : Bytes} (h : data.length < 8) :
    readRecord ⟨data, none⟩ = (.ok none, ⟨[], none⟩) := by
  simp [readRecord, readExact_short (r := ⟨data, none⟩) h]

theorem readRecord_short_payload (f : Frame) {k : ℕ} (hk : 8 ≤ k)
    (hlt : k < f.bytes.length) :
    readRecord ⟨f.bytes.take k, none⟩ = (.error .truncatedRecord, ⟨[], none⟩) := by
  have htake : f.bytes.take k = f.header ++ f.payload.take (k - 8) := by
    rw [Frame.bytes, List.take_append, f.length_header,
      List.take_of_length_le (by simpa using hk)]
  have hshort : (f.payload.take (k - 8)).length < f.lenWords.toNat * 4 := by
    have hpayload := f.length_payload
    rw [f.length_bytes] at hlt
    rw [List.length_take]
    omega
  rw [readRecord, htake, readExact_append f.length_header]
  simp only [readPayload_header, readExact_short (r := ⟨_, none⟩) hshort]
  rfl

/-! ## Decoding errors -/

theorem failsOnly_take (n : ℕ) : FailsOnly (· = .truncatedRecord) (Cursor.take n) := by
  intro c e h
  rw [StateT.run, Cursor.take] at h
  split at h
  · exact (Except.error.inj h).symm
  · cases h

theorem failsOnly_word {α : Type} (n : ℕ) (decode : Bytes → α) :
    FailsOnly (· = .truncatedRecord) (do let b ← Cursor.take n; return decode b) :=
  (failsOnly_take n).bind fun _ ↦ FailsOnly.pure _

theorem failsOnly_readOne {α : Type} {read : Decode α} {set : FlowRecord → α → FlowRecord}
    (h : FailsOnly (· = .truncatedRecord) read) (r : FlowRecord) :
    FailsOnly (· = .truncatedRecord) (readOne read set r) :=
  h.bind fun _ ↦ FailsOnly.pure _

theorem failsOnly_readTwo {α β : Type} {read₁ : Decode α} {read₂ : Decode β}
    {set : FlowRecord → α → β → FlowRecord}
    (h₁ : FailsOnly (· = .truncatedRecord) read₁)
    (h₂ : FailsOnly (· = .truncatedRecord) read₂) (r : FlowRecord) :
    FailsOnly (· = .truncatedRecord) (readTwo read₁ read₂ set r) :=
  h₁.bind fun _ ↦ h₂.bind fun _ ↦ FailsOnly.pure _

theorem failsOnly_onField {fields bit : UInt32} {read : FlowRecord → Decode FlowRecord}
    (h : ∀ r, FailsOnly (· = .truncatedRecord) (read r)) (r : FlowRecord) :
    FailsOnly (· = .truncatedRecord) (onField fields bit read r) := by
  rw [onField]
  split
  · exact h r
  · exact FailsOnly.pure r

theorem failsOnly_decodeFields (fields : UInt32) :
    FailsOnly (· = .truncatedRecord) (decodeFields fields) := by
  have w8 : FailsOnly (· = .truncatedRecord) Cursor.u8 := failsOnly_word 1 _
  have w16 : FailsOnly (· = .truncatedRecord) Cursor.u16 := failsOnly_word 2 _
  have w32 : FailsOnly (· = .truncatedRecord) Cursor.u32 := failsOnly_word 4 _
  have w64 : FailsOnly (· = .truncatedRecord) Cursor.u64 := failsOnly_word 8 _
  have a4 : FailsOnly (· = .truncatedRecord) Cursor.v4 := failsOnly_word 4 _
  have a6 : FailsOnly (· = .truncatedRecord) Cursor.v6 := failsOnly_word 16 _
  refine (failsOnly_onField (failsOnly_readOne w32) _).bind fun _ ↦ ?_
  refine (failsOnly_onField (failsOnly_readTwo w32 w32) _).bind fun _ ↦ ?_
  refine (failsOnly_onField (fun _ ↦ w8.bind fun _ ↦ w8.bind fun _ ↦ w8.bind fun _ ↦
    w8.bind fun _ ↦ FailsOnly.pure _) _).bind fun _ ↦ ?_
  refine (failsOnly_onField (failsOnly_readOne a4) _).bind fun _ ↦ ?_
  refine (failsOnly_onField (failsOnly_readOne a6) _).bind fun _ ↦ ?_
  refine (failsOnly_onField (failsOnly_readOne a4) _).bind fun _ ↦ ?_
  refine (failsOnly_onField (failsOnly_readOne a6) _).bind fun _ ↦ ?_
  refine (failsOnly_onField (failsOnly_readOne a4) _).bind fun _ ↦ ?_
  refine (failsOnly_onField (failsOnly_readOne a6) _).bind fun _ ↦ ?_
  refine (failsOnly_onField (failsOnly_readOne a4) _).bind fun _ ↦ ?_
  refine (failsOnly_onField (failsOnly_readOne a6) _).bind fun _ ↦ ?_
  refine (failsOnly_onField (failsOnly_readTwo w16 w16) _).bind fun _ ↦ ?_
  refine (failsOnly_onField (failsOnly_readOne w64) _).bind fun _ ↦ ?_
  refine (failsOnly_onField (failsOnly_readOne w64) _).bind fun _ ↦ ?_
  refine (failsOnly_onField (failsOnly_readTwo w32 w32) _).bind fun _ ↦ ?_
  refine (failsOnly_onField (fun _ ↦ w32.bind fun _ ↦ w32.bind fun _ ↦ w32.bind fun _ ↦
    w16.bind fun _ ↦ w16.bind fun _ ↦ FailsOnly.pure _) _).bind fun _ ↦ ?_
  refine (failsOnly_onField (failsOnly_readTwo w32 w32) _).bind fun _ ↦ ?_
  refine (failsOnly_onField (fun _ ↦ w32.bind fun _ ↦ w32.bind fun _ ↦ w8.bind fun _ ↦
    w8.bind fun _ ↦ w16.bind fun _ ↦ FailsOnly.pure _) _).bind fun _ ↦ ?_
  refine (failsOnly_onField (fun _ ↦ w16.bind fun _ ↦ w16.bind fun _ ↦ w32.bind fun _ ↦
    w32.bind fun _ ↦ FailsOnly.pure _) _).bind fun _ ↦ ?_
  exact failsOnly_onField (failsOnly_readOne w32) _

/-- A payload is refused for being too short or for having bytes left over. -/
theorem decodePayload_error {fields : UInt32} {payload : Bytes} {e : ParseError}
    (h : decodePayload fields payload = .error e) :
    e = .truncatedRecord ∨
      ∃ consumed, e = .payloadMismatch payload.length consumed fields := by
  rw [decodePayload] at h
  cases hrun : (decodeFields fields).run (Cursor.new payload) with
  | error e' =>
      obtain rfl : e' = e := by simpa [hrun] using h
      exact Or.inl (failsOnly_decodeFields fields _ _ hrun)
  | ok rc =>
      obtain ⟨r, c⟩ := rc
      simp only [hrun] at h
      split at h
      · exact Or.inr ⟨c.pos, (Except.error.inj h).symm⟩
      · cases h

/-! ## The iterator -/

def iterOf (data : Bytes) : FlowIter := FlowIter.new ⟨data, none⟩

theorem next_of_done {it : FlowIter} (h : it.done = true) : it.next = (none, it) := by
  simp [FlowIter.next, h]

theorem yields_of_done {it : FlowIter} (h : it.done = true) :
    Yields FlowIter.next it [] := by
  have hquiet : ∀ it : FlowIter, it.done = true → it.next.1 = none ∧ it.next.2.done = true := by
    intro it hit
    simp [next_of_done hit, hit]
  exact yields_nil_of_invariant hquiet h

theorem next_iterOf (data : Bytes) :
    (iterOf data).next =
      match readRecord ⟨data, none⟩ with
      | (.ok (some rec), r) => (some (.ok rec), ⟨r, false⟩)
      | (.ok none, r) => (none, ⟨r, true⟩)
      | (.error e, r) => (some (.error e), ⟨r, true⟩) := by
  simp only [FlowIter.next, iterOf, FlowIter.new]
  rfl

theorem yields_frame_ok {f : Frame} {rec : FlowRecord} (hdec : f.decode = .ok rec)
    {suf : Bytes} {items : List (Except ParseError FlowRecord)}
    (hrest : Yields FlowIter.next (iterOf suf) items) :
    Yields FlowIter.next (iterOf (f.bytes ++ suf)) (.ok rec :: items) := by
  refine Yields.cons ?_ hrest
  rw [next_iterOf, readRecord_frame, hdec]
  rfl

theorem yields_frame_error {f : Frame} {e : ParseError} (hdec : f.decode = .error e)
    (suf : Bytes) :
    Yields FlowIter.next (iterOf (f.bytes ++ suf)) [.error e] := by
  have hnext : (iterOf (f.bytes ++ suf)).next =
      (some (.error e), ⟨⟨suf, none⟩, true⟩) := by
    rw [next_iterOf, readRecord_frame, hdec]
    rfl
  exact Yields.cons hnext (yields_of_done rfl)

theorem yields_short_header {data : Bytes} (h : data.length < 8) :
    Yields FlowIter.next (iterOf data) [] := by
  have hnext : (iterOf data).next = (none, ⟨⟨[], none⟩, true⟩) := by
    rw [next_iterOf, readRecord_short_header h]
  rw [yields_nil_iff, hnext]
  exact ⟨rfl, yields_of_done rfl⟩

theorem yields_short_payload (f : Frame) {k : ℕ} (hk : 8 ≤ k)
    (hlt : k < f.bytes.length) :
    Yields FlowIter.next (iterOf (f.bytes.take k)) [.error .truncatedRecord] := by
  have hnext : (iterOf (f.bytes.take k)).next =
      (some (.error .truncatedRecord), ⟨⟨[], none⟩, true⟩) := by
    rw [next_iterOf, readRecord_short_payload f hk hlt]
  exact Yields.cons hnext (yields_of_done rfl)

theorem yields_frames_ok {fs : List Frame} {recs : List FlowRecord}
    (hdec : fs.map Frame.decode = recs.map .ok) {suf : Bytes}
    {items : List (Except ParseError FlowRecord)}
    (hrest : Yields FlowIter.next (iterOf suf) items) :
    Yields FlowIter.next (iterOf (encodeFrames fs ++ suf)) (recs.map .ok ++ items) := by
  induction fs generalizing recs with
  | nil =>
      obtain rfl : recs = [] := by simpa using hdec.symm
      simpa using hrest
  | cons f fs ih =>
      cases recs with
      | nil => simp at hdec
      | cons rec recs =>
          obtain ⟨hhead, htail⟩ := List.cons.inj hdec
          rw [encodeFrames_cons, List.append_assoc, List.map_cons, List.cons_append]
          exact yields_frame_ok hhead (ih htail)

end TrafficMap.FlowdParse
