import TrafficMap.Lib.Layout
import TrafficMap.SniSniff.Packet

/-!
# The ClientHello walker

The TLS half of `crates/sni-sniff`: one cursor steps over the record header,
the handshake header and the fixed part of a ClientHello, then over its
extensions up to the first `server_name`, and then over the names listed there.
The record, handshake, extensions and list lengths are read and not used; both
loops run to the end of the captured bytes.  A Rust string is modelled by its
UTF-8 bytes.
-/

namespace TrafficMap.SniSniff

open Wire Checked

/-! ## Strings -/

/-- The byte ranges that must follow a UTF-8 lead byte. -/
def utf8Tail (b : UInt8) : Option (List (UInt8 × UInt8)) :=
  if b < 0x80 then some []
  else if 0xC2 ≤ b ∧ b ≤ 0xDF then some [(0x80, 0xBF)]
  else if b = 0xE0 then some [(0xA0, 0xBF), (0x80, 0xBF)]
  else if b = 0xED then some [(0x80, 0x9F), (0x80, 0xBF)]
  else if 0xE1 ≤ b ∧ b ≤ 0xEF then some [(0x80, 0xBF), (0x80, 0xBF)]
  else if b = 0xF0 then some [(0x90, 0xBF), (0x80, 0xBF), (0x80, 0xBF)]
  else if 0xF1 ≤ b ∧ b ≤ 0xF3 then some [(0x80, 0xBF), (0x80, 0xBF), (0x80, 0xBF)]
  else if b = 0xF4 then some [(0x80, 0x8F), (0x80, 0xBF), (0x80, 0xBF)]
  else none

/-- UTF-8 validation with the ranges still due for the current character. -/
def utf8Check : List (UInt8 × UInt8) → Bytes → Bool
  | due, [] => due.isEmpty
  | [], b :: bs =>
      match utf8Tail b with
      | some due => utf8Check due bs
      | none => false
  | (lo, hi) :: due, b :: bs => decide (lo ≤ b) && decide (b ≤ hi) && utf8Check due bs

def isUtf8 (name : Bytes) : Bool := utf8Check [] name

def isAsciiGraphic (b : UInt8) : Bool := decide (0x21 ≤ b) && decide (b ≤ 0x7E)

def toAsciiLowercase (b : UInt8) : UInt8 := if 0x41 ≤ b ∧ b ≤ 0x5A then b + 0x20 else b

def asciiLower (name : Bytes) : Bytes := name.map toAsciiLowercase

def isHostname (s : Bytes) : Bool :=
  !s.isEmpty && decide (s.length ≤ 253) && s.all isAsciiGraphic

/-! ## The cursor -/

abbrev Parse := StateT Cursor Checked

namespace Cursor

def take (n : ℕ) : Parse Bytes := fun c ↦ do
  let s ← getRange c.buf c.pos (c.pos + n)
  return (s, { c with pos := c.pos + n })

def skip (n : ℕ) : Parse Unit := do
  let _ ← take n

def u8 : Parse UInt8 := do
  let s ← take 1
  index s 0

def u16 : Parse UInt16 := do
  let s ← take 2
  readU16 s false

def u24 : Parse UInt32 := do
  let s ← take 3
  let s₀ ← index s 0
  let s₁ ← index s 1
  let s₂ ← index s 2
  return u32FromBe [0, s₀, s₁, s₂]

end Cursor

/-! ## The walk -/

/-- The loop of `parse_server_name` over the listed names. -/
def walkNames : ℕ → Parse Bytes
  | 0 => failure
  | fuel + 1 => do
      let nameType ← Cursor.u8
      let nameLen ← Cursor.u16
      let name ← Cursor.take nameLen.toNat
      if nameType = 0 then
        if isUtf8 name then
          if isHostname name then return asciiLower name
          else walkNames fuel
        else failure
      else walkNames fuel

/-- The first usable host_name of a `server_name` extension.  Every round of
the loop takes at least three bytes, so it ends within the length of `ext`. -/
def parseServerName (ext : Bytes) : Checked Bytes := do
  let names : Parse Bytes := do
    let _listLen ← Cursor.u16
    walkNames (ext.length + 1)
  let (name, _) ← names.run (Cursor.new ext)
  return name

/-- The loop of `parse_client_hello_sni` over the extensions. -/
def walkExtensions : ℕ → Parse Bytes
  | 0 => failure
  | fuel + 1 => do
      let extType ← Cursor.u16
      let extLen ← Cursor.u16
      let ext ← Cursor.take extLen.toNat
      if extType = 0x0000 then parseServerName ext
      else walkExtensions fuel

def skipHello : Parse Unit := do
  -- Handshake header: type(0x01 ClientHello), length(3)
  if (← Cursor.u8) ≠ 0x01 then failure
  let _hsLen ← Cursor.u24
  Cursor.skip 2 -- client_version
  Cursor.skip 32 -- random
  let sidLen ← Cursor.u8
  Cursor.skip sidLen.toNat -- session_id
  let csLen ← Cursor.u16
  Cursor.skip csLen.toNat -- cipher_suites
  let compLen ← Cursor.u8
  Cursor.skip compLen.toNat -- compression_methods
  let _extTotal ← Cursor.u16 -- extensions length

def parseClientHelloSni (payload : Bytes) : Checked Bytes := do
  -- TLS record: type(0x16 handshake), version(2), length(2)
  if (← get payload 0) ≠ 0x16 then failure
  let msg ← getFrom payload 5
  let walk : Parse Bytes := do
    skipHello
    walkExtensions (msg.length + 1)
  let (sni, _) ← walk.run (Cursor.new msg)
  return sni

/-! ## Absence of panics -/

/-- The parser panics at no cursor. -/
def Quiet {α : Type} (p : Parse α) : Prop := ∀ c, NoPanic (p.run c)

section Quiet

variable {α β : Type}

theorem quiet_pure (a : α) : Quiet (pure a) := fun _ ↦ noPanic_pure _

theorem quiet_failure : Quiet (failure : Parse α) := fun _ ↦ noPanic_failure

theorem quiet_lift {x : Checked α} (hx : NoPanic x) : Quiet (liftM x : Parse α) :=
  fun _ ↦ hx.bind fun _ ↦ noPanic_pure _

theorem Quiet.bind {p : Parse α} {f : α → Parse β} (hp : Quiet p) (hf : ∀ a, Quiet (f a)) :
    Quiet (p >>= f) :=
  fun c ↦ (hp c).bind fun r ↦ hf r.1 r.2

theorem quiet_take_bind {n : ℕ} {f : Bytes → Parse α} (hf : ∀ s, s.length = n → Quiet (f s)) :
    Quiet (Cursor.take n >>= f) := by
  intro c
  rw [StateT.run_bind, StateT.run, Cursor.take, bind_assoc, noPanic_getRange_bind]
  intro hle
  have hlen : ((c.buf.take (c.pos + n)).drop c.pos).length = n := by
    rw [List.length_drop, List.length_take]
    omega
  exact hf _ hlen _

theorem quiet_skip (n : ℕ) : Quiet (Cursor.skip n) :=
  quiet_take_bind fun _ _ ↦ quiet_pure ()

theorem noPanic_index {b : Bytes} {i : ℕ} (h : i < b.length) : NoPanic (index b i) :=
  ⟨some b[i], run_index h⟩

theorem quiet_u8 : Quiet Cursor.u8 :=
  quiet_take_bind fun _ hs ↦ quiet_lift (noPanic_index (by omega))

theorem quiet_u16 : Quiet Cursor.u16 :=
  quiet_take_bind fun _ hs ↦ quiet_lift (noPanic_readU16 hs.ge false)

theorem quiet_u24 : Quiet Cursor.u24 := by
  apply quiet_take_bind
  intro s hs
  refine (quiet_lift (noPanic_index (by omega))).bind fun _ ↦ ?_
  refine (quiet_lift (noPanic_index (by omega))).bind fun _ ↦ ?_
  exact (quiet_lift (noPanic_index (by omega))).bind fun _ ↦ quiet_pure _

theorem quiet_walkNames (fuel : ℕ) : Quiet (walkNames fuel) := by
  induction fuel with
  | zero => exact quiet_failure
  | succ fuel ih =>
      rw [walkNames]
      refine quiet_u8.bind fun nameType ↦ quiet_u16.bind fun nameLen ↦ ?_
      apply quiet_take_bind
      intro name _
      split
      · split
        · split
          · exact quiet_pure _
          · exact ih
        · exact quiet_failure
      · exact ih

theorem noPanic_parseServerName (ext : Bytes) : NoPanic (parseServerName ext) :=
  ((quiet_u16.bind fun _ ↦ quiet_walkNames _) _).bind fun _ ↦ noPanic_pure _

theorem quiet_walkExtensions (fuel : ℕ) : Quiet (walkExtensions fuel) := by
  induction fuel with
  | zero => exact quiet_failure
  | succ fuel ih =>
      rw [walkExtensions]
      refine quiet_u16.bind fun extType ↦ quiet_u16.bind fun extLen ↦ ?_
      apply quiet_take_bind
      intro ext _
      split
      · exact quiet_lift (noPanic_parseServerName ext)
      · exact ih

theorem quiet_skipHello : Quiet skipHello := by
  refine quiet_u8.bind fun msgType ↦ ?_
  split
  · exact quiet_failure
  · refine quiet_u24.bind fun _ ↦ (quiet_skip 2).bind fun _ ↦ (quiet_skip 32).bind fun _ ↦ ?_
    refine quiet_u8.bind fun _ ↦ (quiet_skip _).bind fun _ ↦ ?_
    refine quiet_u16.bind fun _ ↦ (quiet_skip _).bind fun _ ↦ ?_
    refine quiet_u8.bind fun _ ↦ (quiet_skip _).bind fun _ ↦ ?_
    exact quiet_u16.bind fun _ ↦ quiet_pure ()

/-- The walk only reads through `get`, so it never panics. -/
theorem noPanic_parseClientHelloSni (payload : Bytes) : NoPanic (parseClientHelloSni payload) := by
  rw [parseClientHelloSni, noPanic_get_bind]
  intro h0
  split
  · exact noPanic_failure
  · refine (noPanic_getFrom payload 5).bind fun msg ↦ ?_
    exact ((quiet_skipHello.bind fun _ ↦ quiet_walkExtensions _) _).bind fun _ ↦ noPanic_pure _

end Quiet

end TrafficMap.SniSniff
