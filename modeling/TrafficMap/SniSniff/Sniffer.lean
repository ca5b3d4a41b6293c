import TrafficMap.Lib.Machine
import TrafficMap.Refresh
import TrafficMap.SniSniff.Apps
import TrafficMap.SniSniff.Extract
import TrafficMap.SniSniff.Pcap

/-!
# The sniffers and their tables

`main` of `crates/sni-sniff` with its two tasks, one process for each interface
and any number of them on one database: they read their captures, classify the
names by the rules in force, log and publish them, and roll the log up.  An
operator may write rows of `ip_app` as well.
-/

namespace TrafficMap.SniSniff

open Api FlowdParse Ingestor Wire

/-! ## What is written -/

/-- What the loop has at hand behind `classify`. -/
structure Sighting where
  ts : ℚ
  conn : Conn
  sni : Bytes
  app : Option String
  category : Option String

def sight (rules : RuleMap) (ts : ℚ) (conn : Conn) (sni : Bytes) : Sighting where
  ts := ts
  conn := conn
  sni := sni
  app := (classify sni rules).map fun r ↦ r.1.app
  category := (classify sni rules).bind fun r ↦ r.1.category

/-- A host name is ASCII. -/
def asciiText (name : Bytes) : String := String.ofList (name.map fun b ↦ Char.ofNat b.toNat)

/-- The row of `INSERT INTO sni_log`, with `to_timestamp` of the database. -/
def Sighting.row (toTimestamp : ℚ → DateTime) (o : Sighting) : SniLog where
  ts := toTimestamp o.ts
  srcAddr := toNet o.conn.src
  srcPort := some (Int32.ofNat o.conn.srcPort.toNat)
  dstAddr := toNet o.conn.dst
  dstPort := some (Int32.ofNat o.conn.dstPort.toNat)
  sni := asciiText o.sni
  app := o.app
  category := o.category

/-! ## The machine -/

inductive Pending
  | nothing
  /-- in front of the insert -/
  | insert (o : Sighting)
  /-- in front of the publish -/
  | publish (o : Sighting)

def Pending.sighting : Pending → Option Sighting
  | .nothing => none
  | .insert o | .publish o => some o

structure Sniffer where
  rules : RuleMap
  le : Bool
  linktype : UInt32
  reader : Reader
  pkt : Bytes
  pending : Pending

/-- The streams ever opened, the rules ever in force, the names found and the rows
that the operator wrote. -/
structure Trail where
  streams : List Reader
  allRules : List RuleMap
  seen : List Sighting
  edits : List (IpNetwork × IpApp)

/-- The processes, their tables and `sni:live`.  No code reads the trail. -/
structure Sniffers where
  procs : ℕ → Option Sniffer
  db : AppDb
  live : List Sighting
  trail : Trail

inductive SniffAct
  | start (id : ℕ) (rows : Reply Bytes AppRule) (stream : Reader)
  | record (id : ℕ)
  | insert (id : ℕ) (ok : Bool)
  | publish (id : ℕ) (ok : Bool)
  | loadRules (id : ℕ) (rows : Reply Bytes AppRule)
  | rollUp (id : ℕ) (now : DateTime) (ok : Bool)
  | stop (id : ℕ)
  | edit (ip : IpNetwork) (row : IpApp)

/-- The global header: the byte order, the link type and what follows. -/
def openCapture (r : Reader) : Option (Bool × UInt32 × Reader) :=
  match r.readExact 24 with
  | (.error _, _) => none
  | (.ok gh, r) => (byteOrder (gh.take 4)).map fun le ↦ (le, readU32 (gh.drop 20) le, r)

namespace Sniffers

def init : Sniffers := ⟨fun _ ↦ none, ⟨[], ∅, []⟩, [], ⟨[], [], [], []⟩⟩

section Step

variable (e : AppEngine) (toTimestamp : ℚ → DateTime) (s : Sniffers)

def setProc (id : ℕ) (p : Option Sniffer) : Sniffers :=
  { s with procs := Function.update s.procs id p }

def addRules (rules : RuleMap) : Sniffers :=
  { s with trail := { s.trail with allRules := s.trail.allRules ++ [rules] } }

def addStream (stream : Reader) : Sniffers :=
  { s with trail := { s.trail with streams := s.trail.streams ++ [stream] } }

def addSeen (o : Sighting) : Sniffers :=
  { s with trail := { s.trail with seen := s.trail.seen ++ [o] } }

def stepStart (id : ℕ) (rows : Reply Bytes AppRule) (stream : Reader) : Option Sniffers :=
  match s.procs id with
  | some _ => none
  | none =>
      let rules := loadRules rows
      let s := (s.addStream stream).addRules rules
      match openCapture stream with
      | none => some s
      | some (le, linktype, r) =>
          some (s.setProc id (some ⟨rules, le, linktype, r, List.replicate 65536 0, .nothing⟩))

/-- One round of the loop up to the insert; the process ends with its stream, on an
error and with a panic of the parser. -/
def stepRecord (id : ℕ) : Option Sniffers := do
  let p ← s.procs id
  match p.pending with
  | .insert _ | .publish _ => none
  | .nothing =>
      match nextPacket p.le p.reader p.pkt with
      | .stop _ => some (s.setProc id none)
      | .packet ts r pkt incl =>
          match (parseHello p.linktype (pkt.take incl)).run with
          | .error _ => some (s.setProc id none)
          | .ok none => some (s.setProc id (some { p with reader := r, pkt := pkt }))
          | .ok (some (conn, sni)) =>
              let o := sight p.rules ts conn sni
              some ((s.addSeen o).setProc id
                (some { p with reader := r, pkt := pkt, pending := .insert o }))

/-- An insert that fails is reported, and the loop goes on. -/
def stepInsert (id : ℕ) (ok : Bool) : Option Sniffers := do
  let p ← s.procs id
  match p.pending with
  | .insert o =>
      let s := s.setProc id (some { p with pending := .publish o })
      some { s with
        db := { s.db with
          sniLog := if ok then s.db.sniLog ++ [o.row toTimestamp] else s.db.sniLog } }
  | .nothing | .publish _ => none

def stepPublish (id : ℕ) (ok : Bool) : Option Sniffers := do
  let p ← s.procs id
  match p.pending with
  | .publish o =>
      let s := s.setProc id (some { p with pending := .nothing })
      some { s with live := if ok then s.live ++ [o] else s.live }
  | .nothing | .insert _ => none

def step : SniffAct → Option Sniffers
  | .start id rows stream => s.stepStart id rows stream
  | .record id => s.stepRecord id
  | .insert id ok => s.stepInsert toTimestamp id ok
  | .publish id ok => s.stepPublish id ok
  | .loadRules id rows => (s.procs id).map fun p ↦
      let rules := loadRules rows
      (s.addRules rules).setProc id (some { p with rules := rules })
  | .rollUp id now ok => (s.procs id).map fun _ ↦
      { s with db := if ok then ipAppSql e now s.db else s.db }
  | .stop id => some (s.setProc id none)
  | .edit ip row => some { s with
      db := { s.db with ipApp := s.db.ipApp.insert ip row }
      trail := { s.trail with edits := s.trail.edits ++ [(ip, row)] } }

end Step

end Sniffers

/-! ## Reading on -/

theorem readCapture_of_openCapture {r r' : Reader} {le : Bool} {linktype : UInt32}
    (h : openCapture r = some (le, linktype, r')) :
    readCapture r = packetLoop le linktype r' (List.replicate 65536 0) := by
  rw [openCapture] at h
  rw [readCapture]
  rcases hgh : r.readExact 24 with ⟨_ | gh, r₁⟩
  · rw [hgh] at h
    cases h
  · simp only [hgh] at h
    obtain ⟨le', hle, heq⟩ := Option.map_eq_some_iff.mp h
    obtain ⟨rfl, rfl, rfl⟩ : le' = le ∧ readU32 (gh.drop 20) le' = linktype ∧ r₁ = r' := by
      simpa using heq
    simp only [hle]

/-- A round of the loop, on the captures. -/
theorem packetLoop_of_nextPacket {le : Bool} {linktype : UInt32} {r r' : Reader} {pkt pkt' : Bytes}
    {ts : ℚ} {incl : ℕ} {hello : Option (Conn × Bytes)}
    (h : nextPacket le r pkt = .packet ts r' pkt' incl)
    (hhello : (parseHello linktype (pkt'.take incl)).run = .ok hello) :
    (packetLoop le linktype r pkt).1 =
      ⟨ts, pkt'.take incl, hello⟩ :: (packetLoop le linktype r' pkt').1 := by
  rw [packetLoop]
  split
  · rename_i hstop
    cases h.symm.trans hstop
  · rename_i hpacket
    obtain ⟨rfl, rfl, rfl, rfl⟩ := Turn.packet.inj (h.symm.trans hpacket)
    dsimp only
    rw [hhello]

/-- The names in the packets, with the times and the connections. -/
def hellos (captures : List Capture) : List (ℚ × Conn × Bytes) :=
  captures.filterMap fun c ↦ c.hello.map fun h ↦ (c.ts, h.1, h.2)

/-! ## What a step does -/

namespace Sniffers

/-- What comes of a round of the loop. -/
inductive Round (s : Sniffers) (id : ℕ) (p : Sniffer) : Sniffers → Prop
  | ended (hrest : hellos (packetLoop p.le p.linktype p.reader p.pkt).1 = []) :
      Round s id p (s.setProc id none)
  | passed (c : Capture) (r : Reader) (pkt : Bytes) (hhello : c.hello = none)
      (hrest : (packetLoop p.le p.linktype p.reader p.pkt).1 =
        c :: (packetLoop p.le p.linktype r pkt).1) :
      Round s id p (s.setProc id (some { p with reader := r, pkt := pkt }))
  | heard (c : Capture) (conn : Conn) (sni : Bytes) (r : Reader) (pkt : Bytes)
      (hhello : c.hello = some (conn, sni))
      (hrest : (packetLoop p.le p.linktype p.reader p.pkt).1 =
        c :: (packetLoop p.le p.linktype r pkt).1) :
      Round s id p ((s.addSeen (sight p.rules c.ts conn sni)).setProc id
        (some { p with
          reader := r, pkt := pkt, pending := .insert (sight p.rules c.ts conn sni) }))

section Inversion

variable {toTimestamp : ℚ → DateTime} {s t : Sniffers} {id : ℕ} {ok : Bool}

theorem round_of_stepRecord (h : s.stepRecord id = some t) :
    ∃ p, s.procs id = some p ∧ p.pending = .nothing ∧ Round s id p t := by
  obtain ⟨p, hp, h⟩ := Option.bind_eq_some_iff.mp h
  refine ⟨p, hp, ?_⟩
  split at h
  · cases h
  · cases h
  · rename_i hpending
    refine ⟨hpending, ?_⟩
    split at h
    · rename_i hstop
      obtain rfl := Option.some.inj h
      refine .ended ?_
      rw [packetLoop]
      split
      · rfl
      · rename_i hpacket
        cases hstop.symm.trans hpacket
    · rename_i ts r pkt incl hpacket
      split at h
      · rename_i hpanic
        obtain rfl := Option.some.inj h
        refine .ended ?_
        rw [packetLoop]
        split
        · rfl
        · rename_i hpacket'
          obtain ⟨rfl, rfl, rfl, rfl⟩ := Turn.packet.inj (hpacket.symm.trans hpacket')
          dsimp only
          rw [hpanic]
          rfl
      · rename_i hhello
        obtain rfl := Option.some.inj h
        exact .passed _ r pkt rfl (packetLoop_of_nextPacket hpacket hhello)
      · rename_i conn sni hhello
        obtain rfl := Option.some.inj h
        exact .heard _ conn sni r pkt rfl (packetLoop_of_nextPacket hpacket hhello)

theorem of_stepInsert (h : s.stepInsert toTimestamp id ok = some t) :
    ∃ p o, s.procs id = some p ∧ p.pending = .insert o ∧
      t = { s.setProc id (some { p with pending := .publish o }) with
        db := { s.db with
          sniLog := if ok then s.db.sniLog ++ [o.row toTimestamp] else s.db.sniLog } } := by
  obtain ⟨p, hp, h⟩ := Option.bind_eq_some_iff.mp h
  split at h
  · rename_i o hpending
    exact ⟨p, o, hp, hpending, (Option.some.inj h).symm⟩
  · cases h
  · cases h

theorem of_stepPublish (h : s.stepPublish id ok = some t) :
    ∃ p o, s.procs id = some p ∧ p.pending = .publish o ∧
      t = { s.setProc id (some { p with pending := .nothing }) with
        live := if ok then s.live ++ [o] else s.live } := by
  obtain ⟨p, hp, h⟩ := Option.bind_eq_some_iff.mp h
  split at h
  · rename_i o hpending
    exact ⟨p, o, hp, hpending, (Option.some.inj h).symm⟩
  · cases h
  · cases h

/-- A process comes up on the stream, or ends at its global header. -/
theorem of_stepStart {rows : Reply Bytes AppRule} {stream : Reader}
    (h : s.stepStart id rows stream = some t) : s.procs id = none ∧
      ((t = (s.addStream stream).addRules (loadRules rows) ∧ openCapture stream = none) ∨
        ∃ le linktype r, (readCapture stream).1 =
            (packetLoop le linktype r (List.replicate 65536 0)).1 ∧
          t = ((s.addStream stream).addRules (loadRules rows)).setProc id
            (some ⟨loadRules rows, le, linktype, r, List.replicate 65536 0, .nothing⟩)) := by
  rw [stepStart] at h
  split at h
  · cases h
  · rename_i hnone
    refine ⟨hnone, ?_⟩
    dsimp only at h
    split at h
    · rename_i hopen
      exact Or.inl ⟨(Option.some.inj h).symm, hopen⟩
    · rename_i le linktype r hopen
      exact Or.inr ⟨le, linktype, r, by rw [readCapture_of_openCapture hopen],
        (Option.some.inj h).symm⟩

end Inversion

end Sniffers

/-! ## What has been seen -/

/-- The name was in a packet of a stream, and classified by rules once in force. -/
structure Heard (trail : Trail) (o : Sighting) : Prop where
  inStream : ∃ stream ∈ trail.streams, ∃ c ∈ (readCapture stream).1,
    c.ts = o.ts ∧ c.hello = some (o.conn, o.sni)
  classified : ∃ rules ∈ trail.allRules, o = sight rules o.ts o.conn o.sni

/-- Where a row of an address comes from: the operator, or names that were seen on
connections to it. -/
def Traced (trail : Trail) (ip : IpNetwork) (row : IpApp) : Prop :=
  (ip, row) ∈ trail.edits ∨
    (∀ app, row.app = some app → ∃ o ∈ trail.seen, toNet o.conn.dst = ip ∧ o.app = some app) ∧
      ∀ category, row.category = some category →
        ∃ o ∈ trail.seen, toNet o.conn.dst = ip ∧ o.category = some category

/-- The rules are of a load, and what is left to read is of a stream. -/
structure SnifferInv (trail : Trail) (p : Sniffer) : Prop where
  rules : p.rules ∈ trail.allRules
  input : ∃ stream ∈ trail.streams,
    (packetLoop p.le p.linktype p.reader p.pkt).1 <:+ (readCapture stream).1
  pending : ∀ o ∈ p.pending.sighting, o ∈ trail.seen

structure SniffersInv (toTimestamp : ℚ → DateTime) (s : Sniffers) : Prop where
  procs : ∀ id p, s.procs id = some p → SnifferInv s.trail p
  heard : ∀ o ∈ s.trail.seen, Heard s.trail o
  logged : ∀ r ∈ s.db.sniLog, ∃ o ∈ s.trail.seen, r = o.row toTimestamp
  live : ∀ o ∈ s.live, o ∈ s.trail.seen
  apps : ∀ ip row, s.db.ipApp.lookup ip = some row → Traced s.trail ip row

/-- Nothing that has happened is forgotten. -/
structure Trail.Grows (trail trail' : Trail) : Prop where
  streams : trail.streams ⊆ trail'.streams
  allRules : trail.allRules ⊆ trail'.allRules
  seen : trail.seen ⊆ trail'.seen
  edits : trail.edits ⊆ trail'.edits

section Grow

variable {trail trail' : Trail}

theorem Trail.Grows.refl (trail : Trail) : trail.Grows trail :=
  ⟨List.Subset.refl _, List.Subset.refl _, List.Subset.refl _, List.Subset.refl _⟩

theorem Heard.mono {o : Sighting} (h : Heard trail o) (hgrows : trail.Grows trail') :
    Heard trail' o where
  inStream := by
    obtain ⟨stream, hstream, hcapture⟩ := h.inStream
    exact ⟨stream, hgrows.streams hstream, hcapture⟩
  classified := by
    obtain ⟨rules, hrules, ho⟩ := h.classified
    exact ⟨rules, hgrows.allRules hrules, ho⟩

theorem Traced.mono {ip : IpNetwork} {row : IpApp} (h : Traced trail ip row)
    (hgrows : trail.Grows trail') : Traced trail' ip row := by
  refine h.imp (fun hedit ↦ hgrows.edits hedit) fun ⟨happ, hcategory⟩ ↦ ⟨?_, ?_⟩
  · intro app hrow
    obtain ⟨o, ho, hip⟩ := happ app hrow
    exact ⟨o, hgrows.seen ho, hip⟩
  · intro category hrow
    obtain ⟨o, ho, hip⟩ := hcategory category hrow
    exact ⟨o, hgrows.seen ho, hip⟩

theorem SnifferInv.mono {p : Sniffer} (h : SnifferInv trail p) (hgrows : trail.Grows trail') :
    SnifferInv trail' p where
  rules := hgrows.allRules h.rules
  input := by
    obtain ⟨stream, hstream, hsuffix⟩ := h.input
    exact ⟨stream, hgrows.streams hstream, hsuffix⟩
  pending o ho := hgrows.seen (h.pending o ho)

end Grow

/-! ## The trail grows -/

theorem Sniffers.grows_of_step {e : AppEngine} {toTimestamp : ℚ → DateTime} {s t : Sniffers}
    {a : SniffAct} (h : s.step e toTimestamp a = some t) : s.trail.Grows t.trail := by
  have hsame := Trail.Grows.refl s.trail
  cases a with
  | start id rows stream =>
      have hstarted : s.trail.Grows ((s.addStream stream).addRules (loadRules rows)).trail :=
        { hsame with
          streams := List.subset_append_left _ _
          allRules := List.subset_append_left _ _ }
      obtain ⟨-, ⟨rfl, -⟩ | ⟨le, linktype, r, -, rfl⟩⟩ := of_stepStart h
      · exact hstarted
      · exact hstarted
  | record id =>
      obtain ⟨p, -, -, hround⟩ := round_of_stepRecord h
      cases hround with
      | ended => exact hsame
      | passed => exact hsame
      | heard => exact { hsame with seen := List.subset_append_left _ _ }
  | insert id ok =>
      obtain ⟨p, o, -, -, rfl⟩ := of_stepInsert h
      exact hsame
  | publish id ok =>
      obtain ⟨p, o, -, -, rfl⟩ := of_stepPublish h
      exact hsame
  | loadRules id rows =>
      obtain ⟨p, -, rfl⟩ := Option.map_eq_some_iff.mp h
      exact { hsame with allRules := List.subset_append_left _ _ }
  | rollUp id now ok =>
      obtain ⟨p, -, rfl⟩ := Option.map_eq_some_iff.mp h
      exact hsame
  | stop id => exact Option.some.inj h ▸ hsame
  | edit ip row => exact Option.some.inj h ▸ { hsame with edits := List.subset_append_left _ _ }

/-! ## The roll-up -/

section RollUp

variable {e : AppEngine} {now : DateTime} {toTimestamp : ℚ → DateTime} {s : Sniffers}
  {ip : IpNetwork}

/-- What the most frequent value of the logged rows goes back to. -/
theorem seen_of_mode (hlogged : ∀ r ∈ s.db.sniLog, ∃ o ∈ s.trail.seen, r = o.row toTimestamp)
    {field : SniLog → Option String} {field' : Sighting → Option String}
    (hfield : ∀ o : Sighting, field (o.row toTimestamp) = field' o) {a : String}
    (h : e.mode.run ((logged (recent now s.db.sniLog) ip).filterMap field) = some a) :
    ∃ o ∈ s.trail.seen, toNet o.conn.dst = ip ∧ field' o = some a := by
  obtain ⟨r, hr, ha⟩ := List.mem_filterMap.mp (e.mode.mem_of_run h)
  obtain ⟨hrecent, hdst⟩ := List.mem_filter.mp hr
  obtain ⟨o, ho, rfl⟩ := hlogged r (List.mem_of_mem_filter hrecent)
  exact ⟨o, ho, of_decide_eq_true hdst, (hfield o).symm.trans ha⟩

theorem traced_of_computed (hlogged : ∀ r ∈ s.db.sniLog, ∃ o ∈ s.trail.seen, r = o.row toTimestamp)
    {c : AppComputed} (hc : (appComputed e now s.db.sniLog).lookup ip = some c) {row : IpApp}
    (happ : row.app = c.app) (hcategory : row.category = c.category) : Traced s.trail ip row := by
  rw [lookup_appComputed] at hc
  obtain ⟨-, hc⟩ := Option.ite_none_left_eq_some.mp hc
  obtain rfl := Option.some.inj hc
  refine Or.inr ⟨fun app hrow ↦ ?_, fun category hrow ↦ ?_⟩
  · exact seen_of_mode hlogged (fun _ ↦ rfl) (happ.symm.trans hrow)
  · exact seen_of_mode hlogged (fun _ ↦ rfl) (hcategory.symm.trans hrow)

/-- A row that a roll-up leaves is an old one or goes back to the log. -/
theorem traced_ipAppSql (h : SniffersInv toTimestamp s) {row : IpApp}
    (hrow : (ipAppSql e now s.db).ipApp.lookup ip = some row) : Traced s.trail ip row := by
  rw [ipAppSql, Sql.Table.lookup_upsert] at hrow
  cases hc : (appComputed e now s.db.sniLog).lookup ip with
  | none =>
      rw [hc] at hrow
      exact h.apps ip row hrow
  | some c =>
      rw [hc] at hrow
      cases hold : s.db.ipApp.lookup ip with
      | none =>
          rw [hold] at hrow
          obtain rfl := Option.some.inj hrow
          exact traced_of_computed h.logged hc rfl rfl
      | some p =>
          rw [hold] at hrow
          by_cases hsource : p.source = "manual"
          · simp only [Sql.Table.merged, onConflictApp, if_pos hsource] at hrow
            obtain rfl := Option.some.inj hrow
            exact h.apps ip p hold
          · simp only [Sql.Table.merged, onConflictApp, if_neg hsource] at hrow
            obtain rfl := Option.some.inj hrow
            exact traced_of_computed h.logged hc rfl rfl

end RollUp

/-! ## The invariant -/

namespace SniffersInv

variable {e : AppEngine} {toTimestamp : ℚ → DateTime} {s t : Sniffers}

theorem init : SniffersInv toTimestamp .init where
  procs _ _ h := by cases h
  heard _ h := absurd h List.not_mem_nil
  logged _ h := absurd h List.not_mem_nil
  live _ h := absurd h List.not_mem_nil
  apps _ _ h := by cases h

/-- The trail grows by what the invariant allows, and nothing else changes. -/
theorem grow (h : SniffersInv toTimestamp s) {trail : Trail} (hgrows : s.trail.Grows trail)
    (hheard : ∀ o ∈ trail.seen, Heard trail o) :
    SniffersInv toTimestamp { s with trail := trail } where
  procs id p hp := (h.procs id p hp).mono hgrows
  heard := hheard
  logged r hr := by
    obtain ⟨o, ho, hrow⟩ := h.logged r hr
    exact ⟨o, hgrows.seen ho, hrow⟩
  live o ho := hgrows.seen (h.live o ho)
  apps ip row hrow := (h.apps ip row hrow).mono hgrows

theorem addRules (h : SniffersInv toTimestamp s) (rules : RuleMap) :
    SniffersInv toTimestamp (s.addRules rules) := by
  have hgrows : s.trail.Grows (s.addRules rules).trail :=
    { Trail.Grows.refl s.trail with allRules := List.subset_append_left _ _ }
  exact h.grow hgrows fun o ho ↦ (h.heard o ho).mono hgrows

theorem addStream (h : SniffersInv toTimestamp s) (stream : Reader) :
    SniffersInv toTimestamp (s.addStream stream) := by
  have hgrows : s.trail.Grows (s.addStream stream).trail :=
    { Trail.Grows.refl s.trail with streams := List.subset_append_left _ _ }
  exact h.grow hgrows fun o ho ↦ (h.heard o ho).mono hgrows

theorem addSeen (h : SniffersInv toTimestamp s) {o : Sighting} (ho : Heard s.trail o) :
    SniffersInv toTimestamp (s.addSeen o) := by
  have hgrows : s.trail.Grows (s.addSeen o).trail :=
    { Trail.Grows.refl s.trail with seen := List.subset_append_left _ _ }
  refine h.grow hgrows fun o' ho' ↦ ?_
  rcases List.mem_append.mp ho' with hold | hnew
  · exact (h.heard o' hold).mono hgrows
  · obtain rfl := List.mem_singleton.mp hnew
    exact ho.mono hgrows

/-- A process goes on from a state that the invariant allows, or ends. -/
theorem setProc (h : SniffersInv toTimestamp s) (id : ℕ) {p : Option Sniffer}
    (hp : ∀ q, p = some q → SnifferInv s.trail q) : SniffersInv toTimestamp (s.setProc id p) where
  procs id' q hq := by
    change Function.update s.procs id p id' = some q at hq
    by_cases hid : id' = id
    · subst hid
      rw [Function.update_self] at hq
      exact hp q hq
    · rw [Function.update_of_ne hid] at hq
      exact h.procs id' q hq
  heard := h.heard
  logged := h.logged
  live := h.live
  apps := h.apps

theorem start (h : SniffersInv toTimestamp s) {id : ℕ} {rows : Reply Bytes AppRule}
    {stream : Reader} (hstep : s.stepStart id rows stream = some t) :
    SniffersInv toTimestamp t := by
  have hloaded := (h.addStream stream).addRules (TrafficMap.loadRules rows)
  obtain ⟨-, ⟨rfl, -⟩ | ⟨le, linktype, r, hread, rfl⟩⟩ := Sniffers.of_stepStart hstep
  · exact hloaded
  · refine hloaded.setProc id fun q hq ↦ ?_
    obtain rfl := Option.some.inj hq
    refine ⟨List.mem_append_right _ (List.mem_singleton_self _),
      ⟨stream, List.mem_append_right _ (List.mem_singleton_self _), ?_⟩, fun o ho ↦ by cases ho⟩
    rw [hread]

/-- A packet is taken from what is left of the stream. -/
theorem record (h : SniffersInv toTimestamp s) {id : ℕ} (hstep : s.stepRecord id = some t) :
    SniffersInv toTimestamp t := by
  obtain ⟨p, hp, -, hround⟩ := Sniffers.round_of_stepRecord hstep
  have hinv := h.procs id p hp
  obtain ⟨stream, hstream, hinput⟩ := hinv.input
  cases hround with
  | ended => exact h.setProc id fun q hq ↦ by cases hq
  | passed c r pkt hhello hrest =>
      rw [hrest] at hinput
      refine h.setProc id fun q hq ↦ ?_
      obtain rfl := Option.some.inj hq
      exact ⟨hinv.rules, ⟨stream, hstream, (List.suffix_cons _ _).trans hinput⟩, hinv.pending⟩
  | heard c conn sni r pkt hhello hrest =>
      rw [hrest] at hinput
      have hheard : Heard s.trail (sight p.rules c.ts conn sni) :=
        ⟨⟨stream, hstream, c, hinput.subset List.mem_cons_self, rfl, hhello⟩,
          ⟨p.rules, hinv.rules, rfl⟩⟩
      refine (h.addSeen hheard).setProc id fun q hq ↦ ?_
      obtain rfl := Option.some.inj hq
      refine ⟨hinv.rules, ⟨stream, hstream, (List.suffix_cons _ _).trans hinput⟩, ?_⟩
      rintro o ⟨⟩
      exact List.mem_append_right _ (List.mem_singleton_self _)

theorem insert (h : SniffersInv toTimestamp s) {id : ℕ} {ok : Bool}
    (hstep : s.stepInsert toTimestamp id ok = some t) : SniffersInv toTimestamp t := by
  obtain ⟨p, o, hp, hpending, rfl⟩ := Sniffers.of_stepInsert hstep
  have hinv := h.procs id p hp
  have ho : o ∈ s.trail.seen := hinv.pending o (by rw [hpending]; rfl)
  have hmoved := h.setProc id (p := some { p with pending := .publish o }) fun q hq ↦ by
    obtain rfl := Option.some.inj hq
    refine ⟨hinv.rules, hinv.input, ?_⟩
    rintro o' ⟨⟩
    exact ho
  refine ⟨hmoved.procs, hmoved.heard, fun r hr ↦ ?_, hmoved.live, hmoved.apps⟩
  cases ok with
  | false => exact hmoved.logged r hr
  | true =>
      rcases List.mem_append.mp hr with hold | hnew
      · exact hmoved.logged r hold
      · exact ⟨o, ho, List.mem_singleton.mp hnew⟩

theorem publish (h : SniffersInv toTimestamp s) {id : ℕ} {ok : Bool}
    (hstep : s.stepPublish id ok = some t) : SniffersInv toTimestamp t := by
  obtain ⟨p, o, hp, hpending, rfl⟩ := Sniffers.of_stepPublish hstep
  have hinv := h.procs id p hp
  have ho : o ∈ s.trail.seen := hinv.pending o (by rw [hpending]; rfl)
  have hmoved := h.setProc id (p := some { p with pending := .nothing }) fun q hq ↦ by
    obtain rfl := Option.some.inj hq
    exact ⟨hinv.rules, hinv.input, fun o' ho' ↦ by cases ho'⟩
  refine ⟨hmoved.procs, hmoved.heard, hmoved.logged, fun o' ho' ↦ ?_, hmoved.apps⟩
  cases ok with
  | false => exact hmoved.live o' ho'
  | true =>
      rcases List.mem_append.mp ho' with hold | hnew
      · exact hmoved.live o' hold
      · exact List.mem_singleton.mp hnew ▸ ho

theorem loadRules (h : SniffersInv toTimestamp s) {id : ℕ} {p : Sniffer}
    (hp : s.procs id = some p) (rules : RuleMap) :
    SniffersInv toTimestamp ((s.addRules rules).setProc id (some { p with rules := rules })) := by
  refine (h.addRules rules).setProc id fun q hq ↦ ?_
  obtain rfl := Option.some.inj hq
  have hinv := (h.addRules rules).procs id p hp
  exact ⟨List.mem_append_right _ (List.mem_singleton_self _), hinv.input, hinv.pending⟩

theorem rollUp (h : SniffersInv toTimestamp s) (e : AppEngine) (now : DateTime) :
    SniffersInv toTimestamp { s with db := ipAppSql e now s.db } where
  procs := h.procs
  heard := h.heard
  logged := h.logged
  live := h.live
  apps _ _ hrow := traced_ipAppSql h hrow

theorem edit (h : SniffersInv toTimestamp s) (ip : IpNetwork) (row : IpApp) :
    SniffersInv toTimestamp { s with
      db := { s.db with ipApp := s.db.ipApp.insert ip row }
      trail := { s.trail with edits := s.trail.edits ++ [(ip, row)] } } := by
  have hgrows : s.trail.Grows { s.trail with edits := s.trail.edits ++ [(ip, row)] } :=
    { Trail.Grows.refl s.trail with edits := List.subset_append_left _ _ }
  have hgrown := h.grow hgrows fun o ho ↦ (h.heard o ho).mono hgrows
  refine ⟨hgrown.procs, hgrown.heard, hgrown.logged, hgrown.live, fun ip' row' hrow ↦ ?_⟩
  by_cases hip : ip' = ip
  · subst hip
    rw [AList.lookup_insert] at hrow
    obtain rfl := Option.some.inj hrow
    exact Or.inl (List.mem_append_right _ (List.mem_singleton_self _))
  · rw [AList.lookup_insert_ne hip] at hrow
    exact hgrown.apps ip' row' hrow

theorem step {a : SniffAct} (h : SniffersInv toTimestamp s)
    (hstep : s.step e toTimestamp a = some t) : SniffersInv toTimestamp t := by
  cases a with
  | start id rows stream => exact h.start hstep
  | record id => exact h.record hstep
  | insert id ok => exact h.insert hstep
  | publish id ok => exact h.publish hstep
  | loadRules id rows =>
      obtain ⟨p, hp, rfl⟩ := Option.map_eq_some_iff.mp hstep
      exact h.loadRules hp _
  | rollUp id now ok =>
      obtain ⟨p, -, rfl⟩ := Option.map_eq_some_iff.mp hstep
      cases ok with
      | false => exact h
      | true => exact h.rollUp e now
  | stop id =>
      obtain rfl := Option.some.inj hstep
      exact h.setProc id fun q hq ↦ by cases hq
  | edit ip row =>
      obtain rfl := Option.some.inj hstep
      exact h.edit ip row

end SniffersInv

/-! ## A capture of packets -/

theorem openCapture_captureBytes (enc : Encoding) (gh : GlobalHeader) (ps : List Packet) :
    openCapture ⟨captureBytes enc gh ps, none⟩ =
      some (enc.le, gh.linktype, ⟨ps.flatMap fun p ↦ p.bytes enc, none⟩) := by
  have hlength : (gh.bytes enc).length = 24 := by simp [GlobalHeader.bytes, gh.length_middle]
  have hmagic : (gh.bytes enc).take 4 = enc.magic := by
    rw [GlobalHeader.bytes, List.append_assoc, List.take_left' enc.length_magic]
  have hlinktype : readU32 ((gh.bytes enc).drop 20) enc.le = gh.linktype := by
    have hfront : (enc.magic ++ gh.middle).length = 20 := by simp [gh.length_middle]
    rw [GlobalHeader.bytes, List.drop_left' hfront]
    simpa using enc.readU32_u32 gh.linktype []
  rw [openCapture, captureBytes, readExact_append hlength]
  simp only [hmagic, Encoding.byteOrder_magic, Option.map_some, hlinktype]

/-- A packet that the loop comes to. -/
theorem stepRecord_bytes {s : Sniffers} {id : ℕ} {p : Sniffer} {enc : Encoding} {packet : Packet}
    {suf : Bytes} {conn : Conn} {sni : Bytes} (hp : s.procs id = some p)
    (hidle : p.pending = .nothing) (hle : p.le = enc.le)
    (hreader : p.reader = ⟨packet.bytes enc ++ suf, none⟩)
    (hhello : (parseHello p.linktype packet.data).run = .ok (some (conn, sni))) :
    ∃ pkt, s.stepRecord id = some ((s.addSeen (sight p.rules packet.ts conn sni)).setProc id
      (some { p with
        reader := ⟨suf, none⟩, pkt := pkt
        pending := .insert (sight p.rules packet.ts conn sni) })) := by
  have hnext := nextPacket_bytes enc packet suf p.pkt
  rw [← hle, ← hreader] at hnext
  refine ⟨packet.data ++ (grow p.pkt packet.data.length).drop packet.data.length, ?_⟩
  simp only [Sniffers.stepRecord, hp, Option.bind_eq_bind, Option.bind_some, hidle, hnext,
    List.take_left' rfl, hhello]

/-! ## A run -/

def atEpoch : ℚ → DateTime := fun _ ↦ ⟨100, 0⟩

def qqName : Bytes := [0x71, 0x71, 0x2E, 0x63, 0x6F, 0x6D]

/-- A hello for `qq.com` to 8.8.8.8, without a link header. -/
def qqFrame : Bytes :=
  [0x45, 0, 0, 40, 0, 0, 0, 0, 64, 6, 0, 0, 10, 0, 0, 2, 8, 8, 8, 8,
    0xC3, 0x50, 0x01, 0xBB, 0, 0, 0, 0, 0, 0, 0, 0, 0x50, 0x18, 0, 0, 0, 0, 0, 0] ++
    (twoNames qqName (by decide)).record

def qqConn : Conn :=
  ⟨.v4 (Ipv4Addr.ofOctets [10, 0, 0, 2]), 50000, .v4 (Ipv4Addr.ofOctets [8, 8, 8, 8]), 443,
    (twoNames qqName (by decide)).record⟩

theorem parseHello_qqFrame :
    (parseHello linktypeRaw qqFrame).run = .ok (some (qqConn, qqName)) := by
  decide +kernel

def qqPacket : Packet := ⟨100, 0, qqFrame, by decide +kernel, 0⟩
def rawHeader : GlobalHeader := ⟨linktypeRaw, List.replicate 16 0, rfl⟩
def bigMicro : Encoding := ⟨false, .micro⟩

def qqStream : Reader := ⟨captureBytes bigMicro rawHeader [qqPacket], none⟩

def qqRule : AppRule := ⟨"Tencent", some "social", 9 / 10⟩
def qqRows : Reply Bytes AppRule := .ok [(qqName, qqRule)]

theorem classify_qq : classify qqName (loadRules qqRows) = some (qqRule, qqName) := by
  have hlookup : (loadRules qqRows).lookup qqName = some qqRule := Finmap.lookup_insert _
  rw [classify, show trimEndDots qqName = qqName from rfl, classifyFrom, hlookup]

theorem sight_qq : sight (loadRules qqRows) qqPacket.ts qqConn qqName =
    ⟨qqPacket.ts, qqConn, qqName, some "Tencent", some "social"⟩ := by
  rw [sight, classify_qq]
  rfl

section Hearing

variable (s : Sniffers) (n : ℕ) (rows : Reply Bytes AppRule) (o : Sighting)

def qqProcess : Sniffer :=
  ⟨loadRules rows, false, linktypeRaw, ⟨qqPacket.bytes bigMicro ++ [], none⟩,
    List.replicate 65536 0, .nothing⟩

def qqReading : Sniffers :=
  ((s.addStream qqStream).addRules (loadRules rows)).setProc n (some (qqProcess rows))

def qqFound (pkt : Bytes) : Sniffers :=
  ((qqReading s n rows).addSeen o).setProc n
    (some { qqProcess rows with reader := ⟨[], none⟩, pkt := pkt, pending := .insert o })

def qqLogged (pkt : Bytes) : Sniffers :=
  { (qqFound s n rows o pkt).setProc n (some { qqProcess rows with
      reader := ⟨[], none⟩, pkt := pkt, pending := .publish o }) with
    db := { s.db with sniLog := s.db.sniLog ++ [o.row atEpoch] } }

variable {s} {n} {rows} {o}

theorem start_qq (hid : s.procs n = none) :
    s.stepStart n rows qqStream = some (qqReading s n rows) := by
  simp only [Sniffers.stepStart, hid, qqStream, openCapture_captureBytes]
  rfl

theorem hear_qq (hid : s.procs n = none)
    (ho : sight (loadRules rows) qqPacket.ts qqConn qqName = o) :
    ∃ pkt, Machine.run (Sniffers.step ⟨.first, id⟩ atEpoch) s
      [.start n rows qqStream, .record n] = some (qqFound s n rows o pkt) := by
  have hreader : (qqProcess rows).reader = ⟨qqPacket.bytes bigMicro ++ [], none⟩ := rfl
  have hproc : (qqReading s n rows).procs n = some (qqProcess rows) :=
    Function.update_self n _ _
  obtain ⟨pkt, hrecord⟩ := stepRecord_bytes hproc rfl rfl hreader parseHello_qqFrame
  have hrules : (qqProcess rows).rules = loadRules rows := rfl
  rw [hrules, ho] at hrecord
  have hfirst : Sniffers.step ⟨.first, id⟩ atEpoch s (.start n rows qqStream) =
      some (qqReading s n rows) := by
    rw [Sniffers.step]
    exact start_qq hid
  have hsecond : Sniffers.step ⟨.first, id⟩ atEpoch (qqReading s n rows) (.record n) =
      some (qqFound s n rows o pkt) := by
    rw [Sniffers.step]
    exact hrecord
  refine ⟨pkt, ?_⟩
  rw [Machine.run_cons_of_step hfirst, Machine.run_cons_of_step hsecond, Machine.run_nil]

theorem log_qq (pkt : Bytes) :
    Machine.run (Sniffers.step ⟨.first, id⟩ atEpoch) (qqFound s n rows o pkt) [.insert n true] =
      some (qqLogged s n rows o pkt) := by
  have hproc : (qqFound s n rows o pkt).procs n =
      some { qqProcess rows with reader := ⟨[], none⟩, pkt := pkt, pending := .insert o } :=
    Function.update_self n _ _
  have hinsert : Sniffers.step ⟨.first, id⟩ atEpoch (qqFound s n rows o pkt) (.insert n true) =
      some (qqLogged s n rows o pkt) := by
    rw [Sniffers.step, Sniffers.stepInsert, hproc]
    rfl
  rw [Machine.run_cons_of_step hinsert, Machine.run_nil]

end Hearing

def qqSighting : Sighting := ⟨qqPacket.ts, qqConn, qqName, some "Tencent", some "social"⟩

def qqStored (pkt : Bytes) : Sniffers :=
  { qqLogged .init 0 qqRows qqSighting pkt with
    db := ipAppSql ⟨.first, id⟩ ⟨200, 0⟩ ⟨[qqSighting.row atEpoch], ∅, []⟩ }

def qqSniffed : List SniffAct :=
  [.start 0 qqRows qqStream, .record 0] ++ [.insert 0 true] ++ [.rollUp 0 ⟨200, 0⟩ true]

theorem sniff_qq : ∃ pkt, Machine.run (Sniffers.step ⟨.first, id⟩ atEpoch) .init qqSniffed =
    some (qqStored pkt) := by
  obtain ⟨pkt, hheard⟩ := hear_qq (s := .init) (n := 0) rfl sight_qq
  have hroll : Machine.run (Sniffers.step ⟨.first, id⟩ atEpoch)
      (qqLogged .init 0 qqRows qqSighting pkt) [.rollUp 0 ⟨200, 0⟩ true] =
        some (qqStored pkt) := by
    have hstep : Sniffers.step ⟨.first, id⟩ atEpoch (qqLogged .init 0 qqRows qqSighting pkt)
        (.rollUp 0 ⟨200, 0⟩ true) = some (qqStored pkt) := rfl
    rw [Machine.run_cons_of_step hstep, Machine.run_nil]
  exact ⟨pkt, Machine.run_append.mpr
    ⟨_, Machine.run_append.mpr ⟨_, hheard, log_qq pkt⟩, hroll⟩⟩

end TrafficMap.SniSniff
