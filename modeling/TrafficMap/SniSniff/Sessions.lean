import TrafficMap.SniSniff.Sniffer

/-!
# Every name once

What becomes of the names in the streams of the sniffers, with a logbook beside the
machine.  A process takes the names of its stream in order and leaves none out; each is
one row of `sni_log`, unless its insert has failed or the process has ended before it.
-/

namespace TrafficMap.SniSniff

open Api FlowdParse Ingestor Wire

/-! ## The logbook -/

/-- One process from its start to its end. -/
structure Session where
  stream : Reader
  heard : List Sighting
  /-- the names whose insert has been tried, and whether it went through -/
  handled : List (Sighting × Bool)
  /-- there was nothing left to read -/
  ended : Bool

def Session.stored (l : Session) : List Sighting := (l.handled.filter Prod.snd).map Prod.fst

/-- The rows and the messages go under the numbers of their sessions.  No code reads the
logbook. -/
structure Watched where
  sniffers : Sniffers
  /-- the latest session of a process -/
  session : ℕ → ℕ
  started : ℕ
  logs : ℕ → Session
  rows : List (ℕ × Sighting)
  sent : List (ℕ × Sighting)

def pendingOf (s : Sniffers) (id : ℕ) : Option Sighting :=
  (s.procs id).bind fun p ↦ p.pending.sighting

namespace Watched

def init : Watched := ⟨.init, fun _ ↦ 0, 0, fun _ ↦ ⟨⟨[], none⟩, [], [], false⟩, [], []⟩

variable (e : AppEngine) (toTimestamp : ℚ → DateTime) (w : Watched)

def log (id : ℕ) : Session := w.logs (w.session id)

/-- The log of a process and the tables go on. -/
def note (t : Sniffers) (id : ℕ) (l : Session) : Watched :=
  { w with sniffers := t, logs := Function.update w.logs (w.session id) l }

def after (t : Sniffers) : SniffAct → Watched
  | .start id _ stream => { w with
      sniffers := t
      session := Function.update w.session id w.started
      started := w.started + 1
      logs := Function.update w.logs w.started ⟨stream, [], [], false⟩ }
  | .record id =>
      match t.procs id with
      | none => w.note t id { w.log id with ended := true }
      | some p => w.note t id { w.log id with
          heard := (w.log id).heard ++ p.pending.sighting.toList }
  | .insert id ok =>
      match pendingOf w.sniffers id with
      | none => { w with sniffers := t }
      | some o => { w.note t id { w.log id with handled := (w.log id).handled ++ [(o, ok)] } with
          rows := if ok then w.rows ++ [(w.session id, o)] else w.rows }
  | .publish id ok =>
      match pendingOf w.sniffers id with
      | none => { w with sniffers := t }
      | some o => { w.note t id (w.log id) with
          sent := if ok then w.sent ++ [(w.session id, o)] else w.sent }
  | _ => { w with sniffers := t }

def step (a : SniffAct) : Option Watched :=
  (w.sniffers.step e toTimestamp a).map fun t ↦ w.after t a

end Watched

/-- The entries of a session. -/
def ofSession (k : ℕ) (entries : List (ℕ × Sighting)) : List Sighting :=
  (entries.filter fun x ↦ x.1 = k).map Prod.snd

theorem ofSession_append (k : ℕ) (xs ys : List (ℕ × Sighting)) :
    ofSession k (xs ++ ys) = ofSession k xs ++ ofSession k ys := by
  rw [ofSession, List.filter_append, List.map_append]
  rfl

theorem ofSession_self (k : ℕ) (o : Sighting) : ofSession k [(k, o)] = [o] := by
  simp [ofSession]

theorem ofSession_other {k k' : ℕ} (h : k' ≠ k) (o : Sighting) : ofSession k [(k', o)] = [] := by
  simp [ofSession, h]

/-! ## What the logbook says -/

/-- The name, with the time and the connection. -/
def Sighting.hello (o : Sighting) : ℚ × Conn × Bytes := (o.ts, o.conn, o.sni)

/-- The names heard are those of the stream in its order, up to where the process has
come, and so are those handled among them. -/
structure Session.Ok (l : Session) : Prop where
  heard : l.heard.map Sighting.hello <+: hellos (readCapture l.stream).1
  handled : l.handled.map Prod.fst <+: l.heard
  ended : l.ended = true → l.heard.map Sighting.hello = hellos (readCapture l.stream).1 ∧
    l.handled.map Prod.fst = l.heard

/-- What a process has in front of the insert. -/
def Pending.uninserted : Pending → List Sighting
  | .insert o => [o]
  | _ => []

/-- What has been handled, with what the process has still to do. -/
structure Session.Tracks (l : Session) (p : Sniffer) : Prop where
  left : hellos (readCapture l.stream).1 =
    l.heard.map Sighting.hello ++ hellos (packetLoop p.le p.linktype p.reader p.pkt).1
  uninserted : l.heard = l.handled.map Prod.fst ++ p.pending.uninserted
  running : l.ended = false

/-- Every row and every message is of one session, and each session has its own in the
order of its stream. -/
structure WatchedOk (toTimestamp : ℚ → DateTime) (w : Watched) : Prop where
  log : w.sniffers.db.sniLog = w.rows.map fun x ↦ x.2.row toTimestamp
  live : w.sniffers.live = w.sent.map Prod.snd
  logs : ∀ k, (w.logs k).Ok
  rows : ∀ k, ofSession k w.rows = (w.logs k).stored
  sent : ∀ k, (ofSession k w.sent).Sublist ((w.logs k).handled.map Prod.fst)
  published : ∀ id p o, w.sniffers.procs id = some p → p.pending = .publish o →
    ∃ hs ok, (w.log id).handled = hs ++ [(o, ok)] ∧
      (ofSession (w.session id) w.sent).Sublist (hs.map Prod.fst)
  tracks : ∀ id p, w.sniffers.procs id = some p → (w.log id).Tracks p
  sessions : ∀ id id' p p', w.sniffers.procs id = some p → w.sniffers.procs id' = some p' →
    w.session id = w.session id' → id = id'
  known : ∀ id p, w.sniffers.procs id = some p → w.session id < w.started
  fresh : ∀ k, w.started ≤ k → (w.logs k).handled = []

namespace WatchedOk

variable {e : AppEngine} {toTimestamp : ℚ → DateTime} {w : Watched}

theorem init : WatchedOk toTimestamp .init where
  log := rfl
  live := rfl
  logs _ := ⟨List.nil_prefix, List.prefix_refl _, fun h ↦ by cases h⟩
  rows _ := rfl
  sent _ := List.Sublist.refl _
  published _ _ _ h := by cases h
  tracks _ _ h := by cases h
  sessions _ _ _ _ h := by cases h
  known _ _ h := by cases h
  fresh _ _ := rfl

/-- What one process does. -/
theorem note (h : WatchedOk toTimestamp w) {id : ℕ} {p : Sniffer}
    (hp : w.sniffers.procs id = some p) {t : Sniffers} {q : Option Sniffer}
    (hprocs : t.procs = Function.update w.sniffers.procs id q) {l : Session} (hl : l.Ok)
    (htracks : ∀ q', q = some q' → l.Tracks q') {rows sent : List (ℕ × Sighting)}
    (hlog : t.db.sniLog = rows.map fun x ↦ x.2.row toTimestamp) (hlive : t.live = sent.map Prod.snd)
    (hrows : ofSession (w.session id) rows = l.stored)
    (hsent : (ofSession (w.session id) sent).Sublist (l.handled.map Prod.fst))
    (hother : ∀ k ≠ w.session id,
      ofSession k rows = ofSession k w.rows ∧ ofSession k sent = ofSession k w.sent)
    (hpublished : ∀ q' o, q = some q' → q'.pending = .publish o →
      ∃ hs ok, l.handled = hs ++ [(o, ok)] ∧
        (ofSession (w.session id) sent).Sublist (hs.map Prod.fst)) :
    WatchedOk toTimestamp { w.note t id l with rows := rows, sent := sent } := by
  have hself : Function.update w.logs (w.session id) l (w.session id) = l :=
    Function.update_self ..
  have hkept : ∀ k, k ≠ w.session id → Function.update w.logs (w.session id) l k = w.logs k :=
    fun k hk ↦ Function.update_of_ne hk ..
  -- a process that runs is this one, or an old one with a session of its own
  have hcases : ∀ id' q', t.procs id' = some q' → (id' = id ∧ q = some q') ∨
      (w.sniffers.procs id' = some q' ∧ w.session id' ≠ w.session id) := by
    intro id' q' hq'
    rw [hprocs] at hq'
    by_cases hid : id' = id
    · subst hid
      rw [Function.update_self] at hq'
      exact Or.inl ⟨rfl, hq'⟩
    · rw [Function.update_of_ne hid] at hq'
      exact Or.inr ⟨hq', fun hsame ↦ hid (h.sessions id' id q' p hq' hp hsame)⟩
  have hwas : ∀ id' q', t.procs id' = some q' → ∃ p', w.sniffers.procs id' = some p' := by
    intro id' q' hq'
    rcases hcases id' q' hq' with ⟨rfl, -⟩ | ⟨hold, -⟩
    · exact ⟨p, hp⟩
    · exact ⟨q', hold⟩
  refine ⟨hlog, hlive, fun k ↦ ?_, fun k ↦ ?_, fun k ↦ ?_, fun id' q' o hq' ho ↦ ?_,
    fun id' q' hq' ↦ ?_, fun id₁ id₂ q₁ q₂ hq₁ hq₂ ↦ ?_, fun id' q' hq' ↦ ?_, fun k hk ↦ ?_⟩
  · change (Function.update w.logs (w.session id) l k).Ok
    by_cases hk : k = w.session id
    · rw [hk, hself]
      exact hl
    · rw [hkept k hk]
      exact h.logs k
  · change ofSession k rows = (Function.update w.logs (w.session id) l k).stored
    by_cases hk : k = w.session id
    · rw [hk, hself]
      exact hrows
    · rw [hkept k hk, (hother k hk).1]
      exact h.rows k
  · change (ofSession k sent).Sublist
      ((Function.update w.logs (w.session id) l k).handled.map Prod.fst)
    by_cases hk : k = w.session id
    · rw [hk, hself]
      exact hsent
    · rw [hkept k hk, (hother k hk).2]
      exact h.sent k
  · change ∃ hs ok, (Function.update w.logs (w.session id) l (w.session id')).handled =
      hs ++ [(o, ok)] ∧ (ofSession (w.session id') sent).Sublist (hs.map Prod.fst)
    rcases hcases id' q' hq' with ⟨rfl, hq⟩ | ⟨hold, hne⟩
    · rw [hself]
      exact hpublished q' o hq ho
    · rw [hkept _ hne, (hother _ hne).2]
      exact h.published id' q' o hold ho
  · change (Function.update w.logs (w.session id) l (w.session id')).Tracks q'
    rcases hcases id' q' hq' with ⟨rfl, hq⟩ | ⟨hold, hne⟩
    · rw [hself]
      exact htracks q' hq
    · rw [hkept _ hne]
      exact h.tracks id' q' hold
  · obtain ⟨p₁, hp₁⟩ := hwas id₁ q₁ hq₁
    obtain ⟨p₂, hp₂⟩ := hwas id₂ q₂ hq₂
    exact h.sessions id₁ id₂ p₁ p₂ hp₁ hp₂
  · obtain ⟨p', hp'⟩ := hwas id' q' hq'
    exact h.known id' p' hp'
  · change (Function.update w.logs (w.session id) l k).handled = []
    have hne : k ≠ w.session id := by
      rintro rfl
      exact absurd (h.known id p hp) (not_lt.mpr hk)
    rw [hkept k hne]
    exact h.fresh k hk

/-- A step that leaves what the processes read and do. -/
theorem quiet (h : WatchedOk toTimestamp w) {t : Sniffers}
    (hlog : t.db.sniLog = w.sniffers.db.sniLog) (hlive : t.live = w.sniffers.live)
    (hprocs : ∀ id q, t.procs id = some q → ∃ p rules, w.sniffers.procs id = some p ∧
      q = { p with rules := rules }) : WatchedOk toTimestamp { w with sniffers := t } where
  log := hlog.trans h.log
  live := hlive.trans h.live
  logs := h.logs
  rows := h.rows
  sent := h.sent
  published id q o hq ho := by
    obtain ⟨p, rules, hp, rfl⟩ := hprocs id q hq
    exact h.published id p o hp ho
  tracks id q hq := by
    obtain ⟨p, rules, hp, rfl⟩ := hprocs id q hq
    have htracks := h.tracks id p hp
    exact ⟨htracks.left, htracks.uninserted, htracks.running⟩
  sessions id id' q q' hq hq' := by
    obtain ⟨p, rules, hp, -⟩ := hprocs id q hq
    obtain ⟨p', rules', hp', -⟩ := hprocs id' q' hq'
    exact h.sessions id id' p p' hp hp'
  known id q hq := by
    obtain ⟨p, rules, hp, -⟩ := hprocs id q hq
    exact h.known id p hp
  fresh := h.fresh

/-- A process may come up under a number of its own. -/
theorem start (h : WatchedOk toTimestamp w) {id : ℕ} {rows : Reply Bytes AppRule} {stream : Reader}
    {t : Sniffers} (hstep : w.sniffers.stepStart id rows stream = some t) :
    WatchedOk toTimestamp (w.after t (.start id rows stream)) := by
  have hnew : Session.Ok ⟨stream, [], [], false⟩ :=
    ⟨List.nil_prefix, List.prefix_refl _, fun hended ↦ by cases hended⟩
  have hkept : ∀ k, k ≠ w.started →
      Function.update w.logs w.started ⟨stream, [], [], false⟩ k = w.logs k :=
    fun k hk ↦ Function.update_of_ne hk ..
  have hempty : (w.logs w.started).handled = [] := h.fresh _ le_rfl
  obtain ⟨hnone, htables, hcases⟩ : w.sniffers.procs id = none ∧
      (t.db = w.sniffers.db ∧ t.live = w.sniffers.live) ∧
        ∀ id' q, t.procs id' = some q → (id' = id ∧ Session.Tracks ⟨stream, [], [], false⟩ q ∧
            q.pending = .nothing) ∨ id' ≠ id ∧ w.sniffers.procs id' = some q := by
    obtain ⟨hnone, ⟨rfl, -⟩ | ⟨le, linktype, r, hread, rfl⟩⟩ := Sniffers.of_stepStart hstep
    · refine ⟨hnone, ⟨rfl, rfl⟩, fun id' q hq ↦ Or.inr ⟨?_, hq⟩⟩
      rintro rfl
      cases hnone.symm.trans hq
    · refine ⟨hnone, ⟨rfl, rfl⟩, fun id' q hq ↦ ?_⟩
      change Function.update w.sniffers.procs id _ id' = some q at hq
      by_cases hid : id' = id
      · subst hid
        rw [Function.update_self] at hq
        obtain rfl := Option.some.inj hq
        refine Or.inl ⟨rfl, ⟨?_, rfl, rfl⟩, rfl⟩
        rw [hread]
        rfl
      · rw [Function.update_of_ne hid] at hq
        exact Or.inr ⟨hid, hq⟩
  have hsession : ∀ id' q, t.procs id' = some q →
      (id' = id ∧ Function.update w.session id w.started id' = w.started) ∨
        (w.sniffers.procs id' = some q ∧
          Function.update w.session id w.started id' = w.session id' ∧
            w.session id' < w.started) := by
    intro id' q hq
    rcases hcases id' q hq with ⟨rfl, -⟩ | ⟨hid, hold⟩
    · exact Or.inl ⟨rfl, Function.update_self ..⟩
    · exact Or.inr ⟨hold, Function.update_of_ne hid .., h.known id' q hold⟩
  refine ⟨?_, ?_, fun k ↦ ?_, fun k ↦ ?_, fun k ↦ ?_, fun id' q o hq ho ↦ ?_,
    fun id' q hq ↦ ?_, fun id₁ id₂ q₁ q₂ hq₁ hq₂ hsame ↦ ?_, fun id' q hq ↦ ?_, fun k hk ↦ ?_⟩
  · exact (congrArg AppDb.sniLog htables.1).trans h.log
  · exact htables.2.trans h.live
  · change (Function.update w.logs w.started ⟨stream, [], [], false⟩ k).Ok
    by_cases hk : k = w.started
    · rw [hk, Function.update_self]
      exact hnew
    · rw [hkept k hk]
      exact h.logs k
  · change ofSession k w.rows =
      (Function.update w.logs w.started ⟨stream, [], [], false⟩ k).stored
    rw [h.rows k]
    by_cases hk : k = w.started
    · rw [hk, Function.update_self, Session.stored, hempty]
      rfl
    · rw [hkept k hk]
  · change (ofSession k w.sent).Sublist
      ((Function.update w.logs w.started ⟨stream, [], [], false⟩ k).handled.map Prod.fst)
    have hsent := h.sent k
    by_cases hk : k = w.started
    · rw [hk, hempty] at hsent
      rw [hk, Function.update_self]
      exact hsent
    · rw [hkept k hk]
      exact hsent
  · change ∃ hs ok, (Function.update w.logs w.started ⟨stream, [], [], false⟩
        (Function.update w.session id w.started id')).handled = hs ++ [(o, ok)] ∧
      (ofSession (Function.update w.session id w.started id') w.sent).Sublist (hs.map Prod.fst)
    rcases hcases id' q hq with ⟨-, -, hidle⟩ | ⟨hid, hold⟩
    · cases hidle.symm.trans ho
    · rw [Function.update_of_ne hid, hkept _ (h.known id' q hold).ne]
      exact h.published id' q o hold ho
  · change (Function.update w.logs w.started ⟨stream, [], [], false⟩
      (Function.update w.session id w.started id')).Tracks q
    rcases hcases id' q hq with ⟨rfl, htracks, -⟩ | ⟨hid, hold⟩
    · rw [Function.update_self, Function.update_self]
      exact htracks
    · rw [Function.update_of_ne hid, hkept _ (h.known id' q hold).ne]
      exact h.tracks id' q hold
  · change Function.update w.session id w.started id₁ =
      Function.update w.session id w.started id₂ at hsame
    rcases hsession id₁ q₁ hq₁ with ⟨rfl, hk₁⟩ | ⟨hold₁, hk₁, hlt₁⟩ <;>
      rcases hsession id₂ q₂ hq₂ with ⟨rfl, hk₂⟩ | ⟨hold₂, hk₂, hlt₂⟩
    · rfl
    · exact absurd (hk₁.symm.trans (hsame.trans hk₂)) hlt₂.ne'
    · exact absurd (hk₁.symm.trans (hsame.trans hk₂)) hlt₁.ne
    · exact h.sessions id₁ id₂ q₁ q₂ hold₁ hold₂ (hk₁.symm.trans (hsame.trans hk₂))
  · change Function.update w.session id w.started id' < w.started + 1
    rcases hsession id' q hq with ⟨-, hk⟩ | ⟨-, hk, hlt⟩
    · rw [hk]
      exact Nat.lt_succ_self _
    · rw [hk]
      exact Nat.lt_succ_of_lt hlt
  · have hne : k ≠ w.started := (Nat.lt_of_succ_le hk).ne'
    change (Function.update w.logs w.started ⟨stream, [], [], false⟩ k).handled = []
    rw [hkept k hne]
    exact h.fresh k (Nat.le_of_succ_le hk)

/-- A name is heard in its turn, and the stream may be at its end. -/
theorem record (h : WatchedOk toTimestamp w) {id : ℕ} {t : Sniffers}
    (hstep : w.sniffers.stepRecord id = some t) :
    WatchedOk toTimestamp (w.after t (.record id)) := by
  obtain ⟨p, hp, hidle, hround⟩ := Sniffers.round_of_stepRecord hstep
  have htracks := h.tracks id p hp
  have hhandled : (w.log id).handled.map Prod.fst = (w.log id).heard := by
    rw [htracks.uninserted, hidle]
    exact (List.append_nil _).symm
  have hok := h.logs (w.session id)
  cases hround with
  | ended hrest =>
      have hproc : (w.sniffers.setProc id none).procs id = none := Function.update_self ..
      have hheard : (w.log id).heard.map Sighting.hello =
          hellos (readCapture (w.log id).stream).1 := by
        rw [htracks.left, hrest, List.append_nil]
      have hend : Session.Ok { w.log id with ended := true } :=
        ⟨hok.heard, hok.handled, fun _ ↦ ⟨hheard, hhandled⟩⟩
      simp only [Watched.after, hproc]
      refine h.note (t := w.sniffers.setProc id none) (q := none) hp rfl hend
        (fun q' hq' ↦ by cases hq') h.log h.live (h.rows _) (h.sent _) (fun _ _ ↦ ⟨rfl, rfl⟩)
        fun q' o hq' ↦ by cases hq'
  | passed c r pkt hhello hrest =>
      have hproc : (w.sniffers.setProc id (some { p with reader := r, pkt := pkt })).procs id =
          some { p with reader := r, pkt := pkt } := Function.update_self ..
      have hleft : hellos (packetLoop p.le p.linktype p.reader p.pkt).1 =
          hellos (packetLoop p.le p.linktype r pkt).1 := by
        rw [hrest, hellos, List.filterMap_cons_none (by rw [hhello]; rfl)]
        rfl
      have hnothing : (w.log id).heard ++ p.pending.sighting.toList = (w.log id).heard := by
        rw [hidle]
        exact List.append_nil _
      simp only [Watched.after, hproc, hnothing]
      refine h.note (q := some { p with reader := r, pkt := pkt }) hp rfl hok
        (fun q' hq' ↦ ?_) h.log h.live (h.rows _) (h.sent _) (fun _ _ ↦ ⟨rfl, rfl⟩)
        fun q' o hq' ho ↦ ?_
      · obtain rfl := Option.some.inj hq'
        exact ⟨htracks.left.trans (by rw [hleft]; rfl), htracks.uninserted, htracks.running⟩
      · obtain rfl := Option.some.inj hq'
        cases hidle.symm.trans ho
  | heard c conn sni r pkt hhello hrest =>
      generalize ho : sight p.rules c.ts conn sni = o
      have hname : o.hello = (c.ts, conn, sni) := by
        rw [← ho]
        rfl
      have hleft : hellos (readCapture (w.log id).stream).1 =
          ((w.log id).heard ++ [o]).map Sighting.hello ++
            hellos (packetLoop p.le p.linktype r pkt).1 := by
        rw [htracks.left, hrest, hellos, List.filterMap_cons_some (by rw [hhello]; rfl),
          List.map_append, List.append_assoc, List.map_singleton, hname]
        rfl
      have hproc : ((w.sniffers.addSeen o).setProc id
          (some { p with reader := r, pkt := pkt, pending := .insert o })).procs id =
            some { p with reader := r, pkt := pkt, pending := .insert o } :=
        Function.update_self ..
      have hheard : Session.Ok { w.log id with heard := (w.log id).heard ++ [o] } := by
        refine ⟨⟨_, hleft.symm⟩, hok.handled.trans (List.prefix_append _ _), fun hended ↦ ?_⟩
        cases htracks.running.symm.trans hended
      simp only [Watched.after, hproc, Pending.sighting, Option.toList_some]
      refine h.note (q := some { p with reader := r, pkt := pkt, pending := .insert o }) hp rfl
        hheard (fun q' hq' ↦ ?_) h.log h.live (h.rows _) (h.sent _) (fun _ _ ↦ ⟨rfl, rfl⟩)
        fun q' o' hq' ho' ↦ ?_
      · obtain rfl := Option.some.inj hq'
        refine ⟨hleft, ?_, htracks.running⟩
        rw [hhandled]
        rfl
      · obtain rfl := Option.some.inj hq'
        cases ho'

/-- The insert that a process is in front of. -/
theorem insert (h : WatchedOk toTimestamp w) {id : ℕ} {ok : Bool} {t : Sniffers}
    (hstep : w.sniffers.stepInsert toTimestamp id ok = some t) :
    WatchedOk toTimestamp (w.after t (.insert id ok)) := by
  obtain ⟨p, o, hp, hpending, rfl⟩ := Sniffers.of_stepInsert hstep
  have htracks := h.tracks id p hp
  have hok := h.logs (w.session id)
  have hheard : (w.log id).heard = ((w.log id).handled ++ [(o, ok)]).map Prod.fst := by
    rw [htracks.uninserted, hpending, List.map_append]
    rfl
  have hmore : Session.Ok { w.log id with handled := (w.log id).handled ++ [(o, ok)] } := by
    refine ⟨hok.heard, hheard ▸ List.prefix_refl _, fun hended ↦ ?_⟩
    cases htracks.running.symm.trans hended
  have hof : pendingOf w.sniffers id = some o := by
    rw [pendingOf, hp, Option.bind_some, hpending]
    rfl
  simp only [Watched.after, hof]
  refine h.note (q := some { p with pending := .publish o }) hp rfl hmore (fun q' hq' ↦ ?_) ?_
    h.live ?_ ?_ (fun k hk ↦ ⟨?_, rfl⟩) fun q' o' hq' ho' ↦ ?_
  · obtain rfl := Option.some.inj hq'
    exact ⟨htracks.left, hheard.trans (List.append_nil _).symm, htracks.running⟩
  · cases ok with
    | false => exact h.log
    | true =>
        simp only [if_true, List.map_append, h.log]
        rfl
  · have hrows := h.rows (w.session id)
    cases ok with
    | false =>
        rw [Session.stored, List.filter_append]
        exact hrows.trans (by simp [Session.stored, Watched.log])
    | true =>
        rw [if_pos rfl, ofSession_append, ofSession_self, hrows]
        simp [Session.stored, Watched.log]
  · rw [List.map_append]
    exact (h.sent (w.session id)).trans (List.sublist_append_left _ _)
  · cases ok with
    | false => rfl
    | true => rw [if_pos rfl, ofSession_append, ofSession_other hk.symm, List.append_nil]
  · obtain rfl := Option.some.inj hq'
    obtain rfl := Pending.publish.inj ho'
    exact ⟨_, ok, rfl, h.sent (w.session id)⟩

/-- The message that a process is in front of. -/
theorem publish (h : WatchedOk toTimestamp w) {id : ℕ} {ok : Bool} {t : Sniffers}
    (hstep : w.sniffers.stepPublish id ok = some t) :
    WatchedOk toTimestamp (w.after t (.publish id ok)) := by
  obtain ⟨p, o, hp, hpending, rfl⟩ := Sniffers.of_stepPublish hstep
  have htracks := h.tracks id p hp
  obtain ⟨hs, ok', hhandled, hsent⟩ := h.published id p o hp hpending
  rw [Watched.log] at hhandled
  have hof : pendingOf w.sniffers id = some o := by
    rw [pendingOf, hp, Option.bind_some, hpending]
    rfl
  simp only [Watched.after, hof]
  refine h.note (q := some { p with pending := .nothing }) hp rfl (h.logs (w.session id))
    (fun q' hq' ↦ ?_) h.log ?_ (h.rows _) ?_ (fun k hk ↦ ⟨rfl, ?_⟩) fun q' o' hq' ho' ↦ ?_
  · obtain rfl := Option.some.inj hq'
    refine ⟨htracks.left, htracks.uninserted.trans ?_, htracks.running⟩
    rw [hpending]
    rfl
  · cases ok with
    | false => exact h.live
    | true =>
        simp only [if_true, List.map_append, h.live]
        rfl
  · cases ok with
    | false => exact h.sent _
    | true =>
        rw [if_pos rfl, ofSession_append, ofSession_self, hhandled, List.map_append]
        exact hsent.append (List.Sublist.refl _)
  · cases ok with
    | false => rfl
    | true => rw [if_pos rfl, ofSession_append, ofSession_other hk.symm, List.append_nil]
  · obtain rfl := Option.some.inj hq'
    cases ho'

theorem step (h : WatchedOk toTimestamp w) {a : SniffAct} {w' : Watched}
    (hstep : w.step e toTimestamp a = some w') : WatchedOk toTimestamp w' := by
  obtain ⟨t, ht, rfl⟩ := Option.map_eq_some_iff.mp hstep
  cases a with
  | start id rows stream => exact h.start ht
  | record id => exact h.record ht
  | insert id ok => exact h.insert ht
  | publish id ok => exact h.publish ht
  | loadRules id rows =>
      obtain ⟨p, hp, rfl⟩ := Option.map_eq_some_iff.mp ht
      refine h.quiet rfl rfl fun id' q hq ↦ ?_
      change Function.update w.sniffers.procs id _ id' = some q at hq
      by_cases hid : id' = id
      · subst hid
        rw [Function.update_self] at hq
        exact ⟨p, _, hp, (Option.some.inj hq).symm⟩
      · rw [Function.update_of_ne hid] at hq
        exact ⟨q, q.rules, hq, rfl⟩
  | rollUp id now ok =>
      obtain ⟨p, -, rfl⟩ := Option.map_eq_some_iff.mp ht
      refine h.quiet ?_ rfl fun id' q hq ↦ ⟨q, q.rules, hq, rfl⟩
      cases ok <;> rfl
  | stop id =>
      obtain rfl := Option.some.inj ht
      refine h.quiet rfl rfl fun id' q hq ↦ ?_
      change Function.update w.sniffers.procs id none id' = some q at hq
      by_cases hid : id' = id
      · subst hid
        rw [Function.update_self] at hq
        cases hq
      · rw [Function.update_of_ne hid] at hq
        exact ⟨q, q.rules, hq, rfl⟩
  | edit ip row =>
      obtain rfl := Option.some.inj ht
      exact h.quiet rfl rfl fun id' q hq ↦ ⟨q, q.rules, hq, rfl⟩

end WatchedOk

/-! ## Runs -/

/-- Each row and each message belongs to a session, and has its place in its stream. -/
structure Once (toTimestamp : ℚ → DateTime) (w : Watched) : Prop where
  log : w.sniffers.db.sniLog = w.rows.map fun x ↦ x.2.row toTimestamp
  live : w.sniffers.live = w.sent.map Prod.snd
  logs : ∀ k, (w.logs k).Ok
  rows : ∀ k, ofSession k w.rows = (w.logs k).stored
  sent : ∀ k, (ofSession k w.sent).Sublist ((w.logs k).handled.map Prod.fst)
  tracks : ∀ id p, w.sniffers.procs id = some p → (w.log id).Tracks p

variable {e : AppEngine} {toTimestamp : ℚ → DateTime}

/-- However the sniffers are started, read, write, reload and end: beside the run there
is a logbook in which every row of `sni_log` and every message is of one session, the rows
of a session are the names of its stream in their order, less those whose insert has
failed, and a session that has come to the end of its stream has left out no name. -/
theorem names_once {acts : List SniffAct} {s : Sniffers}
    (hrun : Machine.run (Sniffers.step e toTimestamp) .init acts = some s) :
    ∃ w, Machine.run (Watched.step e toTimestamp) .init acts = some w ∧ w.sniffers = s ∧
      Once toTimestamp w := by
  have hrecord : ∀ (w : Watched) a t, Sniffers.step e toTimestamp w.sniffers a = some t →
      ∃ w', w.step e toTimestamp a = some w' ∧ w'.sniffers = t := by
    intro w a t ht
    refine ⟨w.after t a, by rw [Watched.step, ht]; rfl, ?_⟩
    cases a with
    | record id =>
        rw [Watched.after]
        split <;> rfl
    | insert id ok =>
        rw [Watched.after]
        split <;> rfl
    | publish id ok =>
        rw [Watched.after]
        split <;> rfl
    | _ => rfl
  obtain ⟨w, hw, hs⟩ := Machine.run_recorded (r := Watched.init) hrecord hrun
  have hok := Machine.run_invariant (fun _ _ _ h hstep ↦ WatchedOk.step h hstep) WatchedOk.init hw
  exact ⟨w, hw, hs, hok.log, hok.live, hok.logs, hok.rows, hok.sent, hok.tracks⟩

/-- The one name of a stream is the one row. -/
theorem names_once_qq : ∃ pkt w,
    Machine.run (Watched.step ⟨.first, id⟩ atEpoch) .init qqSniffed = some w ∧
      w.sniffers = qqStored pkt ∧ Once atEpoch w ∧
        (w.rows.map fun x ↦ x.2.row atEpoch) = [qqSighting.row atEpoch] := by
  obtain ⟨pkt, hsniffed⟩ := sniff_qq
  obtain ⟨w, hw, hs, honce⟩ := names_once hsniffed
  refine ⟨pkt, w, hw, hs, honce, honce.log.symm.trans ?_⟩
  rw [hs]
  rfl

end TrafficMap.SniSniff
