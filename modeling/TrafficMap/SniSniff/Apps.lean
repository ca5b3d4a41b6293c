import TrafficMap.Ingestor.Row
import TrafficMap.Lib.Table
import TrafficMap.Lib.Aggregate

/-!
# Applications by address

`IP_APP_SQL` of `crates/sni-sniff`: the log of the last day is rolled up into
the table `ip_app`, and a row of `app_decisions` is to record each new or
changed application.  The statement reads both tables as they were before it.
The audit leaves out what has no application and does not leave out manual
rows, the upsert does the opposite.
-/

namespace TrafficMap.SniSniff

open Ingestor Sql

/-! ## Tables -/

structure SniLog where
  ts : DateTime
  srcAddr : IpNetwork
  srcPort : Option Int32
  dstAddr : IpNetwork
  dstPort : Option Int32
  sni : String
  app : Option String
  category : Option String

structure IpApp where
  app : Option String
  category : Option String
  sni : Option String
  obsCount : ℤ
  distinctSni : ℤ
  confidence : ℚ
  source : String
  firstSeen : Option DateTime
  lastSeen : Option DateTime
  updatedAt : DateTime

structure AppDecision where
  ts : DateTime
  ip : IpNetwork
  sni : Option String
  app : Option String
  category : Option String
  confidence : ℚ
  reason : String
  notes : String

structure AppDb where
  sniLog : List SniLog
  ipApp : Table IpNetwork IpApp
  appDecisions : List AppDecision

/-- What the statement leaves to the database. -/
structure AppEngine where
  mode : Mode String
  /-- The nearest `real`. -/
  real : ℚ → ℚ

/-! ## The statement -/

structure AppComputed where
  app : Option String
  category : Option String
  sni : Option String
  obsCount : ℤ
  distinctSni : ℤ
  firstSeen : Option DateTime
  lastSeen : Option DateTime
  confidence : ℚ

/-- `WHERE ts > now() - interval '24 hours'`. -/
def recent (now : DateTime) (log : List SniLog) : List SniLog :=
  log.filter fun r ↦ decide ({ now with secs := now.secs - 24 * 3600 } < r.ts)

section Statement

variable (e : AppEngine) (now : DateTime)

def appOfGroup (rows : List SniLog) : AppComputed :=
  let apps := rows.filterMap SniLog.app
  let distinctApp := max apps.dedup.length 1
  { app := e.mode.run apps
    category := e.mode.run (rows.filterMap SniLog.category)
    sni := e.mode.run (rows.map SniLog.sni)
    obsCount := rows.length
    distinctSni := (rows.map SniLog.sni).dedup.length
    firstSeen := (rows.map SniLog.ts).min?
    lastSeen := (rows.map SniLog.ts).max?
    confidence := e.real (min (95 / 100) (1 - 1 / (1 + rows.length)) / distinctApp) }

def appComputed (log : List SniLog) : Table IpNetwork AppComputed :=
  (Table.groupBy SniLog.dstAddr (recent now log)).select fun _ rows ↦ some (appOfGroup e rows)

/-- The decision on an address with the row `p` before the statement. -/
def appDecision (ip : IpNetwork) (c : AppComputed) (p : Option IpApp) : Option AppDecision :=
  if c.app ≠ none ∧ p.bind IpApp.app ≠ c.app then
    some
      { ts := now
        ip := ip
        sni := c.sni
        app := c.app
        category := c.category
        confidence := c.confidence
        reason := if p.isNone then "new" else "changed"
        notes := "obs=" ++ toString c.obsCount ++ " distinct_sni=" ++ toString c.distinctSni }
  else none

def insDec (db : AppDb) : Table IpNetwork AppDecision :=
  (appComputed e now db.sniLog).select fun ip c ↦ appDecision now ip c (db.ipApp.lookup ip)

def insertApp (c : AppComputed) : IpApp where
  app := c.app
  category := c.category
  sni := c.sni
  obsCount := c.obsCount
  distinctSni := c.distinctSni
  confidence := c.confidence
  source := "sni"
  firstSeen := c.firstSeen
  lastSeen := c.lastSeen
  updatedAt := now

def onConflictApp (c : AppComputed) (p : IpApp) : Option IpApp :=
  if p.source = "manual" then none
  else some
    { p with
      app := c.app
      category := c.category
      sni := c.sni
      obsCount := c.obsCount
      distinctSni := c.distinctSni
      confidence := c.confidence
      lastSeen := c.lastSeen
      updatedAt := now }

def ipAppSql (db : AppDb) : AppDb :=
  { db with
    ipApp := Table.upsert (insertApp now) (onConflictApp now) (appComputed e now db.sniLog) db.ipApp
    appDecisions := db.appDecisions ++ (insDec e now db).entries.map Sigma.snd }

end Statement

/-! ## What the statement leaves -/

def AppDb.appOf (db : AppDb) (ip : IpNetwork) : Option String :=
  (db.ipApp.lookup ip).bind IpApp.app

def logged (rows : List SniLog) (ip : IpNetwork) : List SniLog :=
  rows.filter fun r ↦ r.dstAddr = ip

section

variable {e : AppEngine} {now : DateTime} {db : AppDb} {ip : IpNetwork}

theorem lookup_appComputed (log : List SniLog) (ip : IpNetwork) :
    (appComputed e now log).lookup ip =
      if logged (recent now log) ip = [] then none
      else some (appOfGroup e (logged (recent now log) ip)) := by
  rw [appComputed, Table.lookup_select, Table.lookup_groupBy]
  have hmem : ip ∈ (recent now log).map SniLog.dstAddr ↔ logged (recent now log) ip ≠ [] := by
    rw [logged, Ne, List.filter_eq_nil_iff, List.mem_map]
    simp
  by_cases hlogged : logged (recent now log) ip = []
  · rw [if_pos hlogged, if_neg (hmem.not.mpr (not_not.mpr hlogged)), Option.bind_none]
  · rw [if_neg hlogged, if_pos (hmem.mpr hlogged), Option.bind_some]
    rfl

theorem appOf_of_none (h : (appComputed e now db.sniLog).lookup ip = none) :
    (ipAppSql e now db).appOf ip = db.appOf ip := by
  rw [AppDb.appOf, ipAppSql, Table.lookup_upsert, h, AppDb.appOf]

theorem appOf_new {c : AppComputed} (h : (appComputed e now db.sniLog).lookup ip = some c)
    (hold : db.ipApp.lookup ip = none) : (ipAppSql e now db).appOf ip = c.app := by
  rw [AppDb.appOf, ipAppSql, Table.lookup_upsert, h, hold]
  rfl

theorem appOf_old {c : AppComputed} {p : IpApp}
    (h : (appComputed e now db.sniLog).lookup ip = some c) (hold : db.ipApp.lookup ip = some p) :
    (ipAppSql e now db).appOf ip = if p.source = "manual" then p.app else c.app := by
  rw [AppDb.appOf, ipAppSql, Table.lookup_upsert, h, hold]
  by_cases hsource : p.source = "manual" <;> simp [Table.merged, onConflictApp, hsource]

theorem mem_ipAppSql_iff :
    ip ∈ (ipAppSql e now db).ipApp ↔ ip ∈ db.ipApp ∨ logged (recent now db.sniLog) ip ≠ [] := by
  rw [← AList.lookup_isSome, ← AList.lookup_isSome, ipAppSql, Table.lookup_upsert,
    lookup_appComputed]
  by_cases hlogged : logged (recent now db.sniLog) ip = []
  · simp [hlogged]
  · simp [hlogged]

/-! ## The decisions of one execution -/

def insertedApps (before after : AppDb) : List AppDecision :=
  after.appDecisions.drop before.appDecisions.length

theorem inserted_ipAppSql : insertedApps db (ipAppSql e now db) =
    (insDec e now db).entries.map Sigma.snd :=
  List.drop_left

theorem lookup_insDec :
    (insDec e now db).lookup ip = ((appComputed e now db.sniLog).lookup ip).bind fun c ↦
      appDecision now ip c (db.ipApp.lookup ip) :=
  Table.lookup_select _ _ _

theorem isSome_appDecision {c : AppComputed} {p : Option IpApp} :
    (appDecision now ip c p).isSome ↔ c.app ≠ none ∧ p.bind IpApp.app ≠ c.app := by
  rw [appDecision, Option.isSome_ite]

theorem appDecision_eq_some {c : AppComputed} {p : Option IpApp} {d : AppDecision}
    (h : appDecision now ip c p = some d) :
    d.ip = ip ∧ d.reason = if p.isNone then "new" else "changed" := by
  rw [appDecision] at h
  obtain ⟨-, h⟩ := Option.ite_none_right_eq_some.mp h
  obtain rfl := Option.some.inj h
  exact ⟨rfl, rfl⟩

theorem of_mem_insDec {p : Sigma fun _ : IpNetwork ↦ AppDecision}
    (hp : p ∈ (insDec e now db).entries) :
    p.2.ip = p.1 ∧ p.2.reason = if (db.ipApp.lookup p.1).isNone then "new" else "changed" := by
  have hdecision : (insDec e now db).lookup p.1 = some p.2 := AList.mem_lookup_iff.mpr hp
  rw [lookup_insDec] at hdecision
  obtain ⟨c, -, hdecision⟩ := Option.bind_eq_some_iff.mp hdecision
  exact appDecision_eq_some hdecision

theorem appDecided_iff :
    (∃ d ∈ insertedApps db (ipAppSql e now db), d.ip = ip) ↔
      ((insDec e now db).lookup ip).isSome := by
  rw [inserted_ipAppSql]
  exact Table.exists_mem_map_entries_iff fun _ hp ↦ (of_mem_insDec hp).1

theorem nodup_inserted_ipAppSql :
    ((insertedApps db (ipAppSql e now db)).map AppDecision.ip).Nodup := by
  rw [inserted_ipAppSql]
  exact Table.nodup_map_entries fun _ hp ↦ (of_mem_insDec hp).1

end

/-! ## The audit -/

structure AppAudit (before after : AppDb) : Prop where
  iff : ∀ ip, (∃ d ∈ insertedApps before after, d.ip = ip) ↔ before.appOf ip ≠ after.appOf ip
  once : ((insertedApps before after).map AppDecision.ip).Nodup
  reason : ∀ d ∈ insertedApps before after, d.reason = "new" ↔ d.ip ∉ before.ipApp

section Audit

variable (e : AppEngine) (now : DateTime) (db : AppDb)

/-- The audit is exact, and no further execution inserts a decision while the
log of the day is the same. -/
def AppAuditExact : Prop :=
  AppAudit db (ipAppSql e now db) ∧
    ∀ nows : List DateTime, (∀ now' ∈ nows, recent now' db.sniLog = recent now db.sniLog) →
      (nows.foldl (fun db now ↦ ipAppSql e now db) (ipAppSql e now db)).appDecisions =
        (ipAppSql e now db).appDecisions

/-- What the log of the day says of an address that has a row: of a manual row
nothing else, of another row with an application not that it has none. -/
def Agrees (ip : IpNetwork) (p : IpApp) : Prop :=
  let apps := (logged (recent now db.sniLog) ip).filterMap SniLog.app
  if p.source = "manual" then apps ≠ [] → e.mode.run apps = p.app
  else logged (recent now db.sniLog) ip ≠ [] → p.app ≠ none → apps ≠ []

def LogAgrees : Prop := ∀ ip p, db.ipApp.lookup ip = some p → Agrees e now db ip p

variable {e} {now} {db}

theorem appOfGroup_app (rows : List SniLog) :
    (appOfGroup e rows).app = e.mode.run (rows.filterMap SniLog.app) := rfl

/-- The applications of the log replace that of a row; none at all replaces it
unrecorded. -/
theorem recorded_iff_changed {app mode : Option String} {apps : List String}
    (hnone : mode = none ↔ apps = []) :
    ((¬ apps = [] ∧ ¬ app = mode) ↔ ¬ app = mode) ↔ (¬ app = none → ¬ apps = []) := by
  constructor
  · intro hiff happ happs
    refine (hiff.mpr ?_).1 happs
    rw [hnone.mpr happs]
    exact happ
  · refine fun hagrees ↦ ⟨And.right, fun hne ↦ ⟨fun happs ↦ ?_, hne⟩⟩
    have happ : app = none := by
      by_contra hsome
      exact hagrees hsome happs
    exact hne (happ.trans (hnone.mpr happs).symm)

/-- At one address a decision stands for a change unless the log disagrees with
the row. -/
theorem appDecided_iff_change (ip : IpNetwork) :
    ((∃ d ∈ insertedApps db (ipAppSql e now db), d.ip = ip) ↔
        db.appOf ip ≠ (ipAppSql e now db).appOf ip) ↔
      ∀ p, db.ipApp.lookup ip = some p → Agrees e now db ip p := by
  rw [appDecided_iff, lookup_insDec]
  by_cases hlogged : logged (recent now db.sniLog) ip = []
  · have hc : (appComputed e now db.sniLog).lookup ip = none := by
      rw [lookup_appComputed, if_pos hlogged]
    rw [hc, appOf_of_none hc]
    refine iff_of_true (by simp) fun p _ ↦ ?_
    simp [Agrees, hlogged]
  · have hc : (appComputed e now db.sniLog).lookup ip =
        some (appOfGroup e (logged (recent now db.sniLog) ip)) := by
      rw [lookup_appComputed, if_neg hlogged]
    have hnone : e.mode.run ((logged (recent now db.sniLog) ip).filterMap SniLog.app) = none ↔
        (logged (recent now db.sniLog) ip).filterMap SniLog.app = [] := e.mode.run_eq_none _
    rw [hc, Option.bind_some, isSome_appDecision, appOfGroup_app, Ne, hnone]
    cases hp : db.ipApp.lookup ip with
    | none =>
        rw [appOf_new hc hp, AppDb.appOf, hp, appOfGroup_app]
        refine iff_of_true ⟨And.right, fun hne ↦ ⟨fun happs ↦ ?_, hne⟩⟩ fun p hsome ↦ ?_
        · exact hne (hnone.mpr happs).symm
        · cases hsome
    | some p =>
        rw [appOf_old hc hp, AppDb.appOf, hp, appOfGroup_app, Option.bind_some]
        simp only [Option.some.injEq, forall_eq', Agrees]
        by_cases hsource : p.source = "manual"
        · simp only [hsource, if_true, Ne, not_true_eq_false, iff_false, not_and, not_not]
          exact forall_congr' fun _ ↦ eq_comm
        · simp only [if_neg hsource, Ne, hlogged, not_false_eq_true, forall_true_left]
          exact recorded_iff_changed hnone

theorem appAudit_iff : AppAudit db (ipAppSql e now db) ↔ LogAgrees e now db := by
  constructor
  · intro h ip
    exact (appDecided_iff_change ip).mp (h.iff ip)
  · intro h
    refine ⟨fun ip ↦ (appDecided_iff_change ip).mpr (h ip), nodup_inserted_ipAppSql, ?_⟩
    intro d hd
    rw [inserted_ipAppSql] at hd
    obtain ⟨p, hp, rfl⟩ := List.mem_map.mp hd
    obtain ⟨hip, hreason⟩ := of_mem_insDec hp
    rw [hreason, hip, ← AList.lookup_eq_none, ← Option.isNone_iff_eq_none]
    split
    · next hnone => simp [hnone]
    · next hsome => simp [hsome]

/-- Every address with a logged application has the most frequent one. -/
def Settled (e : AppEngine) (rows : List SniLog) (db : AppDb) : Prop :=
  ∀ ip, (logged rows ip).filterMap SniLog.app ≠ [] →
    db.appOf ip = e.mode.run ((logged rows ip).filterMap SniLog.app)

/-- A manual row keeps its application, any other gets the most frequent one. -/
theorem appOf_ipAppSql {ip : IpNetwork} {rows : List SniLog} (hrows : recent now db.sniLog = rows)
    (happs : (logged rows ip).filterMap SniLog.app ≠ []) :
    (ipAppSql e now db).appOf ip = e.mode.run ((logged rows ip).filterMap SniLog.app) ∨
      ∃ p, db.ipApp.lookup ip = some p ∧ p.source = "manual" ∧
        (ipAppSql e now db).appOf ip = p.app := by
  have hlogged : logged rows ip ≠ [] := by
    intro hnil
    rw [hnil] at happs
    exact happs rfl
  have hc : (appComputed e now db.sniLog).lookup ip = some (appOfGroup e (logged rows ip)) := by
    rw [lookup_appComputed, hrows, if_neg hlogged]
  cases hp : db.ipApp.lookup ip with
  | none => exact Or.inl (appOf_new hc hp)
  | some p =>
      by_cases hsource : p.source = "manual"
      · exact Or.inr ⟨p, rfl, hsource, by rw [appOf_old hc hp, if_pos hsource]⟩
      · exact Or.inl (by rw [appOf_old hc hp, if_neg hsource]; rfl)

theorem settled_of_logAgrees (h : LogAgrees e now db) :
    Settled e (recent now db.sniLog) (ipAppSql e now db) := by
  intro ip happs
  rcases appOf_ipAppSql rfl happs with hmode | ⟨p, hp, hsource, happ⟩
  · exact hmode
  · have hagrees := h ip p hp
    rw [Agrees, if_pos hsource] at hagrees
    exact happ.trans (hagrees happs).symm

section Settled

variable {rows : List SniLog} (h : Settled e rows db) (hrows : recent now db.sniLog = rows)
include h hrows

theorem settled_ipAppSql : Settled e rows (ipAppSql e now db) := by
  intro ip happs
  rcases appOf_ipAppSql hrows happs with hmode | ⟨p, hp, -, happ⟩
  · exact hmode
  · rw [happ, ← h ip happs, AppDb.appOf, hp, Option.bind_some]

theorem appDecisions_of_settled : (ipAppSql e now db).appDecisions = db.appDecisions := by
  have hnone : (insDec e now db).entries.map Sigma.snd = [] := by
    rw [List.map_eq_nil_iff, List.eq_nil_iff_forall_not_mem]
    intro p hp
    have hlookup : (insDec e now db).lookup p.1 = some p.2 := AList.mem_lookup_iff.mpr hp
    rw [lookup_insDec, lookup_appComputed, hrows] at hlookup
    obtain ⟨c, hc, hdecision⟩ := Option.bind_eq_some_iff.mp hlookup
    obtain ⟨-, hc⟩ := Option.ite_none_left_eq_some.mp hc
    obtain rfl := Option.some.inj hc
    obtain ⟨happs, hdiff⟩ := isSome_appDecision.mp (Option.isSome_of_eq_some hdecision)
    rw [appOfGroup_app] at happs hdiff
    exact hdiff (h p.1 ((e.mode.run_eq_none _).not.mp happs))
  rw [ipAppSql, hnone, List.append_nil]

end Settled

/-- Settled tables stay so, and nothing is recorded any more. -/
theorem appDecisions_foldl {rows : List SniLog} (h : Settled e rows db) {nows : List DateTime}
    (hnows : ∀ now ∈ nows, recent now db.sniLog = rows) :
    (nows.foldl (fun db now ↦ ipAppSql e now db) db).appDecisions = db.appDecisions := by
  induction nows generalizing db with
  | nil => rfl
  | cons now nows ih =>
      obtain ⟨hnow, hnows⟩ := List.forall_mem_cons.mp hnows
      exact (ih (settled_ipAppSql h hnow) hnows).trans (appDecisions_of_settled h hnow)

theorem appAuditExact_iff : AppAuditExact e now db ↔ LogAgrees e now db := by
  constructor
  · rintro ⟨haudit, -⟩
    exact appAudit_iff.mp haudit
  · intro h
    exact ⟨appAudit_iff.mpr h, fun nows hnows ↦ appDecisions_foldl (settled_of_logAgrees h) hnows⟩

end Audit

/-! ## A manual row that the log contradicts -/

def manualApp : IpApp where
  app := some "Work"
  category := none
  sni := none
  obsCount := 0
  distinctSni := 0
  confidence := 1
  source := "manual"
  firstSeen := none
  lastSeen := none
  updatedAt := ⟨0, 0⟩

def googleIp : IpNetwork := toNet (.v4 ⟨0x08080808⟩)

def googleLog : SniLog where
  ts := ⟨100, 0⟩
  srcAddr := toNet (.v4 ⟨0x0a000001⟩)
  srcPort := some 50000
  dstAddr := googleIp
  dstPort := some 443
  sni := "www.google.com"
  app := some "Google"
  category := some "search"

def manualDb : AppDb := ⟨[googleLog], AList.insert googleIp manualApp ∅, []⟩

/-- Each execution records a change to "Google" and makes none. -/
theorem not_appAuditExact_manual : ¬ AppAuditExact ⟨.first, id⟩ ⟨200, 0⟩ manualDb := by
  rintro ⟨haudit, -⟩
  have hsource : manualApp.source = "manual" := rfl
  have hagrees := appAudit_iff.mp haudit googleIp manualApp (AList.lookup_insert _)
  rw [Agrees, if_pos hsource] at hagrees
  have hname : "Google" = "Work" := Option.some.inj (hagrees (by decide))
  exact absurd hname (by decide)

end TrafficMap.SniSniff
