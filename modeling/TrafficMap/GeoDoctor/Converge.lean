import TrafficMap.GeoDoctor.Runs

/-!
# Running the geo-doctor twice

One run is the observed pass, the relocate pass and the bogon audit.  A second
run over the same flows and routes finds every row up to date and every
correction in place, so it writes timestamps only; the audit adds nothing if
the decisions of the first run stand under the keys of the rows they are about.
-/

namespace TrafficMap.GeoDoctor

open Ingestor Sql

/-! ## Two runs -/

/-- When the three statements of a run start. -/
structure RunTimes where
  observed : DateTime
  relocate : DateTime
  bogon : DateTime

/-- The columns of a row but `updated_at` and `corr_at`. -/
def timeless (g : GeoRow) : GeoRow := { g with updatedAt := ⟨0, 0⟩, corrAt := none }

/-- The same rows, up to the two timestamps. -/
def SameRows (db db' : Db) : Prop :=
  ∀ ip, (db.ipGeo.lookup ip).map timeless = (db'.ipGeo.lookup ip).map timeless

section Runs

variable {D : Type} [Field D] [LinearOrder D] (e : Engine D) (homeLat homeLon : ℚ)

def runPass (t : RunTimes) (db : Db) : Db :=
  bogonAudit t.bogon (relocateSql e homeLat homeLon t.relocate (passSql e t.observed db))

def Converges (t t' : RunTimes) (db : Db) : Prop :=
  (runPass e homeLat homeLon t' (runPass e homeLat homeLon t db)).geoDecisions =
      (runPass e homeLat homeLon t db).geoDecisions ∧
    SameRows (runPass e homeLat homeLon t' (runPass e homeLat homeLon t db))
      (runPass e homeLat homeLon t db)

end Runs

def Flagged (db : Db) (ip : IpNetwork) : Prop :=
  ∃ d ∈ db.geoDecisions, d.ip = ip ∧ isReservedReason d.reason = true

/-- A row of the table, or an address that the flows have coordinates for. -/
def Audited (db : Db) (ip : IpNetwork) : Prop :=
  ip ∈ db.ipGeo ∨ ∃ o ∈ pub db.flows, o.ip = ip ∧ o.lon.isSome

/-- Every reserved address of the table is a single host, or has its decision
already. -/
def ReservedAreHosts (db : Db) : Prop :=
  ∀ ip, Audited db ip → (Geo.bogonClass ip.ip).isSome → ip = toNet ip.ip ∨ Flagged db ip

/-! ## Settled rows -/

structure UpToDate (c : Computed) (g : GeoRow) : Prop where
  lat : g.lat = some c.lat
  lon : g.lon = some c.lon
  country : g.country = c.country
  obsCount : g.obsCount = c.obsCount
  confidence : g.confidence = c.confidence
  dirty : g.dirty = c.dirty
  lastSeen : g.lastSeen = c.lastSeen

structure Corrected (r : Relocation) (g : GeoRow) : Prop where
  corrLat : g.corrLat = some r.hlat
  corrLon : g.corrLon = r.hlon
  corrCountry : g.corrCountry = r.hcountry
  corrSource : g.corrSource = some "mtr-rtt"
  corrConf : g.corrConf = some r.conf
  corrRttMs : g.corrRttMs = some r.dstRtt
  corrAnchorIp : g.corrAnchorIp = some (toNet r.hip)

theorem timeless_updateRow {now : DateTime} {c : Computed} {g : GeoRow} (h : UpToDate c g) :
    timeless (updateRow now c g) = timeless g := by
  cases g
  simp [timeless, updateRow, ← h.lat, ← h.lon, ← h.country, ← h.obsCount, ← h.confidence,
    ← h.dirty, ← h.lastSeen]

/-- What both passes select rows by. -/
def seen (g : GeoRow) : Option ℚ × Option ℚ × Bool × String := (g.lat, g.lon, g.dirty, g.source)

/-! ## The observed pass -/

section Observed

variable {D : Type} (e : Engine D)

def ObservedSettled (db : Db) : Prop :=
  ∀ ip c, (computed e db.flows).lookup ip = some c →
    ∃ g, db.ipGeo.lookup ip = some g ∧ (g.source = "manual" ∨ UpToDate c g)

variable {e} {now : DateTime} {db db' : Db}

theorem observedSettled_passSql : ObservedSettled e (passSql e now db) := by
  intro ip c hc
  cases hg : db.ipGeo.lookup ip with
  | none => exact ⟨_, lookup_passSql_new hc hg, Or.inr ⟨rfl, rfl, rfl, rfl, rfl, rfl, rfl⟩⟩
  | some g =>
      by_cases hsource : g.source = "manual"
      · exact ⟨g, lookup_passSql_manual hg hsource, Or.inl hsource⟩
      · exact ⟨_, lookup_passSql_old hc hg hsource,
          Or.inr ⟨rfl, rfl, rfl, rfl, rfl, rfl, rfl⟩⟩

theorem passDecisions_of_settled (h : ObservedSettled e db) : passDecisions e now db = [] := by
  have hnone : ∀ ip, (changed e db).lookup ip = none := by
    intro ip
    rw [lookup_changed, Option.bind_eq_none_iff]
    intro c hc
    obtain ⟨g, hg, hsettled⟩ := h ip c hc
    rw [hg, change, if_neg]
    rintro ⟨hdiff, hsource⟩
    rcases hsettled with hmanual | hdate
    · exact hsource hmanual
    · rcases hdiff with hlat | hlon | hdirty
      · exact hlat hdate.lat
      · exact hlon hdate.lon
      · exact hdirty hdate.dirty
  rw [passDecisions, Table.entries_eq_nil hnone]
  rfl

theorem sameRows_passSql (h : ObservedSettled e db) : SameRows (passSql e now db) db := by
  intro ip
  cases hc : (computed e db.flows).lookup ip with
  | none => rw [lookup_passSql_of_none hc]
  | some c =>
      obtain ⟨g, hg, hsettled⟩ := h ip c hc
      by_cases hsource : g.source = "manual"
      · rw [lookup_passSql_manual hg hsource, hg]
      · have hdate : UpToDate c g := hsettled.resolve_left hsource
        rw [lookup_passSql_old hc hg hsource, hg, Option.map_some, Option.map_some,
          timeless_updateRow hdate]

theorem observedSettled_bogonAudit (h : ObservedSettled e db) :
    ObservedSettled e (bogonAudit now db) := h

theorem not_reserved_passDecision {d : GeoDecision}
    (h : d ∈ passDecisions e now db) : isReservedReason d.reason ≠ true := by
  obtain ⟨p, -, rfl⟩ := List.mem_map.mp h
  rw [passDecision]
  dsimp only
  split
  · decide
  · split <;> decide

end Observed

/-! ## The relocate pass -/

section Relocated

variable {D : Type} [Field D] [LinearOrder D] (e : Engine D) (homeLat homeLon : ℚ)

def RelocationSettled (db : Db) : Prop :=
  ∀ ip g, db.ipGeo.lookup ip = some g →
    (∀ r, (relocate e homeLat homeLon db).lookup ip = some r → Corrected r g) ∧
    ((relocate e homeLat homeLon db).lookup ip = none → g.corrSource ≠ some "mtr-rtt")

variable {e} {homeLat homeLon} {now : DateTime} {db db' : Db}

/-- The statement selects rows by what it does not write. -/
theorem lookup_relocate_congr (hroutes : db.routes = db'.routes)
    (hseen : ∀ ip, (db.ipGeo.lookup ip).map seen = (db'.ipGeo.lookup ip).map seen)
    (ip : IpNetwork) :
    (relocate e homeLat homeLon db).lookup ip = (relocate e homeLat homeLon db').lookup ip := by
  have hrow := hseen ip
  have hcand : (cand db).lookup ip = (cand db').lookup ip := by
    rw [cand, cand, Table.lookup_select, Table.lookup_select, hroutes]
    cases hg : db.ipGeo.lookup ip with
    | none =>
        rw [hg] at hrow
        have hnone : db'.ipGeo.lookup ip = none := by simpa using hrow.symm
        rw [hnone]
    | some g =>
        rw [hg] at hrow
        obtain ⟨g', hg', hsame⟩ := Option.map_eq_some_iff.mp hrow.symm
        obtain ⟨hlat, hlon, hdirty, hsource⟩ : g'.lat = g.lat ∧ g'.lon = g.lon ∧
            g'.dirty = g.dirty ∧ g'.source = g.source := by simpa [seen] using hsame
        have hiff : isCand g' ↔ isCand g := by rw [isCand, isCand, hdirty, hsource]
        rw [hg', Option.bind_some, Option.bind_some]
        simp only [hiff, hlat, hlon]
  rw [relocate, relocate, Table.lookup_select, Table.lookup_select, hcand]

theorem seen_relocateRow (ip : IpNetwork) (g : GeoRow) :
    seen ((relocateRow e homeLat homeLon now db ip g).getD g) = seen g := by
  rw [relocateRow]
  split
  · rw [doUpdate]
    split <;> rfl
  · rw [selfHeal]
    split <;> rfl

theorem lookup_relocate_relocateSql (ip : IpNetwork) :
    (relocate e homeLat homeLon (relocateSql e homeLat homeLon now db)).lookup ip =
      (relocate e homeLat homeLon db).lookup ip := by
  have hroutes : (relocateSql e homeLat homeLon now db).routes = db.routes := rfl
  apply lookup_relocate_congr hroutes
  intro ip
  rw [lookup_relocateSql, Option.map_map]
  exact congrArg (fun f ↦ Option.map f _) (funext fun g ↦ seen_relocateRow ip g)

theorem upToDate_relocateRow {c : Computed} {g : GeoRow} (h : UpToDate c g) (ip : IpNetwork) :
    UpToDate c ((relocateRow e homeLat homeLon now db ip g).getD g) := by
  obtain ⟨hlat, hlon, hcountry, hcount, hconf, hdirty, hlast⟩ := h
  rw [relocateRow]
  split
  · rw [doUpdate]
    split <;> exact ⟨hlat, hlon, hcountry, hcount, hconf, hdirty, hlast⟩
  · rw [selfHeal]
    split <;> exact ⟨hlat, hlon, hcountry, hcount, hconf, hdirty, hlast⟩

theorem observedSettled_relocateSql (h : ObservedSettled e db) :
    ObservedSettled e (relocateSql e homeLat homeLon now db) := by
  intro ip c hc
  obtain ⟨g, hg, hsettled⟩ := h ip c hc
  refine ⟨(relocateRow e homeLat homeLon now db ip g).getD g, ?_, ?_⟩
  · rw [lookup_relocateSql, hg]
    rfl
  · rcases hsettled with hmanual | hdate
    · have hsource : ((relocateRow e homeLat homeLon now db ip g).getD g).source = g.source :=
        congrArg (fun s ↦ s.2.2.2) (seen_relocateRow ip g)
      exact Or.inl (hsource.trans hmanual)
    · exact Or.inr (upToDate_relocateRow hdate ip)

theorem relocationSettled_relocateSql :
    RelocationSettled e homeLat homeLon (relocateSql e homeLat homeLon now db) := by
  intro ip g' hg'
  rw [lookup_relocate_relocateSql]
  rw [lookup_relocateSql] at hg'
  obtain ⟨g, hg, rfl⟩ := Option.map_eq_some_iff.mp hg'
  constructor
  · intro r hr
    have hsource := not_manual_of_relocate hr hg
    rw [relocateRow, hr]
    simp only [doUpdate, if_neg hsource]
    exact ⟨rfl, rfl, rfl, rfl, rfl, rfl, rfl⟩
  · intro hnone
    rw [relocateRow, hnone]
    by_cases hcorr : g.corrSource = some "mtr-rtt"
    · simp [selfHeal, hcorr, dropCorr]
    · simp [selfHeal, hcorr]

theorem relocateDecisions_of_settled (h : RelocationSettled e homeLat homeLon db) :
    relocateDecisions e homeLat homeLon now db = [] := by
  have hnone : ∀ ip, (relocated e homeLat homeLon db).lookup ip = none := by
    intro ip
    rw [relocated, Table.lookup_select, Option.bind_eq_none_iff]
    intro r hr
    obtain ⟨g, hg⟩ := exists_row_of_relocate hr
    have hcorr := (h ip g hg).1 r hr
    rw [hg, moved, if_neg]
    rintro (hlat | hlon)
    · exact hlat hcorr.corrLat
    · exact hlon hcorr.corrLon
  rw [relocateDecisions, Table.entries_eq_nil hnone]
  rfl

theorem timeless_doUpdate {r : Relocation} {g : GeoRow} (h : Corrected r g) :
    timeless ((doUpdate now r g).getD g) = timeless g := by
  rw [doUpdate]
  split
  · rfl
  · cases g
    simp [timeless, ← h.corrLat, ← h.corrLon, ← h.corrCountry, ← h.corrSource, ← h.corrConf,
      ← h.corrRttMs, ← h.corrAnchorIp]

theorem sameRows_relocateSql (h : RelocationSettled e homeLat homeLon db) :
    SameRows (relocateSql e homeLat homeLon now db) db := by
  intro ip
  rw [lookup_relocateSql]
  cases hg : db.ipGeo.lookup ip with
  | none => rfl
  | some g =>
      obtain ⟨hmoved, hstays⟩ := h ip g hg
      rw [Option.map_some, Option.map_some, Option.map_some, relocateRow]
      cases hr : (relocate e homeLat homeLon db).lookup ip with
      | some r => exact congrArg some (timeless_doUpdate (hmoved r hr))
      | none =>
          dsimp only
          rw [selfHeal, if_neg (hstays hr)]
          rfl

/-! ## Between the runs -/

theorem SameRows.exists_row (hsame : SameRows db db') {ip : IpNetwork} {g' : GeoRow}
    (hg' : db'.ipGeo.lookup ip = some g') :
    ∃ g, db.ipGeo.lookup ip = some g ∧ timeless g = timeless g' := by
  have hrow := hsame ip
  rw [hg'] at hrow
  exact Option.map_eq_some_iff.mp hrow

theorem SameRows.symm (hsame : SameRows db db') : SameRows db' db := fun ip ↦ (hsame ip).symm

theorem SameRows.trans {db'' : Db} (hsame : SameRows db db') (hsame' : SameRows db' db'') :
    SameRows db db'' := fun ip ↦ (hsame ip).trans (hsame' ip)

theorem SameRows.mem_iff (hsame : SameRows db db') (ip : IpNetwork) :
    ip ∈ db.ipGeo ↔ ip ∈ db'.ipGeo := by
  have hrow := congrArg Option.isSome (hsame ip)
  rw [Option.isSome_map, Option.isSome_map] at hrow
  rw [← AList.lookup_isSome, ← AList.lookup_isSome, hrow]

theorem RelocationSettled.of_sameRows (h : RelocationSettled e homeLat homeLon db)
    (hsame : SameRows db db') (hroutes : db.routes = db'.routes) :
    RelocationSettled e homeLat homeLon db' := by
  intro ip g' hg'
  obtain ⟨g, hg, htimeless⟩ := hsame.exists_row hg'
  have hseen : ∀ ip, (db.ipGeo.lookup ip).map seen = (db'.ipGeo.lookup ip).map seen := by
    intro ip
    have hrow := congrArg (Option.map seen) (hsame ip)
    rwa [Option.map_map, Option.map_map] at hrow
  obtain ⟨hmoved, hstays⟩ := h ip g hg
  rw [← lookup_relocate_congr hroutes hseen]
  have hcorr : ∀ r, Corrected r (timeless g) → Corrected r (timeless g') := fun r ↦ by
    rw [htimeless]
    exact id
  constructor
  · intro r hr
    obtain ⟨hlat, hlon, hcountry, hsource, hconf, hrtt, hanchor⟩ := hmoved r hr
    obtain ⟨hlat, hlon, hcountry, hsource, hconf, hrtt, hanchor⟩ :=
      hcorr r ⟨hlat, hlon, hcountry, hsource, hconf, hrtt, hanchor⟩
    exact ⟨hlat, hlon, hcountry, hsource, hconf, hrtt, hanchor⟩
  · intro hnone
    have hsource : (timeless g).corrSource = (timeless g').corrSource := by rw [htimeless]
    intro hcorr
    exact hstays hnone (hsource.trans hcorr)

end Relocated

/-! ## The bogon audit -/

section Bogon

variable {now : DateTime} {db : Db} {ip : IpNetwork}

theorem isReservedReason_class (kind : String) :
    isReservedReason ("reserved-range(" ++ kind ++ ")") = true := by
  rw [isReservedReason, List.isPrefixOf_iff_prefix]
  refine ⟨"(".toList ++ kind.toList ++ ")".toList, ?_⟩
  simp

theorem sameRows_bogonAudit : SameRows db (bogonAudit now db) := fun _ ↦ rfl

theorem mem_bogonAudit_iff : ip ∈ (bogonAudit now db).ipGeo ↔ ip ∈ db.ipGeo := Iff.rfl

theorem mem_bogonScan_iff : ip ∈ bogonScan db ↔ ip ∈ db.ipGeo ∧ ¬ Flagged db ip := by
  simp [bogonScan, Flagged, AList.mem_keys]

theorem flagged_bogonAudit_iff :
    Flagged (bogonAudit now db) ip ↔ Flagged db ip ∨
      ∃ ip' ∈ bogonScan db, (Geo.bogonClass ip'.ip).isSome ∧ toNet ip'.ip = ip := by
  have hnew : (∃ d ∈ (bogonScan db).filterMap fun ip ↦ bogonDecision now ip.ip,
      d.ip = ip ∧ isReservedReason d.reason = true) ↔
      ∃ ip' ∈ bogonScan db, (Geo.bogonClass ip'.ip).isSome ∧ toNet ip'.ip = ip := by
    constructor
    · rintro ⟨d, hd, hip, -⟩
      obtain ⟨ip', hscan, hdec⟩ := List.mem_filterMap.mp hd
      obtain ⟨kind, hkind, rfl⟩ := Option.map_eq_some_iff.mp hdec
      exact ⟨ip', hscan, Option.isSome_of_eq_some hkind, hip⟩
    · rintro ⟨ip', hscan, hclass, hip⟩
      obtain ⟨kind, hkind⟩ := Option.isSome_iff_exists.mp hclass
      have hdec : bogonDecision now ip'.ip =
          some { ip := toNet ip'.ip, ts := now, reason := "reserved-range(" ++ kind ++ ")" } := by
        rw [bogonDecision, hkind]
        rfl
      exact ⟨_, List.mem_filterMap.mpr ⟨ip', hscan, hdec⟩, hip, isReservedReason_class kind⟩
  rw [← hnew, Flagged, Flagged, bogonAudit]
  simp only [List.mem_append, or_and_right, exists_or]

/-- A reserved address that is a single host is flagged after the audit. -/
theorem flagged_bogonAudit (hmem : ip ∈ db.ipGeo) (hclass : (Geo.bogonClass ip.ip).isSome)
    (hhost : ip = toNet ip.ip) : Flagged (bogonAudit now db) ip := by
  rw [flagged_bogonAudit_iff]
  by_cases hflag : Flagged db ip
  · exact Or.inl hflag
  · exact Or.inr ⟨ip, mem_bogonScan_iff.mpr ⟨hmem, hflag⟩, hclass, hhost.symm⟩

theorem bogonAudit_quiet_iff :
    (bogonAudit now db).geoDecisions = db.geoDecisions ↔
      ∀ ip ∈ db.ipGeo, (Geo.bogonClass ip.ip).isSome → Flagged db ip := by
  have hnone : ∀ ip : IpNetwork, bogonDecision now ip.ip = none ↔
      ¬ (Geo.bogonClass ip.ip).isSome := by
    intro ip
    rw [bogonDecision, Option.map_eq_none_iff, Option.not_isSome_iff_eq_none]
  rw [bogonAudit, List.append_right_eq_self, List.filterMap_eq_nil_iff]
  constructor
  · intro h ip hmem hclass
    by_contra hflag
    exact (hnone ip).mp (h ip (mem_bogonScan_iff.mpr ⟨hmem, hflag⟩)) hclass
  · intro h ip hscan
    obtain ⟨hmem, hflag⟩ := mem_bogonScan_iff.mp hscan
    exact (hnone ip).mpr fun hclass ↦ hflag (h ip hmem hclass)

end Bogon

/-! ## The second run -/

section Runs

variable {D : Type} [Field D] [LinearOrder D] {e : Engine D} {homeLat homeLon : ℚ}
variable {t t' : RunTimes} {db : Db} {ip : IpNetwork}

theorem not_reserved_relocateDecision {d : GeoDecision} {now : DateTime}
    (h : d ∈ relocateDecisions e homeLat homeLon now db) : isReservedReason d.reason ≠ true := by
  obtain ⟨p, -, rfl⟩ := List.mem_map.mp h
  change isReservedReason "relocate(mtr-rtt)" ≠ true
  decide

/-- The database in front of the bogon audit. -/
def beforeAudit (e : Engine D) (homeLat homeLon : ℚ) (t : RunTimes) (db : Db) : Db :=
  relocateSql e homeLat homeLon t.relocate (passSql e t.observed db)

theorem runPass_eq :
    runPass e homeLat homeLon t db = bogonAudit t.bogon (beforeAudit e homeLat homeLon t db) := rfl

theorem flagged_beforeAudit_iff :
    Flagged (beforeAudit e homeLat homeLon t db) ip ↔ Flagged db ip := by
  constructor
  · rintro ⟨d, hd, hip, hreason⟩
    rcases List.mem_append.mp hd with hd | hd
    · rcases List.mem_append.mp hd with hd | hd
      · exact ⟨d, hd, hip, hreason⟩
      · exact absurd hreason (not_reserved_passDecision hd)
    · exact absurd hreason (not_reserved_relocateDecision hd)
  · rintro ⟨d, hd, hip, hreason⟩
    exact ⟨d, List.mem_append_left _ (List.mem_append_left _ hd), hip, hreason⟩

theorem mem_beforeAudit_iff : ip ∈ (beforeAudit e homeLat homeLon t db).ipGeo ↔ Audited db ip := by
  have hpass : ip ∈ (beforeAudit e homeLat homeLon t db).ipGeo ↔
      ip ∈ (passSql e t.observed db).ipGeo := by
    rw [← AList.lookup_isSome, ← AList.lookup_isSome, beforeAudit, lookup_relocateSql,
      Option.isSome_map]
  rw [hpass, mem_passSql_iff, mem_computed_iff, Audited]

theorem observedSettled_runPass : ObservedSettled e (runPass e homeLat homeLon t db) := by
  rw [runPass]
  apply observedSettled_bogonAudit
  exact observedSettled_relocateSql observedSettled_passSql

theorem relocationSettled_runPass :
    RelocationSettled e homeLat homeLon (runPass e homeLat homeLon t db) := by
  have hbefore : RelocationSettled e homeLat homeLon (beforeAudit e homeLat homeLon t db) :=
    relocationSettled_relocateSql
  rw [runPass_eq]
  exact hbefore.of_sameRows sameRows_bogonAudit rfl

theorem relocationSettled_passSql_runPass (now : DateTime) :
    RelocationSettled e homeLat homeLon (passSql e now (runPass e homeLat homeLon t db)) :=
  relocationSettled_runPass.of_sameRows (sameRows_passSql observedSettled_runPass).symm rfl

/-- Up to its audit, a run after a run writes timestamps only. -/
theorem sameRows_beforeAudit :
    SameRows (beforeAudit e homeLat homeLon t' (runPass e homeLat homeLon t db))
      (runPass e homeLat homeLon t db) := by
  rw [beforeAudit]
  exact (sameRows_relocateSql (relocationSettled_passSql_runPass t'.observed)).trans
    (sameRows_passSql observedSettled_runPass)

theorem geoDecisions_beforeAudit :
    (beforeAudit e homeLat homeLon t' (runPass e homeLat homeLon t db)).geoDecisions =
      (runPass e homeLat homeLon t db).geoDecisions := by
  rw [beforeAudit, relocateSql, relocateDecisions_of_settled
    (relocationSettled_passSql_runPass t'.observed), List.append_nil, passSql,
    passDecisions_of_settled observedSettled_runPass, List.append_nil]

theorem audited_runPass_iff : Audited (runPass e homeLat homeLon t db) ip ↔ Audited db ip := by
  have hmem : ip ∈ (runPass e homeLat homeLon t db).ipGeo ↔ Audited db ip := by
    rw [runPass_eq, mem_bogonAudit_iff, mem_beforeAudit_iff]
  have hflows : (runPass e homeLat homeLon t db).flows = db.flows := rfl
  rw [Audited, hmem, hflows]
  exact ⟨fun h ↦ h.elim id Or.inr, Or.inl⟩

theorem converges_iff_flagged : Converges e homeLat homeLon t t' db ↔
    ∀ ip, Audited db ip → (Geo.bogonClass ip.ip).isSome →
      Flagged (runPass e homeLat homeLon t db) ip := by
  have hquiet : (runPass e homeLat homeLon t' (runPass e homeLat homeLon t db)).geoDecisions =
      (runPass e homeLat homeLon t db).geoDecisions ↔
      ∀ ip ∈ (beforeAudit e homeLat homeLon t' (runPass e homeLat homeLon t db)).ipGeo,
        (Geo.bogonClass ip.ip).isSome →
        Flagged (beforeAudit e homeLat homeLon t' (runPass e homeLat homeLon t db)) ip := by
    rw [runPass_eq (t := t'), ← bogonAudit_quiet_iff, geoDecisions_beforeAudit]
  have hrows : SameRows (runPass e homeLat homeLon t' (runPass e homeLat homeLon t db))
      (runPass e homeLat homeLon t db) := by
    rw [runPass_eq (t := t')]
    exact sameRows_bogonAudit.symm.trans sameRows_beforeAudit
  rw [Converges, hquiet, and_iff_left hrows]
  simp only [mem_beforeAudit_iff, audited_runPass_iff, flagged_beforeAudit_iff]

theorem flagged_runPass_iff (haudited : Audited db ip) (hclass : (Geo.bogonClass ip.ip).isSome) :
    Flagged (runPass e homeLat homeLon t db) ip ↔ ip = toNet ip.ip ∨ Flagged db ip := by
  have hmem : ip ∈ (beforeAudit e homeLat homeLon t db).ipGeo := mem_beforeAudit_iff.mpr haudited
  constructor
  · intro hflag
    rcases flagged_bogonAudit_iff.mp hflag with hold | ⟨ip', -, -, hip⟩
    · exact Or.inr (flagged_beforeAudit_iff.mp hold)
    · exact Or.inl (by rw [← hip, ip_toNet])
  · rintro (hhost | hflag)
    · exact flagged_bogonAudit hmem hclass hhost
    · exact flagged_bogonAudit_iff.mpr (Or.inl (flagged_beforeAudit_iff.mpr hflag))

/-- A second run converges exactly if the audit of the first covers every
reserved address. -/
theorem converges_iff (t t' : RunTimes) (db : Db) :
    Converges e homeLat homeLon t t' db ↔ ReservedAreHosts db := by
  rw [converges_iff_flagged, ReservedAreHosts]
  apply forall₃_congr
  intro ip haudited hclass
  exact flagged_runPass_iff haudited hclass

end Runs

/-- The benchmark network that an operator has entered as one row. -/
def benchmarkNet : IpNetwork := .v4Net 198 18 0 0 15

def benchmarkDb : Db := ⟨[], AList.insert benchmarkNet (correctedRow "manual") ∅, [], ∅⟩

/-- The decisions stand under the host address, and every run adds another. -/
theorem not_converges_benchmark :
    ¬ Converges postgres 0 0 ⟨⟨0, 0⟩, ⟨1, 0⟩, ⟨2, 0⟩⟩ ⟨⟨3, 0⟩, ⟨4, 0⟩, ⟨5, 0⟩⟩ benchmarkDb := by
  have haudited : Audited benchmarkDb benchmarkNet :=
    Or.inl (AList.mem_insert _ |>.mpr (Or.inl rfl))
  have hclass : (Geo.bogonClass benchmarkNet.ip).isSome := by decide
  rw [converges_iff_flagged]
  intro h
  rcases (flagged_runPass_iff haudited hclass).mp (h benchmarkNet haudited hclass) with
    hhost | hflag
  · revert hhost
    decide
  · obtain ⟨d, hd, -⟩ := hflag
    cases hd

end TrafficMap.GeoDoctor
