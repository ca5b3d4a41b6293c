import TrafficMap.Bogon
import TrafficMap.Lib.Machine
import TrafficMap.GeoDoctor.Haversine
import TrafficMap.GeoDoctor.Pass
import TrafficMap.GeoDoctor.Relocate

/-!
# Runs of the geo-doctor

The passes over a database whose flows, routes and canonical rows others change
in between, and what the passes do to rows that an operator has taken over.
-/

namespace TrafficMap.GeoDoctor

open Ingestor Sql

/-! ## The bogon audit -/

def isReservedReason (reason : String) : Bool :=
  "reserved-range".toList.isPrefixOf reason.toList

/-- The rows that have no such decision yet. -/
def bogonScan (db : Db) : List IpNetwork :=
  db.ipGeo.keys.filter fun ip ↦
    !db.geoDecisions.any fun d ↦ decide (d.ip = ip) && isReservedReason d.reason

def bogonDecision (now : DateTime) (ip : IpAddr) : Option GeoDecision :=
  (Geo.bogonClass ip).map fun kind ↦
    { ip := toNet ip, ts := now, reason := "reserved-range(" ++ kind ++ ")" }

def bogonAudit (now : DateTime) (db : Db) : Db :=
  { db with
    geoDecisions :=
      db.geoDecisions ++ (bogonScan db).filterMap fun ip ↦ bogonDecision now ip.ip }

/-! ## Steps -/

inductive Action where
  | observedPass (now : DateTime)
  | relocatePass (now : DateTime)
  | bogonPass (now : DateTime)
  /-- The ingestor and the retention of the table. -/
  | setFlows (flows : List FlowRow)
  /-- The tracer. -/
  | setRoutes (routes : Table IpNetwork Route)
  /-- An operator. -/
  | setGeo (ipGeo : Table IpNetwork GeoRow)

def Action.isPass : Action → Prop
  | .observedPass _ | .relocatePass _ | .bogonPass _ => True
  | _ => False

section Runs

variable {D : Type} [Field D] [LinearOrder D] (e : Engine D) (homeLat homeLon : ℚ)

def apply (db : Db) : Action → Db
  | .observedPass now => passSql e now db
  | .relocatePass now => relocateSql e homeLat homeLon now db
  | .bogonPass now => bogonAudit now db
  | .setFlows flows => { db with flows := flows }
  | .setRoutes routes => { db with routes := routes }
  | .setGeo ipGeo => { db with ipGeo := ipGeo }

def step (db : Db) (a : Action) : Option Db := some (apply e homeLat homeLon db a)

/-! ## Manual rows -/

def KeepsManual (db : Db) (a : Action) : Prop :=
  a.isPass → ∀ ip g, db.ipGeo.lookup ip = some g → g.source = "manual" →
    (apply e homeLat homeLon db a).ipGeo.lookup ip = some g

/-- A relocate pass finds no manual row with a correction of its own. -/
def NoManualCorrection (db : Db) : Action → Prop
  | .relocatePass _ => ∀ ip g, db.ipGeo.lookup ip = some g → g.source = "manual" →
      g.corrSource ≠ some "mtr-rtt"
  | _ => True

theorem dropCorr_ne {g : GeoRow} (h : g.corrSource = some "mtr-rtt") : dropCorr g ≠ g := by
  intro heq
  have hnone : (dropCorr g).corrSource = none := rfl
  rw [heq, h] at hnone
  cases hnone

/-- A manual row keeps its columns unless the self-heal drops a correction. -/
theorem lookup_relocateSql_manual {now : DateTime} {db : Db} {ip : IpNetwork} {g : GeoRow}
    (hg : db.ipGeo.lookup ip = some g) (hmanual : g.source = "manual") :
    (relocateSql e homeLat homeLon now db).ipGeo.lookup ip =
      some (if g.corrSource = some "mtr-rtt" then dropCorr g else g) := by
  have hnone : (relocate e homeLat homeLon db).lookup ip = none := by
    cases hr : (relocate e homeLat homeLon db).lookup ip with
    | none => rfl
    | some r => exact absurd hmanual (not_manual_of_relocate hr hg)
  rw [lookup_relocateSql, hg, Option.map_some, relocateRow, hnone]
  dsimp only
  rw [selfHeal]
  split <;> rfl

theorem keepsManual_iff (db : Db) (a : Action) :
    KeepsManual e homeLat homeLon db a ↔ NoManualCorrection db a := by
  cases a with
  | observedPass now =>
      exact iff_of_true (fun _ ip g hg hmanual ↦ lookup_passSql_manual hg hmanual) trivial
  | relocatePass now =>
      have hpass : (Action.relocatePass now).isPass := trivial
      constructor
      · intro hkeep ip g hg hmanual hcorr
        have hsame := hkeep hpass ip g hg hmanual
        rw [apply, lookup_relocateSql_manual e homeLat homeLon hg hmanual, if_pos hcorr] at hsame
        exact dropCorr_ne hcorr (Option.some.inj hsame)
      · intro hnone _ ip g hg hmanual
        rw [apply, lookup_relocateSql_manual e homeLat homeLon hg hmanual,
          if_neg (hnone ip g hg hmanual)]
  | bogonPass now => exact iff_of_true (fun _ ip g hg _ ↦ hg) trivial
  | setFlows flows => exact iff_of_true False.elim trivial
  | setRoutes routes => exact iff_of_true False.elim trivial
  | setGeo ipGeo => exact iff_of_true False.elim trivial

/-- In a run the passes leave manual rows alone exactly if the relocate pass
never meets one that it has corrected before. -/
theorem manual_untouched_iff (db : Db) (as : List Action) :
    Machine.Along (step e homeLat homeLon) (KeepsManual e homeLat homeLon) db as ↔
      Machine.Along (step e homeLat homeLon) NoManualCorrection db as :=
  Machine.along_congr (I := fun _ ↦ True) (fun _ _ _ _ _ ↦ trivial)
    (fun db a _ ↦ keepsManual_iff e homeLat homeLon db a) trivial

end Runs

/-- A row that an earlier pass has moved. -/
def correctedRow (source : String) : GeoRow where
  lat := some 37
  lon := some (-122)
  country := some "US"
  source := source
  obsCount := 9
  confidence := 9 / 25
  dirty := true
  firstSeen := none
  lastSeen := none
  updatedAt := ⟨0, 0⟩
  corrLat := some 1
  corrLon := some 2
  corrCountry := some "SG"
  corrSource := some "mtr-rtt"
  corrConf := some (7 / 10)
  corrRttMs := some 3
  corrAnchorIp := none
  corrAt := some ⟨0, 0⟩

def someIp : IpNetwork := .v4Net 8 8 8 8 32

def dbOf (g : GeoRow) : Db := ⟨[], AList.insert someIp g ∅, [], ∅⟩

/-- The operator takes the row over, and the next pass drops its correction. -/
theorem not_manual_untouched_corrected :
    ¬ Machine.Along (step postgres 0 0) (KeepsManual postgres 0 0) (dbOf (correctedRow "observed"))
      [.setGeo (AList.insert someIp (correctedRow "manual") ∅), .relocatePass ⟨1, 0⟩] := by
  rintro ⟨-, hrest⟩
  have hcorr : (correctedRow "manual").corrSource = some "mtr-rtt" := rfl
  have hkeep := (hrest _ rfl).1 trivial someIp (correctedRow "manual") (AList.lookup_insert _) rfl
  rw [apply, lookup_relocateSql_manual postgres 0 0 (AList.lookup_insert _) rfl, if_pos hcorr]
    at hkeep
  exact dropCorr_ne hcorr (Option.some.inj hkeep)

end TrafficMap.GeoDoctor
