import TrafficMap.GeoDoctor.Runs

/-!
# The audit of the geo-doctor

The decisions that a run of the two passes inserts, against what it changes in
`ip_geo`.  The observed pass compares coordinates and the dirty flag and also
writes the country; the relocate pass records the corrections it sets and not
those it drops.
-/

namespace TrafficMap.GeoDoctor

open Ingestor Sql

def inserted (before after : Db) : List GeoDecision :=
  after.geoDecisions.drop before.geoDecisions.length

/-- The row is created, or what the audit is about differs. -/
def ObservedChange (before after : Db) (ip : IpNetwork) : Prop :=
  ∃ g', after.ipGeo.lookup ip = some g' ∧ ∀ g, before.ipGeo.lookup ip = some g →
    g.lat ≠ g'.lat ∨ g.lon ≠ g'.lon ∨ g.country ≠ g'.country ∨ g.dirty ≠ g'.dirty

def CorrectionChange (before after : Db) (ip : IpNetwork) : Prop :=
  ∃ g g', before.ipGeo.lookup ip = some g ∧ after.ipGeo.lookup ip = some g' ∧
    (g.corrLat ≠ g'.corrLat ∨ g.corrLon ≠ g'.corrLon)

/-- One decision for each address that changes, and no other. -/
structure Records (before after : Db) (Change : Db → Db → IpNetwork → Prop) : Prop where
  iff : ∀ ip, (∃ d ∈ inserted before after, d.ip = ip) ↔ Change before after ip
  once : ((inserted before after).map GeoDecision.ip).Nodup

/-! ## The observed pass -/

section Observed

variable {D : Type} (e : Engine D)

/-- No row that keeps its coordinates and its flag has seen another country
more often than its own. -/
def CountriesSettled (db : Db) : Prop :=
  ∀ ip g lat lon, db.ipGeo.lookup ip = some g → g.source ≠ "manual" →
    g.lat = some lat → g.lon = some lon → g.dirty = decide (8 ≤ ipShare e db.flows lat lon) →
    e.modeNum.run ((observed db.flows ip).map Obs.lat) = some lat →
    e.modeNum.run ((observed db.flows ip).filterMap Obs.lon) = some lon →
    g.country = e.modeText.run ((observed db.flows ip).filterMap Obs.country)

variable {e} {now : DateTime} {db : Db}

theorem inserted_passSql : inserted db (passSql e now db) = passDecisions e now db :=
  List.drop_left

/-- The country of a row is settled where the new values bring no other. -/
theorem countriesSettled_iff : CountriesSettled e db ↔
    ∀ ip g c, db.ipGeo.lookup ip = some g → g.source ≠ "manual" →
      (computed e db.flows).lookup ip = some c →
      g.lat = some c.lat → g.lon = some c.lon → g.dirty = c.dirty → g.country = c.country := by
  constructor
  · intro h ip g c hg hsource hc hlat hlon hdirty
    rw [lookup_computed] at hc
    obtain ⟨hlat', hlon', hcountry, hdirty'⟩ := compute_eq_some hc
    rw [hcountry]
    exact h ip g c.lat c.lon hg hsource hlat hlon (hdirty.trans hdirty') hlat' hlon'
  · intro h ip g lat lon hg hsource hlat hlon hdirty hlat' hlon'
    have hsome : ∃ c, compute e db.flows (aggregate e (observed db.flows ip)) = some c ∧
        c.lat = lat ∧ c.lon = lon := exists_compute hlat' hlon'
    obtain ⟨c, hc, rfl, rfl⟩ := hsome
    obtain ⟨-, -, hcountry, hdirty'⟩ := compute_eq_some hc
    rw [← lookup_computed] at hc
    have hsettled := h ip g c hg hsource hc hlat hlon (hdirty.trans hdirty'.symm)
    rwa [hcountry] at hsettled

theorem observedChange_of_none {ip : IpNetwork} (h : (computed e db.flows).lookup ip = none) :
    ¬ ObservedChange db (passSql e now db) ip := by
  rintro ⟨g', hafter, hdiff⟩
  rw [lookup_passSql_of_none h] at hafter
  simpa using hdiff g' hafter

theorem observedChange_manual {ip : IpNetwork} {g : GeoRow} (hg : db.ipGeo.lookup ip = some g)
    (hsource : g.source = "manual") : ¬ ObservedChange db (passSql e now db) ip := by
  rintro ⟨g', hafter, hdiff⟩
  rw [lookup_passSql_manual hg hsource] at hafter
  obtain rfl := Option.some.inj hafter
  simpa using hdiff g hg

theorem observedChange_old {ip : IpNetwork} {g : GeoRow} {c : Computed}
    (hg : db.ipGeo.lookup ip = some g) (hsource : g.source ≠ "manual")
    (hc : (computed e db.flows).lookup ip = some c) :
    ObservedChange db (passSql e now db) ip ↔
      g.lat ≠ some c.lat ∨ g.lon ≠ some c.lon ∨ g.country ≠ c.country ∨ g.dirty ≠ c.dirty := by
  rw [ObservedChange, lookup_passSql_old hc hg hsource]
  constructor
  · rintro ⟨g', hafter, hdiff⟩
    obtain rfl := Option.some.inj hafter
    exact hdiff g hg
  · intro hdiff
    refine ⟨_, rfl, fun g₁ hg₁ ↦ ?_⟩
    obtain rfl := Option.some.inj (hg.symm.trans hg₁)
    exact hdiff

/-- The pass compares all that it may change but the country. -/
theorem compared_iff_changed {g : GeoRow} {c : Computed} :
    ((g.lat ≠ some c.lat ∨ g.lon ≠ some c.lon ∨ g.dirty ≠ c.dirty) ↔
        g.lat ≠ some c.lat ∨ g.lon ≠ some c.lon ∨ g.country ≠ c.country ∨ g.dirty ≠ c.dirty) ↔
      (g.lat = some c.lat → g.lon = some c.lon → g.dirty = c.dirty → g.country = c.country) := by
  constructor
  · intro hiff hlat hlon hdirty
    by_contra hcountry
    rcases hiff.mpr (Or.inr (Or.inr (Or.inl hcountry))) with h | h | h
    · exact h hlat
    · exact h hlon
    · exact h hdirty
  · intro hsettled
    constructor
    · rintro (h | h | h)
      · exact Or.inl h
      · exact Or.inr (Or.inl h)
      · exact Or.inr (Or.inr (Or.inr h))
    · intro hdiff
      by_contra hsame
      push Not at hsame
      obtain ⟨hlat, hlon, hdirty⟩ := hsame
      have hcountry := hsettled hlat hlon hdirty
      rcases hdiff with h | h | h | h
      · exact h hlat
      · exact h hlon
      · exact h hcountry
      · exact h hdirty

/-- At one address the pass records what it changes, the country aside. -/
theorem passDecided_iff_change (ip : IpNetwork) :
    ((∃ d ∈ inserted db (passSql e now db), d.ip = ip) ↔
        ObservedChange db (passSql e now db) ip) ↔
      ∀ g c, db.ipGeo.lookup ip = some g → g.source ≠ "manual" →
        (computed e db.flows).lookup ip = some c →
        g.lat = some c.lat → g.lon = some c.lon → g.dirty = c.dirty → g.country = c.country := by
  rw [inserted_passSql, passDecided_iff, lookup_changed]
  cases hc : (computed e db.flows).lookup ip with
  | none => simp [observedChange_of_none hc]
  | some c =>
      cases hg : db.ipGeo.lookup ip with
      | none =>
          have hnew : ObservedChange db (passSql e now db) ip := by
            refine ⟨_, lookup_passSql_new hc hg, fun g hsome ↦ ?_⟩
            cases hg.symm.trans hsome
          simp [change, hnew]
      | some g =>
          by_cases hsource : g.source = "manual"
          · simp [change, hsource, observedChange_manual hg hsource]
          · have hdecided : (change c (some g)).isSome ↔
                g.lat ≠ some c.lat ∨ g.lon ≠ some c.lon ∨ g.dirty ≠ c.dirty := by
              simp [change, hsource]
            rw [observedChange_old hg hsource hc, Option.bind_some, hdecided, compared_iff_changed]
            constructor
            · intro hsettled g₁ c₁ hg₁ _ hc₁
              obtain rfl := Option.some.inj hg₁
              obtain rfl := Option.some.inj hc₁
              exact hsettled
            · intro hsettled
              exact hsettled g c rfl hsource rfl

theorem records_passSql_iff :
    Records db (passSql e now db) ObservedChange ↔ CountriesSettled e db := by
  rw [countriesSettled_iff]
  constructor
  · intro h ip
    exact (passDecided_iff_change ip).mp (h.iff ip)
  · intro h
    refine ⟨fun ip ↦ (passDecided_iff_change ip).mpr (h ip), ?_⟩
    rw [inserted_passSql]
    exact nodup_passDecisions

end Observed

/-! ## The relocate pass -/

section Relocated

variable {D : Type} [Field D] [LinearOrder D] (e : Engine D) (homeLat homeLon : ℚ)

/-- Every correction that no longer applies has no coordinates left. -/
def NothingLapses (db : Db) : Prop :=
  ∀ ip g, db.ipGeo.lookup ip = some g → g.corrSource = some "mtr-rtt" →
    (∀ r, db.routes.lookup ip = some r → ¬ Contradicted e homeLat homeLon g r.hops) →
    g.corrLat = none ∧ g.corrLon = none

variable {e} {homeLat homeLon} {now : DateTime} {db : Db}

theorem inserted_relocateSql :
    inserted db (relocateSql e homeLat homeLon now db) =
      relocateDecisions e homeLat homeLon now db :=
  List.drop_left

theorem lookup_relocate_none_iff [IsStrictOrderedRing D] {ip : IpNetwork} {g : GeoRow}
    (hg : db.ipGeo.lookup ip = some g) :
    (relocate e homeLat homeLon db).lookup ip = none ↔
      ∀ r, db.routes.lookup ip = some r → ¬ Contradicted e homeLat homeLon g r.hops := by
  rw [← Option.not_isSome_iff_eq_none, mem_relocate_iff]
  constructor
  · intro h r hr hcontra
    exact h ⟨g, r, hg, hr, hcontra⟩
  · rintro h ⟨g₁, r, hg₁, hr, hcontra⟩
    obtain rfl := Option.some.inj (hg.symm.trans hg₁)
    exact h r hr hcontra

theorem correctionChange_iff {ip : IpNetwork} {g : GeoRow} (hg : db.ipGeo.lookup ip = some g) :
    CorrectionChange db (relocateSql e homeLat homeLon now db) ip ↔
      g.corrLat ≠ ((relocateRow e homeLat homeLon now db ip g).getD g).corrLat ∨
        g.corrLon ≠ ((relocateRow e homeLat homeLon now db ip g).getD g).corrLon := by
  have hafter : (relocateSql e homeLat homeLon now db).ipGeo.lookup ip =
      some ((relocateRow e homeLat homeLon now db ip g).getD g) := by
    rw [lookup_relocateSql, hg]
    rfl
  constructor
  · rintro ⟨g₁, g', hg₁, hg', hdiff⟩
    obtain rfl := Option.some.inj (hg.symm.trans hg₁)
    obtain rfl := Option.some.inj (hafter.symm.trans hg')
    exact hdiff
  · intro hdiff
    exact ⟨g, _, hg, hafter, hdiff⟩

/-- At one address the pass records what it changes, unless it drops the
coordinates of a correction. -/
theorem relocateDecided_iff_change (ip : IpNetwork) :
    ((∃ d ∈ inserted db (relocateSql e homeLat homeLon now db), d.ip = ip) ↔
        CorrectionChange db (relocateSql e homeLat homeLon now db) ip) ↔
      ∀ g, db.ipGeo.lookup ip = some g → g.corrSource = some "mtr-rtt" →
        (relocate e homeLat homeLon db).lookup ip = none → g.corrLat = none ∧ g.corrLon = none := by
  rw [inserted_relocateSql, relocateDecided_iff]
  cases hg : db.ipGeo.lookup ip with
  | none =>
      have hsame : ¬ CorrectionChange db (relocateSql e homeLat homeLon now db) ip := by
        rintro ⟨g, g', hsome, -⟩
        cases hg.symm.trans hsome
      have hnone : (relocate e homeLat homeLon db).lookup ip = none := by
        cases hr : (relocate e homeLat homeLon db).lookup ip with
        | none => rfl
        | some r =>
            obtain ⟨g, hsome⟩ := exists_row_of_relocate hr
            cases hg.symm.trans hsome
      simp [hsame, hnone]
  | some g =>
      rw [correctionChange_iff hg, relocateRow]
      cases hr : (relocate e homeLat homeLon db).lookup ip with
      | some r => simp [moved, doUpdate, not_manual_of_relocate hr hg]
      | none =>
          by_cases hcorr : g.corrSource = some "mtr-rtt"
          · simp [selfHeal, dropCorr, hcorr]
          · simp [selfHeal, hcorr]

theorem records_relocateSql_iff [IsStrictOrderedRing D] :
    Records db (relocateSql e homeLat homeLon now db) CorrectionChange ↔
      NothingLapses e homeLat homeLon db := by
  have hlapses : NothingLapses e homeLat homeLon db ↔
      ∀ ip g, db.ipGeo.lookup ip = some g → g.corrSource = some "mtr-rtt" →
        (relocate e homeLat homeLon db).lookup ip = none →
        g.corrLat = none ∧ g.corrLon = none := by
    apply forall₂_congr
    intro ip g
    apply forall₂_congr
    intro hg _
    rw [lookup_relocate_none_iff hg]
  rw [hlapses]
  constructor
  · intro h ip
    exact (relocateDecided_iff_change ip).mp (h.iff ip)
  · intro h
    refine ⟨fun ip ↦ (relocateDecided_iff_change ip).mpr (h ip), ?_⟩
    rw [inserted_relocateSql]
    exact nodup_relocateDecisions

end Relocated

/-! ## A run of both -/

section Run

variable {D : Type} [Field D] [LinearOrder D] (e : Engine D) (homeLat homeLon : ℚ)

def AuditExact (now₁ now₂ : DateTime) (db : Db) : Prop :=
  Records db (passSql e now₁ db) ObservedChange ∧
    Records (passSql e now₁ db) (relocateSql e homeLat homeLon now₂ (passSql e now₁ db))
      CorrectionChange

theorem auditExact_iff [IsStrictOrderedRing D] (now₁ now₂ : DateTime) (db : Db) :
    AuditExact e homeLat homeLon now₁ now₂ db ↔
      CountriesSettled e db ∧ NothingLapses e homeLat homeLon (passSql e now₁ db) :=
  and_congr records_passSql_iff records_relocateSql_iff

end Run

theorem computed_nil {D : Type} (e : Engine D) (ip : IpNetwork) :
    (computed e []).lookup ip = none := by
  rw [lookup_computed, compute, aggregate]
  exact Option.bind_eq_none_iff.mpr fun lat hlat ↦ by
    cases ((e.modeNum.run_eq_none []).mpr rfl).symm.trans hlat

theorem lookup_dbOf {g g' : GeoRow} {ip : IpNetwork} (h : (dbOf g).ipGeo.lookup ip = some g') :
    g' = g := by
  by_cases hip : ip = someIp
  · subst hip
    exact (Option.some.inj ((AList.lookup_insert _).symm.trans h)).symm
  · cases (AList.lookup_insert_ne hip).symm.trans h

theorem lookup_passSql_dbOf {D : Type} (e : Engine D) (now : DateTime) (g : GeoRow)
    (ip : IpNetwork) :
    (passSql e now (dbOf g)).ipGeo.lookup ip = (dbOf g).ipGeo.lookup ip := by
  have hnone : (computed e (dbOf g).flows).lookup ip = none := computed_nil e ip
  exact lookup_passSql_of_none hnone

theorem auditExact_quiet :
    AuditExact postgres 0 0 ⟨0, 0⟩ ⟨1, 0⟩ (dbOf (dropCorr (correctedRow "observed"))) := by
  refine (auditExact_iff postgres 0 0 ⟨0, 0⟩ ⟨1, 0⟩ _).mpr ⟨?_, ?_⟩
  · rw [countriesSettled_iff]
    intro ip g c _ _ hc
    cases (computed_nil postgres ip).symm.trans hc
  · intro ip g hg hcorr
    rw [lookup_passSql_dbOf] at hg
    obtain rfl := lookup_dbOf hg
    cases hcorr

/-- The route is gone, and the correction goes without a record. -/
theorem not_auditExact_lapsed :
    ¬ AuditExact postgres 0 0 ⟨0, 0⟩ ⟨1, 0⟩ (dbOf (correctedRow "observed")) := by
  rintro ⟨-, hrelocate⟩
  have hrow : (passSql postgres ⟨0, 0⟩ (dbOf (correctedRow "observed"))).ipGeo.lookup someIp =
      some (correctedRow "observed") := by
    rw [lookup_passSql_dbOf]
    exact AList.lookup_insert _
  have hnone : (relocate postgres 0 0
      (passSql postgres ⟨0, 0⟩ (dbOf (correctedRow "observed")))).lookup someIp = none := by
    apply (lookup_relocate_none_iff hrow).mpr
    intro r hr
    cases hr
  obtain ⟨hlat, -⟩ := (relocateDecided_iff_change someIp).mp (hrelocate.iff someIp) _ hrow rfl hnone
  cases hlat

end TrafficMap.GeoDoctor
