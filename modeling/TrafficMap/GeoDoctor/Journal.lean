import TrafficMap.Lib.Journal
import TrafficMap.GeoDoctor.Moves

/-!
# The audit trail as a journal

`geo_decisions` answers why an address has the coordinates it has.  Between two edits of
an operator the decisions of the passes account for `ip_geo`: replayed in their order,
each finds the values it replaces, and the last one of an address has left those that
the row has.  Only that a correction lapses is nowhere on record.
-/

namespace TrafficMap.GeoDoctor

open Ingestor Sql
open Journal (Entry Accounts)

/-! ## Reading the decisions -/

abbrev Coords := Option ℚ × Option ℚ

/-- The coordinates of a row, if there is one. -/
def coords (db : Db) (ip : IpNetwork) : Option Coords :=
  (db.ipGeo.lookup ip).map fun g ↦ (g.lat, g.lon)

def correction (db : Db) (ip : IpNetwork) : Coords :=
  ((db.ipGeo.lookup ip).bind GeoRow.corrLat, (db.ipGeo.lookup ip).bind GeoRow.corrLon)

/-- A row that is new has no old source. -/
def observedEntry (d : GeoDecision) : Option (Entry IpNetwork (Option Coords)) :=
  if d.newSource = some "observed" then
    some ⟨d.ip, d.oldSource.map fun _ ↦ (d.oldLat, d.oldLon), some (d.newLat, d.newLon)⟩
  else none

def correctionEntry (d : GeoDecision) : Option (Entry IpNetwork Coords) :=
  if d.newSource = some "mtr-rtt" then some ⟨d.ip, (d.oldLat, d.oldLon), (d.newLat, d.newLon)⟩
  else none

/-- The correction is as it was set, or it has lapsed. -/
def Lapsed (v w : Coords) : Prop := w = v ∨ w = (none, none)

instance : DecidableRel Lapsed := fun v w ↦ inferInstanceAs (Decidable (w = v ∨ w = (none, none)))

theorem Lapsed.refl (v : Coords) : Lapsed v v := Or.inl rfl

theorem Lapsed.trans {u v w : Coords} (h : Lapsed u v) (h' : Lapsed v w) : Lapsed u w := by
  rcases h' with rfl | hblank
  · exact h
  · exact Or.inr hblank

theorem keys_observedEntry {ds : List GeoDecision} :
    ((ds.filterMap observedEntry).map Entry.key).Sublist (ds.map GeoDecision.ip) := by
  refine Journal.keys_sublist (fun d x hx ↦ ?_) ds
  obtain ⟨-, hx⟩ := Option.ite_none_right_eq_some.mp hx
  exact Option.some.inj hx ▸ rfl

theorem keys_correctionEntry {ds : List GeoDecision} :
    ((ds.filterMap correctionEntry).map Entry.key).Sublist (ds.map GeoDecision.ip) := by
  refine Journal.keys_sublist (fun d y hy ↦ ?_) ds
  obtain ⟨-, hy⟩ := Option.ite_none_right_eq_some.mp hy
  exact Option.some.inj hy ▸ rfl

/-- What is on record accounts for what has happened to the table. -/
structure Accounted (before after : Db) (ds : List GeoDecision) : Prop where
  recorded : after.geoDecisions = before.geoDecisions ++ ds
  coords : Accounts (· = ·) (coords before) (ds.filterMap observedEntry) (coords after)
  corrections :
    Accounts Lapsed (correction before) (ds.filterMap correctionEntry) (correction after)

theorem Accounted.refl (db : Db) : Accounted db db [] where
  recorded := (List.append_nil _).symm
  coords := .nil (fun _ ↦ rfl) _
  corrections := .nil Lapsed.refl _

section Passes

variable {D : Type} {e : Engine D} {now : DateTime} {db : Db} {ip : IpNetwork}
  {x : Entry IpNetwork (Option Coords)}

/-! ## The observed pass -/

theorem observedEntry_passDecision (now : DateTime) (ip : IpNetwork) (c : Computed)
    (g : Option GeoRow) : observedEntry (passDecision now ip c g) =
      some ⟨ip, g.map fun g ↦ (g.lat, g.lon), some (some c.lat, some c.lon)⟩ := by
  have hnew : (passDecision now ip c g).newSource = some "observed" := rfl
  rw [observedEntry, if_pos hnew]
  cases g <;> rfl

theorem correctionEntry_passDecision (now : DateTime) (ip : IpNetwork) (c : Computed)
    (g : Option GeoRow) : correctionEntry (passDecision now ip c g) = none := by
  have hnew : (passDecision now ip c g).newSource = some "observed" := rfl
  rw [correctionEntry, hnew, if_neg (by decide)]

/-- The row that a decision of the pass is about. -/
theorem old_of_changed {c : Computed} {g : Option GeoRow}
    (h : (changed e db).lookup ip = some (c, g)) :
    (computed e db.flows).lookup ip = some c ∧ g = db.ipGeo.lookup ip ∧
      ∀ g', db.ipGeo.lookup ip = some g' → g'.source ≠ "manual" := by
  rw [lookup_changed] at h
  obtain ⟨c', hc, h⟩ := Option.bind_eq_some_iff.mp h
  cases hg : db.ipGeo.lookup ip with
  | none =>
      rw [hg, change] at h
      obtain ⟨rfl, rfl⟩ := Prod.mk.inj (Option.some.inj h)
      refine ⟨hc, rfl, fun g' hg' ↦ ?_⟩
      cases hg'
  | some g₀ =>
      rw [hg, change] at h
      split at h
      · rename_i hchange
        obtain ⟨rfl, rfl⟩ := Prod.mk.inj (Option.some.inj h)
        refine ⟨hc, rfl, fun g' hg' ↦ ?_⟩
        rw [← Option.some.inj hg']
        exact hchange.2
      · cases h

theorem coords_of_changed {c : Computed} {g : Option GeoRow}
    (h : (changed e db).lookup ip = some (c, g)) :
    coords (passSql e now db) ip = some (some c.lat, some c.lon) := by
  obtain ⟨hc, -, hsource⟩ := old_of_changed h
  cases hg : db.ipGeo.lookup ip with
  | none => rw [coords, lookup_passSql_new hc hg]; rfl
  | some g₀ => rw [coords, lookup_passSql_old hc hg (hsource g₀ hg)]; rfl

/-- A row without a decision keeps its coordinates. -/
theorem coords_of_unchanged (h : (changed e db).lookup ip = none) :
    coords (passSql e now db) ip = coords db ip := by
  rw [lookup_changed] at h
  cases hc : (computed e db.flows).lookup ip with
  | none => rw [coords, coords, lookup_passSql_of_none hc]
  | some c =>
      rw [hc, Option.bind_some] at h
      cases hg : db.ipGeo.lookup ip with
      | none =>
          rw [hg] at h
          cases h
      | some g =>
          by_cases hsource : g.source = "manual"
          · rw [coords, coords, lookup_passSql_manual hg hsource, hg]
          · rw [hg, change] at h
            have hsame : ¬ (g.lat ≠ some c.lat ∨ g.lon ≠ some c.lon ∨ g.dirty ≠ c.dirty) := by
              intro hdiff
              rw [if_pos ⟨hdiff, hsource⟩] at h
              cases h
            push Not at hsame
            rw [coords, coords, lookup_passSql_old hc hg hsource, hg, Option.map_some,
              Option.map_some, hsame.1, hsame.2.1]
            rfl

theorem correction_passSql (db : Db) (ip : IpNetwork) :
    correction (passSql e now db) ip = correction db ip := by
  cases hc : (computed e db.flows).lookup ip with
  | none => rw [correction, correction, lookup_passSql_of_none hc]
  | some c =>
      cases hg : db.ipGeo.lookup ip with
      | none => rw [correction, correction, lookup_passSql_new hc hg, hg]; rfl
      | some g =>
          by_cases hsource : g.source = "manual"
          · rw [correction, correction, lookup_passSql_manual hg hsource, hg]
          · rw [correction, correction, lookup_passSql_old hc hg hsource, hg]; rfl

theorem entries_passSql (hmem : x ∈ (passDecisions e now db).filterMap observedEntry) :
    ∃ c g, (changed e db).lookup x.key = some (c, g) ∧
      x = ⟨x.key, g.map fun g ↦ (g.lat, g.lon), some (some c.lat, some c.lon)⟩ := by
  obtain ⟨d, hd, hx⟩ := List.mem_filterMap.mp hmem
  obtain ⟨p, hp, rfl⟩ := List.mem_map.mp hd
  rw [observedEntry_passDecision] at hx
  obtain rfl := Option.some.inj hx
  exact ⟨p.2.1, p.2.2, AList.mem_lookup_iff.mpr hp, rfl⟩

/-! ## The relocate pass -/

section Relocated

variable [Field D] [LinearOrder D] {homeLat homeLon : ℚ} {y : Entry IpNetwork Coords}

theorem observedEntry_relocateDecision (now : DateTime) (ip : IpNetwork) (r : Relocation)
    (prev : Option GeoRow) : observedEntry (relocateDecision now ip r prev) = none := by
  have hnew : (relocateDecision now ip r prev).newSource = some "mtr-rtt" := rfl
  rw [observedEntry, hnew, if_neg (by decide)]

theorem correctionEntry_relocateDecision (now : DateTime) (ip : IpNetwork) (r : Relocation)
    (prev : Option GeoRow) : correctionEntry (relocateDecision now ip r prev) =
      some ⟨ip, (prev.bind GeoRow.corrLat, prev.bind GeoRow.corrLon), (some r.hlat, r.hlon)⟩ := by
  have hnew : (relocateDecision now ip r prev).newSource = some "mtr-rtt" := rfl
  rw [correctionEntry, if_pos hnew]
  rfl

theorem entries_relocateSql
    (hmem : y ∈ (relocateDecisions e homeLat homeLon now db).filterMap correctionEntry) :
    ∃ r, (relocate e homeLat homeLon db).lookup y.key = some r ∧
      y = ⟨y.key, correction db y.key, (some r.hlat, r.hlon)⟩ := by
  obtain ⟨d, hd, hy⟩ := List.mem_filterMap.mp hmem
  obtain ⟨p, hp, rfl⟩ := List.mem_map.mp hd
  rw [correctionEntry_relocateDecision] at hy
  obtain rfl := Option.some.inj hy
  have hlookup := AList.mem_lookup_iff.mpr hp
  rw [Option.mem_def, relocated, Table.lookup_select] at hlookup
  obtain ⟨r, hr, hmoved⟩ := Option.bind_eq_some_iff.mp hlookup
  rw [moved] at hmoved
  split at hmoved
  · obtain ⟨hr', hprev⟩ := Prod.mk.inj (Option.some.inj hmoved)
    rw [← hr', ← hprev]
    exact ⟨r, hr, rfl⟩
  · cases hmoved

theorem coords_relocateSql (db : Db) (ip : IpNetwork) :
    coords (relocateSql e homeLat homeLon now db) ip = coords db ip := by
  rw [coords, coords, lookup_relocateSql, Option.map_map]
  refine Option.map_congr fun g _ ↦ ?_
  rw [Function.comp, relocateRow]
  cases (relocate e homeLat homeLon db).lookup ip with
  | none =>
      dsimp only
      rw [selfHeal]
      split <;> rfl
  | some r =>
      dsimp only
      rw [doUpdate]
      split <;> rfl

theorem correction_of_relocate {r : Relocation}
    (h : (relocate e homeLat homeLon db).lookup ip = some r) :
    correction (relocateSql e homeLat homeLon now db) ip = (some r.hlat, r.hlon) := by
  obtain ⟨g, hg⟩ := exists_row_of_relocate h
  rw [correction, lookup_relocateSql, hg, Option.map_some, relocateRow, h]
  dsimp only
  rw [doUpdate, if_neg (not_manual_of_relocate h hg)]
  rfl

/-- A row that is not moved keeps its correction, or loses it. -/
theorem lapsed_of_not_relocate (h : (relocate e homeLat homeLon db).lookup ip = none) :
    Lapsed (correction db ip) (correction (relocateSql e homeLat homeLon now db) ip) := by
  cases hg : db.ipGeo.lookup ip with
  | none => exact Or.inr (by rw [correction, lookup_relocateSql, hg]; rfl)
  | some g =>
      rw [correction, correction, lookup_relocateSql, hg, Option.map_some, relocateRow, h]
      dsimp only
      rw [selfHeal]
      split
      · exact Or.inr rfl
      · exact Or.inl rfl

/-- The move is on record, or the correction was the same before. -/
theorem lapsed_relocateSql (hquiet : ∀ y ∈ (relocateDecisions e homeLat homeLon now db).filterMap
      correctionEntry, y.key ≠ ip) :
    Lapsed (correction db ip) (correction (relocateSql e homeLat homeLon now db) ip) := by
  cases hr : (relocate e homeLat homeLon db).lookup ip with
  | none => exact lapsed_of_not_relocate hr
  | some r =>
      refine Or.inl ?_
      rw [correction_of_relocate hr]
      by_contra hdiff
      have hmoved : (relocated e homeLat homeLon db).lookup ip =
          some (r, db.ipGeo.lookup ip) := by
        rw [relocated, Table.lookup_select, hr, Option.bind_some, moved, if_pos]
        by_contra hsame
        push Not at hsame
        exact hdiff (Prod.ext hsame.1.symm hsame.2.symm)
      have hdecided : relocateDecision now ip r (db.ipGeo.lookup ip) ∈
          relocateDecisions e homeLat homeLon now db :=
        List.mem_map.mpr ⟨⟨ip, r, db.ipGeo.lookup ip⟩, AList.mem_lookup_iff.mp hmoved, rfl⟩
      exact hquiet _ (List.mem_filterMap.mpr
        ⟨_, hdecided, correctionEntry_relocateDecision now ip r _⟩) rfl

end Relocated

end Passes

/-! ## The trail -/

section Trail

variable {D : Type} {e : Engine D} {before db after : Db} {ds : List GeoDecision}

theorem Accounted.observedPass (h : Accounted before db ds) (now : DateTime) :
    Accounted before (passSql e now db) (ds ++ passDecisions e now db) where
  recorded := by
    rw [← List.append_assoc, ← h.recorded]
    rfl
  coords := by
    have hnodup : ((passDecisions e now db).map GeoDecision.ip).Nodup := nodup_passDecisions
    have hkeys := keys_observedEntry.nodup hnodup
    rw [List.filterMap_append]
    obtain ⟨c, hc, hafter, hkept⟩ := h.coords.batch (fun _ ↦ rfl) hkeys fun x hx ↦ by
      obtain ⟨c, g, hchanged, hx⟩ := entries_passSql hx
      rw [hx, (old_of_changed hchanged).2.1]
      rfl
    refine hc.silently fun v ip hv ↦ hv.trans ?_
    cases hchanged : (changed e db).lookup ip with
    | none =>
        rw [coords_of_unchanged hchanged]
        refine hkept ip ?_
        rintro x hx rfl
        obtain ⟨c', g, hsome, -⟩ := entries_passSql hx
        cases hchanged.symm.trans hsome
    | some p =>
        rw [coords_of_changed hchanged]
        have hmem : passDecision now ip p.1 p.2 ∈ passDecisions e now db :=
          List.mem_map.mpr ⟨⟨ip, p⟩, AList.mem_lookup_iff.mp hchanged, rfl⟩
        exact hafter _ (List.mem_filterMap.mpr ⟨_, hmem, observedEntry_passDecision now ip p.1 p.2⟩)
  corrections := by
    rw [funext (correction_passSql db)]
    refine h.corrections.unread fun d hd ↦ ?_
    obtain ⟨p, -, rfl⟩ := List.mem_map.mp hd
    exact correctionEntry_passDecision now p.1 p.2.1 p.2.2

theorem Accounted.bogonPass (h : Accounted before db ds) (now : DateTime) :
    Accounted before (bogonAudit now db)
      (ds ++ (bogonScan db).filterMap fun ip ↦ bogonDecision now ip.ip) := by
  have hold : ∀ d ∈ (bogonScan db).filterMap fun ip ↦ bogonDecision now ip.ip,
      d.newSource = none := by
    intro d hd
    obtain ⟨ip, -, hd⟩ := List.mem_filterMap.mp hd
    obtain ⟨kind, -, rfl⟩ := Option.map_eq_some_iff.mp hd
    rfl
  refine ⟨?_, h.coords.unread fun d hd ↦ ?_, h.corrections.unread fun d hd ↦ ?_⟩
  · rw [← List.append_assoc, ← h.recorded]
    rfl
  · rw [observedEntry, hold d hd, if_neg (by decide)]
  · rw [correctionEntry, hold d hd, if_neg (by decide)]

variable [Field D] [LinearOrder D] {homeLat homeLon : ℚ}

theorem Accounted.relocatePass (h : Accounted before db ds) (now : DateTime) :
    Accounted before (relocateSql e homeLat homeLon now db)
      (ds ++ relocateDecisions e homeLat homeLon now db) where
  recorded := by
    rw [← List.append_assoc, ← h.recorded]
    rfl
  coords := by
    rw [funext (coords_relocateSql db)]
    refine h.coords.unread fun d hd ↦ ?_
    obtain ⟨p, -, rfl⟩ := List.mem_map.mp hd
    exact observedEntry_relocateDecision now p.1 p.2.1 p.2.2
  corrections := by
    have hnodup : ((relocateDecisions e homeLat homeLon now db).map GeoDecision.ip).Nodup :=
      nodup_relocateDecisions
    have hkeys := keys_correctionEntry.nodup hnodup
    rw [List.filterMap_append]
    obtain ⟨c, hc, hafter, hkept⟩ := h.corrections.batch Lapsed.refl hkeys fun y hy ↦ by
      obtain ⟨r, -, hy⟩ := entries_relocateSql hy
      rw [hy]
    refine hc.silently fun v ip hv ↦ ?_
    by_cases hquiet : ∀ y ∈ (relocateDecisions e homeLat homeLon now db).filterMap correctionEntry,
        y.key ≠ ip
    · rw [hkept ip hquiet] at hv
      exact hv.trans (lapsed_relocateSql hquiet)
    · push Not at hquiet
      obtain ⟨y, hy, rfl⟩ := hquiet
      obtain ⟨r, hr, hentry⟩ := entries_relocateSql hy
      rw [hafter y hy, hentry] at hv
      rw [correction_of_relocate hr]
      exact hv

def Action.isEdit : Action → Bool
  | .setGeo _ => true
  | _ => false

theorem Accounted.apply (h : Accounted before db ds) {a : Action} (ha : a.isEdit = false) :
    ∃ ds, Accounted before (apply e homeLat homeLon db a) ds := by
  cases a with
  | observedPass now => exact ⟨_, h.observedPass now⟩
  | relocatePass now => exact ⟨_, h.relocatePass now⟩
  | bogonPass now => exact ⟨_, h.bogonPass now⟩
  | setFlows flows => exact ⟨ds, h.recorded, h.coords, h.corrections⟩
  | setRoutes routes => exact ⟨ds, h.recorded, h.coords, h.corrections⟩
  | setGeo ipGeo => cases ha

/-- In every run without an edit, whatever flows and routes come in between: the
decisions that it inserts lead from the coordinates that were there to those that are, and
likewise for the corrections but for those that have lapsed.  So the last decision of an
address has the coordinates of its row. -/
theorem decisions_account {acts : List Action} (hacts : ∀ a ∈ acts, a.isEdit = false)
    (hrun : Machine.run (step e homeLat homeLon) before acts = some after) :
    ∃ ds, Accounted before after ds ∧
      (∀ ip, coords after ip = Journal.last (coords before) (ds.filterMap observedEntry) ip) ∧
      ∀ ip, Lapsed (Journal.last (correction before) (ds.filterMap correctionEntry) ip)
        (correction after ip) := by
  have hstep : ∀ db a db', (∃ ds, Accounted before db ds) → a.isEdit = false →
      step e homeLat homeLon db a = some db' → ∃ ds, Accounted before db' ds := by
    rintro db a db' ⟨ds, hds⟩ ha hdb'
    obtain rfl := Option.some.inj hdb'
    exact hds.apply ha
  have halong : Machine.Along (step e homeLat homeLon) (fun _ a ↦ a.isEdit = false) before acts :=
    Machine.along_of_forall (fun a ha _ ↦ hacts a ha) before
  obtain ⟨ds, hds⟩ :=
    Machine.run_invariant_along hstep ⟨[], Accounted.refl before⟩ halong hrun
  exact ⟨ds, hds, fun ip ↦ (hds.coords.last ip).symm, fun ip ↦ hds.corrections.last ip⟩

end Trail

/-- A host that is moved, and whose route is then gone. -/
def movedAndBack : List Action := [.relocatePass ⟨1, 0⟩, .setRoutes ∅, .relocatePass ⟨2, 0⟩]

/-- The one decision says where the host was moved to, and its correction has lapsed. -/
theorem decisions_account_movedAndBack : ∃ before after ds,
    Machine.run (step flatEarth 0 0) before movedAndBack = some after ∧
      Accounted before after ds ∧
        (∀ ip, coords after ip = Journal.last (coords before) (ds.filterMap observedEntry) ip) ∧
          (∀ ip, Lapsed (Journal.last (correction before) (ds.filterMap correctionEntry) ip)
            (correction after ip)) ∧
          ds.map (fun d ↦ (d.newLat, d.newLon)) = [(some 0, some 0)] ∧
            correction after someIp = (none, none) := by
  have hrun : Machine.run (step flatEarth 0 0) (dbWith (dirtyRow 0 180) [hopAt gateway 0 0 1])
      movedAndBack = some _ := rfl
  obtain ⟨ds, hds, hlast, hcorr⟩ := decisions_account (by decide) hrun
  have hrecorded := congrArg (List.map fun d ↦ (d.newLat, d.newLon)) hds.recorded
  exact ⟨_, _, ds, hrun, hds, hlast, hcorr, hrecorded.symm.trans (by decide +kernel),
    by decide +kernel⟩

end TrafficMap.GeoDoctor
