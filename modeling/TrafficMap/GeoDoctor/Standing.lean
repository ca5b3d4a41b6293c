import TrafficMap.GeoDoctor.Physics

/-!
# Standing corrections

After `RELOCATE_SQL` the corrections in place are those that the routes justify at
that moment, whatever earlier passes left.
-/

namespace TrafficMap.GeoDoctor

open Ingestor Sql

section

variable {D : Type} [Field D] [LinearOrder D] (e : Engine D) (homeLat homeLon : ℚ)

/-- A hop within the bound of its own reply. -/
def Reachable (h : Hop) : Prop := ∃ lat lon rtt : ℚ, h.lat = some lat ∧ h.lon = some lon ∧
  h.rttMs = some rtt ∧ e.km homeLat homeLon lat lon ≤ anchorKm rtt

/-- The largest time `longest` on the path is too short for the row's coordinates, and
there is a hop to move it to. -/
structure Justified (g : GeoRow) (hops : List Hop) (longest : ℚ) : Prop where
  dirty : g.dirty = true
  measured : ∃ h ∈ hops, h.lat ≠ none ∧ h.rttMs = some longest
  le_longest : ∀ h ∈ hops, h.lat ≠ none → ∀ rtt : ℚ, h.rttMs = some rtt → rtt ≤ longest
  tooFar : ∃ lat lon, g.lat = some lat ∧ g.lon = some lon ∧
    boundKm longest < e.km homeLat homeLon lat lon
  reachable : ∃ h ∈ hops, Reachable e homeLat homeLon h

/-- The correction is that of a reachable hop, none deeper. -/
structure CorrectedTo (g : GeoRow) (hops : List Hop) (longest : ℚ) (h : Hop) : Prop where
  mem : h ∈ hops
  reachable : Reachable e homeLat homeLon h
  deepest : ∀ h' ∈ hops, Reachable e homeLat homeLon h' → h'.idx ≤ h.idx
  source : g.corrSource = some "mtr-rtt"
  lat : g.corrLat = h.lat
  lon : g.corrLon = h.lon
  country : g.corrCountry = h.country
  anchorIp : g.corrAnchorIp = some (toNet h.ip)
  rttMs : g.corrRttMs = some longest
  conf : ∃ conf ≤ 85 / 100, g.corrConf = some (e.real conf)

/-- The row that `do_update` writes. -/
def UpdateWrites (db : Db) (ip : IpNetwork) (g : GeoRow) : Prop :=
  (∃ r, (relocate e homeLat homeLon db).lookup ip = some r) ∧ g.source ≠ "manual"

/-- The row that the outer update writes. -/
def HealWrites (db : Db) (ip : IpNetwork) (g : GeoRow) : Prop :=
  g.corrSource = some "mtr-rtt" ∧ (relocate e homeLat homeLon db).lookup ip = none

variable {e} {homeLat homeLon} {hops : List Hop}

omit [Field D] [LinearOrder D] in
/-- The maximum that the statement takes. -/
theorem max_rtt_eq_some_iff {longest : ℚ} :
    ((hopd e homeLat homeLon hops).map HopD.rtt).max? = some longest ↔
      (∃ h ∈ hops, h.lat ≠ none ∧ h.rttMs = some longest) ∧
        ∀ h ∈ hops, h.lat ≠ none → ∀ rtt : ℚ, h.rttMs = some rtt → rtt ≤ longest := by
  have hmem : ∀ rtt : ℚ, rtt ∈ (hopd e homeLat homeLon hops).map HopD.rtt ↔
      ∃ h ∈ hops, h.lat ≠ none ∧ h.rttMs = some rtt := by
    intro rtt
    constructor
    · intro hrtt
      obtain ⟨x, hx, rfl⟩ := List.mem_map.mp hrtt
      obtain ⟨h, hh, lat, rtt, hlat, hhop, rfl⟩ := mem_hopd_iff.mp hx
      exact ⟨h, hh, by simp [hlat], hhop⟩
    · rintro ⟨h, hh, hlat, hrtt⟩
      obtain ⟨lat, hlat⟩ := Option.ne_none_iff_exists'.mp hlat
      exact List.mem_map.mpr ⟨_, mem_hopd_iff.mpr ⟨h, hh, lat, rtt, hlat, hrtt, rfl⟩, rfl⟩
  rw [List.max?_eq_some_iff, hmem]
  apply and_congr_right
  intro _
  constructor
  · intro hle h hh hlat rtt hrtt
    exact hle rtt ((hmem rtt).mpr ⟨h, hh, hlat, hrtt⟩)
  · intro hle rtt hrtt
    obtain ⟨h, hh, hlat, hrtt⟩ := (hmem rtt).mp hrtt
    exact hle h hh hlat rtt hrtt

/-- The hops among which the anchor is chosen. -/
theorem mem_near_iff {x : HopD D} : x ∈ (hopd e homeLat homeLon hops).filter near ↔
    ∃ h ∈ hops, ∃ lat lon rtt : ℚ, h.lat = some lat ∧ h.lon = some lon ∧ h.rttMs = some rtt ∧
      e.km homeLat homeLon lat lon ≤ anchorKm rtt ∧
        x = ⟨h.idx, lat, some lon, h.country, h.ip, rtt, some (e.km homeLat homeLon lat lon)⟩ := by
  rw [List.mem_filter, mem_hopd_iff]
  constructor
  · rintro ⟨⟨h, hh, lat, rtt, hlat, hrtt, rfl⟩, hnear⟩
    cases hlon : h.lon with
    | none => simp [near, hlon] at hnear
    | some lon =>
        refine ⟨h, hh, lat, lon, rtt, hlat, hlon, hrtt, ?_, rfl⟩
        simpa [near, hlon] using hnear
  · rintro ⟨h, hh, lat, lon, rtt, hlat, hlon, hrtt, hle, rfl⟩
    refine ⟨⟨h, hh, lat, rtt, hlat, hrtt, by rw [hlon]; rfl⟩, ?_⟩
    simpa [near] using hle

theorem relocation_spec {g : GeoRow} {n : ℤ} {x : Relocation}
    (hx : relocation e homeLat homeLon ⟨g.lat, g.lon, hops, n⟩ = some x) :
    (∃ h ∈ hops, h.lat ≠ none ∧ h.rttMs = some x.dstRtt) ∧
      (∀ h ∈ hops, h.lat ≠ none → ∀ rtt : ℚ, h.rttMs = some rtt → rtt ≤ x.dstRtt) ∧
      (∃ lat lon, g.lat = some lat ∧ g.lon = some lon ∧
        boundKm x.dstRtt < e.km homeLat homeLon lat lon) ∧
      ∃ h ∈ hops, Reachable e homeLat homeLon h ∧
        (∀ h' ∈ hops, Reachable e homeLat homeLon h' → h'.idx ≤ h.idx) ∧
        some x.hlat = h.lat ∧ x.hlon = h.lon ∧ x.hcountry = h.country ∧ x.hip = h.ip ∧
          ∃ conf ≤ 85 / 100, x.conf = e.real conf := by
  obtain ⟨i, hi, hx⟩ := Option.bind_eq_some_iff.mp hx
  obtain ⟨anchor, hanchor, hx⟩ := Option.bind_eq_some_iff.mp hx
  obtain rfl := Option.some.inj hx
  obtain ⟨lat, hlat, hi⟩ := Option.bind_eq_some_iff.mp hi
  obtain ⟨lon, hlon, hi⟩ := Option.bind_eq_some_iff.mp hi
  obtain ⟨longest, hmax, hi⟩ := Option.bind_eq_some_iff.mp hi
  obtain ⟨hfar, hi⟩ := Option.ite_none_right_eq_some.mp hi
  obtain rfl := Option.some.inj hi
  obtain ⟨hmeasured, hle⟩ := max_rtt_eq_some_iff.mp hmax
  refine ⟨hmeasured, hle, ⟨lat, lon, hlat, hlon, hfar⟩, ?_⟩
  obtain ⟨h, hh, hoplat, hoplon, rtt, hhoplat, hhoplon, hrtt, hkm, rfl⟩ :=
    mem_near_iff.mp (e.deepest.mem_of_run _ _ hanchor)
  refine ⟨h, hh, ⟨hoplat, hoplon, rtt, hhoplat, hhoplon, hrtt, hkm⟩, ?_, hhoplat.symm,
    hhoplon.symm, rfl, rfl, _, min_le_left _ _, rfl⟩
  rintro h' hh' ⟨lat', lon', rtt', hlat', hlon', hrtt', hkm'⟩
  exact e.deepest.key_le _ _ hanchor _
    (mem_near_iff.mpr ⟨h', hh', lat', lon', rtt', hlat', hlon', hrtt', hkm', rfl⟩)

theorem relocation_isSome_of_justified {g : GeoRow} {n : ℤ} {longest : ℚ}
    (h : Justified e homeLat homeLon g hops longest) :
    ∃ x, relocation e homeLat homeLon ⟨g.lat, g.lon, hops, n⟩ = some x ∧ x.dstRtt = longest := by
  obtain ⟨lat, lon, hlat, hlon, hfar⟩ := h.tooFar
  obtain ⟨hop, hhop, hoplat, hoplon, rtt, hhoplat, hhoplon, hrtt, hkm⟩ := h.reachable
  have hmax : ((hopd e homeLat homeLon hops).map HopD.rtt).max? = some longest :=
    max_rtt_eq_some_iff.mpr ⟨h.measured, h.le_longest⟩
  have hne : (hopd e homeLat homeLon hops).filter near ≠ [] := List.ne_nil_of_mem
    (mem_near_iff.mpr ⟨hop, hhop, hoplat, hoplon, rtt, hhoplat, hhoplon, hrtt, hkm, rfl⟩)
  obtain ⟨anchor, hanchor⟩ :=
    Option.ne_none_iff_exists'.mp ((e.deepest.run_eq_none _).not.mpr hne)
  have himp : imp e homeLat homeLon ⟨g.lat, g.lon, hops, n⟩ =
      some ⟨longest, n, hopd e homeLat homeLon hops⟩ := by
    simp only [imp, hlat, hlon, hmax, Option.bind_eq_bind, Option.bind_some]
    exact if_pos hfar
  rw [relocation, himp]
  simp only [Option.bind_eq_bind, Option.bind_some, hanchor]
  exact ⟨_, rfl, rfl⟩

section Db

variable {db : Db} {ip : IpNetwork} {now : DateTime}

theorem lookup_relocate {g : GeoRow} (hg : db.ipGeo.lookup ip = some g) :
    (relocate e homeLat homeLon db).lookup ip = if isCand g then
      (db.routes.lookup ip).bind fun r ↦
        relocation e homeLat homeLon ⟨g.lat, g.lon, r.hops, r.hopCount⟩ else none := by
  rw [relocate, Table.lookup_select, cand, Table.lookup_select, hg, Option.bind_some]
  by_cases hcand : isCand g
  · rw [if_pos hcand, if_pos hcand, Option.bind_map]
    rfl
  · rw [if_neg hcand, if_neg hcand, Option.bind_none]

theorem justified_of_relocate {g : GeoRow} {x : Relocation} (hg : db.ipGeo.lookup ip = some g)
    (hx : (relocate e homeLat homeLon db).lookup ip = some x) :
    ∃ r, db.routes.lookup ip = some r ∧ Justified e homeLat homeLon g r.hops x.dstRtt := by
  rw [lookup_relocate hg] at hx
  obtain ⟨hcand, hx⟩ := Option.ite_none_right_eq_some.mp hx
  obtain ⟨r, hr, hx⟩ := Option.bind_eq_some_iff.mp hx
  obtain ⟨hmeasured, hle, hfar, h, hh, hreach, -⟩ := relocation_spec hx
  exact ⟨r, hr, hcand.1, hmeasured, hle, hfar, h, hh, hreach⟩

theorem relocate_of_justified {g : GeoRow} {r : Route} {longest : ℚ}
    (hg : db.ipGeo.lookup ip = some g) (hmanual : g.source ≠ "manual")
    (hr : db.routes.lookup ip = some r) (h : Justified e homeLat homeLon g r.hops longest) :
    ∃ x, (relocate e homeLat homeLon db).lookup ip = some x ∧ x.dstRtt = longest := by
  rw [lookup_relocate hg, if_pos ⟨h.dirty, hmanual⟩, hr, Option.bind_some]
  exact relocation_isSome_of_justified h

theorem correctedTo_of_relocate {g g' : GeoRow} {r : Route} {x : Relocation}
    (hg : db.ipGeo.lookup ip = some g) (hr : db.routes.lookup ip = some r)
    (hx : (relocate e homeLat homeLon db).lookup ip = some x) (hg' : doUpdate now x g = some g') :
    ∃ h, CorrectedTo e homeLat homeLon g' r.hops x.dstRtt h := by
  rw [lookup_relocate hg, hr] at hx
  obtain ⟨hcand, hx⟩ := Option.ite_none_right_eq_some.mp hx
  obtain ⟨-, -, -, h, hh, hreach, hdeepest, hlat, hlon, hcountry, hip, conf, hconf, hxconf⟩ :=
    relocation_spec hx
  rw [doUpdate, if_neg hcand.2] at hg'
  obtain rfl := Option.some.inj hg'
  exact ⟨h, hh, hreach, hdeepest, rfl, hlat, hlon, hcountry, congrArg (some ∘ toNet) hip, rfl,
    conf, hconf, congrArg some hxconf⟩

/-- The rows that the statement writes, and by which update. -/
theorem relocateRow_isSome_iff {g : GeoRow} (hg : db.ipGeo.lookup ip = some g) :
    (relocateRow e homeLat homeLon now db ip g).isSome ↔
      UpdateWrites e homeLat homeLon db ip g ∨ HealWrites e homeLat homeLon db ip g := by
  rw [relocateRow, UpdateWrites, HealWrites]
  cases hx : (relocate e homeLat homeLon db).lookup ip with
  | some x => simp [doUpdate, not_manual_of_relocate hx hg]
  | none => simp [selfHeal]

end Db

/-- The corrections of the statement are in place exactly where the routes justify them,
each is that of the deepest reachable hop, and no row is written twice. -/
theorem standing_relocateSql (e : Engine D) (homeLat homeLon : ℚ) (now : DateTime) (db : Db) :
    (∀ ip g g', db.ipGeo.lookup ip = some g → g.source ≠ "manual" →
      (relocateSql e homeLat homeLon now db).ipGeo.lookup ip = some g' →
        (g'.corrSource = some "mtr-rtt" ↔ ∃ r longest, db.routes.lookup ip = some r ∧
          Justified e homeLat homeLon g r.hops longest) ∧
        (∀ r longest, db.routes.lookup ip = some r →
          Justified e homeLat homeLon g r.hops longest →
            ∃ h, CorrectedTo e homeLat homeLon g' r.hops longest h) ∧
        ((¬ ∃ r longest, db.routes.lookup ip = some r ∧
            Justified e homeLat homeLon g r.hops longest) →
          g.corrSource = some "mtr-rtt" → g' = dropCorr g)) ∧
    ∀ ip g, ¬ (UpdateWrites e homeLat homeLon db ip g ∧ HealWrites e homeLat homeLon db ip g) := by
  constructor
  · intro ip g g' hg hmanual hg'
    have hafter := hg'
    rw [lookup_relocateSql, hg, Option.map_some] at hg'
    obtain rfl := Option.some.inj hg'
    refine ⟨?_, ?_, ?_⟩
    · rw [corrected_iff hafter]
      constructor
      · intro hsome
        obtain ⟨x, hx⟩ := Option.isSome_iff_exists.mp hsome
        obtain ⟨r, hr, hjust⟩ := justified_of_relocate hg hx
        exact ⟨r, x.dstRtt, hr, hjust⟩
      · rintro ⟨r, longest, hr, hjust⟩
        obtain ⟨x, hx, -⟩ := relocate_of_justified hg hmanual hr hjust
        exact Option.isSome_of_eq_some hx
    · intro r longest hr hjust
      obtain ⟨x, hx, rfl⟩ := relocate_of_justified hg hmanual hr hjust
      have hrow : relocateRow e homeLat homeLon now db ip g = doUpdate now x g := by
        rw [relocateRow, hx]
      apply correctedTo_of_relocate hg hr hx
      rw [hrow, doUpdate, if_neg hmanual]
      rfl
    · intro hnone hcorr
      cases hx : (relocate e homeLat homeLon db).lookup ip with
      | some x =>
          obtain ⟨r, hr, hjust⟩ := justified_of_relocate hg hx
          exact absurd ⟨r, x.dstRtt, hr, hjust⟩ hnone
      | none =>
          have hrow : relocateRow e homeLat homeLon now db ip g = selfHeal g := by
            rw [relocateRow, hx]
          rw [hrow, selfHeal, if_pos hcorr]
          rfl
  · rintro ip g ⟨⟨⟨x, hx⟩, -⟩, -, hnone⟩
    cases hx.symm.trans hnone

end

end TrafficMap.GeoDoctor
