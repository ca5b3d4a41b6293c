import TrafficMap.GeoDoctor.Schema
import Mathlib.Data.Rat.Cast.Order

/-!
# The relocate pass

`RELOCATE_SQL` of `crates/geo-doctor`: a dirty row whose coordinates are farther
from home than the largest round trip time on its measured path allows gets the
coordinates of the deepest hop that is within its own bound, and every other
correction of that kind is dropped.
-/

namespace TrafficMap.GeoDoctor

open Ingestor Sql

/-! ## Which rows contradict their path -/

structure Cand where
  mmLat : Option ℚ
  mmLon : Option ℚ
  hops : List Hop
  hopCount : ℤ

def isCand (g : GeoRow) : Prop := g.dirty = true ∧ g.source ≠ "manual"

instance (g : GeoRow) : Decidable (isCand g) := inferInstanceAs (Decidable (_ ∧ _))

def cand (db : Db) : Table IpNetwork Cand :=
  db.ipGeo.select fun ip g ↦
    if isCand g then
      (db.routes.lookup ip).map fun r ↦ ⟨g.lat, g.lon, r.hops, r.hopCount⟩
    else none

structure Imp (D : Type) where
  dstRtt : ℚ
  hopCount : ℤ
  hopd : List (HopD D)

structure Relocation where
  hlat : ℚ
  hlon : Option ℚ
  hcountry : Option String
  hip : IpAddr
  dstRtt : ℚ
  conf : ℚ

section Statement

variable {D : Type} [Field D] [LinearOrder D] (e : Engine D) (homeLat homeLon : ℚ)

def hopRow (h : Hop) : Option (HopD D) := do
  let lat ← h.lat
  let rtt ← h.rttMs
  return {
    idx := h.idx
    lat := lat
    lon := h.lon
    country := h.country
    ip := h.ip
    rtt := rtt
    dist := h.lon.map fun lon ↦ e.km homeLat homeLon lat lon }

def hopd (hops : List Hop) : List (HopD D) := hops.filterMap (hopRow e homeLat homeLon)

/-- `impossible`, and of it the rows of `imp`. -/
def imp (c : Cand) : Option (Imp D) := do
  let lat ← c.mmLat
  let lon ← c.mmLon
  let hops := hopd e homeLat homeLon c.hops
  let dstRtt ← (hops.map HopD.rtt).max?
  let mmDist := e.km homeLat homeLon lat lon
  if (dstRtt : D) * 100 < mmDist then some ⟨dstRtt, c.hopCount, hops⟩ else none

/-- Reachable within its own bound. -/
def near (h : HopD D) : Bool := h.dist.any fun dist ↦ decide (dist ≤ (h.rtt : D) * 100 + 50)

/-- The bound of a reply that took `rtt` ms. -/
abbrev boundKm (rtt : ℚ) : D := (rtt : D) * 100

/-- The bound of a hop that may serve as anchor. -/
abbrev anchorKm (rtt : ℚ) : D := (rtt : D) * 100 + 50

def relocation (c : Cand) : Option Relocation := do
  let i ← imp e homeLat homeLon c
  let anchor ← e.deepest.run (i.hopd.filter near)
  return {
    hlat := anchor.lat
    hlon := anchor.lon
    hcountry := anchor.country
    hip := anchor.ip
    dstRtt := i.dstRtt
    conf := e.real (min (85 / 100) (55 / 100 + 30 / 100 * (anchor.idx / max i.hopCount 1))) }

def relocate (db : Db) : Table IpNetwork Relocation :=
  (cand db).select fun _ c ↦ relocation e homeLat homeLon c

end Statement

/-! ## What the statement writes -/

/-- The correction, if it is not the one in place. -/
def moved (r : Relocation) (prev : Option GeoRow) : Option (Relocation × Option GeoRow) :=
  if prev.bind GeoRow.corrLat ≠ some r.hlat ∨ prev.bind GeoRow.corrLon ≠ r.hlon then some (r, prev)
  else none

def relocateDecision (now : DateTime) (ip : IpNetwork) (r : Relocation) (prev : Option GeoRow) :
    GeoDecision where
  ip := ip
  ts := now
  reason := "relocate(mtr-rtt)"
  oldLat := prev.bind GeoRow.corrLat
  oldLon := prev.bind GeoRow.corrLon
  oldSource := some ((prev.bind GeoRow.corrSource).getD "observed")
  newLat := some r.hlat
  newLon := r.hlon
  newSource := some "mtr-rtt"
  confidence := some r.conf

def doUpdate (now : DateTime) (r : Relocation) (g : GeoRow) : Option GeoRow :=
  if g.source = "manual" then none
  else some
    { g with
      corrLat := some r.hlat
      corrLon := r.hlon
      corrCountry := r.hcountry
      corrSource := some "mtr-rtt"
      corrConf := some r.conf
      corrRttMs := some r.dstRtt
      corrAnchorIp := some (toNet r.hip)
      corrAt := some now }

def dropCorr (g : GeoRow) : GeoRow :=
  { g with
    corrLat := none
    corrLon := none
    corrCountry := none
    corrSource := none
    corrConf := none
    corrRttMs := none
    corrAnchorIp := none
    corrAt := none }

/-- Drop corrections that no longer apply. -/
def selfHeal (g : GeoRow) : Option GeoRow :=
  if g.corrSource = some "mtr-rtt" then some (dropCorr g) else none

section Statement

variable {D : Type} [Field D] [LinearOrder D] (e : Engine D) (homeLat homeLon : ℚ)

def relocated (db : Db) : Table IpNetwork (Relocation × Option GeoRow) :=
  (relocate e homeLat homeLon db).select fun ip r ↦ moved r (db.ipGeo.lookup ip)

def relocateDecisions (now : DateTime) (db : Db) : List GeoDecision :=
  (relocated e homeLat homeLon db).entries.map fun p ↦ relocateDecision now p.1 p.2.1 p.2.2

/-- The two updates of the statement, which are never about the same row. -/
def relocateRow (now : DateTime) (db : Db) (ip : IpNetwork) (g : GeoRow) : Option GeoRow :=
  match (relocate e homeLat homeLon db).lookup ip with
  | some r => doUpdate now r g
  | none => selfHeal g

def relocateSql (now : DateTime) (db : Db) : Db :=
  { db with
    ipGeo := db.ipGeo.update (relocateRow e homeLat homeLon now db)
    geoDecisions := db.geoDecisions ++ relocateDecisions e homeLat homeLon now db }

end Statement

/-! ## What it takes to be relocated -/

section Spec

variable {D : Type} [Field D] [LinearOrder D] {e : Engine D} {homeLat homeLon : ℚ}

/-- The row contradicts the path, and the path has a hop to move it to. -/
structure Contradicted (e : Engine D) (homeLat homeLon : ℚ) (g : GeoRow) (hops : List Hop) :
    Prop where
  isCand : isCand g
  tooFar : ∃ lat lon, g.lat = some lat ∧ g.lon = some lon ∧
    ∀ h ∈ hopd e homeLat homeLon hops, (h.rtt : D) * 100 < e.km homeLat homeLon lat lon
  hasAnchor : ∃ h ∈ hopd e homeLat homeLon hops, near h = true

theorem max_rtt_lt_iff [IsStrictOrderedRing D] {hops : List (HopD D)} {m : ℚ} {d : D}
    (hm : (hops.map HopD.rtt).max? = some m) :
    (m : D) * 100 < d ↔ ∀ h ∈ hops, (h.rtt : D) * 100 < d := by
  obtain ⟨hmem, hle⟩ := List.max?_eq_some_iff.mp hm
  constructor
  · intro hlt h hh
    have hrtt : (h.rtt : D) ≤ m := Rat.cast_le.mpr (hle h.rtt (List.mem_map_of_mem hh))
    exact (mul_le_mul_of_nonneg_right hrtt (by norm_num)).trans_lt hlt
  · intro hall
    obtain ⟨h, hh, rfl⟩ := List.mem_map.mp hmem
    exact hall h hh

theorem relocation_isSome_iff [IsStrictOrderedRing D] {c : Cand} :
    (relocation e homeLat homeLon c).isSome ↔
      (∃ lat lon, c.mmLat = some lat ∧ c.mmLon = some lon ∧
        ∀ h ∈ hopd e homeLat homeLon c.hops, (h.rtt : D) * 100 < e.km homeLat homeLon lat lon) ∧
      ∃ h ∈ hopd e homeLat homeLon c.hops, near h = true := by
  constructor
  · intro h
    obtain ⟨r, hr⟩ := Option.isSome_iff_exists.mp h
    obtain ⟨i, hi, hr⟩ := Option.bind_eq_some_iff.mp hr
    obtain ⟨anchor, hanchor, -⟩ := Option.bind_eq_some_iff.mp hr
    obtain ⟨lat, hlat, hi⟩ := Option.bind_eq_some_iff.mp hi
    obtain ⟨lon, hlon, hi⟩ := Option.bind_eq_some_iff.mp hi
    obtain ⟨m, hm, hi⟩ := Option.bind_eq_some_iff.mp hi
    obtain ⟨hlt, hi⟩ := Option.ite_none_right_eq_some.mp hi
    obtain rfl := Option.some.inj hi
    refine ⟨⟨lat, lon, hlat, hlon, (max_rtt_lt_iff hm).mp hlt⟩, anchor, ?_⟩
    exact List.mem_filter.mp (e.deepest.mem_of_run _ _ hanchor)
  · rintro ⟨⟨lat, lon, hlat, hlon, hfar⟩, h, hh, hnear⟩
    have hne : (hopd e homeLat homeLon c.hops).map HopD.rtt ≠ [] :=
      List.ne_nil_of_mem (List.mem_map_of_mem hh)
    obtain ⟨m, hm⟩ := Option.ne_none_iff_exists'.mp (List.max?_eq_none_iff.not.mpr hne)
    have hlt := (max_rtt_lt_iff hm).mpr hfar
    have hanchors : (hopd e homeLat homeLon c.hops).filter near ≠ [] :=
      List.ne_nil_of_mem (List.mem_filter.mpr ⟨hh, hnear⟩)
    obtain ⟨anchor, hanchor⟩ :=
      Option.ne_none_iff_exists'.mp ((e.deepest.run_eq_none _).not.mpr hanchors)
    have himp : imp e homeLat homeLon c = some ⟨m, c.hopCount, hopd e homeLat homeLon c.hops⟩ := by
      simp [imp, hlat, hlon, hm, hlt]
    simp [relocation, himp, hanchor]

variable {now : DateTime} {db : Db} {ip : IpNetwork}

/-- The rows that the statement moves. -/
theorem mem_relocate_iff [IsStrictOrderedRing D] :
    ((relocate e homeLat homeLon db).lookup ip).isSome ↔
      ∃ g r, db.ipGeo.lookup ip = some g ∧ db.routes.lookup ip = some r ∧
        Contradicted e homeLat homeLon g r.hops := by
  rw [relocate, Table.lookup_select, cand, Table.lookup_select]
  constructor
  · intro h
    obtain ⟨x, hx⟩ := Option.isSome_iff_exists.mp h
    obtain ⟨c, hc, hx⟩ := Option.bind_eq_some_iff.mp hx
    obtain ⟨g, hg, hc⟩ := Option.bind_eq_some_iff.mp hc
    obtain ⟨hcand, hc⟩ := Option.ite_none_right_eq_some.mp hc
    obtain ⟨r, hr, rfl⟩ := Option.map_eq_some_iff.mp hc
    obtain ⟨hfar, hanchor⟩ := relocation_isSome_iff.mp (Option.isSome_iff_exists.mpr ⟨x, hx⟩)
    exact ⟨g, r, hg, hr, hcand, hfar, hanchor⟩
  · rintro ⟨g, r, hg, hr, hcontra⟩
    rw [hg, Option.bind_some, if_pos hcontra.isCand, hr, Option.map_some, Option.bind_some]
    exact relocation_isSome_iff.mpr ⟨hcontra.tooFar, hcontra.hasAnchor⟩

theorem lookup_relocateSql :
    (relocateSql e homeLat homeLon now db).ipGeo.lookup ip =
      (db.ipGeo.lookup ip).map fun g ↦ (relocateRow e homeLat homeLon now db ip g).getD g :=
  Table.lookup_update _ _ _

/-- A row that is moved is not a manual one. -/
theorem not_manual_of_relocate {r : Relocation} {g : GeoRow}
    (hr : (relocate e homeLat homeLon db).lookup ip = some r) (hg : db.ipGeo.lookup ip = some g) :
    g.source ≠ "manual" := by
  rw [relocate, Table.lookup_select, cand, Table.lookup_select, hg] at hr
  obtain ⟨c, hc, -⟩ := Option.bind_eq_some_iff.mp hr
  exact (Option.ite_none_right_eq_some.mp hc).1.2

theorem exists_row_of_relocate {r : Relocation}
    (hr : (relocate e homeLat homeLon db).lookup ip = some r) :
    ∃ g, db.ipGeo.lookup ip = some g := by
  rw [relocate, Table.lookup_select, cand, Table.lookup_select] at hr
  obtain ⟨c, hc, -⟩ := Option.bind_eq_some_iff.mp hr
  obtain ⟨g, hg, -⟩ := Option.bind_eq_some_iff.mp hc
  exact ⟨g, hg⟩

/-- After the statement the rows with a correction of this kind are those it
moved. -/
theorem corrected_iff {g : GeoRow}
    (hg : (relocateSql e homeLat homeLon now db).ipGeo.lookup ip = some g) :
    g.corrSource = some "mtr-rtt" ↔ ((relocate e homeLat homeLon db).lookup ip).isSome := by
  rw [lookup_relocateSql] at hg
  obtain ⟨g₀, hg₀, rfl⟩ := Option.map_eq_some_iff.mp hg
  rw [relocateRow]
  cases hr : (relocate e homeLat homeLon db).lookup ip with
  | some r => simp [doUpdate, not_manual_of_relocate hr hg₀]
  | none =>
      by_cases hcorr : g₀.corrSource = some "mtr-rtt" <;> simp [selfHeal, dropCorr, hcorr]

theorem relocateDecided_iff :
    (∃ d ∈ relocateDecisions e homeLat homeLon now db, d.ip = ip) ↔
      ∃ r, (relocate e homeLat homeLon db).lookup ip = some r ∧
        (moved r (db.ipGeo.lookup ip)).isSome := by
  have hlookup : (relocated e homeLat homeLon db).lookup ip =
      ((relocate e homeLat homeLon db).lookup ip).bind fun r ↦ moved r (db.ipGeo.lookup ip) :=
    Table.lookup_select _ _ _
  have hlisted : (∃ d ∈ relocateDecisions e homeLat homeLon now db, d.ip = ip) ↔
      ((relocated e homeLat homeLon db).lookup ip).isSome := by
    rw [relocateDecisions]
    apply Table.exists_mem_map_entries_iff
    exact fun _ _ ↦ rfl
  rw [hlisted, hlookup, Option.isSome_bind, Option.any_eq_true]

theorem nodup_relocateDecisions :
    ((relocateDecisions e homeLat homeLon now db).map GeoDecision.ip).Nodup := by
  rw [relocateDecisions]
  apply Table.nodup_map_entries
  exact fun _ _ ↦ rfl

end Spec

end TrafficMap.GeoDoctor
