import TrafficMap.GeoDoctor.Runs
import TrafficMap.MtrWorker.Trace
import Mathlib.Analysis.Real.Pi.Bounds

/-!
# The speed-of-light bound

A reply that took `rtt` ms came from no farther than `100 * rtt` km.  The
relocate pass takes the largest time on the stored path for the destination's
own, so a host whose own reply is not stored with coordinates is measured by the
hops before it.
-/

namespace TrafficMap.GeoDoctor

open Ingestor Sql

section

variable {D : Type} [Field D] [LinearOrder D] (e : Engine D) (homeLat homeLon : ℚ)

/-- The statement leaves the row with a correction of its own. -/
def Relocated (now : DateTime) (db : Db) (ip : IpNetwork) : Prop :=
  ∃ g, (relocateSql e homeLat homeLon now db).ipGeo.lookup ip = some g ∧
    g.corrSource = some "mtr-rtt"

/-- The row has the host's true position, and no reply outran light. -/
structure TrueHost (db : Db) (ip : IpNetwork) (g : GeoRow) (r : Route) (trueKm : IpAddr → D)
    (trueRtt : ℚ) : Prop where
  row : db.ipGeo.lookup ip = some g
  route : db.routes.lookup ip = some r
  position : ∃ lat lon, g.lat = some lat ∧ g.lon = some lon ∧
    e.km homeLat homeLon lat lon = trueKm ip.ip
  hop : ∀ h ∈ r.hops, ∀ rtt : ℚ, h.rttMs = some rtt → trueKm h.ip ≤ (rtt : D) * 100
  host : trueKm ip.ip ≤ (trueRtt : D) * 100

/-- The row is no candidate; or some hop with coordinates has a time that allows
the host's distance, as the host's own reply has; or every hop with coordinates
is itself placed farther than its time allows. -/
def Spared (ip : IpNetwork) (g : GeoRow) (r : Route) (trueKm : IpAddr → D) : Prop :=
  g.dirty = false ∨ g.source = "manual" ∨
    (∃ h ∈ r.hops, h.lat ≠ none ∧ ∃ rtt : ℚ, h.rttMs = some rtt ∧
      (h.ip = ip.ip ∨ trueKm ip.ip ≤ boundKm rtt)) ∨
    ∀ h ∈ r.hops, ∀ lat lon rtt : ℚ, h.lat = some lat → h.lon = some lon → h.rttMs = some rtt →
      anchorKm rtt < e.km homeLat homeLon lat lon

variable {e} {homeLat homeLon}

theorem relocated_iff [IsStrictOrderedRing D] {now : DateTime} {db : Db} {ip : IpNetwork} :
    Relocated e homeLat homeLon now db ip ↔
      ∃ g r, db.ipGeo.lookup ip = some g ∧ db.routes.lookup ip = some r ∧
        Contradicted e homeLat homeLon g r.hops := by
  rw [← mem_relocate_iff]
  constructor
  · rintro ⟨g, hg, hcorr⟩
    exact (corrected_iff hg).mp hcorr
  · intro hsome
    obtain ⟨r, hr⟩ := Option.isSome_iff_exists.mp hsome
    obtain ⟨g, hg⟩ := exists_row_of_relocate hr
    have hafter : (relocateSql e homeLat homeLon now db).ipGeo.lookup ip =
        some ((relocateRow e homeLat homeLon now db ip g).getD g) := by
      rw [lookup_relocateSql, hg, Option.map_some]
    exact ⟨_, hafter, (corrected_iff hafter).mpr hsome⟩

omit [Field D] [LinearOrder D] in
theorem mem_hopd_iff {hops : List Hop} {x : HopD D} :
    x ∈ hopd e homeLat homeLon hops ↔ ∃ h ∈ hops, ∃ lat rtt, h.lat = some lat ∧
      h.rttMs = some rtt ∧ x = ⟨h.idx, lat, h.lon, h.country, h.ip, rtt,
        h.lon.map fun lon ↦ e.km homeLat homeLon lat lon⟩ := by
  rw [hopd, List.mem_filterMap]
  apply exists_congr
  intro h
  apply and_congr_right
  intro _
  constructor
  · intro hrow
    obtain ⟨lat, hlat, hrow⟩ := Option.bind_eq_some_iff.mp hrow
    obtain ⟨rtt, hrtt, hrow⟩ := Option.bind_eq_some_iff.mp hrow
    exact ⟨lat, rtt, hlat, hrtt, (Option.some.inj hrow).symm⟩
  · rintro ⟨lat, rtt, hlat, hrtt, rfl⟩
    simp [hopRow, hlat, hrtt]

/-- All located hops are too quick for the host. -/
theorem tooFar_iff {ip : IpAddr} {g : GeoRow} {hops : List Hop} {trueKm : IpAddr → D}
    (hposition : ∃ lat lon, g.lat = some lat ∧ g.lon = some lon ∧
      e.km homeLat homeLon lat lon = trueKm ip) :
    (∃ lat lon, g.lat = some lat ∧ g.lon = some lon ∧
        ∀ x ∈ hopd e homeLat homeLon hops, (x.rtt : D) * 100 < e.km homeLat homeLon lat lon) ↔
      ∀ h ∈ hops, h.lat ≠ none → ∀ rtt : ℚ, h.rttMs = some rtt → (rtt : D) * 100 < trueKm ip := by
  obtain ⟨lat, lon, hlat, hlon, hkm⟩ := hposition
  constructor
  · rintro ⟨lat', lon', hlat', hlon', hfar⟩ h hh hlocated rtt hrtt
    obtain rfl := Option.some.inj (hlat.symm.trans hlat')
    obtain rfl := Option.some.inj (hlon.symm.trans hlon')
    obtain ⟨hopLat, hhopLat⟩ := Option.ne_none_iff_exists'.mp hlocated
    rw [← hkm]
    exact hfar _ (mem_hopd_iff.mpr ⟨h, hh, hopLat, rtt, hhopLat, hrtt, rfl⟩)
  · intro hfar
    refine ⟨lat, lon, hlat, hlon, fun x hx ↦ ?_⟩
    obtain ⟨h, hh, hopLat, rtt, hhopLat, hrtt, rfl⟩ := mem_hopd_iff.mp hx
    rw [hkm]
    exact hfar h hh (by simp [hhopLat]) rtt hrtt

theorem hasAnchor_iff {hops : List Hop} :
    (∃ x ∈ hopd e homeLat homeLon hops, near x = true) ↔
      ∃ h ∈ hops, ∃ lat lon rtt : ℚ, h.lat = some lat ∧ h.lon = some lon ∧ h.rttMs = some rtt ∧
        e.km homeLat homeLon lat lon ≤ (rtt : D) * 100 + 50 := by
  constructor
  · rintro ⟨x, hx, hnear⟩
    obtain ⟨h, hh, lat, rtt, hlat, hrtt, rfl⟩ := mem_hopd_iff.mp hx
    cases hlon : h.lon with
    | none => simp [near, hlon] at hnear
    | some lon =>
        refine ⟨h, hh, lat, lon, rtt, hlat, hlon, hrtt, ?_⟩
        simpa [near, hlon] using hnear
  · rintro ⟨h, hh, lat, lon, rtt, hlat, hlon, hrtt, hle⟩
    refine ⟨_, mem_hopd_iff.mpr ⟨h, hh, lat, rtt, hlat, hrtt, rfl⟩, ?_⟩
    simpa [near, hlon] using hle

/-- A true host stays where it is exactly if the stored path spares it. -/
theorem not_relocated_iff [IsStrictOrderedRing D] {now : DateTime} {db : Db} {ip : IpNetwork}
    {g : GeoRow} {r : Route} {trueKm : IpAddr → D} {trueRtt : ℚ}
    (h : TrueHost e homeLat homeLon db ip g r trueKm trueRtt) :
    ¬ Relocated e homeLat homeLon now db ip ↔ Spared e homeLat homeLon ip g r trueKm := by
  have hcontra : Relocated e homeLat homeLon now db ip ↔
      Contradicted e homeLat homeLon g r.hops := by
    rw [relocated_iff]
    constructor
    · rintro ⟨g', r', hg, hr, hcontra⟩
      obtain rfl := Option.some.inj (h.row.symm.trans hg)
      obtain rfl := Option.some.inj (h.route.symm.trans hr)
      exact hcontra
    · intro hcontra
      exact ⟨g, r, h.row, h.route, hcontra⟩
  rw [hcontra]
  constructor
  · intro hnot
    by_contra hspared
    rw [Spared] at hspared
    push Not at hspared
    obtain ⟨hdirty, hsource, hquick, hanchor⟩ := hspared
    refine hnot ⟨⟨by simpa using hdirty, hsource⟩, (tooFar_iff h.position).mpr ?_, ?_⟩
    · intro hop hhop hlocated rtt hrtt
      exact (hquick hop hhop hlocated rtt hrtt).2
    · exact hasAnchor_iff.mpr hanchor
  · rintro hspared ⟨⟨hdirty, hsource⟩, htooFar, hanchor⟩
    rcases hspared with hclean | hmanual | ⟨hop, hhop, hlocated, rtt, hrtt, hreply⟩ | hnone
    · rw [hclean] at hdirty
      cases hdirty
    · exact hsource hmanual
    · have hquick := (tooFar_iff h.position).mp htooFar hop hhop hlocated rtt hrtt
      rcases hreply with hown | hslow
      · have hlight := h.hop hop hhop rtt hrtt
        rw [hown] at hlight
        exact absurd hquick (not_lt.mpr hlight)
      · exact absurd hquick (not_lt.mpr hslow)
    · obtain ⟨hop, hhop, lat, lon, rtt, hlat, hlon, hrtt, hle⟩ := hasAnchor_iff.mp hanchor
      exact absurd (hnone hop hhop lat lon rtt hlat hlon hrtt) (not_lt.mpr hle)

/-- The tracer's path spares a host that answered it and that the city database
can place. -/
theorem spared_of_answer {geo : Geo.GeoResolver} {report : Json} {hops : List Hop}
    (htrace : MtrWorker.trace geo report = some hops) {hubs : List Json}
    (hhubs : ((report.get "report").bind fun r ↦ r.get "hubs") = some (.array hubs)) {hub : Json}
    (hhub : hub ∈ hubs) {host : String} {ip : IpNetwork} {p : Geo.GeoPoint} {rtt : ℚ}
    (hhost : (hub.get "host").bind Json.asStr = some host) (hip : IpAddr.parse host = some ip.ip)
    (hp : geo.lookup ip.ip = some p) (havg : (hub.get "Avg").bind MtrWorker.asF64 = some rtt)
    (g : GeoRow) (now : DateTime) (trueKm : IpAddr → D) :
    Spared e homeLat homeLon ip g ⟨now, hops.length, hops⟩ trueKm := by
  obtain ⟨hop, hhop, hown, hlat, hrtt⟩ :=
    MtrWorker.exists_hop_of_trace htrace hhubs hhub hhost hip
  rw [hp, Option.map_some] at hlat
  rw [havg] at hrtt
  refine Or.inr (Or.inr (Or.inl ⟨hop, hhop, ?_, rtt, hrtt, Or.inl hown⟩))
  rw [hlat]
  exact Option.some_ne_none _

end

/-! ## Two paths -/

def dirtyRow (lat lon : ℚ) : GeoRow :=
  { dropCorr (correctedRow "observed") with lat := some lat, lon := some lon }

def hopAt (ip : IpAddr) (lat lon rtt : ℚ) : Hop := ⟨1, ip, some lat, some lon, none, some rtt⟩

def dbWith (g : GeoRow) (hops : List Hop) : Db :=
  ⟨[], AList.insert someIp g ∅, [], AList.insert someIp ⟨⟨0, 0⟩, hops.length, hops⟩ ∅⟩

/-- The gateway at home. -/
def gateway : IpAddr := .v4 ⟨0xC0A80101⟩

/-- The gateway is at home and any other address half way round the world. -/
noncomputable def farKm (ip : IpAddr) : ℝ := if ip = gateway then 0 else (6371 : ℕ) * Real.pi

theorem km_antipode : postgres.km 0 0 0 180 = 6371 * Real.pi := by
  simpa [postgres] using geoHaversineKm_antipode

theorem farKm_far {ip : IpAddr} (h : ip ≠ gateway) : farKm ip = 6371 * Real.pi := by
  rw [farKm, if_neg h]
  norm_num

theorem farKm_le : farKm someIp.ip ≤ ((300 : ℚ) : ℝ) * 100 := by
  rw [farKm_far (by decide)]
  have := Real.pi_lt_d2
  norm_num
  linarith

/-- The path holds the gateway, 1 ms away, or the reply of the host after 300 ms. -/
theorem trueHost_far {l : List Hop}
    (hhops : ∀ h ∈ l, h = hopAt gateway 0 0 1 ∨ h = hopAt someIp.ip 0 180 300) :
    TrueHost postgres 0 0 (dbWith (dirtyRow 0 180) l) someIp (dirtyRow 0 180)
      ⟨⟨0, 0⟩, l.length, l⟩ farKm 300 where
  row := AList.lookup_insert _
  route := AList.lookup_insert _
  position := ⟨0, 180, rfl, rfl, km_antipode.trans (farKm_far (by decide)).symm⟩
  hop := by
    intro h hh rtt hrtt
    rcases hhops h hh with rfl | rfl
    · obtain rfl := Option.some.inj hrtt
      simp [hopAt, farKm]
    · obtain rfl := Option.some.inj hrtt
      exact farKm_le
  host := farKm_le

/-- With its reply the host stays where it is. -/
theorem not_relocated_own_reply :
    TrueHost postgres 0 0
        (dbWith (dirtyRow 0 180) [hopAt gateway 0 0 1, hopAt someIp.ip 0 180 300]) someIp
        (dirtyRow 0 180) ⟨⟨0, 0⟩, 2, [hopAt gateway 0 0 1, hopAt someIp.ip 0 180 300]⟩ farKm 300 ∧
      ¬ Relocated postgres 0 0 ⟨1, 0⟩
        (dbWith (dirtyRow 0 180) [hopAt gateway 0 0 1, hopAt someIp.ip 0 180 300]) someIp := by
  have htrue := trueHost_far (l := [hopAt gateway 0 0 1, hopAt someIp.ip 0 180 300]) (by simp)
  refine ⟨htrue, (not_relocated_iff htrue).mpr (Or.inr (Or.inr (Or.inl ?_)))⟩
  exact ⟨hopAt someIp.ip 0 180 300, List.mem_cons_of_mem _ (List.mem_singleton_self _),
    Option.some_ne_none 0, 300, rfl, Or.inl rfl⟩

/-- Without it the host is moved. -/
theorem relocated_without_reply :
    TrueHost postgres 0 0 (dbWith (dirtyRow 0 180) [hopAt gateway 0 0 1]) someIp (dirtyRow 0 180)
        ⟨⟨0, 0⟩, 1, [hopAt gateway 0 0 1]⟩
        (fun ip ↦ if ip = gateway then 0 else (6371 : ℕ) * Real.pi) 300 ∧
      Relocated postgres 0 0 ⟨1, 0⟩ (dbWith (dirtyRow 0 180) [hopAt gateway 0 0 1]) someIp := by
  have hhome : postgres.km 0 0 0 0 = 0 := geoHaversineKm_self _ _
  refine ⟨trueHost_far (by simp), ?_⟩
  rw [relocated_iff]
  refine ⟨dirtyRow 0 180, ⟨⟨0, 0⟩, 1, [hopAt gateway 0 0 1]⟩, AList.lookup_insert _,
    AList.lookup_insert _, ⟨rfl, by decide⟩, ⟨0, 180, rfl, rfl, ?_⟩, ?_⟩
  · intro x hx
    obtain ⟨h, hh, lat, rtt, -, hrtt, rfl⟩ := mem_hopd_iff.mp hx
    obtain rfl := List.mem_singleton.mp hh
    obtain rfl := Option.some.inj hrtt
    rw [km_antipode]
    have := Real.pi_gt_three
    norm_num
    linarith
  · rw [hasAnchor_iff]
    refine ⟨_, List.mem_singleton_self _, 0, 0, 1, rfl, rfl, rfl, ?_⟩
    rw [hhome]
    norm_num

end TrafficMap.GeoDoctor
