import TrafficMap.GeoDoctor.Runs

/-!
# Local addresses in the canonical table

The ingestor stores the home coordinate for every local address, so only the
list of networks in `PASS_SQL` keeps those addresses out of `ip_geo`.  The list
is without 0/8 and the unspecified IPv6 address.
-/

namespace TrafficMap.GeoDoctor

open Ingestor Ingestor.IpNetwork FlowdParse Geo Sql

/-! ## The list against `is_local` -/

/-- The addresses of 0/8 and `::`. -/
def Unlisted : IpAddr → Prop
  | .v4 a => a.toBits.toNat / 2 ^ 24 = 0
  | .v6 a => a.toBits.toNat = 0

theorem isExcluded_v4_iff (a : Ipv4Addr) : isExcluded (toNet (.v4 a)) = true ↔
    LocalV4 a.toBits.toNat ∧ a.toBits.toNat / 2 ^ 24 ≠ 0 := by
  have hne : toNet (.v4 a) ≠ ⟨.v6 ⟨1⟩, 128⟩ := by
    intro h
    cases congrArg IpNetwork.ip h
  simp (disch := omega) only [isExcluded, excludedNets, List.any_cons, List.any_nil,
    Bool.or_eq_true, within_v4Net, within_v4_v6Net, decide_eq_true_eq, hne, Bool.false_eq_true,
    or_false]
  norm_num only [LocalV4, Nat.div_one]
  constructor
  · intro h
    have hnot : ¬ a.toBits.toNat / 16777216 = 0 := by omega
    tauto
  · tauto

theorem isExcluded_v6_iff (a : Ipv6Addr) : isExcluded (toNet (.v6 a)) = true ↔
    LocalV6 a.toBits.toNat ∧ a.toBits.toNat ≠ 0 := by
  have hone : toNet (.v6 a) = ⟨.v6 ⟨1⟩, 128⟩ ↔ a.toBits.toNat = 1 := by
    obtain ⟨bits⟩ := a
    simp only [toNet, IpNetwork.mk.injEq, IpAddr.v6.injEq, Ipv6Addr.mk.injEq, and_true,
      ← BitVec.toNat_inj]
    rfl
  simp (disch := omega) only [isExcluded, excludedNets, List.any_cons, List.any_nil,
    Bool.or_eq_true, within_v6_v4Net, within_v6Net, decide_eq_true_eq, hone, Bool.false_eq_true,
    false_or, or_false]
  norm_num only [LocalV6]
  constructor
  · intro h
    have hnot : ¬ a.toBits.toNat = 0 := by omega
    tauto
  · tauto

/-- The list has every local address but the unlisted ones. -/
theorem isExcluded_iff (ip : IpAddr) :
    isExcluded (toNet ip) = true ↔ isLocal ip = true ∧ ¬ Unlisted ip := by
  cases ip with
  | v4 a => rw [isExcluded_v4_iff, isLocal, isLocalV4_iff, Unlisted]
  | v6 a => rw [isExcluded_v6_iff, isLocal, isLocalV6_iff, Unlisted]

theorem isLocal_of_unlisted {ip : IpAddr} (h : Unlisted ip) : isLocal ip = true := by
  cases ip with
  | v4 a =>
      rw [Unlisted] at h
      rw [isLocal, isLocalV4_iff]
      simp only [LocalV4, h, or_true]
  | v6 a =>
      rw [Unlisted] at h
      rw [isLocal, isLocalV6_iff]
      simp only [LocalV6, h, or_true]

/-! ## What the pass adds -/

theorem lookup_of_local (geo : GeoResolver) {ip : IpAddr} (h : isLocal ip = true) :
    geo.lookup ip = some geo.home := by
  rw [GeoResolver.lookup, if_pos h]

/-- The row comes from the ingestor. -/
def Stored (out : Outside) (f : FlowRow) : Prop := ∃ geo rec, toRow out geo rec = some f

def NoLocal (db : Db) : Prop := ∀ ip ∈ db.ipGeo, isLocal ip.ip = false

def Listed (f : FlowRow) : Prop := ¬ Unlisted f.srcAddr.ip ∧ ¬ Unlisted f.dstAddr.ip

section Stored

variable {out : Outside} {f : FlowRow} {o : Obs}

theorem mem_obs_iff {flows : List FlowRow} :
    o ∈ obs flows ↔ ∃ f ∈ flows, srcObs f = some o ∨ dstObs f = some o := by
  rw [obs, List.mem_append, List.mem_filterMap, List.mem_filterMap, ← exists_or]
  apply exists_congr
  intro f
  rw [and_or_left]

theorem ip_of_mem_obs {flows : List FlowRow} (ho : o ∈ obs flows) :
    ∃ f ∈ flows, o.ip = f.srcAddr ∨ o.ip = f.dstAddr := by
  obtain ⟨f, hf, hsrc | hdst⟩ := mem_obs_iff.mp ho
  · obtain ⟨lat, -, rfl⟩ := Option.map_eq_some_iff.mp hsrc
    exact ⟨f, hf, Or.inl rfl⟩
  · obtain ⟨lat, -, rfl⟩ := Option.map_eq_some_iff.mp hdst
    exact ⟨f, hf, Or.inr rfl⟩

theorem listed_iff (h : Stored out f) :
    Listed f ↔ ∀ ip, f.srcAddr = toNet ip ∨ f.dstAddr = toNet ip → ¬ Unlisted ip := by
  obtain ⟨geo, rec, hrow⟩ := h
  obtain ⟨src, dst, -, -, -, ⟨hsrc, -⟩, hdst, -⟩ := endpoints_of_toRow out hrow
  rw [Listed, hsrc, hdst, ip_toNet, ip_toNet]
  constructor
  · rintro ⟨hsrcListed, hdstListed⟩ ip (hip | hip)
    · rwa [← ip_toNet ip, ← hip, ip_toNet]
    · rwa [← ip_toNet ip, ← hip, ip_toNet]
  · intro hlisted
    exact ⟨hlisted src (Or.inl rfl), hlisted dst (Or.inr rfl)⟩

theorem exists_toNet (h : Stored out f) (hend : o.ip = f.srcAddr ∨ o.ip = f.dstAddr) :
    ∃ ip, o.ip = toNet ip := by
  obtain ⟨geo, rec, hrow⟩ := h
  obtain ⟨src, dst, -, -, -, ⟨hsrc, -⟩, hdst, -⟩ := endpoints_of_toRow out hrow
  rcases hend with hend | hend
  · exact ⟨src, hend.trans hsrc⟩
  · exact ⟨dst, hend.trans hdst⟩

/-- A local end of a stored flow is observed at home. -/
theorem observed_of_local {flows : List FlowRow} (hf : f ∈ flows) (hstored : Stored out f)
    {ip : IpAddr} (hend : f.srcAddr = toNet ip ∨ f.dstAddr = toNet ip)
    (hlocal : isLocal ip = true) : ∃ o ∈ obs flows, o.ip = toNet ip ∧ o.lon.isSome := by
  obtain ⟨geo, rec, hrow⟩ := hstored
  obtain ⟨src, dst, -, -, -, ⟨hsrc, hsrcLat, hsrcLon⟩, hdst, hdstLat, hdstLon⟩ :=
    endpoints_of_toRow out hrow
  have hhome := lookup_of_local geo hlocal
  rcases hend with hend | hend
  · obtain rfl : src = ip := by rw [← ip_toNet src, ← hsrc, hend, ip_toNet]
    have hobs : srcObs f = some ⟨f.srcAddr, geo.home.lat, f.srcLon, f.srcCountry, f.recvTime⟩ := by
      rw [srcObs, hsrcLat, hhome]
      rfl
    refine ⟨_, mem_obs_iff.mpr ⟨f, hf, Or.inl hobs⟩, hend, ?_⟩
    rw [hsrcLon, hhome]
    rfl
  · obtain rfl : dst = ip := by rw [← ip_toNet dst, ← hdst, hend, ip_toNet]
    have hobs : dstObs f = some ⟨f.dstAddr, geo.home.lat, f.dstLon, f.dstCountry, f.recvTime⟩ := by
      rw [dstObs, hdstLat, hhome]
      rfl
    refine ⟨_, mem_obs_iff.mpr ⟨f, hf, Or.inr hobs⟩, hend, ?_⟩
    rw [hdstLon, hhome]
    rfl

/-- The pass takes up local addresses exactly if a flow has an unlisted one. -/
theorem computed_noLocal_iff {D : Type} (e : Engine D) {flows : List FlowRow}
    (hflows : ∀ f ∈ flows, Stored out f) :
    (∀ ip ∈ computed e flows, isLocal ip.ip = false) ↔ ∀ f ∈ flows, Listed f := by
  constructor
  · intro hclean f hf
    rw [listed_iff (hflows f hf)]
    intro ip hend hun
    have hlocal := isLocal_of_unlisted hun
    obtain ⟨o, ho, hip, hlon⟩ := observed_of_local hf (hflows f hf) hend hlocal
    have hpub : o ∈ pub flows := by
      refine List.mem_filter.mpr ⟨ho, ?_⟩
      rw [hip, Bool.not_eq_true', ← Bool.not_eq_true, isExcluded_iff]
      exact fun hex ↦ hex.2 hun
    have hfalse := hclean (toNet ip) (mem_computed_iff.mpr ⟨o, hpub, hip, hlon⟩)
    rw [ip_toNet, hlocal] at hfalse
    cases hfalse
  · intro hlisted ip hip
    obtain ⟨o, hpub, rfl, -⟩ := mem_computed_iff.mp hip
    obtain ⟨ho, hex⟩ := List.mem_filter.mp hpub
    obtain ⟨f, hf, hend⟩ := ip_of_mem_obs ho
    obtain ⟨ip, hip⟩ := exists_toNet (hflows f hf) hend
    have hun := (listed_iff (hflows f hf)).mp (hlisted f hf) ip
      (hend.imp (fun h ↦ h.symm.trans hip) fun h ↦ h.symm.trans hip)
    rw [hip, Bool.not_eq_true', ← Bool.not_eq_true, isExcluded_iff] at hex
    rw [hip, ip_toNet, ← Bool.not_eq_true]
    exact fun hlocal ↦ hex ⟨hlocal, hun⟩

end Stored

/-! ## Runs -/

inductive Event where
  | ingested (geo : GeoResolver) (rec : FlowRecord)
  /-- The retention of the `flows` table. -/
  | expired (before : DateTime)
  | traced (routes : Table IpNetwork Route)
  | observedPass (now : DateTime)
  | relocatePass (now : DateTime)
  | bogonPass (now : DateTime)

def Event.toAction (out : Outside) (db : Db) : Event → Action
  | .ingested geo rec => .setFlows (db.flows ++ (toRow out geo rec).toList)
  | .expired before => .setFlows (db.flows.filter fun f ↦ before ≤ f.recvTime)
  | .traced routes => .setRoutes routes
  | .observedPass now => .observedPass now
  | .relocatePass now => .relocatePass now
  | .bogonPass now => .bogonPass now

def Db.empty : Db := ⟨[], ∅, [], ∅⟩

section Runs

variable {D : Type} [Field D] [LinearOrder D] (out : Outside) (e : Engine D) (homeLat homeLon : ℚ)

def eventStep (db : Db) (ev : Event) : Option Db :=
  step e homeLat homeLon db (ev.toAction out db)

def StaysPublic (db : Db) (ev : Event) : Prop :=
  NoLocal (apply e homeLat homeLon db (ev.toAction out db))

/-- An observed pass finds no flow with an address of 0/8 or `::`. -/
def OnlyListed (db : Db) : Event → Prop
  | .observedPass _ => ∀ f ∈ db.flows, Listed f
  | _ => True

/-- The flows come from the ingestor, and no local address has got in. -/
def Clean (db : Db) : Prop := (∀ f ∈ db.flows, Stored out f) ∧ NoLocal db

theorem clean_empty : Clean out Db.empty :=
  ⟨fun _ hf ↦ absurd hf List.not_mem_nil, fun ip hip ↦ absurd hip (AList.notMem_empty ip)⟩

variable {out} {e} {homeLat homeLon}

theorem clean_eventStep {db db' : Db} {ev : Event} (hdb : Clean out db)
    (hpublic : StaysPublic out e homeLat homeLon db ev)
    (hstep : eventStep out e homeLat homeLon db ev = some db') : Clean out db' := by
  obtain rfl := Option.some.inj hstep
  refine ⟨?_, hpublic⟩
  cases ev with
  | ingested geo rec =>
      intro f hf
      rcases List.mem_append.mp hf with hf | hf
      · exact hdb.1 f hf
      · exact ⟨geo, rec, Option.mem_toList.mp hf⟩
  | expired before => exact fun f hf ↦ hdb.1 f (List.mem_filter.mp hf).1
  | traced routes => exact hdb.1
  | observedPass now => exact hdb.1
  | relocatePass now => exact hdb.1
  | bogonPass now => exact hdb.1

theorem staysPublic_iff {db : Db} (hdb : Clean out db) (ev : Event) :
    StaysPublic out e homeLat homeLon db ev ↔ OnlyListed db ev := by
  cases ev with
  | observedPass now =>
      refine Iff.trans ?_ (computed_noLocal_iff e hdb.1)
      constructor
      · exact fun hpublic ip hip ↦ hpublic ip (mem_passSql_iff.mpr (Or.inr hip))
      · intro hclean ip hip
        rcases mem_passSql_iff.mp hip with hip | hip
        · exact hdb.2 ip hip
        · exact hclean ip hip
  | relocatePass now =>
      refine iff_of_true (fun ip hip ↦ hdb.2 ip ?_) trivial
      rw [← AList.lookup_isSome] at hip ⊢
      change ((relocateSql e homeLat homeLon now db).ipGeo.lookup ip).isSome at hip
      rwa [lookup_relocateSql, Option.isSome_map] at hip
  | ingested geo rec => exact iff_of_true hdb.2 trivial
  | expired before => exact iff_of_true hdb.2 trivial
  | traced routes => exact iff_of_true hdb.2 trivial
  | bogonPass now => exact iff_of_true hdb.2 trivial

/-- No local address enters the table in a run exactly if no observed pass of
the run meets a flow with an unlisted one. -/
theorem staysPublic_run_iff (evs : List Event) :
    Machine.Along (eventStep out e homeLat homeLon) (StaysPublic out e homeLat homeLon) Db.empty
        evs ↔
      Machine.Along (eventStep out e homeLat homeLon) OnlyListed Db.empty evs := by
  refine Machine.along_congr_of_keeps (I := Clean out) ?_ ?_ (clean_empty out)
  · exact fun db ev db' hdb hpublic hstep ↦ clean_eventStep hdb hpublic hstep
  · exact fun db ev hdb ↦ staysPublic_iff hdb ev

end Runs

theorem not_staysPublic_discover :
    ¬ Machine.Along (eventStep plainOutside postgres 0 0) (StaysPublic plainOutside postgres 0 0)
      Db.empty [.ingested plainGeo discover, .observedPass ⟨60, 0⟩] := by
  rintro ⟨hfirst, hrest⟩
  obtain ⟨f, hf⟩ : ∃ f, toRow plainOutside plainGeo discover = some f := ⟨_, rfl⟩
  have hclean := clean_eventStep (clean_empty plainOutside) hfirst rfl
  have hlisted := (staysPublic_iff hclean _).mp (hrest _ rfl).1
  have hmem : f ∈ (toRow plainOutside plainGeo discover).toList := by
    rw [hf]
    exact List.mem_singleton_self f
  obtain ⟨src, dst, hsrc, -, -, ⟨hnet, -⟩, -⟩ := endpoints_of_toRow plainOutside hf
  obtain rfl := Option.some.inj hsrc
  apply (hlisted f hmem).1
  rw [hnet, ip_toNet]
  rfl

end TrafficMap.GeoDoctor
