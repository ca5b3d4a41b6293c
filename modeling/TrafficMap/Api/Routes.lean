import TrafficMap.Api.History
import TrafficMap.Api.LiveFeed
import TrafficMap.Lib.Aggregate
import TrafficMap.MtrWorker.Trace
import TrafficMap.Web.Routes

/-!
# Measured routes on the map

`/api/routes` of `crates/api` between the table that the worker writes and the page that
draws it: the routes traced last are those that are drawn, each through its hops.
-/

namespace TrafficMap.Api

open Ingestor Geo GeoDoctor Sql Web

/-! ## The handler -/

/-- `ORDER BY traced_at DESC`. -/
structure TracedOrder where
  lastFirst : List (IpNetwork × Route) → List (IpNetwork × Route)
  perm : ∀ rs, (lastFirst rs).Perm rs
  sorted : ∀ rs, (lastFirst rs).Pairwise fun r r' ↦ r'.2.tracedAt ≤ r.2.tracedAt

/-- What the query leaves to the database. -/
structure RouteEngine where
  /-- `host(…)::text`. -/
  host : IpNetwork → String
  /-- `hops::text`. -/
  text : List Hop → String
  order : TracedOrder

def tableRoutes (routes : Table IpNetwork Route) : List (IpNetwork × Route) :=
  routes.entries.map fun e ↦ (e.1, e.2)

/-- The rows of the query, before they become text. -/
def newestRoutes (order : TracedOrder) (n : ℕ) (routes : Table IpNetwork Route) :
    List (IpNetwork × Route) :=
  (order.lastFirst (tableRoutes routes)).take n

def routesQuery (db : RouteEngine) (n : ℕ) (routes : Table IpNetwork Route) :
    List (String × String) :=
  (newestRoutes db.order n routes).map fun r ↦ (db.host r.1, db.text r.2.hops)

def routesCount (n : Option ℕ) : ℕ := min (n.getD 400) 4000

def routeJson (serde : Serde) (row : String × String) : Json :=
  .object [("dst", .string row.1), ("hops", (serde.parse row.2).getD .null)]

/-- The reply without a database, with the rows of one, and with its error. -/
def routesHandler (serde : Serde) : Option (Except String (List (String × String))) → Json
  | none => .object [("routes", .array [])]
  | some (.ok rows) => .object [("routes", .array (rows.map (routeJson serde)))]
  | some (.error e) => .object [("routes", .array []), ("error", .string e)]

/-- A hop as `store` of the worker writes it. -/
def hopJson (h : Hop) : Json :=
  .object [("idx", .ofI64 (Int64.ofInt h.idx)), ("ip", .string h.ip.toText),
    ("lat", .ofOption (fun q ↦ .number (.float q)) h.lat),
    ("lon", .ofOption (fun q ↦ .number (.float q)) h.lon),
    ("country", .ofOption .string h.country),
    ("rtt_ms", .ofOption (fun q ↦ .number (.float q)) h.rttMs)]

/-! ## The page -/

noncomputable section

/-- A number, or nothing; what is neither is no coordinate. -/
def readCoord : Option Json → Option (Option ℝ)
  | none | some .null => some none
  | some v => (MtrWorker.asF64 v).map fun q ↦ some (q : ℝ)

/-- An element of `route.hops`. -/
def readHop (v : Json) : Option RouteHop :=
  match v with
  | .null => none
  | v => (readCoord (v.get "lat")).bind fun lat ↦ (readCoord (v.get "lon")).map fun lon ↦ ⟨lat, lon⟩

/-- `x ?? []`. -/
def orEmpty : Option Json → Option (List Json)
  | none | some .null => some []
  | some v => v.asArray

def readRoute (v : Json) : Option MeasuredRoute :=
  ((v.get "dst").bind Json.asStr).bind fun dst ↦
    ((orEmpty (v.get "hops")).bind fun hops ↦ hops.mapM readHop).map fun hops ↦ ⟨dst, hops⟩

/-- `data.routes ?? []`, if the reply is as the page expects it. -/
def readRoutes (v : Json) : Option (List MeasuredRoute) :=
  (orEmpty (v.get "routes")).bind fun routes ↦ routes.mapM readRoute

/-! ## From the table to the page -/

/-- The route with the numbers that the page computes with. -/
def measured (db : RouteEngine) (r : IpNetwork × Route) : MeasuredRoute where
  dst := db.host r.1
  hops := r.2.hops.map fun h ↦ ⟨h.lat.map fun q ↦ (q : ℝ), h.lon.map fun q ↦ (q : ℝ)⟩

/-- The texts of the table are those of its hops. -/
def HopsAsStored (serde : Serde) (db : RouteEngine) (routes : Table IpNetwork Route) : Prop :=
  ∀ r ∈ tableRoutes routes,
    serde.parse (db.text r.2.hops) = some (.array (r.2.hops.map hopJson))

/-- The routes that were traced last. -/
structure LastTraced (routes : Table IpNetwork Route) (top : List (IpNetwork × Route)) : Prop where
  length_le : top.length ≤ 300
  subset : ∀ r ∈ top, routes.lookup r.1 = some r.2
  nodup : (top.map Prod.fst).Nodup
  sorted : top.Pairwise fun r r' ↦ r'.2.tracedAt ≤ r.2.tracedAt
  best : ∀ dst route, routes.lookup dst = some route → (dst, route) ∉ top →
    top.length = 300 ∧ ∀ r ∈ top, route.tracedAt ≤ r.2.tracedAt

section Reply

variable {serde : Serde} {db : RouteEngine} {routes : Table IpNetwork Route}

theorem mem_tableRoutes {dst : IpNetwork} {route : Route} :
    (dst, route) ∈ tableRoutes routes ↔ routes.lookup dst = some route := by
  rw [← Option.mem_def, AList.mem_lookup_iff, tableRoutes, List.mem_map]
  constructor
  · rintro ⟨⟨dst', route'⟩, he, heq⟩
    cases heq
    exact he
  · exact fun he ↦ ⟨⟨dst, route⟩, he, rfl⟩

theorem lastTraced_newestRoutes (order : TracedOrder) (routes : Table IpNetwork Route) :
    LastTraced routes (newestRoutes order 300 routes) := by
  have hperm := order.perm (tableRoutes routes)
  have hsorted := order.sorted (tableRoutes routes)
  have hmem : ∀ r ∈ newestRoutes order 300 routes, r ∈ tableRoutes routes := fun r hr ↦
    hperm.mem_iff.mp (List.mem_of_mem_take hr)
  refine ⟨List.length_take_le .., fun r hr ↦ mem_tableRoutes.mp (hmem r hr), ?_,
    hsorted.sublist (List.take_sublist ..), fun dst route hroute hout ↦ ?_⟩
  · have hkeys : ((tableRoutes routes).map Prod.fst).Nodup := by
      rw [tableRoutes, List.map_map]
      exact routes.nodupKeys
    exact ((hperm.map _).nodup_iff.mpr hkeys).sublist ((List.take_sublist ..).map _)
  · have hin := mem_tableRoutes.mpr hroute
    exact ⟨length_take_of_not_mem hperm hin hout,
      fun r hr ↦ rel_of_not_mem_take hperm hsorted hr hin hout⟩

theorem mapM_map_of_forall {α β γ : Type} {f : α → β} {read : β → Option γ} {g : α → γ} {l : List α}
    (h : ∀ a ∈ l, read (f a) = some (g a)) : (l.map f).mapM read = some (l.map g) := by
  induction l with
  | nil => rfl
  | cons a l ih =>
      obtain ⟨ha, hl⟩ := List.forall_mem_cons.mp h
      rw [List.map_cons, List.mapM_cons, ha, ih hl]
      rfl

theorem readCoord_hop (q : Option ℚ) :
    readCoord (some (.ofOption (fun q ↦ .number (.float q)) q)) =
      some (q.map fun q ↦ (q : ℝ)) := by
  cases q with
  | none => rfl
  | some q => rfl

theorem readHop_hopJson (h : Hop) : readHop (hopJson h) =
    some ⟨h.lat.map fun q ↦ (q : ℝ), h.lon.map fun q ↦ (q : ℝ)⟩ := by
  have hlat : (hopJson h).get "lat" = some (.ofOption (fun q ↦ .number (.float q)) h.lat) := rfl
  have hlon : (hopJson h).get "lon" = some (.ofOption (fun q ↦ .number (.float q)) h.lon) := rfl
  have hread : readHop (hopJson h) = (readCoord ((hopJson h).get "lat")).bind fun lat ↦
      (readCoord ((hopJson h).get "lon")).map fun lon ↦ ⟨lat, lon⟩ := rfl
  rw [hread, hlat, hlon, readCoord_hop, readCoord_hop]
  rfl

/-- The page reads the routes of the reply as they are in the table. -/
theorem readRoutes_routesHandler (n : ℕ) (hserde : HopsAsStored serde db routes) :
    readRoutes (routesHandler serde (some (.ok (routesQuery db n routes)))) =
      some ((newestRoutes db.order n routes).map (measured db)) := by
  have hroute : ∀ r ∈ newestRoutes db.order n routes,
      readRoute (routeJson serde (db.host r.1, db.text r.2.hops)) = some (measured db r) := by
    intro r hr
    have hmem := (db.order.perm (tableRoutes routes)).mem_iff.mp (List.mem_of_mem_take hr)
    have hhops : (r.2.hops.map hopJson).mapM readHop = some (measured db r).hops :=
      mapM_map_of_forall fun h _ ↦ readHop_hopJson h
    rw [routeJson, hserde r hmem]
    change ((r.2.hops.map hopJson).mapM readHop).map _ = _
    rw [hhops]
    rfl
  change ((routesQuery db n routes).map (routeJson serde)).mapM readRoute = _
  rw [routesQuery, List.map_map]
  exact mapM_map_of_forall hroute

/-- At any time of a page that has drawn flows and routes within `S`: a poll draws a line
for each of the routes traced last that has two stops, by all its stops in their order, and
every line of the map is one by the stops of a route of some reply. -/
theorem routes_shown {S : Set (LngLat ℝ)} (hS : Spread S) {acts : List RoutePage.Action}
    (hacts : ∀ a ∈ acts, a.Within S) (hserde : HopsAsStored serde db routes) {w : World}
    (hwithin : ∀ r ∈ tableRoutes routes, (measured db r).stops.IsChain (w.Asks S)) :
    ∃ top, LastTraced routes top ∧
      readRoutes (routesHandler serde
        (some (.ok (routesQuery db (routesCount (some 300)) routes)))) =
          some (top.map (measured db)) ∧
      List.Forall₂ RoutePage.DrawnFor ((top.map (measured db)).filter fun r ↦ 2 ≤ r.stops.length)
        (RoutePage.fetchRoutes w (acts.foldl RoutePage.step .init) (top.map (measured db))).1 ∧
      ∀ dst line, (acts.foldl RoutePage.step .init).routeMap dst = some line →
        ∃ r ∈ acts.flatMap RoutePage.Action.routes, r.dst = dst ∧ CallsAt r.stops line := by
  have hpage := RoutePage.pageOk_foldl hS hacts
  have htop := lastTraced_newestRoutes db.order routes
  have hasks : ∀ r ∈ (newestRoutes db.order 300 routes).map (measured db),
      r.stops.IsChain (w.Asks S) := by
    intro r hr
    obtain ⟨e, he, rfl⟩ := List.mem_map.mp hr
    exact hwithin e (mem_tableRoutes.mpr (htop.subset e he))
  exact ⟨_, htop, readRoutes_routesHandler 300 hserde,
    (RoutePage.fetchRoutes_spec hS hpage hasks).1, hpage.routeMap⟩

end Reply

/-! ## A route -/

/-- The equator from 0° to 14° east. -/
def equatorArc : Set (LngLat ℝ) := {p | 0 ≤ p.1 ∧ p.1 ≤ 14 ∧ p.2 = 0}

theorem spread_equatorArc : Spread equatorArc where
  lat p hp := by
    rw [hp.2.2]
    norm_num
  opposite := by
    rintro ⟨x, -⟩ ⟨hx, hx', rfl⟩ ⟨y, -⟩ ⟨hy, hy', rfl⟩
    dsimp only at hx hx' hy hy'
    have hle : |y - x| ≤ 14 := abs_le.mpr ⟨by linarith, by linarith⟩
    rw [Web.Opposite, omegaOf_equator (hle.trans (by norm_num)), D2R_eq]
    have hpi := Real.pi_pos
    intro heq
    nlinarith

theorem asks_bayWorld : bayWorld.Asks equatorArc (0, 0) (5, 0) where
  pool p hp := by
    obtain ⟨y, rfl, hy, hhi⟩ := pool_bayWorld hp
    exact ⟨hy.elim (fun h ↦ h.ge) fun h ↦ by linarith, hhi, rfl⟩
  start := ⟨le_rfl, by norm_num, rfl⟩
  finish := ⟨by norm_num, by norm_num, rfl⟩
  near := (anchored_bayWorld (Or.inl rfl) zero_le_one).near

def bayHop (idx : ℤ) (lat lon : Option ℚ) : Hop :=
  ⟨idx, .v4 ⟨167772161⟩, lat, lon, none, some 1⟩

/-- The second hop is not located, and the third is where the first is. -/
def bayHops : List Hop :=
  [bayHop 1 (some 0) (some 0), bayHop 2 none none, bayHop 3 (some 0) (some 0),
    bayHop 4 (some 0) (some 5)]

def bayRoutes : Table IpNetwork Route :=
  MtrWorker.store ⟨0, 0⟩ (.v4 ⟨134744072⟩) bayHops ∅

def plainRouteEngine : RouteEngine where
  host net := net.ip.toText
  text _ := "[…]"
  order :=
    { lastFirst := List.insertionSort fun r r' ↦ r'.2.tracedAt ≤ r.2.tracedAt
      perm := List.perm_insertionSort _
      sorted := fun rs ↦ by
        have htotal : Std.Total fun r r' : IpNetwork × Route ↦ r'.2.tracedAt ≤ r.2.tracedAt :=
          ⟨fun r r' ↦ le_total r'.2.tracedAt r.2.tracedAt⟩
        have htrans : IsTrans (IpNetwork × Route) fun r r' ↦ r'.2.tracedAt ≤ r.2.tracedAt :=
          ⟨fun _ _ _ h h' ↦ h'.trans h⟩
        exact List.pairwise_insertionSort _ rs }

theorem mem_bayRoutes {r : IpNetwork × Route} (hr : r ∈ tableRoutes bayRoutes) :
    r.2.hops = bayHops := by
  have hlookup := mem_tableRoutes.mp hr
  rw [bayRoutes, MtrWorker.store] at hlookup
  by_cases hnet : r.1 = toNet (.v4 ⟨134744072⟩)
  · rw [hnet, AList.lookup_insert] at hlookup
    rw [← Option.some.inj hlookup]
  · rw [AList.lookup_insert_ne hnet, AList.lookup_empty] at hlookup
    cases hlookup

theorem stops_bay {r : IpNetwork × Route} (hr : r ∈ tableRoutes bayRoutes) :
    (measured plainRouteEngine r).stops = [(0, 0), (5, 0)] := by
  have hplaces : (measured plainRouteEngine r).hops.filterMap RouteHop.place =
      [(0, 0), (0, 0), (5, 0)] := by
    simp [measured, mem_bayRoutes hr, bayHops, bayHop, RouteHop.place]
  have hapart : ((0, 0) : LngLat ℝ) ≠ (5, 0) := by simp
  rw [MeasuredRoute.stops, hplaces, List.destutter_cons',
    List.destutter'_cons_neg _ (not_not.mpr rfl), List.destutter'_cons_pos _ hapart,
    List.destutter'_nil]

/-- The line of a route with two stops. -/
theorem routes_shown_bay : ∃ top, LastTraced bayRoutes top ∧
    readRoutes (routesHandler ⟨fun _ ↦ some (.array (bayHops.map hopJson)), fun _ ↦ ""⟩
      (some (.ok (routesQuery plainRouteEngine (routesCount (some 300)) bayRoutes)))) =
        some (top.map (measured plainRouteEngine)) ∧
    List.Forall₂ RoutePage.DrawnFor
      ((top.map (measured plainRouteEngine)).filter fun r ↦ 2 ≤ r.stops.length)
      (RoutePage.fetchRoutes bayWorld
        ([.segment bayWorld (0, 0) (5, 0)].foldl RoutePage.step .init)
        (top.map (measured plainRouteEngine))).1 ∧
    ∀ dst line, ([.segment bayWorld (0, 0) (5, 0)].foldl RoutePage.step .init).routeMap dst =
        some line →
      ∃ r ∈ [.segment bayWorld (0, 0) (5, 0)].flatMap RoutePage.Action.routes,
        r.dst = dst ∧ CallsAt r.stops line := by
  refine routes_shown spread_equatorArc ?_ ?_ ?_
  · intro a ha
    rw [List.mem_singleton.mp ha]
    exact asks_bayWorld
  · intro r hr
    rw [mem_bayRoutes hr]
  · intro r hr
    rw [stops_bay hr]
    exact List.isChain_pair.mpr asks_bayWorld

end

end TrafficMap.Api
