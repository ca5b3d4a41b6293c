import Mathlib.Data.List.Destutter
import TrafficMap.Web.Lines
import TrafficMap.Web.PathCache

/-!
# Measured routes

`routes.ts`: the located hops of a measured route, joined by `segmentPath` with the cache
that it shares with the flows, and drawn as one line.
-/

namespace TrafficMap.Web

open Real

noncomputable section

/-! ## The code -/

/-- A hop with what `fetchRoutes` reads of it. -/
structure RouteHop where
  lat : Option ℝ
  lon : Option ℝ

/-- An element of `routes` in the reply. -/
structure MeasuredRoute where
  dst : String
  hops : List RouteHop

structure RoutePath where
  dst : String
  points : List (LngLat ℝ)

def pushHop (pts : List (LngLat ℝ)) (h : RouteHop) : List (LngLat ℝ) :=
  match h.lat, h.lon with
  | some lat, some lon => if pts.getLast? = some (lon, lat) then pts else pts ++ [(lon, lat)]
  | _, _ => pts

def locatedHops (hops : List RouteHop) : List (LngLat ℝ) := hops.foldl pushHop []

/-- The segments after `p`, each without its first point. -/
def laterSegments (w : World) : Cache → LngLat ℝ → List (LngLat ℝ) → List (LngLat ℝ) × Cache
  | cache, _, [] => ([], cache)
  | cache, p, q :: qs =>
      let (drawn, cache) := segmentPath w cache p q
      let (rest, cache) := laterSegments w cache q qs
      (drawn.path.drop 1 ++ rest, cache)

/-- The line through the hops, if there are two. -/
def drawRoute (w : World) (cache : Cache) (hops : List RouteHop) :
    Option (List (LngLat ℝ)) × Cache :=
  match locatedHops hops with
  | p :: q :: qs =>
      let (later, cache) := laterSegments w cache p (q :: qs)
      (some (densifyPath (p :: later)), cache)
  | _ => (none, cache)

/-- The modules `cables.ts` and `routes.ts`. -/
structure RoutePage where
  cache : Cache
  routeMap : String → Option (List (LngLat ℝ))

namespace RoutePage

def init : RoutePage := ⟨fun _ ↦ none, fun _ ↦ none⟩

/-- The loop of `fetchRoutes` over the routes of the reply. -/
def fetchRoutes (w : World) : RoutePage → List MeasuredRoute → List RoutePath × RoutePage
  | s, [] => ([], s)
  | s, route :: routes =>
      match drawRoute w s.cache route.hops with
      | (none, cache) => fetchRoutes w { s with cache := cache } routes
      | (some fixed, cache) =>
          let (out, s) := fetchRoutes w
            ⟨cache, Function.update s.routeMap route.dst (some fixed)⟩ routes
          (⟨route.dst, fixed⟩ :: out, s)

inductive Action
  /-- A flow gets its path. -/
  | segment (w : World) (a b : LngLat ℝ)
  /-- The reply to a poll, none if there is no JSON. -/
  | reply (w : World) (routes : Option (List MeasuredRoute))

def step (s : RoutePage) : Action → RoutePage
  | .segment w a b => { s with cache := (segmentPath w s.cache a b).2 }
  | .reply w routes => (fetchRoutes w s (routes.getD [])).2

end RoutePage

/-! ## Lists that pass others -/

section Passing

variable {α β γ : Type*} {R : α → β → Prop} {as as' : List α} {bs bs' : List β}

theorem passes_append (h : List.SublistForall₂ R as bs) (h' : List.SublistForall₂ R as' bs') :
    List.SublistForall₂ R (as ++ as') (bs ++ bs') := by
  obtain ⟨cs, hrel, hsub⟩ := List.sublistForall₂_iff.mp h
  obtain ⟨cs', hrel', hsub'⟩ := List.sublistForall₂_iff.mp h'
  exact List.sublistForall₂_iff.mpr ⟨cs ++ cs', List.rel_append hrel hrel', hsub.append hsub'⟩

theorem passes_last {a : α} {b : β} (hb : bs.getLast? = some b) (h : R a b) :
    List.SublistForall₂ R [a] bs := by
  refine List.sublistForall₂_iff.mpr ⟨[b], List.Forall₂.cons h .nil, ?_⟩
  exact List.singleton_sublist.mpr (List.mem_of_getLast? hb)

theorem passes_of_forall₂ {T : γ → β → Prop} {R' : α → γ → Prop} {cs : List γ}
    (h : List.SublistForall₂ R as bs) (hcs : List.Forall₂ T cs bs)
    (himp : ∀ a b c, R a b → T c b → R' a c) : List.SublistForall₂ R' as cs := by
  induction h generalizing cs with
  | nil => exact .nil
  | cons hab _ ih =>
      obtain ⟨c, cs', hc, hcs', rfl⟩ := List.forall₂_cons_right_iff.mp hcs
      exact .cons (himp _ _ _ hab hc) (ih hcs')
  | cons_right _ ih =>
      obtain ⟨c, cs', -, hcs', rfl⟩ := List.forall₂_cons_right_iff.mp hcs
      exact .cons_right (ih hcs')

end Passing

/-! ## What a line visits -/

/-- The point is at a place that looks like the hop with one decimal, or right beside it. -/
def Reached (hop p : LngLat ℝ) : Prop :=
  (∃ q, toFixed q.1 = toFixed hop.1 ∧ toFixed q.2 = toFixed hop.2 ∧ SameSpot p q) ∨ Near hop p

/-- The line runs from the first of the hops to the last, by all others in their order. -/
structure CallsAt (hops line : List (LngLat ℝ)) : Prop where
  passes : List.SublistForall₂ Reached hops line
  head : ∀ hop, hops.head? = some hop → ∃ p, line.head? = some p ∧ Reached hop p
  last : ∀ hop, hops.getLast? = some hop → ∃ p, line.getLast? = some p ∧ Reached hop p

theorem Reached.sameSpot {hop p p' : LngLat ℝ} (h : Reached hop p) (hspot : SameSpot p' p) :
    Reached hop p' := by
  rcases h with ⟨q, hlon, hlat, hq⟩ | hnear
  · exact Or.inl ⟨q, hlon, hlat, hspot.trans hq⟩
  · exact Or.inr ((hspot.near_iff hop).mpr hnear)

/-! ## The cache -/

section Cache

variable {S : Set (LngLat ℝ)} {w : World} {cache : Cache} {a b : LngLat ℝ}

/-- Each line of the cache is one between places with its key. -/
def Drawing (S : Set (LngLat ℝ)) (key : String) (d : Drawn) : Prop :=
  ∃ a ∈ S, ∃ b ∈ S, cacheKey (a, b) = key ∧ DrawnLine S a b d.path

def CacheOk (S : Set (LngLat ℝ)) (cache : Cache) : Prop :=
  ∀ key d, cache key = some d → Drawing S key d

theorem CacheOk.segmentPath (h : CacheOk S cache) (hS : Spread S) (hasks : w.Asks S a b) :
    Drawing S (cacheKey (a, b)) (segmentPath w cache a b).1 ∧
      CacheOk S (segmentPath w cache a b).2 := by
  have hown : ∀ d, DrawnLine S a b d.path → Drawing S (cacheKey (a, b)) d := fun d hd ↦
    ⟨a, hasks.start, b, hasks.finish, rfl, hd⟩
  rw [Web.segmentPath]
  cases hhit : cache (cacheKey (a, b)) with
  | some hit => exact ⟨h _ hit hhit, h⟩
  | none =>
      dsimp only
      split
      · exact ⟨hown _ (drawnLine_densifyGreatCircle hS hasks.start hasks.finish), h⟩
      · have hnew := hown _ (hasks.drawnLine_compute hS)
        refine ⟨hnew, fun key d hd ↦ ?_⟩
        by_cases hkey : key = cacheKey (a, b)
        · subst hkey
          change Function.update cache _ _ _ = some d at hd
          rw [Function.update_self] at hd
          exact Option.some.inj hd ▸ hnew
        · change Function.update cache _ _ _ = some d at hd
          rw [Function.update_of_ne hkey] at hd
          exact h key d hd

/-- What a line in the cache comes to when it is asked for. -/
theorem Drawing.shows {q : LngLat ℝ} {d : Drawn} (h : Drawing S (cacheKey (a, q)) d) :
    ∃ a' ∈ S, ∃ b' ∈ S, DrawnLine S a' b' d.path ∧
      (toFixed a'.1 = toFixed a.1 ∧ toFixed a'.2 = toFixed a.2) ∧
        toFixed b'.1 = toFixed q.1 ∧ toFixed b'.2 = toFixed q.2 := by
  obtain ⟨a', ha', b', hb', hkey, hline⟩ := h
  have hfixed := toFixed_of_cacheKey hkey
  exact ⟨a', ha', b', hb', hline, hfixed.1, hfixed.2⟩

end Cache

/-! ## The line of a route -/

section Route

variable {S : Set (LngLat ℝ)} {w : World} {cache : Cache}

/-- After `z`, where the line has come to for `p`, it goes on by all hops. -/
theorem laterSegments_spec (hS : Spread S) (hcache : CacheOk S cache) {p : LngLat ℝ}
    {qs : List (LngLat ℝ)} (hasks : (p :: qs).IsChain (w.Asks S)) {z : LngLat ℝ}
    (hz : AtPlace S z) :
    List.SublistForall₂ Reached qs (laterLegs z (laterSegments w cache p qs).1) ∧
      (∀ q, qs.getLast? = some q →
        ∃ x, (laterLegs z (laterSegments w cache p qs).1).getLast? = some x ∧ Reached q x) ∧
      CacheOk S (laterSegments w cache p qs).2 := by
  induction qs generalizing cache p z with
  | nil =>
      refine ⟨.nil, fun q hq ↦ ?_, hcache⟩
      cases hq
  | cons q qs ih =>
      obtain ⟨hask, hasks⟩ := List.isChain_cons_cons.mp hasks
      obtain ⟨hdrawing, hcache'⟩ := hcache.segmentPath hS hask
      obtain ⟨a', ha', b', hb', hline, -, hlon, hlat⟩ := hdrawing.shows
      rw [laterSegments]
      dsimp only
      generalize (segmentPath w cache p q).1.path = seg at hline
      generalize (segmentPath w cache p q).2 = cache' at hcache' ⊢
      obtain ⟨z', hz', hspot⟩ := hline.joins.last
      have hplace : AtPlace S z' := ⟨b', hb', hspot⟩
      have hlen := hline.length
      have hdrop : (seg.drop 1).getLast? = some z' := by
        rw [List.getLast?_drop, if_neg (by omega), hz']
      have hsettles : Settles (z :: seg.drop 1) := by
        match seg, hlen, hline.settles, hz' with
        | [y, y'], _, _, hz' =>
            obtain rfl := Option.some.inj hz'
            exact settles_pair (hS.not_opposite hz hplace)
        | y :: y' :: y'' :: rest, _, hsettles, _ =>
            exact hsettles.of_cons.cons (by rw [List.length_cons, List.length_cons]; omega) z
      obtain ⟨x, hx, hxz⟩ := getLast?_laterLegs_of_settles hsettles hdrop (hS.lat_lt hplace)
      have hreached : Reached q x := Or.inl ⟨b', hlon, hlat, hxz.trans hspot⟩
      obtain ⟨hpasses, hlast, hcache''⟩ := ih hcache' hasks hplace
      have hlegs : laterLegs z (seg.drop 1 ++ (laterSegments w cache' q qs).1) =
          laterLegs z (seg.drop 1) ++ laterLegs z' (laterSegments w cache' q qs).1 := by
        have hend : (z :: seg.drop 1).getLast (List.cons_ne_nil z _) = z' := by
          apply Option.some.inj
          rw [← List.getLast?_eq_some_getLast, List.getLast?_cons, hdrop]
          rfl
        rw [laterLegs_append, hend]
      rw [hlegs]
      refine ⟨passes_append (passes_last hx hreached) hpasses, fun r hr ↦ ?_, hcache''⟩
      rw [List.getLast?_append]
      cases qs with
      | nil =>
          obtain rfl := Option.some.inj hr
          exact ⟨x, hx, hreached⟩
      | cons q' qs =>
          rw [List.getLast?_cons_cons] at hr
          obtain ⟨y, hy, hry⟩ := hlast r hr
          exact ⟨y, by rw [hy, Option.some_or], hry⟩

theorem callsAt_line (hS : Spread S) (hcache : CacheOk S cache) {p q : LngLat ℝ}
    {qs : List (LngLat ℝ)} (hasks : (p :: q :: qs).IsChain (w.Asks S)) :
    CallsAt (p :: q :: qs) (densifyPath (p :: (laterSegments w cache p (q :: qs)).1)) := by
  have hask := (List.isChain_cons_cons.mp hasks).1
  have hplace : AtPlace S p := AtPlace.of_mem hask.start
  obtain ⟨hpasses, hlast, -⟩ := laterSegments_spec hS hcache hasks hplace
  obtain ⟨f, fs, hlater, hopp⟩ : ∃ f fs, (laterSegments w cache p (q :: qs)).1 = f :: fs ∧
      ¬ Opposite p f := by
    obtain ⟨a', ha', b', -, hline, ⟨hlon, hlat⟩, -⟩ := (hcache.segmentPath hS hask).1.shows
    rw [laterSegments]
    dsimp only
    generalize (segmentPath w cache p q).1.path = seg at hline
    match seg, hline.length, hline.departs with
    | y :: f :: rest, _, hdeparts =>
        refine ⟨f, _, rfl, ?_⟩
        rcases hdeparts f rfl with hf | hdot
        · exact hS.not_opposite hplace hf
        · refine not_opposite_of_dot (dot_pos_of_close (hS.lat p hask.start) (hS.lat a' ha') ?_ ?_)
            hdot
          · exact abs_sub_lt_of_toFixed hlon.symm
          · exact abs_sub_lt_of_toFixed hlat.symm
  rw [hlater] at hpasses hlast ⊢
  have hstart : Reached p (legPoint p f 0) := by
    by_cases hnear : Near p f
    · rw [legPoint_of_near hnear]
      exact Or.inr hnear
    · refine Or.inl ⟨p, rfl, rfl, sameSpot_legPoint_zero (hS.lat p hask.start) hopp ?_⟩
      exact fun h ↦ absurd h hnear
  have hspot := sameSpot_unwrap (legPoint p f 0 :: laterLegs p (f :: fs))
  rw [densifyPath, legs_eq]
  refine ⟨?_, fun hop hhop ↦ ?_, fun hop hhop ↦ ?_⟩
  · exact passes_of_forall₂ (.cons hstart hpasses) hspot fun _ _ _ h h' ↦ h.sameSpot h'
  · obtain rfl := Option.some.inj hhop
    exact ⟨legPoint p f 0, rfl, hstart⟩
  · rw [List.getLast?_cons_cons] at hhop
    obtain ⟨x, hx, hreached⟩ := hlast hop hhop
    obtain ⟨x', hx', hsame⟩ := getLast?_unwrapFrom (legPoint p f 0) _ hx
    refine ⟨x', ?_, hreached.sameSpot hsame⟩
    rw [unwrap, List.getLast?_cons, hx']
    rfl

end Route

/-! ## The stops of a route -/

/-- Where the hop is, if that is known. -/
def RouteHop.place (h : RouteHop) : Option (LngLat ℝ) :=
  h.lat.bind fun lat ↦ h.lon.map fun lon ↦ (lon, lat)

/-- The places of the hops, one after the other if they are different. -/
def MeasuredRoute.stops (r : MeasuredRoute) : List (LngLat ℝ) :=
  (r.hops.filterMap RouteHop.place).destutter (· ≠ ·)

theorem foldl_pushHop (pts : List (LngLat ℝ)) (p : LngLat ℝ) (hops : List RouteHop) :
    hops.foldl pushHop (pts ++ [p]) =
      pts ++ (hops.filterMap RouteHop.place).destutter' (· ≠ ·) p := by
  induction hops generalizing pts p with
  | nil => rfl
  | cons h hops ih =>
      rw [List.foldl_cons, List.filterMap_cons, pushHop, RouteHop.place]
      rcases hlat : h.lat with _ | lat
      · exact ih pts p
      · rcases hlon : h.lon with _ | lon
        · exact ih pts p
        · change List.foldl pushHop (if (pts ++ [p]).getLast? = some (lon, lat) then pts ++ [p]
            else pts ++ [p] ++ [(lon, lat)]) hops = _
          rw [List.getLast?_concat, Option.bind_some, Option.map_some, List.destutter'_cons]
          by_cases heq : p = (lon, lat)
          · rw [if_pos (congrArg some heq), if_neg (not_not.mpr heq)]
            exact ih pts p
          · rw [if_neg fun hsome ↦ heq (Option.some.inj hsome), if_pos heq, ih, List.append_assoc]
            rfl

/-- The loop over the hops leaves out repetitions and nothing else. -/
theorem locatedHops_eq_stops (r : MeasuredRoute) : locatedHops r.hops = r.stops := by
  rw [locatedHops, MeasuredRoute.stops]
  induction r.hops with
  | nil => rfl
  | cons h hops ih =>
      rw [List.foldl_cons, List.filterMap_cons, pushHop, RouteHop.place]
      rcases hlat : h.lat with _ | lat
      · exact ih
      · rcases hlon : h.lon with _ | lon
        · exact ih
        · exact foldl_pushHop [] (lon, lat) hops

/-! ## The page -/

namespace RoutePage

variable {S : Set (LngLat ℝ)} {w : World} {s : RoutePage}

/-- A line for a route that has two stops. -/
def DrawnFor (r : MeasuredRoute) (path : RoutePath) : Prop :=
  path.dst = r.dst ∧ CallsAt r.stops path.points

/-- The lines of the map are those of routes among `polled`. -/
structure PageOk (S : Set (LngLat ℝ)) (polled : List MeasuredRoute) (s : RoutePage) : Prop where
  cache : CacheOk S s.cache
  routeMap : ∀ dst line, s.routeMap dst = some line →
    ∃ r ∈ polled, r.dst = dst ∧ CallsAt r.stops line

theorem PageOk.mono {polled polled' : List MeasuredRoute} (h : PageOk S polled s)
    (hsub : polled ⊆ polled') : PageOk S polled' s where
  cache := h.cache
  routeMap dst line hline := by
    obtain ⟨r, hr, hdst⟩ := h.routeMap dst line hline
    exact ⟨r, hsub hr, hdst⟩

theorem drawRoute_spec (hS : Spread S) {cache : Cache} (hcache : CacheOk S cache)
    {r : MeasuredRoute} (hasks : r.stops.IsChain (w.Asks S)) :
    CacheOk S (drawRoute w cache r.hops).2 ∧
      ((r.stops.length < 2 ∧ (drawRoute w cache r.hops).1 = none) ∨
        (2 ≤ r.stops.length ∧
          ∃ line, (drawRoute w cache r.hops).1 = some line ∧ CallsAt r.stops line)) := by
  rw [drawRoute, locatedHops_eq_stops]
  rcases hstops : r.stops with _ | ⟨p, _ | ⟨q, qs⟩⟩
  · exact ⟨hcache, Or.inl ⟨Nat.two_pos, rfl⟩⟩
  · exact ⟨hcache, Or.inl ⟨Nat.one_lt_two, rfl⟩⟩
  · rw [hstops] at hasks
    have hplace := AtPlace.of_mem (List.isChain_cons_cons.mp hasks).1.start
    refine ⟨(laterSegments_spec hS hcache hasks hplace).2.2, Or.inr ⟨?_, _, rfl, ?_⟩⟩
    · rw [List.length_cons, List.length_cons]
      omega
    · exact callsAt_line hS hcache hasks

theorem fetchRoutes_spec (hS : Spread S) {polled routes : List MeasuredRoute}
    (h : PageOk S polled s) (hasks : ∀ r ∈ routes, r.stops.IsChain (w.Asks S)) :
    List.Forall₂ DrawnFor (routes.filter fun r ↦ 2 ≤ r.stops.length) (fetchRoutes w s routes).1 ∧
      PageOk S (polled ++ routes) (fetchRoutes w s routes).2 := by
  induction routes generalizing s polled with
  | nil =>
      rw [List.append_nil]
      exact ⟨.nil, h⟩
  | cons r routes ih =>
      obtain ⟨hask, hasks⟩ := List.forall_mem_cons.mp hasks
      obtain ⟨hcache, hdrawn⟩ := drawRoute_spec hS h.cache hask
      rw [fetchRoutes, List.filter_cons, List.append_cons]
      rcases hdrawn with ⟨hshort, hnone⟩ | ⟨hlong, line, hline, hcalls⟩
      · have hnext : PageOk S (polled ++ [r]) { s with cache := (drawRoute w s.cache r.hops).2 } :=
          ⟨hcache, (h.mono (List.subset_append_left ..)).routeMap⟩
        rw [if_neg (by simpa using hshort)]
        generalize drawRoute w s.cache r.hops = drawn at hnone hnext
        obtain ⟨line, cache⟩ := drawn
        obtain rfl : line = none := hnone
        exact ih hnext hasks
      · have hnext : PageOk S (polled ++ [r]) ⟨(drawRoute w s.cache r.hops).2,
            Function.update s.routeMap r.dst (some line)⟩ := by
          refine ⟨hcache, fun dst line' hline' ↦ ?_⟩
          by_cases hdst : dst = r.dst
          · subst hdst
            change Function.update s.routeMap r.dst (some line) r.dst = some line' at hline'
            rw [Function.update_self] at hline'
            obtain rfl := Option.some.inj hline'
            exact ⟨r, List.mem_append_right _ (List.mem_singleton_self r), rfl, hcalls⟩
          · change Function.update s.routeMap r.dst (some line) dst = some line' at hline'
            rw [Function.update_of_ne hdst] at hline'
            exact (h.mono (List.subset_append_left ..)).routeMap dst line' hline'
        rw [if_pos (decide_eq_true hlong)]
        generalize drawRoute w s.cache r.hops = drawn at hline hnext
        obtain ⟨line', cache⟩ := drawn
        obtain rfl : line' = some line := hline
        obtain ⟨hout, hpage⟩ := ih hnext hasks
        exact ⟨.cons ⟨rfl, hcalls⟩ hout, hpage⟩

/-! ## Runs -/

/-- Flows and routes lie within `S`, and so does the data that they are drawn by. -/
def Action.Within (S : Set (LngLat ℝ)) : Action → Prop
  | .segment w a b => w.Asks S a b
  | .reply w routes => ∀ r ∈ routes.getD [], r.stops.IsChain (w.Asks S)

/-- The routes of a reply. -/
def Action.routes : Action → List MeasuredRoute
  | .segment .. => []
  | .reply _ routes => routes.getD []

theorem PageOk.step (hS : Spread S) {polled : List MeasuredRoute} (h : PageOk S polled s)
    {a : Action} (ha : a.Within S) : PageOk S (polled ++ a.routes) (s.step a) := by
  cases a with
  | segment w a b =>
      rw [Action.routes, List.append_nil]
      exact ⟨(h.cache.segmentPath hS ha).2, h.routeMap⟩
  | reply w routes => exact (fetchRoutes_spec hS h ha).2

theorem pageOk_foldl (hS : Spread S) {acts : List Action} (hacts : ∀ a ∈ acts, a.Within S) :
    PageOk S (acts.flatMap Action.routes) (acts.foldl step init) := by
  induction acts using List.reverseRecOn with
  | nil =>
      refine ⟨fun key d hd ↦ ?_, fun dst line hline ↦ ?_⟩
      · cases hd
      · cases hline
  | append_singleton acts a ih =>
      rw [List.flatMap_append, List.flatMap_singleton, List.foldl_concat]
      refine (ih fun b hb ↦ hacts b (List.mem_append_left _ hb)).step hS ?_
      exact hacts a (List.mem_append_right _ (List.mem_singleton_self a))

end RoutePage

end

end TrafficMap.Web
