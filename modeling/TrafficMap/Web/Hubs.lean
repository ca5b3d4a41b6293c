import TrafficMap.Lib.Search
import TrafficMap.Lib.UnionFind
import Mathlib.Algebra.Order.Floor.Defs
import Mathlib.Algebra.Order.Field.Basic
import Mathlib.Data.List.MinMax

/-!
# The land backbone

`hubs.ts`: the interconnect hubs, each linked to its nearest neighbours on the
same landmass, the links that the operator has declared, and bridges between
what is left apart.  Distances, coast lines and zones come from `geo.ts` and
`landmass.ts`.
-/

namespace TrafficMap.Web

variable {K : Type} [Field K] [LinearOrder K] [FloorRing K]

abbrev LngLat (K : Type) := K × K

/-! ## Zones -/

/-- A polygon land edges must not cross, with its bounding box. -/
structure Zone (K : Type) where
  xmin : K
  xmax : K
  ymin : K
  ymax : K
  ring : List (LngLat K)

def makeZone (ring : List (LngLat K)) : Zone K where
  xmin := ring.foldl (fun x c ↦ min x c.1) (180 : ℕ)
  xmax := ring.foldl (fun x c ↦ max x c.1) (-(180 : ℕ))
  ymin := ring.foldl (fun y c ↦ min y c.2) (90 : ℕ)
  ymax := ring.foldl (fun y c ↦ max y c.2) (-(90 : ℕ))
  ring := ring

/-- What the graphs use of `geo.ts` and, with `world.geojson` loaded, of
`landmass.ts`. -/
structure Earth (K : Type) where
  haversineKm : LngLat K → LngLat K → K
  continentGroup : LngLat K → Option String
  landFraction : LngLat K → LngLat K → K
  zonesBlock : LngLat K → LngLat K → List (Zone K) → Bool
  /-- The outer rings of the named countries. -/
  countryRings : List String → List (List (LngLat K))

/-- Off the poles, with one longitude for each meridian. -/
structure OnGlobe (p : LngLat K) : Prop where
  west : -(180 : ℕ) ≤ p.1
  east : p.1 < (180 : ℕ)
  south : -(90 : ℕ) < p.2
  north : p.2 < (90 : ℕ)

/-- Different points of the globe are at a distance. -/
structure Earth.IsDistance (E : Earth K) : Prop where
  nonneg : ∀ p q, 0 ≤ E.haversineKm p q
  self : ∀ p, E.haversineKm p p = 0
  eq_of_zero : ∀ p q, OnGlobe p → OnGlobe q → E.haversineKm p q = 0 → p = q

/-! ## The data -/

structure POPNode (K : Type) where
  position : LngLat K
  name : String

structure Topology (K : Type) where
  pops : List (POPNode K)
  trunks : List (String × String)
  corridorHubs : List (LngLat K)
  corridorEdges : List (ℕ × ℕ)
  noTransitCountries : List String
  noTransitZones : List (List (LngLat K))

/-- What `loadHubs` leaves in the module. -/
structure HubData (K : Type) where
  landings : List (LngLat K)
  hubs : List (LngLat K)
  /-- None for -1. -/
  corridorStart : Option ℕ
  corridorEdges : List (ℕ × ℕ)
  trunkEdges : List (ℕ × ℕ)
  topo : Topology K

/-- The entry of `name` in `new Map(pops…)`, where the last of a name stays. -/
def popIndex (pops : List (POPNode K)) (popStart : ℕ) (name : String) : Option ℕ :=
  (pops.zipIdx.reverse.find? fun p ↦ p.1.name = name).map fun p ↦ popStart + p.2

/-- What one load of one file leaves: the features by their role, then the corridor and the
POPs. -/
def loadHubs (landings inland : List (LngLat K)) (topo : Topology K) : HubData K where
  landings := landings
  hubs := inland ++ topo.corridorHubs ++ topo.pops.map POPNode.position
  corridorStart := if topo.corridorHubs = [] then none else some inland.length
  corridorEdges := if topo.corridorHubs = [] then [] else topo.corridorEdges
  trunkEdges := topo.trunks.filterMap fun t ↦
    let popStart := inland.length + topo.corridorHubs.length
    (popIndex topo.pops popStart t.1).bind fun ia ↦
      (popIndex topo.pops popStart t.2).map fun ib ↦ (ia, ib)
  topo := topo

abbrev LAND_K : ℕ := 6
abbrev BRIDGE_CONTIGUITY_KM : ℕ := 60

/-- The share of a great circle over land that makes it an overland link. -/
def overland : K := (85 : ℕ) / (100 : ℕ)

section Graph

variable (E : Earth K) (d : HubData K)

def hubAt (i : ℕ) : LngLat K := d.hubs.getD i (0, 0)

def hubKm (i j : ℕ) : K := E.haversineKm (hubAt d i) (hubAt d j)

def inCorridor (i : ℕ) : Bool :=
  match d.corridorStart with
  | none => false
  | some start => decide (start ≤ i ∧ i < start + d.topo.corridorHubs.length)

/-- The countries without transit, then the configured zones. -/
def zones : List (Zone K) :=
  (E.countryRings d.topo.noTransitCountries).map makeZone ++
    (d.topo.noTransitZones.filter fun r ↦ 4 ≤ r.length).map makeZone

/-! ## Nearest neighbours -/

def cellOf (p : LngLat K) : ℤ × ℤ := (⌊p.1⌋, ⌊p.2⌋)

/-- `cellIdx.get(…)`. -/
def cellIds (c : ℤ × ℤ) : List ℕ :=
  (List.range d.hubs.length).filter fun i ↦ cellOf (hubAt d i) = c

/-- From `-r` to `r`. -/
def offsets (r : ℕ) : List ℤ := (List.range (2 * r + 1)).map fun k : ℕ ↦ (k : ℤ) - r

def ringIds (i r : ℕ) : List ℕ :=
  let c := cellOf (hubAt d i)
  (offsets r).flatMap fun dx ↦ (offsets r).flatMap fun dy ↦
    (cellIds d (c.1 + dx, c.2 + dy)).filter fun id ↦ id ≠ i

/-- The first ring with enough hubs, or the eighth. -/
def candidates (i : ℕ) : List ℕ :=
  ringIds d i (((List.range' 1 8).find? fun r ↦ LAND_K * 4 ≤ (ringIds d i r).length).getD 8)

/-- The tests that `j` has to pass to be linked to `i`. -/
def eligible (i j : ℕ) : Bool :=
  let gi := E.continentGroup (hubAt d i)
  let gj := E.continentGroup (hubAt d j)
  -- no cross-ocean land hop
  !(gi.isSome && gj.isSome && gi != gj) &&
    !(inCorridor d i && inCorridor d j) &&
    !decide (E.landFraction (hubAt d i) (hubAt d j) < overland) &&
    !E.zonesBlock (hubAt d i) (hubAt d j) (zones E d)

def landWire (a b : ℕ) : Wire K Unit := ⟨a, b, hubKm E d a b, (), ()⟩

/-- `seen` holds the pairs of the edges so far. -/
def seen (ws : List (Wire K Unit)) (i j : ℕ) : Bool :=
  ws.any fun x ↦ decide (x.a = i ∧ x.b = j ∨ x.a = j ∧ x.b = i)

def linkNearest (i : ℕ) : List ℕ → ℕ → List (Wire K Unit) → List (Wire K Unit)
  | [], _, ws => ws
  | j :: js, added, ws =>
      if LAND_K ≤ added then ws
      else if !eligible E d i j || seen ws i j then linkNearest i js added ws
      else linkNearest i js (added + 1) (ws ++ [landWire E d i j])

def byDistance (i a b : ℕ) : Bool := decide (hubKm E d i a ≤ hubKm E d i b)

def nearestWires : List (Wire K Unit) :=
  (List.range d.hubs.length).foldl
    (fun ws i ↦ linkNearest E d i ((candidates d i).mergeSort (byDistance E d i)) 0 ws) []

/-! ## Declared links -/

/-- The pairs of hubs that the operator has declared. -/
def declared : List (ℕ × ℕ) :=
  (match d.corridorStart with
    | none => []
    | some start => d.corridorEdges.map fun p ↦ (start + p.1, start + p.2)) ++ d.trunkEdges

def declaredWires : List (Wire K Unit) :=
  ((declared d).filter fun p ↦ p.1 < d.hubs.length ∧ p.2 < d.hubs.length).map fun p ↦
    landWire E d p.1 p.2

/-! ## Bridges -/

def cableServed (members : List ℕ) : Bool :=
  members.any fun m ↦ d.landings.any fun l ↦
    decide (E.haversineKm (hubAt d m) l ≤ (BRIDGE_CONTIGUITY_KM : K))

/-- The nearest pair of a piece and the main piece that no zone blocks. -/
def bestLink (main piece : List ℕ) : Option (ℕ × ℕ) :=
  ((piece.flatMap fun a ↦ main.map fun b ↦ (a, b)).filter fun p ↦
    !E.zonesBlock (hubAt d p.1) (hubAt d p.2) (zones E d)).argmin fun p ↦ hubKm E d p.1 p.2

/-- The link over which the piece is merged. -/
def bridge (main piece : List ℕ) : Option (ℕ × ℕ) :=
  (bestLink E d main piece).filter fun p ↦
    decide (hubKm E d p.1 p.2 ≤ (BRIDGE_CONTIGUITY_KM : K)) ||
      decide (overland ≤ E.landFraction (hubAt d p.1) (hubAt d p.2)) ||
      !cableServed E d piece

structure Merge (K : Type) where
  wires : List (Wire K Unit)
  parent : List ℕ
  main : List ℕ

/-- One round over the pieces that are not merged yet; what is left of them. -/
def mergeRound : List (List ℕ) → Merge K → List (List ℕ) × Merge K
  | [], s => ([], s)
  | piece :: pieces, s =>
      match bridge E d s.main piece with
      | some (a, b) =>
          mergeRound pieces
            { wires := s.wires ++ [landWire E d a b]
              parent := UnionFind.union s.parent a b
              main := s.main ++ piece }
      | none =>
          let (left, s) := mergeRound pieces s
          (piece :: left, s)

/-- Rounds until nothing changes, no more than there are pieces. -/
def mergePieces : ℕ → List (List ℕ) → Merge K → Merge K
  | 0, _, s => s
  | n + 1, pieces, s =>
      let (left, s) := mergeRound E d pieces s
      if left.length = pieces.length then s else mergePieces n left s

def baseWires : List (Wire K Unit) := nearestWires E d ++ declaredWires E d

/-- `parent` after the edges so far, row by row. -/
def unionRows (ws : List (Wire K Unit)) : List ℕ :=
  (List.range d.hubs.length).foldl
    (fun p i ↦ (Links.rows ws i).foldl (fun p e ↦ UnionFind.union p i e.dest) p)
    (List.range d.hubs.length)

def buildLandGraph : Merge K :=
  let base := baseWires E d
  let (groups, parent) := UnionFind.classes d.hubs.length (unionRows d base)
  match groups.mergeSort fun a b ↦ b.length ≤ a.length with
  | [] => ⟨base, parent, []⟩
  | main :: pieces => mergePieces E d pieces.length pieces ⟨base, parent, main⟩

def landWires : List (Wire K Unit) := (buildLandGraph E d).wires

def landAdj : ℕ → List (Link K Unit) := Links.rows (landWires E d)

def compRoot : List ℕ := UnionFind.roots d.hubs.length (buildLandGraph E d).parent

/-! ## Routes -/

/-- `ready`, and something to route on. -/
def hubsLoaded : Bool := !d.landings.isEmpty && !d.hubs.isEmpty

def nearestHub (p : LngLat K) : Option ℕ :=
  (List.range d.hubs.length).argmin fun i ↦ E.haversineKm (hubAt d i) p

/-- The hubs of the shortest way, as the entries that were followed. -/
def landTrail (ia ib : ℕ) : Option (List (ℕ × Unit × ℕ)) :=
  let s := Search.search d.hubs.length (landAdj E d) ia ib
  if s.dist ib = ⊤ then none else some (Search.trail s.prev d.hubs.length ib)

def landRoute (a b : LngLat K) : Option (List (LngLat K)) :=
  if hubsLoaded d then
    (nearestHub E d a).bind fun ia ↦ (nearestHub E d b).bind fun ib ↦
      if ia = ib then some [a, hubAt d ia, b]
      else (landTrail E d ia ib).map fun hops ↦
        [a] ++ (hops.map fun hop ↦ hubAt d hop.1) ++ [hubAt d ib, b]
  else none

end Graph

end TrafficMap.Web
