import TrafficMap.Web.Hubs

/-!
# The cable network

`cables.ts`: the submarine cables as a graph.  The ends of cable segments are
clustered into landing nodes, a segment is an edge with its real length, and
what stays apart is bridged, first within a cable system, then between the
components.
-/

namespace TrafficMap.Web

variable {K : Type} [Field K] [LinearOrder K] [FloorRing K]

/-! ## Segments -/

abbrev CLUSTER_KM : ℕ := 60

/-- The remainder of JavaScript, with the sign of the dividend. -/
def jsMod (x m : K) : K := x - m * (if 0 ≤ x / m then (⌊x / m⌋ : K) else (⌈x / m⌉ : K))

def normLon (x : K) : K := jsMod (x + (540 : ℕ)) (360 : ℕ) - (180 : ℕ)

def arcticTransit (c : LngLat K) : Bool :=
  let lon := normLon c.1
  decide ((69 : ℕ) < c.2) ||
    (decide ((60 : ℕ) < c.2) && !(decide (-(60 : ℕ) ≤ lon) && decide (lon ≤ (30 : ℕ))))

def crossesArctic (seg : List (LngLat K)) : Bool := seg.any arcticTransit

/-- From here on an end lies at the antimeridian. -/
def dateline : K := (359 : ℕ) / (2 : ℕ)

/-- An end of a branch at the antimeridian. -/
structure End (K : Type) where
  bi : ℕ
  head : Bool
  lat : K

def endsOf (keep : LngLat K → Bool) (brs : List (List (LngLat K))) : List (End K) :=
  brs.zipIdx.flatMap fun br ↦
    [(br.1.headD (0, 0), true), (br.1.getLastD (0, 0), false)].filterMap fun c ↦
      if keep c.1 then some ⟨br.2, c.2, c.1.2⟩ else none

/-- The end on the other side that is closest in latitude, within two degrees. -/
def partner (consumed : List ℕ) (p : End K) (neg : List (End K)) : Option (End K) :=
  ((neg.filter fun n ↦ !(consumed.contains n.bi || n.bi == p.bi)).filter fun n ↦
    |n.lat - p.lat| < (2 : ℕ)).argmin fun n ↦ |n.lat - p.lat|

/-- The two halves in one line, the second beyond 180. -/
def joinBranches (a b : List (LngLat K)) (p n : End K) : List (LngLat K) :=
  let a := if p.head then a.reverse else a
  let b := b.map fun c ↦ (c.1 + ((360 : ℕ) : K), c.2)
  a ++ (if n.head then b else b.reverse).drop 1

/-- An eastern end finds its partner, unless its branch is consumed. -/
def stitchEnd (brs : List (List (LngLat K))) (neg : List (End K))
    (s : List ℕ × List (List (LngLat K))) (p : End K) : List ℕ × List (List (LngLat K)) :=
  let (consumed, merged) := s
  if consumed.contains p.bi then s
  else match partner consumed p neg with
    | none => s
    | some n => (consumed ++ [p.bi, n.bi],
        merged ++ [joinBranches (brs.getD p.bi []) (brs.getD n.bi []) p n])

def stitchAntimeridian (brs : List (List (LngLat K))) : List (List (LngLat K)) :=
  let pos := endsOf (fun c ↦ decide (dateline ≤ c.1)) brs
  let neg := endsOf (fun c ↦ decide (c.1 < dateline) && decide (c.1 ≤ -dateline)) brs
  let (consumed, merged) := pos.foldl (stitchEnd brs neg) ([], [])
  ((brs.zipIdx.filter fun br ↦ !consumed.contains br.2).map Prod.fst) ++ merged

/-- The lines of each feature, those of at least two points. -/
def cableSystems (features : List (List (List (LngLat K)))) : List (List (List (LngLat K))) :=
  features.filterMap fun lines ↦
    match lines.filter fun line ↦ 2 ≤ line.length with
    | [] => none
    | segs => some (stitchAntimeridian segs)

/-! ## The graph -/

/-- The segment that draws an edge, none for a straight hop, and its direction. -/
structure Branch where
  branchIdx : Option ℕ
  reversed : Bool
deriving DecidableEq

structure CableGraph (K : Type) where
  nodeCoord : List (LngLat K)
  wires : List (Wire K Branch)
  branches : List (List (LngLat K))
  parent : List ℕ

section Build

variable (E : Earth K)

def pathLengthKm (line : List (LngLat K)) : K :=
  ((line.zip line.tail).map fun p ↦ E.haversineKm p.1 p.2).sum

def nodeAt (nodes : List (LngLat K)) (i : ℕ) : LngLat K := nodes.getD i (0, 0)

/-- The cell that a node is filed under. -/
def nodeCell (c : LngLat K) : ℤ × ℤ := (⌊normLon c.1⌋, ⌊c.2⌋)

/-- The nodes of the cells around, cell by cell. -/
def nodesAround (nodes : List (LngLat K)) (c : LngLat K) : List ℕ :=
  (offsets 1).flatMap fun dx ↦ (offsets 1).flatMap fun dy ↦
    (List.range nodes.length).filter fun id ↦
      nodeCell (nodeAt nodes id) = (⌊c.1⌋ + dx, ⌊c.2⌋ + dy)

def clusterNode (nodes : List (LngLat K)) (c : LngLat K) : Option ℕ :=
  ((nodesAround nodes c).filter fun id ↦
    E.haversineKm (nodeAt nodes id) c < (CLUSTER_KM : K)).argmin fun id ↦
      E.haversineKm (nodeAt nodes id) c

def findOrAdd (nodes : List (LngLat K)) (p : LngLat K) : ℕ × List (LngLat K) :=
  let c := (normLon p.1, p.2)
  match clusterNode E nodes c with
  | some id => (id, nodes)
  | none => (nodes.length, nodes ++ [c])

def addEdge (wires : List (Wire K Branch)) (a b : ℕ) (w : K) (branchIdx : Option ℕ) :
    List (Wire K Branch) :=
  if a = b ∨ w ≤ 0 then wires else wires ++ [⟨a, b, w, ⟨branchIdx, false⟩, ⟨branchIdx, true⟩⟩]

/-- `parent` up to the node. -/
def ensureNode (parent : List ℕ) (id : ℕ) : List ℕ :=
  parent ++ List.range' parent.length (id + 1 - parent.length)

/-- A segment, with the landings of its system so far. -/
def addSegment (s : CableGraph K × List ℕ) (seg : List (LngLat K)) : CableGraph K × List ℕ :=
  let (g, landings) := s
  if seg.length < 2 || crossesArctic seg then s
  else
    let (ia, nodes) := findOrAdd E g.nodeCoord (seg.headD (0, 0))
    let (ib, nodes) := findOrAdd E nodes (seg.getLastD (0, 0))
    ({ nodeCoord := nodes
       wires := addEdge g.wires ia ib (pathLengthKm E seg) (some g.branches.length)
       branches := g.branches ++ [seg]
       parent := UnionFind.union (ensureNode (ensureNode g.parent ia) ib) ia ib },
      landings ++ [ia, ib])

def bridgePair (g : CableGraph K) (a b : ℕ) : CableGraph K :=
  let (ra, parent) := UnionFind.root g.parent a
  let (rb, parent) := UnionFind.root parent b
  if ra = rb then { g with parent := parent }
  else
    { g with
      wires := addEdge g.wires a b
        (E.haversineKm (nodeAt g.nodeCoord a) (nodeAt g.nodeCoord b)) none
      parent := UnionFind.union parent a b }

/-- Each pair of landings of a system that its segments do not connect. -/
def bridgeSystem : List ℕ → CableGraph K → CableGraph K
  | [], g => g
  | a :: rest, g => bridgeSystem rest (rest.foldl (fun g b ↦ bridgePair E g a b) g)

def addSystem (g : CableGraph K) (segs : List (List (LngLat K))) : CableGraph K :=
  let (g, landings) := segs.foldl (addSegment E) (g, [])
  bridgeSystem E landings.eraseDups g

def addSystems (systems : List (List (List (LngLat K)))) : CableGraph K :=
  systems.foldl (addSystem E) ⟨[], [], [], []⟩

end Build

/-! ## Components -/

section Components

/-- The component of each node, none for -1. -/
abbrev CompOf := ℕ → Option ℕ

/-- The loop over the stack, whose top is in front. -/
def flood (adj : ℕ → List (Link K Branch)) (id : ℕ) :
    ℕ → List ℕ → CompOf × ℕ → CompOf × ℕ
  | 0, _, c => c
  | _ + 1, [], c => c
  | n + 1, u :: stack, (compOf, size) =>
      if (compOf u).isSome then flood adj id n stack (compOf, size)
      else
        let compOf := Function.update compOf u (some id)
        let next := ((adj u).map Link.dest).filter fun v ↦ (compOf v).isNone
        flood adj id n (next.reverse ++ stack) (compOf, size + 1)

/-- A component from each node that no earlier one has reached.  Every entry of a
row is pushed at most once. -/
def startComponent (V : ℕ) (adj : ℕ → List (Link K Branch)) (c : CompOf × List ℕ) (s : ℕ) :
    CompOf × List ℕ :=
  if (c.1 s).isSome then c
  else
    let (compOf, n) := flood adj c.2.length (Search.rounds V adj) [s] (c.1, 0)
    (compOf, c.2 ++ [n])

def components (V : ℕ) (adj : ℕ → List (Link K Branch)) : CompOf × List ℕ :=
  (List.range V).foldl (startComponent V adj) (fun _ ↦ none, [])

/-- The first of the largest components. -/
def mainComp (compSize : List ℕ) : ℕ :=
  ((List.range compSize.length).argmax fun i ↦ compSize.getD i 0).getD 0

variable (E : Earth K)

def members (V : ℕ) (compOf : CompOf) (comp : ℕ) : List ℕ :=
  (List.range V).filter fun i ↦ compOf i = some comp

def nearestPair (nodes : List (LngLat K)) (ms others : List ℕ) : Option (ℕ × ℕ) :=
  (ms.flatMap fun m ↦ others.map fun i ↦ (m, i)).argmin fun p ↦
    E.haversineKm (nodeAt nodes p.1) (nodeAt nodes p.2)

/-- The members of `comp` become the main component's.  The number of the component
is taken for a node, too. -/
def foldInto (compOf : CompOf) (ms : List ℕ) (main comp : ℕ) : CompOf := fun i ↦
  if i ∈ ms then some main else if i = comp then some main else compOf i

/-- One round of the loop over the components. -/
def foldComponent (nodes : List (LngLat K)) (main : ℕ) (s : List (Wire K Branch) × CompOf)
    (comp : ℕ) : List (Wire K Branch) × CompOf :=
  let (wires, compOf) := s
  if comp = main then s
  else
    let ms := members nodes.length compOf comp
    match nearestPair E nodes ms (members nodes.length compOf main) with
    | none => s
    | some (a, b) =>
        (addEdge wires a b (E.haversineKm (nodeAt nodes a) (nodeAt nodes b)) none,
          foldInto compOf ms main comp)

def buildCableGraph (systems : List (List (List (LngLat K)))) : CableGraph K :=
  let g := addSystems E systems
  let (compOf, compSize) := components g.nodeCoord.length (Links.rows g.wires)
  { g with
    wires := ((List.range compSize.length).foldl
      (foldComponent E g.nodeCoord (mainComp compSize)) (g.wires, compOf)).1 }

end Components

end TrafficMap.Web
