import TrafficMap.Web.Cables

/-!
# The joint graph

The union of the land backbone and the cable network, hubs first, with one
backhaul from each cable node to its nearest hub, and the shortest way over it.
-/

namespace TrafficMap.Web

variable {K : Type} [Field K] [LinearOrder K] [FloorRing K]

def straight : Branch := ⟨none, false⟩

section Joint

variable (E : Earth K) (d : HubData K) (g : CableGraph K)

def hubCount : ℕ := d.hubs.length

def jointSize : ℕ := hubCount d + g.nodeCoord.length

/-- `jointCoord`. -/
def coordAt (u : ℕ) : LngLat K := (d.hubs ++ g.nodeCoord).getD u (0, 0)

/-- The landing station's tie into the terrestrial backbone. -/
def backhaulHub (j : ℕ) : Option ℕ :=
  (List.range (hubCount d)).argmin fun i ↦
    E.haversineKm (hubAt d i) (nodeAt g.nodeCoord j)

def backhaulWire (j i : ℕ) : Wire K Branch where
  a := hubCount d + j
  b := i
  w := E.haversineKm (hubAt d i) (nodeAt g.nodeCoord j)
  out := straight
  back := straight

def backhaulWires : List (Wire K Branch) :=
  (List.range g.nodeCoord.length).filterMap fun j ↦
    (backhaulHub E d g j).map fun i ↦ backhaulWire E d g j i

def jointAdj (u : ℕ) : List (Link K Branch) :=
  (if u < hubCount d then (landAdj E d u).map fun e ↦ ⟨e.dest, e.w, straight⟩
    else (Links.rows g.wires (u - hubCount d)).map fun e ↦ ⟨hubCount d + e.dest, e.w, e.tag⟩) ++
  Links.rows (backhaulWires E d g) u

/-- `buildJointGraph` has both of its parts. -/
def jointLoaded : Bool := hubsLoaded d && !g.nodeCoord.isEmpty

def nearestJoint (p : LngLat K) : Option ℕ :=
  (List.range (jointSize d g)).argmin fun u ↦ E.haversineKm (coordAt d g u) p

def jointSearch (ia ib : ℕ) : Search.State K Branch :=
  Search.search (jointSize d g) (jointAdj E d g) ia ib

/-- The entries that the way from `ia` to `ib` follows. -/
def jointTrail (ia ib : ℕ) : List (ℕ × Branch × ℕ) :=
  Search.trail (jointSearch E d g ia ib).prev (jointSize d g) ib

/-- A cable contributes its polyline up to its last point, any other entry the
node it starts from. -/
def hopPoints (hop : ℕ × Branch × ℕ) : List (LngLat K) :=
  match hop.2.1.branchIdx with
  | some bi =>
      let seg := g.branches.getD bi []
      (if hop.2.1.reversed then seg.reverse else seg).dropLast
  | none => [coordAt d g hop.1]

def jointRoute (a b : LngLat K) : Option (List (LngLat K)) :=
  if jointLoaded d g then
    (nearestJoint E d g a).bind fun ia ↦ (nearestJoint E d g b).bind fun ib ↦
      if (jointSearch E d g ia ib).dist ib = ⊤ then none
      else some ([a] ++ ((jointTrail E d g ia ib).flatMap (hopPoints d g) ++ [coordAt d g ib]) ++
        [b])
  else none

end Joint

end TrafficMap.Web
