import TrafficMap.Lib.Pieces
import TrafficMap.Web.ShortestRoutes

/-!
# Land components

The union-find of the build knows the pieces of the backbone that the search finds.
-/

namespace TrafficMap.Web

variable {K : Type} [Field K] [LinearOrder K] [FloorRing K]

/-- None for -1. -/
def landComponentOf (E : Earth K) (d : HubData K) (p : LngLat K) : Option ℕ :=
  if hubsLoaded d then (nearestHub E d p).map fun i ↦ (compRoot E d).getD i 0 else none

section Tracks

variable {E : Earth K} {d : HubData K}

/-- The forest of the build, and where the main piece lies. -/
structure MergeTracks (d : HubData K) (s : Merge K) : Prop where
  tracks : UnionFind.Tracks d.hubs.length s.wires s.parent
  main : ∀ i ∈ s.main, i < d.hubs.length

omit [FloorRing K] in
theorem MergeTracks.mergePiece {s : Merge K} {piece : List ℕ} {a b : ℕ}
    (hpiece : ∀ i ∈ piece, i < d.hubs.length) (hbridge : bridge E d s.main piece = some (a, b))
    (hs : MergeTracks d s) : MergeTracks d (mergePiece E d s piece a b) := by
  obtain ⟨ha, hb, -⟩ := mem_of_bridge hbridge
  constructor
  · exact hs.tracks.append (e := landWire E d a b) (hpiece a ha) (hs.main b hb)
  · intro i hi
    rcases List.mem_append.mp hi with hold | hnew
    · exact hs.main i hold
    · exact hpiece i hnew

theorem tracks_buildLandGraph (E : Earth K) (d : HubData K) :
    UnionFind.Tracks d.hubs.length (landWires E d) (buildLandGraph E d).parent := by
  have hbase : UnionFind.Tracks d.hubs.length (baseWires E d) (unionRows d (baseWires E d)) :=
    UnionFind.tracks_rows fun x hx ↦ (landOk_baseWires x hx).ends_lt
  have hclasses := hbase.of_sameRoots
    (UnionFind.sameRoots_classes hbase.within.forest hbase.within.length.ge)
  have hall : MergeTracks d (buildLandGraph E d) := by
    apply buildLandGraph_rule
    · exact fun main hmain ↦ ⟨hclasses, hmain⟩
    · exact fun _ _ _ _ hpiece hbridge hs ↦ hs.mergePiece hpiece hbridge
  exact hall.tracks

/-- Hubs have the same root exactly if there is a way between them. -/
theorem compRoot_eq_iff {i j : ℕ} (hi : i < d.hubs.length) (hj : j < d.hubs.length) :
    (compRoot E d).getD i 0 = (compRoot E d).getD j 0 ↔ Links.Reach (landAdj E d) i j := by
  have htracks := tracks_buildLandGraph E d
  have hlength := htracks.within.length
  rw [← hlength] at hi hj
  rw [compRoot, ← hlength]
  exact (UnionFind.roots_eq_iff htracks.within.forest hi hj).trans
    htracks.joined_iff

end Tracks

/-- Two points share a component exactly if `landRoute` joins them. -/
theorem landComponentOf_eq_iff (E : Earth K) (d : HubData K) (hloaded : hubsLoaded d = true)
    (p q : LngLat K) :
    landComponentOf E d p = landComponentOf E d q ↔ landRoute E d p q ≠ none := by
  have hpos := hubs_length_pos hloaded
  obtain ⟨i, hi⟩ := exists_nearest E (hubAt d) hpos p
  obtain ⟨j, hj⟩ := exists_nearest E (hubAt d) hpos q
  change nearestHub E d p = some i at hi
  change nearestHub E d q = some j at hj
  rw [landComponentOf, landComponentOf, if_pos hloaded, if_pos hloaded, hi, hj, Option.map_some,
    Option.map_some, Option.some_inj, Ne, landRoute_eq_none_iff hloaded hi hj, not_not]
  exact compRoot_eq_iff (nearest_of_argmin hi).lt (nearest_of_argmin hj).lt

theorem landComponentOf_eq_forked :
    landComponentOf taxicab forkedHubs (175, 0) = landComponentOf taxicab forkedHubs (175, 2) ↔
      landRoute taxicab forkedHubs (175, 0) (175, 2) ≠ none :=
  landComponentOf_eq_iff taxicab forkedHubs (by decide) (175, 0) (175, 2)

end TrafficMap.Web
