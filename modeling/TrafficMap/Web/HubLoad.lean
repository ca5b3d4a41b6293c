import Mathlib.Data.Rat.Floor
import TrafficMap.Lib.Machine
import TrafficMap.Web.Hubs

/-!
# Loading the hubs

`loadHubs` of `hubs.ts` and `loadTopology` of `topology.ts`, cut at their awaits.  The
calls share the arrays of the module, and any of them may overlap.
-/

namespace TrafficMap.Web

variable {K : Type}

/-! ## A data file -/

/-- No coordinates where they are no array. -/
structure Feature (K : Type) where
  coordinates : Option (List K)
  role : Option String

/-- The landings and the other hubs. -/
abbrev Points (K : Type) := List (LngLat K) × List (LngLat K)

def pushFeature (f : Feature K) (points : Points K) : Points K :=
  match f.coordinates with
  | some (x :: y :: _) =>
      if f.role = some "landing" then ((x, y) :: points.1, points.2)
      else (points.1, (x, y) :: points.2)
  | _ => points

/-- What the loop over the features pushes, and whether it comes to their end.  It throws
at a null. -/
def readFeatures : List (Option (Feature K)) → Points K × Bool
  | [] => (([], []), true)
  | none :: _ => (([], []), false)
  | some f :: features =>
      let (points, whole) := readFeatures features
      (pushFeature f points, whole)

/-! ## The modules -/

inductive Request
  | fetch
  | json
deriving DecidableEq

inductive CallPhase
  | file (r : Request)
  /-- Within `loadTopology`, whose request is the call's own or was made before. -/
  | topology (own : Bool)
  | done

structure Call where
  phase : CallPhase
  /-- The files to try after this one. -/
  rest : List String

structure HubModule (K : Type) where
  /-- With the value of `topology.ts`. -/
  data : HubData K
  grid : ℤ × ℤ → List (LngLat K)
  ready : Bool
  topologyLoaded : Bool
  topologyRequest : Option Request
  calls : List Call
  /-- The points of the files that have come whole, for the record. -/
  files : List (Points K)

def hubFiles : List String := ["/data/hubs.local.geojson", "/data/hubs.geojson"]

def nextFile : List String → Call
  | [] => ⟨.done, []⟩
  | _ :: rest => ⟨.file .fetch, rest⟩

namespace HubModule

def emptyTopology : Topology K := ⟨[], [], [], [], [], []⟩

def init : HubModule K :=
  ⟨⟨[], [], none, [], [], emptyTopology⟩, fun _ ↦ [], false, false, none, [], []⟩

/-- `loadHubs()` up to its first await. -/
def start (s : HubModule K) : HubModule K :=
  if s.ready then s else { s with calls := s.calls ++ [nextFile hubFiles] }

def setCall (s : HubModule K) (c : ℕ) (call : Call) : HubModule K :=
  { s with calls := s.calls.set c call }

/-- The response of a file, false if there is none or it is not ok. -/
def onAnswer (s : HubModule K) (c : ℕ) (ok : Bool) : Option (HubModule K) :=
  match s.calls[c]? with
  | some ⟨.file .fetch, rest⟩ =>
      some (s.setCall c (if ok then ⟨.file .json, rest⟩ else nextFile rest))
  | _ => none

/-- `loadTopology()` up to its first await. -/
def startTopology (s : HubModule K) : HubModule K :=
  if s.topologyLoaded then s
  else { s with topologyLoaded := true, topologyRequest := some .fetch }

def pushPoints (s : HubModule K) (points : Points K) : HubModule K :=
  { s with data := { s.data with
      landings := s.data.landings ++ points.1
      hubs := s.data.hubs ++ points.2 } }

/-- The body of a file, none if it does not parse or is null. -/
def onBody (s : HubModule K) (c : ℕ) (body : Option (List (Option (Feature K)))) :
    Option (HubModule K) :=
  match s.calls[c]? with
  | some ⟨.file .json, rest⟩ =>
      match body with
      | none => some (s.setCall c (nextFile rest))
      | some features =>
          let (points, whole) := readFeatures features
          if whole then
            some ({ (s.pushPoints points).startTopology with
                files := s.files ++ [points] }.setCall c ⟨.topology !s.topologyLoaded, rest⟩)
          else some ((s.pushPoints points).setCall c (nextFile rest))
  | _ => none

def onTopologyAnswer (s : HubModule K) (ok : Bool) : Option (HubModule K) :=
  if s.topologyRequest = some .fetch then
    some { s with topologyRequest := if ok then some .json else none }
  else none

def onTopologyBody (s : HubModule K) (body : Option (Topology K)) : Option (HubModule K) :=
  if s.topologyRequest = some .json then
    some { s with
      topologyRequest := none
      data := { s.data with topo := body.getD s.data.topo } }
  else none

/-- The corridor and the POPs come after the hubs there are. -/
def mergeTopology (d : HubData K) : HubData K :=
  { d with
    hubs := d.hubs ++ d.topo.corridorHubs ++ d.topo.pops.map POPNode.position
    corridorStart := if d.topo.corridorHubs = [] then d.corridorStart else some d.hubs.length
    corridorEdges := if d.topo.corridorHubs = [] then d.corridorEdges else d.topo.corridorEdges
    trunkEdges :=
      if d.topo.pops = [] then d.trunkEdges
      else d.topo.trunks.filterMap fun t ↦
        let popStart := d.hubs.length + d.topo.corridorHubs.length
        (popIndex d.topo.pops popStart t.1).bind fun ia ↦
          (popIndex d.topo.pops popStart t.2).map fun ib ↦ (ia, ib) }

variable [Field K] [LinearOrder K] [FloorRing K]

def gridPush (grid : ℤ × ℤ → List (LngLat K)) (p : LngLat K) : ℤ × ℤ → List (LngLat K) :=
  Function.update grid (cellOf p) (grid (cellOf p) ++ [p])

/-- The rest of an attempt, once `loadTopology` has returned. -/
def resume (s : HubModule K) (c : ℕ) : Option (HubModule K) :=
  match s.calls[c]? with
  | some ⟨.topology own, rest⟩ =>
      if own && s.topologyRequest.isSome then none
      else
        let data := mergeTopology s.data
        let ready := !data.landings.isEmpty
        some ({ s with
          data := data
          grid := data.hubs.foldl gridPush s.grid
          ready := ready }.setCall c (if ready then ⟨.done, []⟩ else nextFile rest))
  | _ => none

inductive Action (K : Type)
  | loadHubs
  | answer (c : ℕ) (ok : Bool)
  | body (c : ℕ) (body : Option (List (Option (Feature K))))
  /-- The call of `infra.ts`. -/
  | loadTopology
  | topologyAnswer (ok : Bool)
  | topologyBody (body : Option (Topology K))
  | resume (c : ℕ)

def step (s : HubModule K) : Action K → Option (HubModule K)
  | .loadHubs => some s.start
  | .answer c ok => s.onAnswer c ok
  | .body c body => s.onBody c body
  | .loadTopology => some s.startTopology
  | .topologyAnswer ok => s.onTopologyAnswer ok
  | .topologyBody body => s.onTopologyBody body
  | .resume c => s.resume c

/-! ## One load and no other -/

def noCells : ℤ × ℤ → List (LngLat K) := fun _ ↦ []

/-- As a single load of one of the files would leave the module. -/
def WholeLoad (s : HubModule K) : Prop :=
  ∃ points ∈ s.files, s.data = Web.loadHubs points.1 points.2 s.data.topo ∧
    s.grid = s.data.hubs.foldl gridPush noCells

/-- The points of one file, and nothing done with them. -/
def OneFile (s : HubModule K) : Prop :=
  ∃ points ∈ s.files, s.data.landings = points.1 ∧ s.data.hubs = points.2 ∧ s.grid = noCells

/-- An attempt ends on the points of one file, and what comes later has nothing to add. -/
def Undisturbed (s : HubModule K) : Action K → Prop
  | .body _ (some features) => s.ready = true → (readFeatures features).1 = ([], [])
  | .topologyBody (some topo) => s.ready = true → topo.corridorHubs = [] ∧ topo.pops = []
  | .resume _ =>
      (s.ready = true → s.data.hubs = []) ∧
        (s.ready = false → s.data.landings ≠ [] → s.OneFile)
  | _ => True

/-! ## The grid -/

section Grid

variable {g : ℤ × ℤ → List (LngLat K)} {ps : List (LngLat K)}

theorem foldl_gridPush (g : ℤ × ℤ → List (LngLat K)) (ps : List (LngLat K)) (k : ℤ × ℤ) :
    ps.foldl gridPush g k = g k ++ ps.filter fun p ↦ cellOf p = k := by
  induction ps generalizing g with
  | nil => rw [List.foldl_nil, List.filter_nil, List.append_nil]
  | cons p ps ih =>
      rw [List.foldl_cons, ih, List.filter_cons, gridPush]
      by_cases hk : cellOf p = k
      · rw [if_pos (decide_eq_true hk), ← hk, Function.update_self, List.append_assoc,
          List.singleton_append]
      · rw [if_neg (by simpa using hk), Function.update_of_ne (Ne.symm hk)]

/-- A grid that was empty can be told by what it has become. -/
theorem foldl_gridPush_eq_iff :
    ps.foldl gridPush g = ps.foldl gridPush noCells ↔ g = noCells := by
  constructor
  · intro h
    funext k
    have hk := congrFun h k
    rw [foldl_gridPush, foldl_gridPush] at hk
    exact List.append_cancel_right hk
  · exact congrArg fun g ↦ ps.foldl gridPush g

theorem foldl_gridPush_eq_noCells (h : ps.foldl gridPush g = noCells) : g = noCells ∧ ps = [] := by
  have hcell : ∀ k, g k = [] ∧ (ps.filter fun p ↦ cellOf p = k) = [] := by
    intro k
    have hk := congrFun h k
    rw [foldl_gridPush] at hk
    exact List.append_eq_nil_iff.mp hk
  refine ⟨funext fun k ↦ (hcell k).1, ?_⟩
  apply List.eq_nil_iff_forall_not_mem.mpr
  intro p hp
  exact List.filter_eq_nil_iff.mp (hcell (cellOf p)).2 p hp (decide_eq_true rfl)

end Grid

/-! ## A single load -/

section Data

variable {d : HubData K} {points : Points K} {topo : Topology K}

omit [Field K] [LinearOrder K] [FloorRing K]

theorem popIndex_nil (n : ℕ) (name : String) : popIndex ([] : List (POPNode K)) n name = none := rfl

/-- On a fresh module an attempt does what a load does. -/
theorem mergeTopology_fresh (points : Points K) (topo : Topology K) :
    mergeTopology ⟨points.1, points.2, none, [], [], topo⟩ =
      Web.loadHubs points.1 points.2 topo := by
  rw [mergeTopology, Web.loadHubs]
  by_cases hpops : topo.pops = []
  · simp [hpops, popIndex_nil]
  · simp [hpops]

theorem loadHubs_of_no_hubs (points : Points K) (hcorridor : topo.corridorHubs = [])
    (hpops : topo.pops = []) :
    Web.loadHubs points.1 points.2 topo = ⟨points.1, points.2, none, [], [], topo⟩ := by
  simp [Web.loadHubs, hcorridor, hpops, popIndex_nil]

theorem mergeTopology_of_no_hubs (hcorridor : d.topo.corridorHubs = [])
    (hpops : d.topo.pops = []) : mergeTopology d = d := by
  simp [mergeTopology, hcorridor, hpops]

end Data

/-! ## The steps -/

/-- Only calls and requests differ. -/
structure SameData (s s' : HubModule K) : Prop where
  data : s'.data = s.data
  grid : s'.grid = s.grid
  ready : s'.ready = s.ready
  files : s'.files = s.files

/-- What holds in every run. -/
structure Orderly (s : HubModule K) : Prop where
  landings : (s.files.map fun points ↦ points.1.length).sum ≤ s.data.landings.length
  ready : s.ready = true → s.data.landings ≠ []
  unindexed : s.grid = noCells →
    s.data.corridorStart = none ∧ s.data.corridorEdges = [] ∧ s.data.trunkEdges = []
  requested : s.topologyRequest ≠ none → s.topologyLoaded = true
  topo : s.topologyLoaded = false ∨ s.topologyRequest ≠ none → s.data.topo = emptyTopology

section Steps

variable {s s' : HubModule K} {c : ℕ}

omit [Field K] [LinearOrder K] [FloorRing K] in
theorem onAnswer_spec {ok : Bool} (h : s.onAnswer c ok = some s') :
    ∃ call, s' = s.setCall c call := by
  rw [onAnswer] at h
  split at h
  · exact ⟨_, (Option.some.inj h).symm⟩
  · cases h

omit [Field K] [LinearOrder K] [FloorRing K] in
/-- The points that are read stay, whether the file comes whole or not. -/
theorem onBody_spec {body : Option (List (Option (Feature K)))} (h : s.onBody c body = some s') :
    (body = none ∧ ∃ call, s' = s.setCall c call) ∨ ∃ features, body = some features ∧ ∃ call,
      s' = (s.pushPoints (readFeatures features).1).setCall c call ∨
      s' = { (s.pushPoints (readFeatures features).1).startTopology with
        files := s.files ++ [(readFeatures features).1] }.setCall c call := by
  rw [onBody] at h
  split at h
  · split at h
    · exact Or.inl ⟨rfl, _, (Option.some.inj h).symm⟩
    · rename_i features
      dsimp only at h
      split at h
      · exact Or.inr ⟨features, rfl, _, Or.inr (Option.some.inj h).symm⟩
      · exact Or.inr ⟨features, rfl, _, Or.inl (Option.some.inj h).symm⟩
  · cases h

omit [Field K] [LinearOrder K] [FloorRing K] in
theorem onTopologyAnswer_spec {ok : Bool} (h : s.onTopologyAnswer ok = some s') :
    s.topologyRequest = some .fetch ∧
      s' = { s with topologyRequest := if ok then some .json else none } := by
  obtain ⟨hrequest, h⟩ := Option.ite_none_right_eq_some.mp h
  exact ⟨hrequest, (Option.some.inj h).symm⟩

omit [Field K] [LinearOrder K] [FloorRing K] in
theorem onTopologyBody_spec {body : Option (Topology K)} (h : s.onTopologyBody body = some s') :
    s.topologyRequest = some .json ∧ s' = { s with
      topologyRequest := none
      data := { s.data with topo := body.getD s.data.topo } } := by
  rw [onTopologyBody] at h
  split at h
  · rename_i hrequest
    exact ⟨hrequest, (Option.some.inj h).symm⟩
  · cases h

theorem resume_spec (h : s.resume c = some s') : ∃ call, s' = { s with
    data := mergeTopology s.data
    grid := (mergeTopology s.data).hubs.foldl gridPush s.grid
    ready := !s.data.landings.isEmpty }.setCall c call := by
  rw [resume] at h
  split at h
  · split at h
    · cases h
    · exact ⟨_, (Option.some.inj h).symm⟩
  · cases h

omit [Field K] [LinearOrder K] [FloorRing K] in
theorem sameData_startTopology (s : HubModule K) : SameData s s.startTopology := by
  rw [startTopology]
  split
  · exact ⟨rfl, rfl, rfl, rfl⟩
  · exact ⟨rfl, rfl, rfl, rfl⟩

omit [Field K] [LinearOrder K] [FloorRing K] in
theorem sameData_start (s : HubModule K) : SameData s s.start := by
  rw [start]
  split
  · exact ⟨rfl, rfl, rfl, rfl⟩
  · exact ⟨rfl, rfl, rfl, rfl⟩

theorem SameData.wholeLoad_iff (h : SameData s s') : s'.WholeLoad ↔ s.WholeLoad := by
  rw [WholeLoad, WholeLoad, h.data, h.grid, h.files]

omit [Field K] [LinearOrder K] [FloorRing K] in
theorem orderly_init : Orderly (init : HubModule K) where
  landings := le_refl 0
  ready := fun h ↦ absurd h Bool.false_ne_true
  unindexed := fun _ ↦ ⟨rfl, rfl, rfl⟩
  requested := fun h ↦ absurd rfl h
  topo := fun _ ↦ rfl

omit [Field K] [LinearOrder K] [FloorRing K] in
theorem Orderly.setCall (h : Orderly s) (call : Call) : Orderly (s.setCall c call) :=
  ⟨h.landings, h.ready, h.unindexed, h.requested, h.topo⟩

omit [Field K] [LinearOrder K] [FloorRing K] in
theorem Orderly.startTopology (h : Orderly s) : Orderly s.startTopology := by
  rw [HubModule.startTopology]
  split
  · exact h
  · rename_i hloaded
    refine ⟨h.landings, h.ready, h.unindexed, fun _ ↦ rfl, fun _ ↦ ?_⟩
    exact h.topo (Or.inl (Bool.eq_false_iff.mpr hloaded))

omit [Field K] [LinearOrder K] [FloorRing K] in
theorem Orderly.pushPoints (h : Orderly s) (points : Points K) :
    Orderly (s.pushPoints points) where
  landings := by
    apply h.landings.trans
    change s.data.landings.length ≤ (s.data.landings ++ points.1).length
    rw [List.length_append]
    exact Nat.le_add_right _ _
  ready := fun hready ↦ List.append_ne_nil_of_left_ne_nil (h.ready hready) points.1
  unindexed := h.unindexed
  requested := h.requested
  topo := h.topo

omit [Field K] [LinearOrder K] [FloorRing K] in
/-- A file that comes whole is recorded with what it pushes. -/
theorem Orderly.pushFile (h : Orderly s) (points : Points K) :
    Orderly { (s.pushPoints points).startTopology with files := s.files ++ [points] } := by
  have hnext := (h.pushPoints points).startTopology
  have hdata := (sameData_startTopology (s.pushPoints points)).data
  refine ⟨?_, hnext.ready, hnext.unindexed, hnext.requested, hnext.topo⟩
  have hle := h.landings
  dsimp only
  rw [hdata]
  change _ ≤ (s.data.landings ++ points.1).length
  rw [List.map_append, List.sum_append, List.length_append, List.map_singleton,
    List.sum_singleton]
  omega

theorem Orderly.resume (h : Orderly s) (h' : s.resume c = some s') : Orderly s' := by
  obtain ⟨call, rfl⟩ := resume_spec h'
  refine ⟨h.landings, ?_, ?_, h.requested, h.topo⟩
  · intro hready hnil
    change (!s.data.landings.isEmpty) = true at hready
    change s.data.landings = [] at hnil
    rw [hnil] at hready
    exact absurd hready Bool.false_ne_true
  · intro hgrid
    obtain ⟨hold, hhubs⟩ := foldl_gridPush_eq_noCells hgrid
    obtain ⟨hhubs, hpops⟩ := List.append_eq_nil_iff.mp hhubs
    have hcorridor := (List.append_eq_nil_iff.mp hhubs).2
    change (mergeTopology s.data).corridorStart = none ∧ _ ∧ _
    rw [mergeTopology_of_no_hubs hcorridor (List.map_eq_nil_iff.mp hpops)]
    exact h.unindexed hold

theorem Orderly.step {a : Action K} (h : Orderly s) (hstep : s.step a = some s') :
    Orderly s' := by
  cases a with
  | loadHubs =>
      obtain rfl := Option.some.inj hstep
      rw [start]
      split
      · exact h
      · exact ⟨h.landings, h.ready, h.unindexed, h.requested, h.topo⟩
  | answer c ok =>
      obtain ⟨call, rfl⟩ := onAnswer_spec hstep
      exact h.setCall call
  | body c body =>
      rcases onBody_spec hstep with ⟨-, call, rfl⟩ | ⟨features, -, call, rfl | rfl⟩
      · exact h.setCall call
      · exact (h.pushPoints _).setCall call
      · exact (h.pushFile _).setCall call
  | loadTopology =>
      obtain rfl := Option.some.inj hstep
      exact h.startTopology
  | topologyAnswer ok =>
      obtain ⟨hfetch, rfl⟩ := onTopologyAnswer_spec hstep
      have hrequested : s.topologyRequest ≠ none := by
        rw [hfetch]
        exact Option.some_ne_none _
      exact ⟨h.landings, h.ready, h.unindexed, fun _ ↦ h.requested hrequested,
        fun _ ↦ h.topo (Or.inr hrequested)⟩
  | topologyBody body =>
      obtain ⟨hjson, rfl⟩ := onTopologyBody_spec hstep
      refine ⟨h.landings, h.ready, h.unindexed, fun hne ↦ absurd rfl hne, ?_⟩
      have hloaded : s.topologyLoaded = true := by
        apply h.requested
        rw [hjson]
        exact Option.some_ne_none _
      rintro (hnot | hne)
      · exact absurd (hnot.symm.trans hloaded) Bool.false_ne_true
      · exact absurd rfl hne
  | resume c => exact h.resume hstep

omit [Field K] [LinearOrder K] [FloorRing K] in
/-- Only one of the files can have all the landings. -/
theorem Orderly.file_unique (h : Orderly s) {points points' : Points K}
    (hmem : points ∈ s.files) (hmem' : points' ∈ s.files) (hne : points.1 ≠ [])
    (hall : s.data.landings = points'.1) : points = points' := by
  by_contra hdiff
  obtain ⟨pre, post, hfiles⟩ := List.append_of_mem hmem
  have hlt := List.length_pos_iff.mpr hne
  have hle := h.landings
  rw [hall, hfiles, List.map_append, List.map_cons, List.sum_append, List.sum_cons] at hle
  rw [hfiles] at hmem'
  have hpart : ∀ l : List (Points K), points' ∈ l →
      points'.1.length ≤ (l.map fun points ↦ points.1.length).sum :=
    fun l hl ↦ List.le_sum_of_mem (List.mem_map_of_mem hl)
  rcases List.mem_append.mp hmem' with hpre | hpost
  · have hle' := hpart pre hpre
    omega
  · have hle' := hpart post (List.mem_of_ne_of_mem (Ne.symm hdiff) hpost)
    omega

/-- A file that comes when the hubs are ready spoils them if it has any points. -/
theorem Orderly.wholeLoad_pushPoints (h : Orderly s) (hready : s.ready = true)
    (hwhole : s.WholeLoad) {points : Points K} (h' : Orderly s')
    (hdata : s'.data = (s.pushPoints points).data) (hgrid : s'.grid = s.grid)
    (hfiles : s.files ⊆ s'.files) : s'.WholeLoad ↔ points = ([], []) := by
  obtain ⟨own, hown, hload, hcells⟩ := hwhole
  have hlandings : s.data.landings = own.1 := congrArg HubData.landings hload
  constructor
  · rintro ⟨other, hother, hload', -⟩
    have hpush : s.data.landings ++ points.1 = other.1 := by
      have hall := congrArg HubData.landings hload'
      rw [hdata] at hall
      exact hall
    have hsame : own = other := by
      apply h'.file_unique (hfiles hown) hother
      · rw [← hlandings]
        exact h.ready hready
      · rw [hdata]
        exact hpush
    have hdata' : (s.pushPoints points).data = s.data := by
      rw [← hdata, hload', ← hsame, hdata]
      exact hload.symm
    have hnone : points.1 = [] ∧ points.2 = [] := by
      constructor
      · exact List.append_right_eq_self.mp (congrArg HubData.landings hdata')
      · exact List.append_right_eq_self.mp (congrArg HubData.hubs hdata')
    exact Prod.ext hnone.1 hnone.2
  · rintro rfl
    have hkeep : s'.data = s.data := by
      rw [hdata, HubModule.pushPoints]
      simp
    refine ⟨own, hfiles hown, ?_, ?_⟩
    · rw [hkeep]
      exact hload
    · rw [hkeep, hgrid]
      exact hcells

/-- So does a topology with hubs. -/
theorem Orderly.wholeLoad_topology (h : Orderly s) (hready : s.ready = true)
    (hwhole : s.WholeLoad) (hrequest : s.topologyRequest ≠ none) (topo : Topology K) :
    WholeLoad { s with topologyRequest := none, data := { s.data with topo := topo } } ↔
      topo.corridorHubs = [] ∧ topo.pops = [] := by
  obtain ⟨own, hown, hload, hcells⟩ := hwhole
  rw [h.topo (Or.inr hrequest), loadHubs_of_no_hubs own rfl rfl] at hload
  constructor
  · rintro ⟨other, hother, hload', -⟩
    have hsame : own = other := by
      apply h.file_unique hown hother
      · have hlandings : s.data.landings = own.1 := congrArg HubData.landings hload
        rw [← hlandings]
        exact h.ready hready
      · exact congrArg HubData.landings hload'
    have hhubs : own.2 = own.2 ++ topo.corridorHubs ++ topo.pops.map POPNode.position := by
      have hhubs' := congrArg HubData.hubs hload'
      rw [← hsame] at hhubs'
      exact (congrArg HubData.hubs hload).symm.trans hhubs'
    rw [List.append_assoc] at hhubs
    obtain ⟨hcorridor, hpops⟩ := List.append_eq_nil_iff.mp (List.self_eq_append_right.mp hhubs)
    exact ⟨hcorridor, List.map_eq_nil_iff.mp hpops⟩
  · rintro ⟨hcorridor, hpops⟩
    refine ⟨own, hown, ?_, hcells⟩
    rw [loadHubs_of_no_hubs own hcorridor hpops, hload]

/-- An attempt that ends adds the hubs to the grid once more. -/
theorem Orderly.wholeLoad_resume (h : Orderly s) (call : Call)
    (hwhole : s.ready = true → s.WholeLoad) :
    WholeLoad ({ s with
      data := mergeTopology s.data
      grid := (mergeTopology s.data).hubs.foldl gridPush s.grid
      ready := !s.data.landings.isEmpty }.setCall c call) ↔
      if s.ready then s.data.hubs = [] else s.OneFile := by
  have hsplit : WholeLoad ({ s with
      data := mergeTopology s.data
      grid := (mergeTopology s.data).hubs.foldl gridPush s.grid
      ready := !s.data.landings.isEmpty }.setCall c call) ↔ s.OneFile := by
    constructor
    · rintro ⟨points, hpoints, hload, hcells⟩
      refine ⟨points, hpoints, congrArg HubData.landings hload, ?_, foldl_gridPush_eq_iff.mp hcells⟩
      have hhubs := congrArg HubData.hubs hload
      exact List.append_cancel_right (List.append_cancel_right hhubs)
    · rintro ⟨points, hpoints, hlandings, hhubs, hgrid⟩
      obtain ⟨hstart, hedges, htrunks⟩ := h.unindexed hgrid
      refine ⟨points, hpoints, ?_, foldl_gridPush_eq_iff.mpr hgrid⟩
      change mergeTopology s.data = Web.loadHubs points.1 points.2 s.data.topo
      rw [← mergeTopology_fresh, ← hlandings, ← hhubs]
      simp only [mergeTopology, hstart, hedges, htrunks]
  rw [hsplit]
  split
  · rename_i hready
    obtain ⟨own, hown, hload, hcells⟩ := hwhole hready
    constructor
    · rintro ⟨-, -, -, -, hgrid⟩
      exact (foldl_gridPush_eq_noCells (hcells.symm.trans hgrid)).2
    · intro hnone
      have hhubs := congrArg HubData.hubs hload
      rw [hnone] at hhubs
      obtain ⟨hfile, -⟩ := List.append_eq_nil_iff.mp hhubs.symm
      refine ⟨own, hown, congrArg HubData.landings hload, ?_, ?_⟩
      · exact hnone.trans (List.append_eq_nil_iff.mp hfile).1.symm
      · rw [hcells, hnone]
        rfl
  · exact Iff.rfl

/-- Of all the steps only those that are disturbed break the load. -/
theorem wholeLoad_step_iff {a : Action K} (h : Orderly s) (hwhole : s.ready = true → s.WholeLoad)
    (hstep : s.step a = some s') : (s'.ready = true → s'.WholeLoad) ↔ s.Undisturbed a := by
  have hsame : SameData s s' → (s'.ready = true → s'.WholeLoad) := by
    intro hs hready
    rw [hs.ready] at hready
    exact hs.wholeLoad_iff.mpr (hwhole hready)
  cases a with
  | loadHubs =>
      obtain rfl := Option.some.inj hstep
      exact iff_of_true (hsame (sameData_start s)) trivial
  | answer c ok =>
      obtain ⟨call, rfl⟩ := onAnswer_spec hstep
      exact iff_of_true (hsame ⟨rfl, rfl, rfl, rfl⟩) trivial
  | body c body =>
      rcases onBody_spec hstep with ⟨rfl, call, rfl⟩ | ⟨features, rfl, call, hnext⟩
      · exact iff_of_true (hsame ⟨rfl, rfl, rfl, rfl⟩) trivial
      · have hstart := sameData_startTopology (s.pushPoints (readFeatures features).1)
        have hready : s'.ready = s.ready := by
          rcases hnext with rfl | rfl
          · rfl
          · exact hstart.ready
        rw [hready]
        refine imp_congr_right fun hr ↦ ?_
        refine h.wholeLoad_pushPoints hr (hwhole hr) (h.step hstep) ?_ ?_ ?_
        · rcases hnext with rfl | rfl
          · rfl
          · exact hstart.data
        · rcases hnext with rfl | rfl
          · rfl
          · exact hstart.grid
        · rcases hnext with rfl | rfl
          · exact List.Subset.refl _
          · exact List.subset_append_left _ _
  | loadTopology =>
      obtain rfl := Option.some.inj hstep
      exact iff_of_true (hsame (sameData_startTopology s)) trivial
  | topologyAnswer ok =>
      obtain ⟨-, rfl⟩ := onTopologyAnswer_spec hstep
      exact iff_of_true (hsame ⟨rfl, rfl, rfl, rfl⟩) trivial
  | topologyBody body =>
      obtain ⟨hjson, rfl⟩ := onTopologyBody_spec hstep
      cases body with
      | none => exact iff_of_true (hsame ⟨rfl, rfl, rfl, rfl⟩) trivial
      | some topo =>
          refine imp_congr_right fun hr ↦ h.wholeLoad_topology hr (hwhole hr) ?_ topo
          rw [hjson]
          exact Option.some_ne_none _
  | resume c =>
      obtain ⟨call, rfl⟩ := resume_spec hstep
      have hiff := h.wholeLoad_resume (c := c) call hwhole
      change ((!s.data.landings.isEmpty) = true → _) ↔ _ ∧ _
      cases hready : s.ready with
      | true =>
          have hlandings := h.ready hready
          rw [if_pos hready] at hiff
          simp [hiff, hlandings]
      | false =>
          rw [if_neg (by simp [hready])] at hiff
          simp [hiff]

end Steps

/-! ## One call alone -/

section Solo

variable {s s' : HubModule K} {c : ℕ}

structure Fresh (s : HubModule K) : Prop where
  landings : s.data.landings = []
  hubs : s.data.hubs = []
  grid : s.grid = noCells
  files : s.files = []
  ready : s.ready = false
  loaded : s.topologyLoaded = false
  request : s.topologyRequest = none

/-- The only call, from one await to the next. -/
inductive Solo (s : HubModule K) : Prop
  | idle (hcalls : s.calls = []) (h : Fresh s)
  | reading {r : Request} {rest : List String} (hcalls : s.calls = [⟨.file r, rest⟩]) (h : Fresh s)
  | merging {rest : List String} (hcalls : s.calls = [⟨.topology true, rest⟩])
      (hready : s.ready = false) (hfile : s.OneFile) (hlandings : s.data.landings ≠ [])
  | done {rest : List String} (hcalls : s.calls = [⟨.done, rest⟩])
      (hrequest : s.topologyRequest = none)

/-- A file has landings if it comes whole, and if not it breaks off before its first point;
nobody else loads anything. -/
def Clean (s : HubModule K) : Action K → Prop
  | .loadHubs => s.calls = []
  | .loadTopology => False
  | .body _ (some features) =>
      if (readFeatures features).2 then (readFeatures features).1.1 ≠ []
      else (readFeatures features).1 = ([], [])
  | _ => True

section Phases

omit [Field K] [LinearOrder K] [FloorRing K]

theorem eq_of_getElem?_singleton {call call' : Call} (hcalls : s.calls = [call])
    (hc : s.calls[c]? = some call') : c = 0 ∧ call' = call := by
  have hlt := (List.getElem?_eq_some_iff.mp hc).1
  rw [hcalls, List.length_singleton, Nat.lt_one_iff] at hlt
  subst hlt
  rw [hcalls] at hc
  exact ⟨rfl, (Option.some.inj hc).symm⟩

theorem setCall_singleton {call : Call} (hcalls : s.calls = [call]) (call' : Call) :
    (s.setCall 0 call').calls = [call'] := by
  change s.calls.set 0 call' = [call']
  rw [hcalls]
  rfl

theorem Solo.fresh_of_file {r : Request} {rest : List String} (h : Solo s)
    (hc : s.calls[c]? = some ⟨.file r, rest⟩) :
    c = 0 ∧ s.calls = [⟨.file r, rest⟩] ∧ Fresh s := by
  cases h with
  | idle hcalls =>
      rw [hcalls] at hc
      cases hc
  | reading hcalls h =>
      obtain ⟨rfl, heq⟩ := eq_of_getElem?_singleton hcalls hc
      exact ⟨rfl, heq ▸ hcalls, h⟩
  | merging hcalls =>
      cases (eq_of_getElem?_singleton hcalls hc).2
  | done hcalls =>
      cases (eq_of_getElem?_singleton hcalls hc).2

theorem Solo.merging_of_topology {own : Bool} {rest : List String} (h : Solo s)
    (hc : s.calls[c]? = some ⟨.topology own, rest⟩) :
    c = 0 ∧ s.calls = [⟨.topology true, rest⟩] ∧ own = true ∧ s.ready = false ∧ s.OneFile ∧
      s.data.landings ≠ [] := by
  cases h with
  | idle hcalls =>
      rw [hcalls] at hc
      cases hc
  | reading hcalls =>
      cases (eq_of_getElem?_singleton hcalls hc).2
  | merging hcalls hready hfile hlandings =>
      obtain ⟨rfl, heq⟩ := eq_of_getElem?_singleton hcalls hc
      cases heq
      exact ⟨rfl, hcalls, rfl, hready, hfile, hlandings⟩
  | done hcalls =>
      cases (eq_of_getElem?_singleton hcalls hc).2

theorem Solo.merging_of_request (h : Solo s) (hrequest : s.topologyRequest ≠ none) :
    ∃ rest, s.calls = [⟨.topology true, rest⟩] ∧ s.ready = false ∧ s.OneFile ∧
      s.data.landings ≠ [] := by
  cases h with
  | idle _ h => exact absurd h.request hrequest
  | reading _ h => exact absurd h.request hrequest
  | merging hcalls hready hfile hlandings => exact ⟨_, hcalls, hready, hfile, hlandings⟩
  | done _ h => exact absurd h hrequest

/-- An attempt that has pushed nothing leaves the next one a fresh module. -/
theorem Fresh.next (h : Fresh s) {call : Call} (hcalls : s.calls = [call]) (rest : List String) :
    Solo (s.setCall 0 (nextFile rest)) := by
  have hset := setCall_singleton hcalls (nextFile rest)
  cases rest with
  | nil => exact .done hset h.request
  | cons _ rest =>
      exact .reading hset ⟨h.landings, h.hubs, h.grid, h.files, h.ready, h.loaded, h.request⟩

end Phases

omit [Field K] [LinearOrder K] [FloorRing K] in
theorem Solo.onBody {body : Option (List (Option (Feature K)))} (h : Solo s)
    (hclean : s.Clean (.body c body)) (hstep : s.onBody c body = some s') :
    Solo s' ∧ s.Undisturbed (.body c body) := by
  rw [HubModule.onBody] at hstep
  split at hstep
  · rename_i rest hc
    obtain ⟨rfl, hcalls, hfresh⟩ := h.fresh_of_file hc
    cases body with
    | none =>
        obtain rfl := Option.some.inj hstep
        exact ⟨hfresh.next hcalls rest, trivial⟩
    | some features =>
        refine ⟨?_, fun hready ↦ absurd hready (by simp [hfresh.ready])⟩
        rw [Clean] at hclean
        dsimp only at hstep
        split at hstep
        · rename_i hwhole
          obtain rfl := Option.some.inj hstep
          rw [if_pos hwhole] at hclean
          have hown : (s.pushPoints (readFeatures features).1).topologyLoaded = false :=
            hfresh.loaded
          rw [startTopology, hown, hfresh.loaded]
          refine .merging (setCall_singleton hcalls ⟨.topology true, rest⟩) hfresh.ready ?_ ?_
          · refine ⟨(readFeatures features).1, List.mem_append_right _ (List.mem_singleton_self _),
              ?_, ?_, hfresh.grid⟩
            · change s.data.landings ++ _ = _
              rw [hfresh.landings, List.nil_append]
            · change s.data.hubs ++ _ = _
              rw [hfresh.hubs, List.nil_append]
          · exact List.append_ne_nil_of_right_ne_nil _ hclean
        · rename_i hwhole
          obtain rfl := Option.some.inj hstep
          rw [if_neg hwhole] at hclean
          have hsame : s.pushPoints (readFeatures features).1 = s := by
            simp [pushPoints, hclean]
          rw [hsame]
          exact hfresh.next hcalls rest
  · cases hstep

theorem Solo.resume (h : Solo s) (hstep : s.resume c = some s') :
    Solo s' ∧ s.Undisturbed (.resume c) := by
  rw [HubModule.resume] at hstep
  split at hstep
  · rename_i own rest hc
    obtain ⟨rfl, hcalls, rfl, hready, hfile, hlandings⟩ := h.merging_of_topology hc
    have hundisturbed : s.Undisturbed (.resume 0) := by
      refine ⟨fun hr ↦ absurd hr (by simp [hready]), fun _ _ ↦ hfile⟩
    refine ⟨?_, hundisturbed⟩
    split at hstep
    · cases hstep
    · rename_i hrequest
      have hend : (!(mergeTopology s.data).landings.isEmpty) = true := by
        change (!s.data.landings.isEmpty) = true
        simp [hlandings]
      dsimp only at hstep
      rw [hend, if_pos rfl] at hstep
      obtain rfl := Option.some.inj hstep
      refine .done (setCall_singleton hcalls ⟨.done, []⟩) ?_
      change s.topologyRequest = none
      simpa using hrequest
  · cases hstep

theorem Solo.step {a : Action K} (h : Solo s) (hclean : s.Clean a)
    (hstep : s.step a = some s') : Solo s' ∧ s.Undisturbed a := by
  cases a with
  | loadHubs =>
      refine ⟨?_, trivial⟩
      obtain rfl := Option.some.inj hstep
      have hnone : s.calls = [] := hclean
      cases h with
      | idle hcalls h =>
          rw [start, h.ready, hcalls]
          exact .reading rfl ⟨h.landings, h.hubs, h.grid, h.files, rfl, h.loaded, h.request⟩
      | reading hcalls => cases hnone.symm.trans hcalls
      | merging hcalls => cases hnone.symm.trans hcalls
      | done hcalls => cases hnone.symm.trans hcalls
  | answer c ok =>
      refine ⟨?_, trivial⟩
      rw [HubModule.step, onAnswer] at hstep
      split at hstep
      · rename_i rest hc
        obtain ⟨rfl, hcalls, hfresh⟩ := h.fresh_of_file hc
        obtain rfl := Option.some.inj hstep
        cases ok with
        | true =>
            exact .reading (setCall_singleton hcalls ⟨.file .json, rest⟩) ⟨hfresh.landings,
              hfresh.hubs, hfresh.grid, hfresh.files, hfresh.ready, hfresh.loaded, hfresh.request⟩
        | false => exact hfresh.next hcalls rest
      · cases hstep
  | body c body => exact h.onBody hclean hstep
  | loadTopology => cases hclean
  | topologyAnswer ok =>
      refine ⟨?_, trivial⟩
      obtain ⟨hfetch, rfl⟩ := onTopologyAnswer_spec hstep
      obtain ⟨rest, hcalls, hready, hfile, hlandings⟩ := h.merging_of_request (by simp [hfetch])
      exact .merging hcalls hready hfile hlandings
  | topologyBody body =>
      obtain ⟨hjson, rfl⟩ := onTopologyBody_spec hstep
      obtain ⟨rest, hcalls, hready, hfile, hlandings⟩ := h.merging_of_request (by simp [hjson])
      refine ⟨.merging hcalls hready hfile hlandings, ?_⟩
      cases body with
      | none => trivial
      | some topo => exact fun hr ↦ absurd hr (by simp [hready])
  | resume c => exact h.resume hstep

/-- A call that is alone, and whose failed attempts have pushed nothing, is undisturbed. -/
theorem undisturbed_of_clean {as : List (Action K)}
    (h : Machine.Along HubModule.step Clean init as) :
    Machine.Along HubModule.step
      (fun s a ↦ ∀ s', HubModule.step s a = some s' → s.Undisturbed a) init as := by
  have hrun : ∀ s : HubModule K, Solo s → Machine.Along HubModule.step Clean s as →
      Machine.Along HubModule.step
        (fun s a ↦ ∀ s', HubModule.step s a = some s' → s.Undisturbed a) s as := by
    clear h
    induction as with
    | nil => exact fun _ _ _ ↦ trivial
    | cons a as ih =>
        rintro s hs ⟨hclean, hrest⟩
        refine ⟨fun s' hstep ↦ (hs.step hclean hstep).2, fun s' hstep ↦ ?_⟩
        exact ih s' (hs.step hclean hstep).1 (hrest s' hstep)
  exact hrun init (.idle rfl ⟨rfl, rfl, rfl, rfl, rfl, rfl, rfl⟩) h

end Solo

/-! ## Whole loads -/

theorem wholeLoad_of_along {as : List (Action K)} {s : HubModule K}
    (h : Machine.Along step (fun s a ↦ ∀ s', step s a = some s' → s'.ready = true → s'.WholeLoad)
      init as) (hrun : Machine.run step init as = some s) (hready : s.ready = true) :
    s.WholeLoad := by
  have hinit : (init : HubModule K).ready = true → (init : HubModule K).WholeLoad :=
    fun hready ↦ absurd hready Bool.false_ne_true
  exact Machine.run_invariant_along (I := fun s ↦ s.ready = true → s.WholeLoad)
    (fun _ _ s' _ hP hstep ↦ hP s' hstep) hinit h hrun hready

/-- In every state that a run reaches with the hubs ready they are those of one load if and
only if every step is undisturbed.  A call that is alone, and whose failed attempts have
pushed nothing, is, and leaves what `loadHubs` makes of one file. -/
theorem wholeLoads_iff (as : List (Action K)) :
    (Machine.Along step (fun s a ↦ ∀ s', step s a = some s' → s'.ready = true → s'.WholeLoad)
        init as ↔
      Machine.Along step (fun s a ↦ ∀ s', step s a = some s' → s.Undisturbed a) init as) ∧
    (Machine.Along step Clean init as → ∀ s, Machine.run step init as = some s →
      s.ready = true →
        ∃ points ∈ s.files, s.data = Web.loadHubs points.1 points.2 s.data.topo) := by
  have hiff : Machine.Along step
        (fun s a ↦ ∀ s', step s a = some s' → s'.ready = true → s'.WholeLoad) init as ↔
      Machine.Along step (fun s a ↦ ∀ s', step s a = some s' → s.Undisturbed a) init as := by
    apply Machine.along_congr_of_keeps (I := fun s ↦ Orderly s ∧ (s.ready = true → s.WholeLoad))
    · rintro s a s' ⟨h, hwhole⟩ hP hstep
      exact ⟨h.step hstep, hP s' hstep⟩
    · rintro s a ⟨h, hwhole⟩
      exact forall₂_congr fun s' hstep ↦ wholeLoad_step_iff h hwhole hstep
    · exact ⟨orderly_init, fun hready ↦ absurd hready Bool.false_ne_true⟩
  refine ⟨hiff, fun hclean s hrun hready ↦ ?_⟩
  obtain ⟨points, hpoints, hload, -⟩ :=
    wholeLoad_of_along (hiff.mpr (undisturbed_of_clean hclean)) hrun hready
  exact ⟨points, hpoints, hload⟩

/-! ## Two calls at once -/

section Twice

def landing : Feature ℚ := ⟨some [0, 0], some "landing"⟩

/-- Both calls of an effect that runs twice have read the file. -/
def twice : List (Action ℚ) :=
  [.loadHubs, .loadHubs, .answer 0 true, .answer 1 true, .body 0 (some [some landing]),
    .body 1 (some [some landing]), .topologyAnswer false]

theorem run_twice : ∃ s, Machine.run step init twice = some s ∧
    s.files = [([(0, 0)], []), ([(0, 0)], [])] ∧ s.data.landings = [(0, 0), (0, 0)] ∧
    ∃ s', step s (.resume 0) = some s' :=
  ⟨_, rfl, rfl, rfl, _, rfl⟩

theorem landings_twice : ¬ Machine.Along step
    (fun s a ↦ ∀ s', step s a = some s' → s'.ready = true → s'.WholeLoad) init
    (twice ++ [.resume 0]) := by
  intro h
  obtain ⟨s, hrun, hfiles, hlandings, s', hstep⟩ := run_twice
  have hlast := ((Machine.along_append.mp h).2 s hrun).1 s' hstep
  obtain ⟨call, rfl⟩ := resume_spec hstep
  have hready : (!s.data.landings.isEmpty) = true := by
    rw [hlandings]
    rfl
  obtain ⟨points, hpoints, hload, -⟩ := hlast hready
  have hown : s.data.landings = points.1 := congrArg HubData.landings hload
  change points ∈ s.files at hpoints
  rw [hfiles] at hpoints
  rcases List.mem_pair.mp hpoints with rfl | rfl
  · rw [hlandings] at hown
    exact absurd (congrArg List.length hown) (by decide)
  · rw [hlandings] at hown
    exact absurd (congrArg List.length hown) (by decide)

end Twice

end HubModule

end TrafficMap.Web
