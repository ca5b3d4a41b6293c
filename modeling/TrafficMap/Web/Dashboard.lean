import TrafficMap.Lib.Tally
import TrafficMap.Web.Pushes
import TrafficMap.Web.Replay
import Mathlib.Algebra.Order.BigOperators.Group.List

/-!
# The dashboard

`SniffnetView.tsx` reads the flow buffer as if each of its entries were a flow:
the bytes of each protocol and the alerts.  What it counts of a flow that was
pushed with clones.
-/

namespace TrafficMap.Web

abbrev BIG : ℚ := 5000000

/-! ## What is shown -/

/-- The bytes of each protocol, for the donut. -/
def protoBytes (flows : List LiveFlow) : Tally.Map ProtoKey ℚ :=
  flows.foldl (fun m f ↦ Tally.upsert f.proto 0 (fun n ↦ n + f.flow.octets.getD 0) m) ∅

inductive AlertKind
  | ddos
  | big
deriving DecidableEq

structure Alert where
  kind : AlertKind
  flow : LiveFlow
  born : ℚ

def alertOf (f : LiveFlow) : Option Alert :=
  if f.ddos then some ⟨.ddos, f, f.born⟩
  else if BIG ≤ f.flow.octets.getD 0 then some ⟨.big, f, f.born⟩
  else none

def alerts (flows : List LiveFlow) : List Alert :=
  (flows.filterMap alertOf).mergeSort fun a b ↦ decide (b.born ≤ a.born)

/-- The alerts that fit the list, newest first. -/
def notifications (flows : List LiveFlow) : List Alert := (alerts flows).take 100

def octetsOf (proto : ProtoKey) (flows : List Flow) : ℚ :=
  ((flows.filter fun f ↦ protoKey f.protocol = proto).map fun f ↦ f.octets.getD 0).sum

/-- Each flow counts once among the bytes, and raises one alert at most. -/
structure CountsOnce (flows : List Flow) (buf : List LiveFlow) : Prop where
  bytes : ∀ proto, ((protoBytes buf).lookup proto).getD 0 = octetsOf proto flows
  alerts : ((alerts buf).map fun a ↦ a.flow.flow).Subperm flows

/-! ## Entries of the buffer -/

section Entries

variable {flows : List Flow} {buf : List LiveFlow}

theorem flow_of_mem_alertOf {l : LiveFlow} {a : Alert} (h : a ∈ alertOf l) : a.flow = l := by
  rw [Option.mem_def, alertOf] at h
  split at h
  · obtain rfl := Option.some.inj h
    rfl
  · split at h
    · obtain rfl := Option.some.inj h
      rfl
    · cases h

/-- No entry raises two alerts. -/
theorem alerts_subperm (buf : List LiveFlow) :
    ((alerts buf).map fun a ↦ a.flow.flow).Subperm (buf.map LiveFlow.flow) := by
  have hsub : ((buf.filterMap alertOf).map Alert.flow).Sublist buf := by
    induction buf with
    | nil => exact List.Sublist.refl []
    | cons l buf ih =>
        cases h : alertOf l with
        | none =>
            rw [List.filterMap_cons_none h]
            exact ih.cons l
        | some a =>
            rw [List.filterMap_cons_some h, List.map_cons, flow_of_mem_alertOf h]
            exact ih.cons_cons l
  have hperm := (List.mergeSort_perm (buf.filterMap alertOf)
    fun a b ↦ decide (b.born ≤ a.born)).map fun a ↦ a.flow.flow
  refine hperm.subperm.trans ?_
  have hflow := hsub.map LiveFlow.flow
  rw [List.map_map] at hflow
  exact hflow.subperm

theorem CountsOnce.notifications (h : CountsOnce flows buf) :
    ((notifications buf).map fun a ↦ a.flow.flow).Subperm flows :=
  ((List.take_sublist 100 (Web.alerts buf)).map _).subperm.trans h.alerts

theorem protoBytes_eq (buf : List LiveFlow) (proto : ProtoKey) :
    ((protoBytes buf).lookup proto).getD 0 =
      ((buf.filter fun l ↦ l.proto = proto).map fun l ↦ l.flow.octets.getD 0).sum := by
  have hcounts : Tally.Counts id (protoBytes buf)
      ([] ++ buf.map fun l ↦ (l.proto, l.flow.octets.getD 0)) :=
    (Tally.counts_empty id).foldl buf LiveFlow.proto (fun l ↦ l.flow.octets.getD 0)
      (fun _ ↦ rfl) (fun _ _ ↦ rfl)
  have hlookup := hcounts proto
  rw [Option.map_id_fun, id_eq, List.nil_append] at hlookup
  rw [hlookup, Tally.total]
  split
  · rw [Option.getD_some, List.filter_map, List.map_map]
    rfl
  · rename_i hnot
    have hnil : (buf.filter fun l ↦ l.proto = proto) = [] := by
      refine List.filter_eq_nil_iff.mpr fun l hl hproto ↦ hnot ?_
      rw [List.map_map]
      exact List.mem_map.mpr ⟨l, hl, by simpa using hproto⟩
    rw [hnil]
    rfl

/-- The bytes are those of the entries' flows. -/
theorem protoBytes_of_proto (hproto : ∀ l ∈ buf, l.proto = protoKey l.flow.protocol)
    (proto : ProtoKey) :
    ((protoBytes buf).lookup proto).getD 0 = octetsOf proto (buf.map LiveFlow.flow) := by
  rw [protoBytes_eq, octetsOf, List.filter_map, List.map_map]
  have hfilter : (buf.filter fun l ↦ l.proto = proto) =
      buf.filter ((fun f : Flow ↦ decide (protoKey f.protocol = proto)) ∘ LiveFlow.flow) :=
    List.filter_congr fun l hl ↦ by rw [hproto l hl]; rfl
  rw [hfilter]
  rfl

end Entries

/-! ## Copies of flows -/

section Copies

variable {flows : List Flow}

/-- The flows of the entries that the flows become. -/
def copies (flows : List Flow) : List Flow :=
  flows.flatMap fun f ↦ List.replicate (Stream.comets f.octets) f

theorem length_copies (flows : List Flow) :
    (copies flows).length = (flows.map fun f ↦ Stream.comets f.octets).sum := by
  rw [copies, List.length_flatMap]
  simp

theorem copies_append (flows flows' : List Flow) :
    copies (flows ++ flows') = copies flows ++ copies flows' :=
  List.flatMap_append

theorem copies_singleton (f : Flow) :
    copies [f] = List.replicate (Stream.comets f.octets) f := by
  rw [copies, List.flatMap_singleton]

theorem one_le_comets (octets : Option ℚ) : 1 ≤ Stream.comets octets := by
  rw [Stream.comets]
  omega

/-- Only a heavy flow has clones. -/
theorem comets_eq_one_iff (octets : Option ℚ) :
    Stream.comets octets = 1 ↔ octets.getD 0 < 3 / 2 * PARTICLE_BYTES := by
  have hfloor : ⌊octets.getD 0 / PARTICLE_BYTES + 1 / 2⌋ < 2 ↔
      octets.getD 0 < 3 / 2 * PARTICLE_BYTES := by
    rw [Int.floor_lt]
    constructor
    · intro h
      norm_num at h ⊢
      linarith
    · intro h
      norm_num at h ⊢
      linarith
  have hmax : PARTICLE_MAX = 64 := rfl
  rw [← hfloor, Stream.comets]
  omega

theorem octetsOf_copies (proto : ProtoKey) (flows : List Flow) :
    octetsOf proto (copies flows) = ((flows.filter fun f ↦ protoKey f.protocol = proto).map
      fun f ↦ (Stream.comets f.octets : ℚ) * f.octets.getD 0).sum := by
  induction flows with
  | nil => rfl
  | cons f flows ih =>
      have hcopies : copies (f :: flows) =
          List.replicate (Stream.comets f.octets) f ++ copies flows := List.flatMap_cons
      rw [hcopies, octetsOf, List.filter_append, List.map_append, List.sum_append,
        List.filter_replicate]
      by_cases hf : protoKey f.protocol = proto
      · rw [List.filter_cons_of_pos (by simpa using hf), List.map_cons, List.sum_cons, ← ih]
        simp [hf, octetsOf]
      · rw [List.filter_cons_of_neg (by simpa using hf), ← ih]
        simp [hf, octetsOf]

/-- No flow weighs less with its clones. -/
theorem octets_le (f : Flow) : f.octets.getD 0 ≤ Stream.comets f.octets * f.octets.getD 0 ∧
    (Stream.comets f.octets ≠ 1 →
      f.octets.getD 0 < Stream.comets f.octets * f.octets.getD 0) := by
  by_cases hone : Stream.comets f.octets = 1
  · rw [hone, Nat.cast_one, one_mul]
    exact ⟨le_rfl, fun hnot ↦ absurd rfl hnot⟩
  · have hheavy : 3 / 2 * PARTICLE_BYTES ≤ f.octets.getD 0 :=
      not_lt.mp fun h ↦ hone ((comets_eq_one_iff f.octets).mpr h)
    have hpos : 0 < f.octets.getD 0 := lt_of_lt_of_le (by norm_num) hheavy
    have hmany : (1 : ℚ) < Stream.comets f.octets :=
      Nat.one_lt_cast.mpr (lt_of_le_of_ne (one_le_comets f.octets) (Ne.symm hone))
    have hlt := lt_mul_of_one_lt_left hpos hmany
    exact ⟨hlt.le, fun _ ↦ hlt⟩

theorem octetsOf_copies_iff : (∀ proto, octetsOf proto (copies flows) = octetsOf proto flows) ↔
    ∀ f ∈ flows, Stream.comets f.octets = 1 := by
  constructor
  · intro h f hf
    by_contra hnot
    have hmem : f ∈ flows.filter fun g ↦ protoKey g.protocol = protoKey f.protocol :=
      List.mem_filter.mpr ⟨hf, by simp⟩
    have hlt := List.sum_lt_sum (fun g : Flow ↦ g.octets.getD 0)
      (fun g : Flow ↦ Stream.comets g.octets * g.octets.getD 0)
      (fun g (_ : g ∈ flows.filter fun g ↦ protoKey g.protocol = protoKey f.protocol) ↦
        (octets_le g).1) ⟨f, hmem, (octets_le f).2 hnot⟩
    have heq := h (protoKey f.protocol)
    rw [octetsOf_copies] at heq
    exact hlt.ne' heq
  · intro h proto
    rw [octetsOf_copies, octetsOf]
    refine congrArg List.sum (List.map_congr_left fun f hf ↦ ?_)
    rw [h f (List.mem_filter.mp hf).1, Nat.cast_one, one_mul]

theorem copies_eq_self (h : ∀ f ∈ flows, Stream.comets f.octets = 1) : copies flows = flows := by
  have hsingle : flows.flatMap (fun f ↦ List.replicate (Stream.comets f.octets) f) =
      flows.flatMap fun f ↦ [f] :=
    List.flatMap_congr fun f hf ↦ by rw [h f hf]; rfl
  rw [copies, hsingle, List.flatMap_singleton']

end Copies

/-! ## What the pushes leave -/

def displayedFlows (scene : Scene) (ps : List Push) : List Flow :=
  (ps.map Prod.snd).filter (displayed scene)

namespace Stream

section Pushes

variable {s : Stream}

theorem comet_flow (now : ℚ) (flow : Flow) (base : LiveFlow) (i : ℕ) :
    (comet now flow base i).flow = base.flow := by
  rw [comet]
  split <;> rfl

theorem comet_proto (now : ℚ) (flow : Flow) (base : LiveFlow) (i : ℕ) :
    (comet now flow base i).proto = base.proto := by
  rw [comet]
  split <;> rfl

theorem mem_flows_push {now : ℚ} {flow : Flow} {l : LiveFlow} (h : l ∈ (s.push now flow).flows) :
    l ∈ s.flows ∨ l.flow = flow ∧ l.proto = protoKey flow.protocol := by
  cases hdisplayed : displayed s.scene flow with
  | false =>
      rw [push_of_not_displayed hdisplayed] at h
      exact Or.inl h
  | true =>
      obtain ⟨base, hbase, hpush⟩ := @push_of_displayed s now flow hdisplayed
      rw [hpush] at h
      dsimp only at h
      rcases List.mem_append.mp (List.mem_of_mem_drop h) with hold | hnew
      · exact Or.inl hold
      · obtain ⟨i, -, rfl⟩ := List.mem_map.mp hnew
        exact Or.inr ⟨(comet_flow _ _ _ _).trans hbase.flow,
          (comet_proto _ _ _ _).trans hbase.proto⟩

/-- Every entry has the protocol of its flow. -/
theorem proto_of_mem_pushEach (hempty : s.flows = []) (ps : List Push) :
    ∀ l ∈ (s.pushEach ps).flows, l.proto = protoKey l.flow.protocol := by
  induction ps using List.reverseRecOn with
  | nil =>
      intro l hl
      rw [pushEach, List.foldl_nil, hempty] at hl
      cases hl
  | append_singleton ps p ih =>
      intro l hl
      rw [pushEach_concat] at hl
      rcases mem_flows_push hl with hold | ⟨hflow, hproto⟩
      · exact ih l hold
      · rw [hproto, hflow]

theorem map_flow_push {now : ℚ} {flow : Flow} (hdisplayed : displayed s.scene flow = true)
    (hroom : s.flows.length + comets flow.octets ≤ MAX_FLOWS) :
    (s.push now flow).flows.map LiveFlow.flow =
      s.flows.map LiveFlow.flow ++ List.replicate (comets flow.octets) flow := by
  obtain ⟨base, hbase, hpush⟩ := @push_of_displayed s now flow hdisplayed
  have hkeep : (s.flows ++ (List.range (comets flow.octets)).map (comet now flow base)).length -
      MAX_FLOWS = 0 := by
    rw [List.length_append, List.length_map, List.length_range]
    omega
  have hcomets : ((List.range (comets flow.octets)).map (comet now flow base)).map LiveFlow.flow =
      List.replicate (comets flow.octets) flow := by
    refine List.eq_replicate_iff.mpr ⟨by simp, fun g hg ↦ ?_⟩
    rw [List.map_map] at hg
    obtain ⟨i, -, rfl⟩ := List.mem_map.mp hg
    exact (comet_flow _ _ _ _).trans hbase.flow
  rw [hpush]
  dsimp only
  rw [hkeep, List.drop_zero, List.map_append, hcomets]

/-- While nothing is dropped the buffer has the comets of every displayed flow. -/
theorem map_flow_pushEach (hempty : s.flows = []) (ps : List Push)
    (hroom : (copies (displayedFlows s.scene ps)).length ≤ MAX_FLOWS) :
    (s.pushEach ps).flows.map LiveFlow.flow = copies (displayedFlows s.scene ps) := by
  induction ps using List.reverseRecOn with
  | nil => simp [pushEach, hempty, displayedFlows, copies]
  | append_singleton ps p ih =>
      have hsplit : displayedFlows s.scene (ps ++ [p]) =
          displayedFlows s.scene ps ++ displayedFlows s.scene [p] := by
        simp [displayedFlows]
      rw [hsplit, copies_append, List.length_append] at hroom
      have hbefore := ih (Nat.le_trans (Nat.le_add_right _ _) hroom)
      rw [hsplit, copies_append, pushEach_concat]
      cases hp : displayed s.scene p.2 with
      | false =>
          have hnone : displayedFlows s.scene [p] = [] := by simp [displayedFlows, hp]
          have hskip : displayed (s.pushEach ps).scene p.2 = false := by rw [pushEach_scene, hp]
          rw [push_of_not_displayed hskip, hbefore, hnone]
          simp [copies]
      | true =>
          have hone : displayedFlows s.scene [p] = [p.2] := by simp [displayedFlows, hp]
          have hshow : displayed (s.pushEach ps).scene p.2 = true := by rw [pushEach_scene, hp]
          rw [hone, copies_singleton] at hroom ⊢
          rw [List.length_replicate, ← hbefore, List.length_map] at hroom
          rw [map_flow_push hshow hroom, hbefore]

/-- While nothing is dropped, every flow counts once exactly if none is as heavy
as one and a half comets. -/
theorem countsOnce_iff (s : Stream) (hempty : s.flows = []) (ps : List Push)
    (hroom : ((displayedFlows s.scene ps).map fun f ↦ comets f.octets).sum ≤ MAX_FLOWS) :
    CountsOnce (displayedFlows s.scene ps) (s.pushEach ps).flows ↔
      ∀ f ∈ displayedFlows s.scene ps, f.octets.getD 0 < 3 / 2 * PARTICLE_BYTES := by
  rw [← length_copies] at hroom
  have hflows := map_flow_pushEach hempty ps hroom
  have hbytes := protoBytes_of_proto (proto_of_mem_pushEach hempty ps)
  rw [hflows] at hbytes
  simp only [← comets_eq_one_iff]
  constructor
  · intro h
    exact octetsOf_copies_iff.mp fun proto ↦ (hbytes proto).symm.trans (h.bytes proto)
  · intro h
    refine ⟨fun proto ↦ (hbytes proto).trans (octetsOf_copies_iff.mpr h proto), ?_⟩
    have hsub := alerts_subperm (s.pushEach ps).flows
    rwa [hflows, copies_eq_self h] at hsub

end Pushes

/-! ## Two flows -/

def lightFlow : Flow := { someFlow with protocol := some 17, octets := some 5999999 }

theorem light_once :
    CountsOnce [lightFlow] ((init plainScene).pushEach [(1000, lightFlow)]).flows := by
  have hshown : displayedFlows plainScene [(1000, lightFlow)] = [lightFlow] := rfl
  have honce := countsOnce_iff (init plainScene) rfl [(1000, lightFlow)] (by decide +kernel)
  rw [show (init plainScene).scene = plainScene from rfl, hshown] at honce
  refine honce.mpr fun f hf ↦ ?_
  obtain rfl := List.mem_singleton.mp hf
  decide +kernel

def heavyFlow : Flow := { someFlow with protocol := some 6, octets := some 8000000 }

theorem heavy_twice :
    displayedFlows plainScene [(1000, heavyFlow)] = [heavyFlow] ∧
      comets heavyFlow.octets ≤ MAX_FLOWS ∧
      (protoBytes ((init plainScene).pushEach [(1000, heavyFlow)]).flows).lookup .tcp =
        some 16000000 ∧
      (notifications ((init plainScene).pushEach [(1000, heavyFlow)]).flows).length = 2 ∧
      ¬ CountsOnce [heavyFlow] ((init plainScene).pushEach [(1000, heavyFlow)]).flows := by
  refine ⟨rfl, by decide +kernel, by decide +kernel, ?_, fun h ↦ ?_⟩
  · rw [notifications, alerts, List.length_take, List.length_mergeSort]
    decide +kernel
  · exact absurd (h.bytes .tcp) (by decide +kernel)

end Stream

end TrafficMap.Web
