import TrafficMap.Api.LiveBridge

/-!
# A server over its store

The live feed with the two queries that load its maps, over a store that others
write in between.  What every load finds, and every step of the store keeps, is true
of every map that was ever in force.
-/

namespace TrafficMap.Api

/-! ## The system -/

/-- What the store answers to `load_overrides` and `load_apps`. -/
structure Queries (σ : Type) where
  overrides : σ → Reply String Correction
  apps : σ → Reply String (String × Option String)

/-- A query can fail. -/
def answer {κ ρ : Type} (ok : Bool) (reply : Reply κ ρ) : Reply κ ρ :=
  if ok then reply else .error "no reply"

structure Backed (b : Broadcast.Ops String) (σ : Type) where
  store : σ
  server : Option (Feed b)

inductive BackedAct (α : Type)
  | store (a : α)
  /-- the server comes up, for the first time or again -/
  | serve (overrides apps : Bool)
  | loadOverrides (ok : Bool)
  | loadApps (ok : Bool)
  | feed (a : FeedAct)

def FeedAct.isLoad : FeedAct → Bool
  | .loadOverrides _ | .loadApps _ => true
  | _ => false

namespace Backed

section Step

variable {b : Broadcast.Ops String} {σ α : Type} (storeStep : σ → α → Option σ)
  (queries : Queries σ) (serde : Serde) (s : Backed b σ)

def feedStep (a : FeedAct) : Option (Backed b σ) :=
  s.server.bind fun f ↦ (f.step serde a).map fun f' ↦ { s with server := some f' }

def step : BackedAct α → Option (Backed b σ)
  | .store a => (storeStep s.store a).map fun t ↦ { s with store := t }
  | .serve overrides apps => some { s with
      server := some (.init (loadOverrides (answer overrides (queries.overrides s.store)))
        (loadApps (answer apps (queries.apps s.store)))) }
  | .loadOverrides ok => s.feedStep serde (.loadOverrides (answer ok (queries.overrides s.store)))
  | .loadApps ok => s.feedStep serde (.loadApps (answer ok (queries.apps s.store)))
  | .feed a => if a.isLoad then none else s.feedStep serde a

end Step

end Backed

/-! ## What the maps have in common -/

/-- `P` of a map of corrections and `Q` of a map of applications: true of what a load
finds in a store with `I`, and kept by the steps of the store. -/
structure MapsKept {σ α : Type} (storeStep : σ → α → Option σ) (queries : Queries σ) (I : σ → Prop)
    (P : σ → Overrides → Prop) (Q : σ → AppMap → Prop) : Prop where
  store : ∀ s a t, I s → storeStep s a = some t → I t
  overrides : ∀ s a t ov, storeStep s a = some t → P s ov → P t ov
  apps : ∀ s a t apps, storeStep s a = some t → Q s apps → Q t apps
  loadOverrides : ∀ s ok, I s → P s (loadOverrides (answer ok (queries.overrides s)))
  loadApps : ∀ s ok, I s → Q s (loadApps (answer ok (queries.apps s)))

structure BackedInv {b : Broadcast.Ops String} {σ : Type} (serde : Serde) (I : σ → Prop)
    (P : σ → Overrides → Prop) (Q : σ → AppMap → Prop) (s : Backed b σ) : Prop where
  store : I s.store
  bridge : ∀ f, s.server = some f → BridgeInv serde f
  overrides : ∀ f, s.server = some f → ∀ ov ∈ f.allOverrides, P s.store ov
  apps : ∀ f, s.server = some f → ∀ apps ∈ f.allApps, Q s.store apps

/-- Only a load brings a map. -/
theorem maps_of_step {b : Broadcast.Ops String} {serde : Serde} {f f' : Feed b} {a : FeedAct}
    (h : f.step serde a = some f') :
    (∀ ov ∈ f'.allOverrides, ov ∈ f.allOverrides ∨
      ∃ rows, a = .loadOverrides rows ∧ ov = loadOverrides rows) ∧
    ∀ apps ∈ f'.allApps, apps ∈ f.allApps ∨ ∃ rows, a = .loadApps rows ∧ apps = loadApps rows := by
  cases Feed.step_outcome h with
  | loadOverrides =>
      refine ⟨fun ov hov ↦ ?_, fun _ happs ↦ Or.inl happs⟩
      exact (List.mem_append.mp hov).imp_right fun hnew ↦ ⟨_, rfl, List.mem_singleton.mp hnew⟩
  | loadApps =>
      refine ⟨fun _ hov ↦ Or.inl hov, fun apps happs ↦ ?_⟩
      exact (List.mem_append.mp happs).imp_right fun hnew ↦ ⟨_, rfl, List.mem_singleton.mp hnew⟩
  | _ => exact ⟨fun _ hov ↦ Or.inl hov, fun _ happs ↦ Or.inl happs⟩

section Invariant

variable {b : Broadcast.Ops String} {σ α : Type} {storeStep : σ → α → Option σ}
  {queries : Queries σ} {serde : Serde} {I : σ → Prop} {P : σ → Overrides → Prop}
  {Q : σ → AppMap → Prop} {s t : Backed b σ}

theorem BackedInv.feedStep (h : BackedInv serde I P Q s) {a : FeedAct}
    (hoverrides : ∀ rows, a = .loadOverrides rows → P s.store (loadOverrides rows))
    (hload : ∀ rows, a = .loadApps rows → Q s.store (loadApps rows))
    (hstep : s.feedStep serde a = some t) : BackedInv serde I P Q t := by
  obtain ⟨f, hf, hstep⟩ := Option.bind_eq_some_iff.mp hstep
  obtain ⟨f', hf', rfl⟩ := Option.map_eq_some_iff.mp hstep
  obtain ⟨hov, happs⟩ := maps_of_step hf'
  refine ⟨h.store, fun g hg ↦ ?_, fun g hg ov hmem ↦ ?_, fun g hg apps hmem ↦ ?_⟩
  · obtain rfl := Option.some.inj hg
    exact (h.bridge f hf).step hf'
  · obtain rfl := Option.some.inj hg
    rcases hov ov hmem with hold | ⟨rows, hrows, rfl⟩
    · exact h.overrides f hf ov hold
    · exact hoverrides rows hrows
  · obtain rfl := Option.some.inj hg
    rcases happs apps hmem with hold | ⟨rows, hrows, rfl⟩
    · exact h.apps f hf apps hold
    · exact hload rows hrows

theorem BackedInv.step (hkept : MapsKept storeStep queries I P Q) (h : BackedInv serde I P Q s)
    {a : BackedAct α} (hstep : s.step storeStep queries serde a = some t) :
    BackedInv serde I P Q t := by
  cases a with
  | store a =>
      obtain ⟨u, hu, rfl⟩ := Option.map_eq_some_iff.mp hstep
      exact ⟨hkept.store _ a u h.store hu, h.bridge,
        fun f hf ov hov ↦ hkept.overrides _ a u ov hu (h.overrides f hf ov hov),
        fun f hf apps happs ↦ hkept.apps _ a u apps hu (h.apps f hf apps happs)⟩
  | serve overrides apps =>
      obtain rfl := Option.some.inj hstep
      refine ⟨h.store, fun f hf ↦ ?_, fun f hf ov hov ↦ ?_, fun f hf apps happs ↦ ?_⟩
      · obtain rfl := Option.some.inj hf
        exact .init _ _
      · obtain rfl := Option.some.inj hf
        obtain rfl := List.mem_singleton.mp hov
        exact hkept.loadOverrides _ _ h.store
      · obtain rfl := Option.some.inj hf
        obtain rfl := List.mem_singleton.mp happs
        exact hkept.loadApps _ _ h.store
  | loadOverrides ok =>
      refine h.feedStep (fun rows hrows ↦ ?_) (fun rows hrows ↦ by cases hrows) hstep
      obtain rfl := FeedAct.loadOverrides.inj hrows
      exact hkept.loadOverrides _ ok h.store
  | loadApps ok =>
      refine h.feedStep (fun rows hrows ↦ by cases hrows) (fun rows hrows ↦ ?_) hstep
      obtain rfl := FeedAct.loadApps.inj hrows
      exact hkept.loadApps _ ok h.store
  | feed a =>
      obtain ⟨hload, hstep⟩ := Option.ite_none_left_eq_some.mp hstep
      refine h.feedStep (fun rows hrows ↦ ?_) (fun rows hrows ↦ ?_) hstep
      · exact absurd (hrows ▸ rfl) hload
      · exact absurd (hrows ▸ rfl) hload

theorem BackedInv.run (hkept : MapsKept storeStep queries I P Q) {store : σ} (hstore : I store)
    {acts : List (BackedAct α)}
    (hrun : Machine.run (Backed.step storeStep queries serde) ⟨store, none⟩ acts = some s) :
    BackedInv serde I P Q s := by
  have hinit : BackedInv serde I P Q (⟨store, none⟩ : Backed b σ) :=
    ⟨hstore, nofun, nofun, nofun⟩
  exact Machine.run_invariant (fun _ _ _ h hstep ↦ BackedInv.step hkept h hstep) hinit hrun

/-! ## Runs of one part -/

theorem run_store {store store' : σ} {server : Option (Feed b)} {acts : List α}
    (h : Machine.run storeStep store acts = some store') :
    Machine.run (Backed.step storeStep queries serde) ⟨store, server⟩ (acts.map .store) =
      some ⟨store', server⟩ := by
  have hlift : ∀ a ∈ acts, ∀ s t, storeStep s a = some t →
      Backed.step storeStep queries serde ⟨s, server⟩ (.store a) = some ⟨t, server⟩ := by
    intro a _ s t hstep
    rw [Backed.step, hstep]
    rfl
  exact Machine.run_lift hlift h

theorem run_feed {store : σ} {f f' : Feed b} {acts : List FeedAct}
    (hacts : ∀ a ∈ acts, a.isLoad = false) (h : Machine.run (Feed.step serde) f acts = some f') :
    Machine.run (Backed.step storeStep queries serde) ⟨store, some f⟩ (acts.map .feed) =
      some ⟨store, some f'⟩ := by
  have hlift : ∀ a ∈ acts, ∀ f g : Feed b, f.step serde a = some g →
      Backed.step storeStep queries serde ⟨store, some f⟩ (.feed a) = some ⟨store, some g⟩ := by
    intro a ha f g hstep
    rw [Backed.step, if_neg (by rw [hacts a ha]; decide), Backed.feedStep, Option.bind_some, hstep]
    rfl
  exact Machine.run_lift (f := fun f ↦ Backed.mk store (some f)) hlift h

end Invariant

end TrafficMap.Api
