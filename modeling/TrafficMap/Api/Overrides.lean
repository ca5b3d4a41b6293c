import TrafficMap.Json
import Mathlib.Data.Finmap

/-!
# Corrections and applications at serve time

`apply_overrides` and `apply_apps` of `crates/api`: the maps that the server
reloads from the database are laid over a flow's JSON, once for the live
channel and once for `/api/history`.
-/

namespace TrafficMap.Api

/-- A row of `ip_geo` with `corr_*`. -/
structure Correction where
  lat : ℚ
  lon : ℚ
  country : Option String
deriving DecidableEq

abbrev Overrides := Finmap fun _ : String ↦ Correction

/-- Application and category by address. -/
abbrev AppMap := Finmap fun _ : String ↦ String × Option String

/-! ## Loading -/

/-- `fetch_all(pg).await.unwrap_or_default()`. -/
def unwrapOrDefault {ρ : Type} (rows : Except String (List ρ)) : List ρ :=
  match rows with
  | .ok rows => rows
  | .error _ => []

/-- `collect` into a `HashMap`: of rows with one key the last one counts. -/
def collect {κ ρ : Type} [DecidableEq κ] (rows : List (κ × ρ)) : Finmap fun _ : κ ↦ ρ :=
  rows.foldl (fun m row ↦ m.insert row.1 row.2) ∅

abbrev Reply (κ ρ : Type) := Except String (List (κ × ρ))

def loadOverrides (rows : Reply String Correction) : Overrides := collect (unwrapOrDefault rows)

def loadApps (rows : Reply String (String × Option String)) : AppMap :=
  collect (unwrapOrDefault rows)

/-! ## Corrections -/

/-- The writes to `g`, each of which panics if `g` is neither an object nor null. -/
def correctGeo (c : Correction) (g : Json) : Option Json := do
  let g ← g.set "lat" (.number (.float c.lat))
  let g ← g.set "lon" (.number (.float c.lon))
  let g ← match c.country with
    | some country => g.set "country" (.string country)
    | none => some g
  g.set "corrected" (.bool true)

def overrideEnd (ov : Overrides) (addrKey geoKey : String) (flow : Json) : Option Json :=
  match (flow.get addrKey).bind Json.asStr with
  | none => some flow
  | some ip =>
      match ov.lookup ip, flow.get geoKey with
      | some c, some g => (correctGeo c g).bind fun g ↦ flow.set geoKey g
      | _, _ => some flow

def applyOverrides (ov : Overrides) (flow : Json) : Option Json :=
  (overrideEnd ov "src_addr" "src_geo" flow).bind (overrideEnd ov "dst_addr" "dst_geo")

/-! ## Applications -/

/-- The destination wins: the source only fills in what it has left open. -/
def stampApp (apps : AppMap) (key : String) (flow : Json) : Option Json :=
  match (flow.get key).bind Json.asStr with
  | none => some flow
  | some ip =>
      match apps.lookup ip with
      | none => some flow
      | some (app, category) =>
          if ((flow.get "app").bind Json.asStr).isSome then some flow
          else (flow.set "app" (.string app)).bind fun flow ↦
            flow.set "category" (.ofOption .string category)

def applyApps (apps : AppMap) (flow : Json) : Option Json :=
  (stampApp apps "dst_addr" flow).bind (stampApp apps "src_addr")

/-- What the bridge and the history do to each flow. -/
def serve (ov : Overrides) (apps : AppMap) (flow : Json) : Option Json :=
  (applyOverrides ov flow).bind (applyApps apps)

/-! ## Home flags -/

/-- `flow.src_geo?.is_home` with the key of the end. -/
def homeFlag (flow : Json) (geoKey : String) : Option Json :=
  (flow.get geoKey).bind fun g ↦ g.get "is_home"

def geoKeys : List String := ["src_geo", "dst_geo"]

/-- Both ends have a place, so the writes find objects. -/
def HasGeo (flow : Json) : Prop :=
  (∃ entries, flow = .object entries) ∧
    ∀ geoKey ∈ geoKeys, ∃ fields, flow.get geoKey = some (.object fields)

/-- The result of a write that leaves both flags as they are. -/
def KeepsFlags (flow : Json) (result : Option Json) : Prop :=
  ∃ w, result = some w ∧ HasGeo w ∧ ∀ geoKey ∈ geoKeys, homeFlag w geoKey = homeFlag flow geoKey

section Flags

variable {flow : Json}

theorem KeepsFlags.refl (hflow : HasGeo flow) : KeepsFlags flow (some flow) :=
  ⟨flow, rfl, hflow, fun _ _ ↦ rfl⟩

theorem KeepsFlags.bind {result : Option Json} {f : Json → Option Json}
    (h : KeepsFlags flow result) (hf : ∀ w, HasGeo w → KeepsFlags w (f w)) :
    KeepsFlags flow (result.bind f) := by
  obtain ⟨w, rfl, hw, hflags⟩ := h
  obtain ⟨w', hw', hgeo, hflags'⟩ := hf w hw
  exact ⟨w', hw', hgeo, fun k hk ↦ (hflags' k hk).trans (hflags k hk)⟩

/-- Writing a place over another with the same flag. -/
theorem keepsFlags_setGeo {geoKey : String} {fields fields' : List (String × Json)}
    (hflow : HasGeo flow) (hget : flow.get geoKey = some (.object fields))
    (hflag : fields'.lookup "is_home" = fields.lookup "is_home") :
    KeepsFlags flow (flow.set geoKey (.object fields')) := by
  obtain ⟨⟨entries, rfl⟩, hgeo⟩ := hflow
  obtain ⟨w, hw⟩ : ∃ w, (Json.object entries).set geoKey (.object fields') = some w := ⟨_, rfl⟩
  refine ⟨w, hw, ⟨⟨_, (Option.some.inj hw).symm⟩, fun k hk ↦ ?_⟩, fun k hk ↦ ?_⟩
  · rw [Json.get_set hw]
    split
    · exact ⟨_, rfl⟩
    · exact hgeo k hk
  · rw [homeFlag, homeFlag, Json.get_set hw]
    by_cases hkey : k = geoKey
    · rw [if_pos hkey, hkey, hget]
      exact hflag
    · rw [if_neg hkey]

theorem keepsFlags_setOther {key : String} (hkey : key ∉ geoKeys) (x : Json)
    (hflow : HasGeo flow) : KeepsFlags flow (flow.set key x) := by
  obtain ⟨⟨entries, rfl⟩, hgeo⟩ := hflow
  obtain ⟨w, hw⟩ : ∃ w, (Json.object entries).set key x = some w := ⟨_, rfl⟩
  have hne : ∀ k ∈ geoKeys, k ≠ key := fun k hk heq ↦ hkey (heq ▸ hk)
  refine ⟨w, hw, ⟨⟨_, (Option.some.inj hw).symm⟩, fun k hk ↦ ?_⟩, fun k hk ↦ ?_⟩
  · rw [Json.get_set hw, if_neg (hne k hk)]
    exact hgeo k hk
  · rw [homeFlag, homeFlag, Json.get_set hw, if_neg (hne k hk)]

theorem correctGeo_object (c : Correction) (fields : List (String × Json)) :
    ∃ fields', correctGeo c (.object fields) = some (.object fields') ∧
      fields'.lookup "is_home" = fields.lookup "is_home" := by
  cases hc : c.country with
  | none =>
      refine ⟨_, by rw [correctGeo, hc]; rfl, ?_⟩
      simp [Json.lookup_setField]
  | some country =>
      refine ⟨_, by rw [correctGeo, hc]; rfl, ?_⟩
      simp [Json.lookup_setField]

theorem keepsFlags_overrideEnd (ov : Overrides) (addrKey : String) {geoKey : String}
    (hkey : geoKey ∈ geoKeys) (hflow : HasGeo flow) :
    KeepsFlags flow (overrideEnd ov addrKey geoKey flow) := by
  obtain ⟨fields, hget⟩ := hflow.2 geoKey hkey
  rw [overrideEnd, hget]
  cases (flow.get addrKey).bind Json.asStr with
  | none => exact .refl hflow
  | some ip =>
      dsimp only
      cases ov.lookup ip with
      | none => exact .refl hflow
      | some c =>
          obtain ⟨fields', hcorrect, hflag⟩ := correctGeo_object c fields
          simp only [hcorrect, Option.bind_some]
          exact keepsFlags_setGeo hflow hget hflag

theorem keepsFlags_stampApp (apps : AppMap) (key : String) (hflow : HasGeo flow) :
    KeepsFlags flow (stampApp apps key flow) := by
  rw [stampApp]
  cases (flow.get key).bind Json.asStr with
  | none => exact .refl hflow
  | some ip =>
      dsimp only
      cases apps.lookup ip with
      | none => exact .refl hflow
      | some entry =>
          dsimp only
          split
          · exact .refl hflow
          · exact (keepsFlags_setOther (by decide) _ hflow).bind
              fun w hw ↦ keepsFlags_setOther (by decide) _ hw

/-- Neither map changes on which side home is. -/
theorem keepsFlags_serve (ov : Overrides) (apps : AppMap) (hflow : HasGeo flow) :
    KeepsFlags flow (serve ov apps flow) := by
  have hsrc : KeepsFlags flow (overrideEnd ov "src_addr" "src_geo" flow) :=
    keepsFlags_overrideEnd ov "src_addr" (by decide) hflow
  refine (hsrc.bind fun w hw ↦ ?_).bind fun w hw ↦ ?_
  · exact keepsFlags_overrideEnd ov "dst_addr" (by decide) hw
  · exact (keepsFlags_stampApp apps "dst_addr" hw).bind
      fun w hw ↦ keepsFlags_stampApp apps "src_addr" hw

end Flags

end TrafficMap.Api
