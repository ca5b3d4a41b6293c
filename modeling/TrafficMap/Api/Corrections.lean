import TrafficMap.Api.Overrides

/-!
# What a correction changes

`apply_overrides` of `crates/api`: each endpoint with a correction gets its
coordinates, and its country if it has one.
-/

namespace TrafficMap

namespace Json

/-- A value that `v[key] = x` can write to. -/
def HasKeys (v : Json) : Prop := v = null ∨ ∃ fields, v = object fields

theorem set_isSome_iff {v : Json} {key : String} {x : Json} :
    (v.set key x).isSome ↔ v.HasKeys := by
  cases v with
  | null => simp [set, HasKeys]
  | object fields => simp [set, HasKeys]
  | bool b => simp [set, HasKeys]
  | number n => simp [set, HasKeys]
  | string s => simp [set, HasKeys]
  | array items => simp [set, HasKeys]

theorem setField_self {key : String} {x : Json} {fields : List (String × Json)}
    (h : fields.lookup key = some x) : setField key x fields = fields := by
  induction fields with
  | nil => cases h
  | cons p fields ih =>
      obtain ⟨k, y⟩ := p
      rw [setField]
      rw [List.lookup_cons] at h
      by_cases hk : k = key
      · subst hk
        rw [beq_self_eq_true] at h
        rw [if_pos rfl, Option.some.inj h]
      · rw [beq_false_of_ne (Ne.symm hk)] at h
        rw [if_neg hk, ih h]

/-- Writing what is there already. -/
theorem set_self {v : Json} {key : String} {x : Json} (h : v.get key = some x) :
    v.set key x = some v := by
  cases v with
  | object fields => exact congrArg (some ∘ object) (setField_self h)
  | null => cases h
  | bool b => cases h
  | number n => cases h
  | string s => cases h
  | array items => cases h

theorem set_object {fields : List (String × Json)} {key : String} {x w : Json}
    (h : (object fields).set key x = some w) : ∃ fields', w = object fields' :=
  ⟨_, (Option.some.inj h).symm⟩

end Json

namespace Api

/-! ## One place -/

def placeKeys : List String := ["lat", "lon", "country", "corrected"]

/-- `g'` is `g` under the correction: a correction without country leaves that
of the place. -/
structure Corrected (c : Correction) (g g' : Json) : Prop where
  lat : g'.get "lat" = some (.number (.float c.lat))
  lon : g'.get "lon" = some (.number (.float c.lon))
  country : g'.get "country" = (c.country.map Json.string).or (g.get "country")
  corrected : g'.get "corrected" = some (.bool true)
  others : ∀ k ∉ placeKeys, g'.get k = g.get k

def setCountry (country : Option String) (g : Json) : Option Json :=
  match country with
  | some country => g.set "country" (.string country)
  | none => some g

section Place

variable {c : Correction} {g g' : Json}

theorem correctGeo_eq (c : Correction) (g : Json) : correctGeo c g =
    (g.set "lat" (.number (.float c.lat))).bind fun g ↦
      (g.set "lon" (.number (.float c.lon))).bind fun g ↦
        (setCountry c.country g).bind fun g ↦ g.set "corrected" (.bool true) := by
  rw [correctGeo]
  cases c.country with
  | none => rfl
  | some country => rfl

theorem get_setCountry {country : Option String} (h : setCountry country g = some g') (k : String) :
    g'.get k =
      if k = "country" then (country.map Json.string).or (g.get "country") else g.get k := by
  cases country with
  | none =>
      obtain rfl := Option.some.inj h
      split
      · rename_i hk
        rw [hk]
        rfl
      · rfl
  | some country => exact Json.get_set h k

theorem correctGeo_spec (h : correctGeo c g = some g') : Corrected c g g' := by
  rw [correctGeo_eq] at h
  obtain ⟨g₁, hlat, h⟩ := Option.bind_eq_some_iff.mp h
  obtain ⟨g₂, hlon, h⟩ := Option.bind_eq_some_iff.mp h
  obtain ⟨g₃, hcountry, hcorrected⟩ := Option.bind_eq_some_iff.mp h
  have hg' : ∀ k, g'.get k = if k = "corrected" then some (.bool true) else if k = "country" then
      (c.country.map Json.string).or (g.get "country") else if k = "lon" then
        some (.number (.float c.lon)) else if k = "lat" then some (.number (.float c.lat))
          else g.get k := by
    intro k
    rw [Json.get_set hcorrected, get_setCountry hcountry, Json.get_set hlon k,
      Json.get_set hlon "country", Json.get_set hlat k, Json.get_set hlat "country"]
    rfl
  refine ⟨hg' _, hg' _, hg' _, hg' _, fun k hk ↦ ?_⟩
  simp only [placeKeys, List.mem_cons, List.not_mem_nil, or_false, not_or] at hk
  rw [hg', if_neg hk.2.2.2, if_neg hk.2.2.1, if_neg hk.2.1, if_neg hk.1]

/-- The writes fail on a value without keys only, at the first of them. -/
theorem correctGeo_isSome_iff : (correctGeo c g).isSome ↔ g.HasKeys := by
  constructor
  · intro h
    obtain ⟨g', hg'⟩ := Option.isSome_iff_exists.mp h
    rw [correctGeo_eq] at hg'
    obtain ⟨g₁, hlat, -⟩ := Option.bind_eq_some_iff.mp hg'
    exact Json.set_isSome_iff.mp (Option.isSome_iff_exists.mpr ⟨g₁, hlat⟩)
  · rintro (rfl | ⟨fields, rfl⟩)
    · rw [correctGeo_eq]
      cases c.country with
      | none => rfl
      | some country => rfl
    · rw [correctGeo_eq]
      cases c.country with
      | none => rfl
      | some country => rfl

/-- A place under the correction stays as it is. -/
theorem Corrected.correctGeo_self (h : Corrected c g g') : correctGeo c g' = some g' := by
  have hcountry : setCountry c.country g' = some g' := by
    cases hc : c.country with
    | none => rfl
    | some country =>
        apply Json.set_self
        rw [h.country, hc]
        rfl
  rw [correctGeo_eq, Json.set_self h.lat, Option.bind_some, Json.set_self h.lon, Option.bind_some,
    hcountry, Option.bind_some, Json.set_self h.corrected]

end Place

/-! ## One endpoint -/

/-- The keys of an endpoint's address and of its place. -/
def ends : List (String × String) := [("src_addr", "src_geo"), ("dst_addr", "dst_geo")]

theorem forall_ends {P : String × String → Prop} :
    (∀ e ∈ ends, P e) ↔ P ("src_addr", "src_geo") ∧ P ("dst_addr", "dst_geo") := by
  simp [ends]

def correctionOf (ov : Overrides) (flow : Json) (addrKey : String) : Option Correction :=
  ((flow.get addrKey).bind Json.asStr).bind ov.lookup

/-- What the endpoint's place is to be, where there is one. -/
def EndCorrected (ov : Overrides) (addrKey geoKey : String) (flow w : Json) : Prop :=
  match correctionOf ov flow addrKey, flow.get geoKey with
  | some c, some g => ∃ g', w.get geoKey = some g' ∧ Corrected c g g'
  | _, _ => w.get geoKey = flow.get geoKey

/-- The endpoint's correction can be written. -/
def EndWritable (ov : Overrides) (addrKey geoKey : String) (flow : Json) : Prop :=
  ∀ c g, correctionOf ov flow addrKey = some c → flow.get geoKey = some g → g.HasKeys

section End

variable {ov : Overrides} {addrKey geoKey : String} {flow w : Json}

theorem overrideEnd_eq (ov : Overrides) (addrKey geoKey : String) (flow : Json) :
    overrideEnd ov addrKey geoKey flow =
      match correctionOf ov flow addrKey, flow.get geoKey with
      | some c, some g => (correctGeo c g).bind fun g ↦ flow.set geoKey g
      | _, _ => some flow := by
  rw [overrideEnd, correctionOf]
  cases (flow.get addrKey).bind Json.asStr with
  | none => rfl
  | some ip => rfl

theorem overrideEnd_spec (h : overrideEnd ov addrKey geoKey flow = some w) :
    EndCorrected ov addrKey geoKey flow w ∧ ∀ k ≠ geoKey, w.get k = flow.get k := by
  rw [overrideEnd_eq] at h
  rw [EndCorrected]
  split at h
  · rename_i c g hc hg
    obtain ⟨g', hcorrect, hset⟩ := Option.bind_eq_some_iff.mp h
    refine ⟨⟨g', ?_, correctGeo_spec hcorrect⟩, fun k hk ↦ ?_⟩
    · rw [Json.get_set hset, if_pos rfl]
    · rw [Json.get_set hset, if_neg hk]
  · obtain rfl := Option.some.inj h
    exact ⟨rfl, fun _ _ ↦ rfl⟩

theorem overrideEnd_object {entries : List (String × Json)}
    (h : overrideEnd ov addrKey geoKey (.object entries) = some w) :
    ∃ entries', w = .object entries' := by
  rw [overrideEnd_eq] at h
  split at h
  · obtain ⟨g', -, hset⟩ := Option.bind_eq_some_iff.mp h
    exact Json.set_object hset
  · exact ⟨entries, (Option.some.inj h).symm⟩

theorem overrideEnd_isSome_iff {entries : List (String × Json)} :
    (overrideEnd ov addrKey geoKey (.object entries)).isSome ↔
      EndWritable ov addrKey geoKey (.object entries) := by
  have hset : ∀ g, ((Json.object entries).set geoKey g).isSome :=
    fun g ↦ Json.set_isSome_iff.mpr (Or.inr ⟨entries, rfl⟩)
  rw [overrideEnd_eq, EndWritable]
  split
  · rename_i c g hc hg
    constructor
    · intro h c' g' hc' hg'
      obtain rfl := Option.some.inj (hc.symm.trans hc')
      obtain rfl := Option.some.inj (hg.symm.trans hg')
      obtain ⟨w, hw⟩ := Option.isSome_iff_exists.mp h
      obtain ⟨g', hcorrect, -⟩ := Option.bind_eq_some_iff.mp hw
      exact correctGeo_isSome_iff.mp (Option.isSome_iff_exists.mpr ⟨g', hcorrect⟩)
    · intro h
      obtain ⟨g', hcorrect⟩ := Option.isSome_iff_exists.mp
        (correctGeo_isSome_iff.mpr (h c g hc hg))
      rw [hcorrect]
      exact hset g'
  · rename_i hnone
    exact iff_of_true rfl fun c g hc hg ↦ absurd hg (hnone c g hc)

/-- An endpoint that is corrected stays as it is. -/
theorem overrideEnd_self (h : EndCorrected ov addrKey geoKey flow w)
    (hc : correctionOf ov w addrKey = correctionOf ov flow addrKey) :
    overrideEnd ov addrKey geoKey w = some w := by
  rw [EndCorrected] at h
  rw [overrideEnd_eq, hc]
  split at h
  · rename_i c g hcorrection hg
    obtain ⟨g', hg', hcorrected⟩ := h
    rw [hcorrection, hg']
    exact (congrArg (Option.bind · _) hcorrected.correctGeo_self).trans (Json.set_self hg')
  · rename_i hnone
    rw [h]
    split
    · rename_i c g hcorrection hg
      exact absurd hg (hnone c g hcorrection)
    · rfl

end End

/-! ## Both endpoints -/

/-- Every endpoint is corrected, and nothing else changes. -/
structure Applied (ov : Overrides) (flow w : Json) : Prop where
  corrected : ∀ e ∈ ends, EndCorrected ov e.1 e.2 flow w
  others : ∀ k ∉ geoKeys, w.get k = flow.get k

section Both

variable {ov : Overrides} {flow w : Json}

theorem correctionOf_congr {addrKey : String} (h : w.get addrKey = flow.get addrKey) :
    correctionOf ov w addrKey = correctionOf ov flow addrKey := by
  rw [correctionOf, correctionOf, h]

theorem EndCorrected.congr {addrKey geoKey : String} {flow' w' : Json}
    (h : EndCorrected ov addrKey geoKey flow w) (haddr : flow'.get addrKey = flow.get addrKey)
    (hgeo : flow'.get geoKey = flow.get geoKey) (hw : w'.get geoKey = w.get geoKey) :
    EndCorrected ov addrKey geoKey flow' w' := by
  rw [EndCorrected, correctionOf_congr haddr, hgeo, hw]
  exact h

theorem applyOverrides_spec (h : applyOverrides ov flow = some w) :
    Applied ov flow w ∧ applyOverrides ov w = some w := by
  obtain ⟨v, hsrc, hdst⟩ := Option.bind_eq_some_iff.mp h
  obtain ⟨hv, hframe⟩ := overrideEnd_spec hsrc
  obtain ⟨hw, hframe'⟩ := overrideEnd_spec hdst
  have hkeep : ∀ k ∉ geoKeys, w.get k = flow.get k := by
    intro k hk
    rw [geoKeys, List.mem_pair, not_or] at hk
    exact (hframe' k hk.2).trans (hframe k hk.1)
  -- neither end writes what the other reads
  have hsrcEnd : EndCorrected ov "src_addr" "src_geo" flow w :=
    hv.congr rfl rfl (hframe' _ (by decide))
  have hdstEnd : EndCorrected ov "dst_addr" "dst_geo" flow w :=
    hw.congr (hframe _ (by decide)).symm (hframe _ (by decide)).symm rfl
  refine ⟨⟨forall_ends.mpr ⟨hsrcEnd, hdstEnd⟩, hkeep⟩, ?_⟩
  rw [applyOverrides,
    overrideEnd_self hsrcEnd (correctionOf_congr (hkeep "src_addr" (by decide))), Option.bind_some,
    overrideEnd_self hdstEnd (correctionOf_congr (hkeep "dst_addr" (by decide)))]

theorem applyOverrides_isSome_iff {entries : List (String × Json)} :
    (applyOverrides ov (.object entries)).isSome ↔
      ∀ e ∈ ends, EndWritable ov e.1 e.2 (.object entries) := by
  have hcongr : ∀ v, overrideEnd ov "src_addr" "src_geo" (.object entries) = some v →
      ((overrideEnd ov "dst_addr" "dst_geo" v).isSome ↔
        EndWritable ov "dst_addr" "dst_geo" (.object entries)) := by
    intro v hv
    obtain ⟨-, hframe⟩ := overrideEnd_spec hv
    obtain ⟨entries', rfl⟩ := overrideEnd_object hv
    rw [overrideEnd_isSome_iff, EndWritable, correctionOf_congr (hframe "dst_addr" (by decide)),
      hframe "dst_geo" (by decide)]
    rfl
  rw [forall_ends, ← overrideEnd_isSome_iff, applyOverrides]
  cases hv : overrideEnd ov "src_addr" "src_geo" (.object entries) with
  | none => simp
  | some v => simpa using hcongr v hv

/-- Corrections are applied whole where there is a place to correct: a missing
place stays missing, and a correction without country leaves that of the place. -/
theorem applyOverrides_applied (ov : Overrides) (entries : List (String × Json)) :
    ((applyOverrides ov (.object entries)).isSome ↔
      ∀ e ∈ ends, EndWritable ov e.1 e.2 (.object entries)) ∧
    ∀ w, applyOverrides ov (.object entries) = some w →
      Applied ov (.object entries) w ∧ applyOverrides ov w = some w := by
  exact ⟨applyOverrides_isSome_iff, fun w ↦ applyOverrides_spec⟩

end Both

/-! ## A correction without country -/

/-- The place is the correction's as a whole. -/
def Carries (c : Correction) (g : Json) : Prop :=
  g.get "lat" = some (.number (.float c.lat)) ∧ g.get "lon" = some (.number (.float c.lon)) ∧
    (g.get "country").bind Json.asStr = c.country

def homeAnchored : Overrides := Finmap.singleton "192.0.2.1" ⟨52, 13, none⟩

def located : List (String × Json) :=
  [("src_addr", .string "192.0.2.1"),
    ("src_geo", .object [("lat", .number (.float 37)), ("lon", .number (.float (-122))),
      ("country", .string "US")])]

def relocated : Json :=
  .object [("src_addr", .string "192.0.2.1"),
    ("src_geo", .object [("lat", .number (.float 52)), ("lon", .number (.float 13)),
      ("country", .string "US"), ("corrected", .bool true)])]

theorem applied_relocated : Applied homeAnchored (.object located) relocated ∧
    applyOverrides homeAnchored relocated = some relocated :=
  (applyOverrides_applied homeAnchored located).2 relocated rfl

theorem country_stays : ¬ ∀ (ov : Overrides) (entries : List (String × Json)) (w : Json),
    applyOverrides ov (.object entries) = some w → ∀ e ∈ ends, ∀ c,
      correctionOf ov (.object entries) e.1 = some c → ∃ g, w.get e.2 = some g ∧ Carries c g := by
  intro h
  have hmoved : applyOverrides homeAnchored (.object located) = some relocated := rfl
  obtain ⟨g, hg, -, -, hcountry⟩ :=
    h _ _ _ hmoved ("src_addr", "src_geo") (by decide) ⟨52, 13, none⟩ rfl
  obtain rfl := Option.some.inj hg
  cases hcountry

end Api

end TrafficMap
