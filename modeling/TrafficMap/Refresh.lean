import TrafficMap.Api.Overrides
import TrafficMap.Lib.Machine
import TrafficMap.SniSniff.Classify

/-!
# Reloading the maps

The server keeps the corrections and the applications, the sniffer its rules,
in maps that are loaded at the start and again at each tick.  A query that fails
counts as one without rows, so the map it should refresh is emptied.
-/

namespace TrafficMap

open Api SniSniff Wire

def loadRules (rows : Reply Bytes AppRule) : RuleMap := collect (unwrapOrDefault rows)

/-! ## The maps in force -/

@[ext] structure Maps where
  overrides : Overrides
  apps : AppMap
  rules : RuleMap

/-- One of the three tasks comes to load its map; the first load of each is the
one at the start. -/
inductive Load
  | overrides (rows : Reply String Correction)
  | apps (rows : Reply String (String × Option String))
  | rules (rows : Reply Bytes AppRule)

def Maps.refresh (m : Maps) : Load → Maps
  | .overrides rows => { m with overrides := loadOverrides rows }
  | .apps rows => { m with apps := loadApps rows }
  | .rules rows => { m with rules := loadRules rows }

def inForce (loads : List Load) : Maps := loads.foldl Maps.refresh ⟨∅, ∅, ∅⟩

/-! ## The last good data -/

namespace Load

def goodOverrides : Load → Option Overrides
  | .overrides (.ok rows) => some (collect rows)
  | _ => none

def goodApps : Load → Option AppMap
  | .apps (.ok rows) => some (collect rows)
  | _ => none

def goodRules : Load → Option RuleMap
  | .rules (.ok rows) => some (collect rows)
  | _ => none

end Load

/-- Of each map the result of the latest load that succeeded. -/
def lastGood (loads : List Load) : Maps where
  overrides := (loads.filterMap Load.goodOverrides).getLast?.getD ∅
  apps := (loads.filterMap Load.goodApps).getLast?.getD ∅
  rules := (loads.filterMap Load.goodRules).getLast?.getD ∅

/-- The same maps, and so the same answers. -/
structure AnswersFrom (m good : Maps) : Prop where
  maps : m = good
  overrides : ∀ flow, applyOverrides m.overrides flow = applyOverrides good.overrides flow
  apps : ∀ flow, applyApps m.apps flow = applyApps good.apps flow
  rules : ∀ sni, classify sni m.rules = classify sni good.rules

theorem answersFrom_iff {m good : Maps} : AnswersFrom m good ↔ m = good := by
  constructor
  · exact AnswersFrom.maps
  · rintro rfl
    exact ⟨rfl, fun _ ↦ rfl, fun _ ↦ rfl, fun _ ↦ rfl⟩

/-- A load that fails has nothing to lose. -/
def Harmless (good : Maps) : Load → Prop
  | .overrides (.error _) => good.overrides = ∅
  | .apps (.error _) => good.apps = ∅
  | .rules (.error _) => good.rules = ∅
  | _ => True

/-- The state is the loads so far. -/
def reload (loads : List Load) (l : Load) : Option (List Load) := some (loads ++ [l])

def KeepsLastGood (loads : List Load) (l : Load) : Prop :=
  AnswersFrom (inForce (loads ++ [l])) (lastGood (loads ++ [l]))

theorem inForce_concat (loads : List Load) (l : Load) :
    inForce (loads ++ [l]) = (inForce loads).refresh l := by
  rw [inForce, List.foldl_append]
  rfl

/-- What a load should do: set its map if it succeeds, and nothing else. -/
def Maps.keep (m : Maps) : Load → Maps
  | .overrides (.ok rows) => { m with overrides := collect rows }
  | .apps (.ok rows) => { m with apps := collect rows }
  | .rules (.ok rows) => { m with rules := collect rows }
  | _ => m

theorem getLast_filterMap_concat {α : Type} (good : Load → Option α) (loads : List Load) (l : Load)
    (empty : α) : ((loads ++ [l]).filterMap good).getLast?.getD empty =
      (good l).getD ((loads.filterMap good).getLast?.getD empty) := by
  rw [List.filterMap_append, List.filterMap_cons, List.filterMap_nil]
  cases good l with
  | none => rw [List.append_nil, Option.getD_none]
  | some map => rw [List.getLast?_concat, Option.getD_some, Option.getD_some]

theorem lastGood_concat (loads : List Load) (l : Load) :
    lastGood (loads ++ [l]) = (lastGood loads).keep l := by
  simp only [lastGood, getLast_filterMap_concat]
  cases l with
  | overrides rows => cases rows <;> rfl
  | apps rows => cases rows <;> rfl
  | rules rows => cases rows <;> rfl

/-- No rows, whether the query had none or failed. -/
theorem collect_error {κ ρ : Type} [DecidableEq κ] (e : String) :
    collect (unwrapOrDefault (.error e : Reply κ ρ)) = ∅ := rfl

theorem refresh_eq_keep_iff (m : Maps) (l : Load) : m.refresh l = m.keep l ↔ Harmless m l := by
  cases l with
  | overrides rows =>
      cases rows with
      | ok rows => exact iff_of_true rfl trivial
      | error e =>
          simp [Maps.ext_iff, Maps.refresh, Maps.keep, Harmless, loadOverrides, collect_error,
            eq_comm]
  | apps rows =>
      cases rows with
      | ok rows => exact iff_of_true rfl trivial
      | error e =>
          simp [Maps.ext_iff, Maps.refresh, Maps.keep, Harmless, loadApps, collect_error, eq_comm]
  | rules rows =>
      cases rows with
      | ok rows => exact iff_of_true rfl trivial
      | error e =>
          simp [Maps.ext_iff, Maps.refresh, Maps.keep, Harmless, loadRules, collect_error, eq_comm]

/-- The maps are the last good ones after every load exactly if every load that
fails does so while its map is still empty. -/
theorem keepsLastGood_iff (loads : List Load) :
    Machine.Along reload KeepsLastGood [] loads ↔
      Machine.Along reload (fun loads l ↦ Harmless (lastGood loads) l) [] loads := by
  refine Machine.along_congr_of_keeps (I := fun loads ↦ inForce loads = lastGood loads) ?_ ?_ rfl
  · intro loads l loads' _ hkeeps hreload
    obtain rfl := Option.some.inj hreload
    exact hkeeps.maps
  · intro loads l hloads
    rw [KeepsLastGood, answersFrom_iff, inForce_concat, lastGood_concat, hloads,
      refresh_eq_keep_iff]

/-- A correction for one address. -/
def someCorrection : List (String × Correction) := [("8.8.8.8", ⟨1, 2, some "SG"⟩)]

/-- One failed query, and the correction is gone. -/
theorem not_keepsLastGood_timeout :
    ¬ Machine.Along reload KeepsLastGood []
      [.overrides (.ok someCorrection), .overrides (.error "timeout")] := by
  rintro ⟨-, hrest⟩
  obtain ⟨hkeeps, -⟩ := hrest _ rfl
  have hmaps := congrArg (fun m ↦ m.overrides.lookup "8.8.8.8") hkeeps.maps
  cases hmaps

end TrafficMap
