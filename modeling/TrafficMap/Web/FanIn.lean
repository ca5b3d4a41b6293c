import TrafficMap.Lib.Recent
import TrafficMap.Web.FlowStream

/-!
# Fan-in

`ddosScore` of `flowStream.ts` over a sequence of calls: what it says of a
destination depends on the distinct sources of the last minute only.
-/

namespace TrafficMap.Web

/-- A call of `ddosScore`. -/
structure Hit where
  dst : String
  src : String
  time : ℚ
deriving DecidableEq

namespace Hit

def InOrder (hits : List Hit) : Prop := hits.Pairwise fun h h' ↦ h.time ≤ h'.time

/-- The sightings on one destination. -/
def on (dst : String) (hits : List Hit) : List (String × ℚ) :=
  (hits.filter fun h ↦ h.dst = dst).map fun h ↦ (h.src, h.time)

/-- The distinct sources of a destination in the window before `now`. -/
def recentSources (hits : List Hit) (dst : String) (now : ℚ) : Finset String :=
  ((hits.filter fun h ↦ h.dst = dst ∧ now - h.time ≤ DDOS_WINDOW_MS).map Hit.src).toFinset

/-- The state after the calls. -/
def sources (hits : List Hit) : Sources :=
  hits.foldl (fun m h ↦ (ddosScore h.dst h.src h.time m).2) ∅

section On

variable {hits : List Hit} {h : Hit} {dst : String}

theorem on_append (dst : String) (hits hits' : List Hit) :
    on dst (hits ++ hits') = on dst hits ++ on dst hits' := by
  rw [on, List.filter_append, List.map_append]
  rfl

theorem on_singleton (dst : String) (h : Hit) :
    on dst [h] = if h.dst = dst then [(h.src, h.time)] else [] := by
  by_cases hdst : h.dst = dst
  · simp [on, hdst]
  · simp [on, hdst]

theorem mem_on {e : String × ℚ} :
    e ∈ on dst hits ↔ ∃ h ∈ hits, h.dst = dst ∧ (h.src, h.time) = e := by
  simp [on, and_assoc]

theorem pairwise_on (horder : InOrder hits) (dst : String) :
    (on dst hits).Pairwise fun e e' ↦ e.2 ≤ e'.2 :=
  List.pairwise_map.mpr (horder.filter _)

theorem mem_recentSources {now : ℚ} {src : String} : src ∈ recentSources hits dst now ↔
    ∃ h ∈ hits, h.dst = dst ∧ now - h.time ≤ DDOS_WINDOW_MS ∧ h.src = src := by
  simp [recentSources, and_assoc]

theorem recentSources_eq (hits : List Hit) (dst : String) (now : ℚ) :
    recentSources hits dst now = Recent.recentKeys DDOS_WINDOW_MS now (on dst hits) := by
  ext src
  rw [mem_recentSources, Recent.mem_recentKeys]
  constructor
  · rintro ⟨h, hh, hdst, hnow, rfl⟩
    exact ⟨h.time, mem_on.mpr ⟨h, hh, hdst, rfl⟩, hnow⟩
  · rintro ⟨s, hs, hnow⟩
    obtain ⟨h, hh, hdst, heq⟩ := mem_on.mp hs
    obtain ⟨hsrc, rfl⟩ := Prod.mk.inj heq
    exact ⟨h, hh, hdst, hnow, hsrc⟩

end On

end Hit

/-! ## One call -/

theorem ddosScore_eq (dst src : String) (now : ℚ) (sources : Sources) :
    ddosScore dst src now sources =
      let m := Recent.touch DDOS_WINDOW_MS src now ((sources.lookup dst).getD ∅)
      (decide (DDOS_SRC_THRESHOLD < m.keys.length), sources.insert dst m) := rfl

namespace Hit

theorem sources_concat (hits : List Hit) (h : Hit) :
    sources (hits ++ [h]) = (sources hits).insert h.dst
      (Recent.touch DDOS_WINDOW_MS h.src h.time (((sources hits).lookup h.dst).getD ∅)) := by
  rw [sources, List.foldl_append]
  rfl

/-- What the state holds of each destination. -/
theorem lookup_sources (hits : List Hit) (dst : String) :
    ((sources hits).lookup dst).getD ∅ = Recent.track DDOS_WINDOW_MS (on dst hits) := by
  induction hits using List.reverseRecOn with
  | nil => rfl
  | append_singleton hits h ih =>
      rw [sources_concat, on_append, on_singleton]
      by_cases hdst : h.dst = dst
      · subst hdst
        rw [AList.lookup_insert, if_pos rfl, Option.getD_some, ih, Recent.track_concat]
      · rw [AList.lookup_insert_ne (Ne.symm hdst), if_neg hdst, List.append_nil, ih]

/-- A call answers for the window before it. -/
theorem ddosScore_sources {hits : List Hit} {h : Hit} (horder : InOrder (hits ++ [h])) :
    (ddosScore h.dst h.src h.time (sources hits)).1 = true ↔
      DDOS_SRC_THRESHOLD < (recentSources (hits ++ [h]) h.dst h.time).card := by
  obtain ⟨hhits, -, hle⟩ := List.pairwise_append.mp horder
  have hwindow : (0 : ℚ) ≤ DDOS_WINDOW_MS := by norm_num
  have htracks := Recent.tracks_track hwindow (pairwise_on hhits h.dst)
  have hbefore : ∀ e ∈ on h.dst hits, e.2 ≤ h.time := by
    intro e he
    obtain ⟨h', hh', -, rfl⟩ := mem_on.mp he
    exact hle h' hh' h (List.mem_singleton_self h)
  rw [ddosScore_eq, decide_eq_true_eq, lookup_sources,
    htracks.length_keys_touch hwindow hbefore, recentSources_eq, on_append, on_singleton,
    if_pos rfl]

/-- In every sequence of calls each call answers for the distinct sources of the
window before it. -/
theorem ddosScore_iff (hits : List Hit) (horder : InOrder hits) (pre : List Hit) (h : Hit)
    (hpre : pre ++ [h] <+: hits) :
    (ddosScore h.dst h.src h.time (sources pre)).1 = true ↔
      DDOS_SRC_THRESHOLD < (recentSources (pre ++ [h]) h.dst h.time).card :=
  ddosScore_sources (horder.sublist hpre.sublist)

end Hit

/-! ## An attack -/

def attackers : List String :=
  ["a", "b", "c", "d", "e", "f", "g", "h", "i", "j", "k", "l", "m", "n", "o", "p", "q", "r", "s",
    "t", "u", "v", "w", "x", "y", "z", "A", "B", "C", "D", "E"]

/-- One source a second. -/
def attack : List Hit := attackers.zipIdx.map fun p ↦ ⟨"home", p.1, p.2 * 1000⟩

theorem attack_flagged :
    (ddosScore "home" "E" 30000 (Hit.sources (attack.take 30))).1 = true := by
  have horder : Hit.InOrder attack := by
    rw [Hit.InOrder]
    decide +kernel
  refine (Hit.ddosScore_iff attack horder (attack.take 30) ⟨"home", "E", 30000⟩
    (by decide +kernel)).mpr ?_
  decide +kernel

end TrafficMap.Web
