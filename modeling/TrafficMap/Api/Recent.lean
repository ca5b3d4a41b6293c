import TrafficMap.Api.LiveBridge
import TrafficMap.Lib.Retain

/-!
# Recent flows

The hot tier between `flush` of `crates/ingestor` and `/api/recent` of
`crates/api`: the Redis stream, which each XADD lets Redis trim, the channel, and
the handler that reads the newest entries back.
-/

namespace TrafficMap.Api

open Retain

abbrev STREAM_MAXLEN : ℕ := 200000

/-- The stream, oldest entry first, each with its fields in a flat list.  No code
reads `added` and `published`: every text that was ever added or published. -/
structure HotTier where
  stream : List (List String)
  added : List String
  published : List String

/-- The commands of the pipeline in `flush`; `MAXLEN ~` lets Redis drop as many
entries as are above the limit, or fewer. -/
inductive Command
  | xadd (json : String) (trim : ℕ)
  | publish (json : String)
deriving DecidableEq

namespace HotTier

def init : HotTier := ⟨[], [], []⟩

def step (t : HotTier) : Command → Option HotTier
  | .xadd json trim =>
      if trim = 0 ∨ trim + STREAM_MAXLEN ≤ t.stream.length + 1 then
        some { t with
          stream := (t.stream ++ [["j", json]]).drop trim
          added := t.added ++ [json] }
      else none
  | .publish json => some { t with published := t.published ++ [json] }

/-- `XREVRANGE flows:raw + - COUNT count`. -/
def xrevrange (t : HotTier) (count : ℕ) : List (List String) := t.stream.reverse.take count

end HotTier

/-! ## The handler -/

/-- The value after a key in a flat list of fields. -/
def fieldValue (key : String) : List String → Option String
  | k :: v :: kv => if k = key then some v else fieldValue key kv
  | _ => none

def recentCount (n : Option ℕ) : ℕ := min (n.getD 500) 5000

/-- The values of the entries that have a text under `j` which is JSON. -/
def recentValues (serde : Serde) (entries : List (List String)) : List Json :=
  (entries.filterMap (fieldValue "j")).filterMap serde.parse

def recentHandler (serde : Serde) (ov : Overrides) (apps : AppMap) :
    Except String (List (List String)) → Option Json
  | .error e => some (.object [("flows", .array []), ("error", .string e)])
  | .ok entries =>
      ((recentValues serde entries).mapM (serve ov apps)).map fun flows ↦
        .object [("flows", .array flows)]

/-! ## What the stream shows -/

/-- The stream has the entries of the newest texts. -/
structure TierInv (t : HotTier) : Prop where
  retains : Retains STREAM_MAXLEN (t.added.map fun json ↦ ["j", json]) t.stream

theorem TierInv.step {t t' : HotTier} {c : Command} (h : TierInv t) (hstep : t.step c = some t') :
    TierInv t' := by
  cases c with
  | xadd json trim =>
      obtain ⟨htrim, ⟨⟩⟩ := Option.ite_none_right_eq_some.mp hstep
      refine ⟨?_⟩
      rw [List.map_append]
      exact h.retains.push _ (by omega)
  | publish json =>
      obtain rfl := Option.some.inj hstep
      exact ⟨h.retains⟩

theorem TierInv.run {t : HotTier} {cs : List Command}
    (hrun : Machine.run HotTier.step .init cs = some t) : TierInv t :=
  Machine.run_invariant (fun _ _ _ h hstep ↦ h.step hstep) ⟨.nil _⟩ hrun

theorem recentCount_le (n : Option ℕ) : recentCount n ≤ STREAM_MAXLEN :=
  (Nat.min_le_right _ _).trans (by decide)

theorem filterMap_fieldValue (texts : List String) :
    (texts.map fun json ↦ ["j", json]).filterMap (fieldValue "j") = texts := by
  rw [List.filterMap_map]
  exact List.filterMap_some

/-- Trimming never shows: the entries are the newest that were ever added. -/
theorem recentValues_xrevrange {t : HotTier} (h : TierInv t) (serde : Serde) (n : Option ℕ) :
    recentValues serde (t.xrevrange (recentCount n)) =
      (t.added.reverse.take (recentCount n)).filterMap serde.parse := by
  rw [recentValues, HotTier.xrevrange, h.retains.newest (recentCount_le n), ← List.map_reverse,
    ← List.map_take, filterMap_fieldValue]

/-- The reply of a served value. -/
def ServedAs (serde : Serde) (ov : Overrides) (apps : AppMap) (json : String) (w : Json) : Prop :=
  ∃ v, serde.parse json = some v ∧ serve ov apps v = some w

theorem serve_of_placed {v : Json} (h : Placed v) (ov : Overrides) (apps : AppMap) :
    ∃ w, serve ov apps v = some w := by
  obtain ⟨w, hw⟩ := Option.isSome_iff_exists.mp (applyOverrides_of_placed h ov)
  obtain ⟨w', hw'⟩ := Option.isSome_iff_exists.mp (applyApps_isSome apps w)
  exact ⟨w', by rw [serve, hw, Option.bind_some, hw']⟩

section Reply

variable {serde : Serde} {out : Ingestor.Outside} {geo : Geo.GeoResolver} (ov : Overrides)
  (apps : AppMap)

theorem FromIngestor.served {json : String} (h : FromIngestor out geo serde (some json)) :
    ∃ v, serde.parse json = some v ∧ ∃ w, serve ov apps v = some w := by
  obtain ⟨rec, row, hrow, hjson, hround⟩ := h
  rw [Option.some.inj hjson]
  exact ⟨row.json, hround, serve_of_placed (placed_row hrow) ov apps⟩

/-- The rows of the ingestor are all in the reply, each served. -/
theorem mapM_serve {texts : List String}
    (h : ∀ json ∈ texts, FromIngestor out geo serde (some json)) :
    ∃ flows, (texts.filterMap serde.parse).mapM (serve ov apps) = some flows ∧
      List.Forall₂ (ServedAs serde ov apps) texts flows := by
  induction texts with
  | nil => exact ⟨[], rfl, .nil⟩
  | cons json texts ih =>
      obtain ⟨hjson, htexts⟩ := List.forall_mem_cons.mp h
      obtain ⟨v, hparse, w, hw⟩ := hjson.served ov apps
      obtain ⟨flows, hflows, hall⟩ := ih htexts
      refine ⟨w :: flows, ?_, .cons ⟨v, hparse, hw⟩ hall⟩
      rw [List.filterMap_cons, hparse, List.mapM_cons, hw, hflows]
      rfl

end Reply

/-- Whatever Redis has trimmed, the reply has the newest flows that were ever
added, as many as are asked for and at most 5000, each under the maps in force;
reversed, as the page pushes them, they are in the order of the ingestor. -/
theorem recent_is_newest {serde : Serde} {cs : List Command} {t : HotTier}
    (hrun : Machine.run HotTier.step .init cs = some t) {out : Ingestor.Outside}
    {geo : Geo.GeoResolver} (hrows : ∀ json ∈ t.added, FromIngestor out geo serde (some json))
    (ov : Overrides) (apps : AppMap) (n : Option ℕ) :
    ∃ flows, recentHandler serde ov apps (.ok (t.xrevrange (recentCount n))) =
        some (.object [("flows", .array flows)]) ∧
      List.Forall₂ (ServedAs serde ov apps)
        (t.added.drop (t.added.length - recentCount n)) flows.reverse := by
  have hnewest : ∀ json ∈ t.added.reverse.take (recentCount n),
      FromIngestor out geo serde (some json) :=
    fun json hjson ↦ hrows json (List.mem_reverse.mp (List.mem_of_mem_take hjson))
  obtain ⟨flows, hflows, hall⟩ := mapM_serve ov apps hnewest
  refine ⟨flows, ?_, ?_⟩
  · rw [recentHandler, recentValues_xrevrange (.run hrun), hflows]
    rfl
  · rw [List.take_reverse] at hall
    exact List.forall₂_reverse_iff.mp (by rwa [List.reverse_reverse])

theorem recent_is_newest_two : ∃ t flows,
    Machine.run HotTier.step .init [.xadd "flow" 0, .publish "flow", .xadd "flow" 0] = some t ∧
      recentHandler (serdeOf lanJson) ∅ ∅ (.ok (t.xrevrange (recentCount (some 1)))) =
        some (.object [("flows", .array flows)]) ∧ flows.length = 1 := by
  obtain ⟨t, ht⟩ : ∃ t, Machine.run HotTier.step .init
      [.xadd "flow" 0, .publish "flow", .xadd "flow" 0] = some t := ⟨_, rfl⟩
  have hadded : t.added = ["flow", "flow"] := by
    obtain rfl := Option.some.inj ht
    rfl
  have hrows : ∀ json ∈ t.added, FromIngestor Ingestor.plainOutside Ingestor.plainGeo
      (serdeOf lanJson) (some json) := by
    intro json hjson
    rw [hadded] at hjson
    have heq : json = "flow" := by simpa using hjson
    rw [heq]
    exact fromIngestor_lan
  obtain ⟨flows, hflows, hall⟩ := recent_is_newest ht hrows ∅ ∅ (some 1)
  refine ⟨t, flows, ht, hflows, ?_⟩
  have hlength := hall.length_eq
  rw [hadded, List.length_reverse] at hlength
  exact hlength.symm

/-! ## The pipeline of a flush -/

/-- The commands of `flush` for the texts of a batch. -/
def pipe (batch : List (String × ℕ)) : List Command :=
  batch.flatMap fun e ↦ [.xadd e.1 e.2, .publish e.1]

def Command.added : Command → Option String
  | .xadd json _ => some json
  | .publish _ => none

def Command.published : Command → Option String
  | .xadd _ _ => none
  | .publish json => some json

/-- What a list of commands adds and publishes. -/
structure HotTier.Ran (t t' : HotTier) (cs : List Command) : Prop where
  added : t'.added = t.added ++ cs.filterMap Command.added
  published : t'.published = t.published ++ cs.filterMap Command.published

theorem HotTier.ran {t t' : HotTier} {cs : List Command}
    (hrun : Machine.run HotTier.step t cs = some t') : t.Ran t' cs := by
  induction cs generalizing t with
  | nil =>
      obtain rfl := Option.some.inj hrun
      exact ⟨(List.append_nil _).symm, (List.append_nil _).symm⟩
  | cons c cs ih =>
      obtain ⟨s, hstep, hrest⟩ := Machine.run_cons.mp hrun
      have hran := ih hrest
      cases c with
      | xadd json trim =>
          obtain ⟨-, ⟨⟩⟩ := Option.ite_none_right_eq_some.mp hstep
          exact ⟨by simpa [List.filterMap_cons, Command.added] using hran.added,
            by simpa [List.filterMap_cons, Command.published] using hran.published⟩
      | publish json =>
          obtain rfl := Option.some.inj hstep
          exact ⟨by simpa [List.filterMap_cons, Command.added] using hran.added,
            by simpa [List.filterMap_cons, Command.published] using hran.published⟩

/-- A pipeline that is cut has published all it has added, or all but the last. -/
theorem cut_pipe {batch : List (String × ℕ)} {cs : List Command} (h : cs <+: pipe batch) :
    ∃ last, cs.filterMap Command.added =
      cs.filterMap Command.published ++ (last : Option String).toList := by
  induction batch generalizing cs with
  | nil =>
      obtain rfl := List.prefix_nil.mp h
      exact ⟨none, rfl⟩
  | cons e batch ih =>
      match cs, h with
      | [], _ => exact ⟨none, rfl⟩
      | [c], h =>
          obtain ⟨rfl, -⟩ := List.cons_prefix_cons.mp h
          exact ⟨some e.1, rfl⟩
      | c :: c' :: cs, h =>
          obtain ⟨hadd, h⟩ := List.cons_prefix_cons.mp h
          obtain ⟨hpublish, h⟩ := List.cons_prefix_cons.mp h
          obtain ⟨last, hlast⟩ := ih h
          refine ⟨last, ?_⟩
          rw [hadd, hpublish]
          simpa [List.filterMap_cons, Command.added, Command.published] using hlast

theorem pipe_added (batch : List (String × ℕ)) :
    (pipe batch).filterMap Command.added = (pipe batch).filterMap Command.published := by
  induction batch with
  | nil => rfl
  | cons e batch ih =>
      simpa [pipe, List.filterMap_cons, Command.added, Command.published] using ih

/-- A flush: the texts of its batch, and the commands that Redis has run of it. -/
structure Flush where
  batch : List (String × ℕ)
  commands : List Command
  cut : commands <+: pipe batch

/-- The flushes whose pipeline was cut. -/
def failures (flushes : List Flush) : ℕ := flushes.countP fun f ↦ f.commands ≠ pipe f.batch

theorem Flush.sublist (f : Flush) :
    (f.commands.filterMap Command.published).Sublist (f.commands.filterMap Command.added) ∧
      (f.commands.filterMap Command.added).length ≤
        (f.commands.filterMap Command.published).length + failures [f] := by
  obtain ⟨last, hlast⟩ := cut_pipe f.cut
  refine ⟨hlast ▸ List.sublist_append_left _ _, ?_⟩
  by_cases hwhole : f.commands = pipe f.batch
  · rw [hwhole, pipe_added]
    exact Nat.le_add_right _ _
  · have hone : failures [f] = 1 := by simp [failures, hwhole]
    rw [hlast, hone, List.length_append]
    exact Nat.add_le_add_left (by cases last <;> simp) _

/-- Live clients and the stream get the same flows in the same order: nothing is
published that was not added, and a flush costs the live clients at most one
flow, and only if its pipeline is cut. -/
theorem live_matches_stream {flushes : List Flush} {t : HotTier}
    (hrun : Machine.run HotTier.step .init (flushes.flatMap Flush.commands) = some t) :
    t.published.Sublist t.added ∧ t.added.length ≤ t.published.length + failures flushes := by
  have hran := HotTier.ran hrun
  rw [hran.added, hran.published]
  clear hran hrun
  induction flushes with
  | nil => exact ⟨List.Sublist.refl _, Nat.le_refl _⟩
  | cons f flushes ih =>
      obtain ⟨hsub, hlen⟩ := f.sublist
      have hfailures : failures ([f] ++ flushes) = failures [f] + failures flushes :=
        List.countP_append
      rw [List.singleton_append] at hfailures
      simp only [HotTier.init, List.nil_append, List.flatMap_cons, List.filterMap_append,
        List.length_append] at ih ⊢
      exact ⟨hsub.append ih.1, by omega⟩

def cutFlush : Flush where
  batch := [("a", 0), ("b", 0)]
  commands := [.xadd "a" 0, .publish "a", .xadd "b" 0]
  cut := ⟨[.publish "b"], rfl⟩

theorem live_matches_stream_cut : ∃ t,
    Machine.run HotTier.step .init ([cutFlush].flatMap Flush.commands) = some t ∧
      t.published = ["a"] ∧ t.added = ["a", "b"] ∧ t.published.Sublist t.added := by
  obtain ⟨t, ht⟩ : ∃ t, Machine.run HotTier.step .init ([cutFlush].flatMap Flush.commands) =
    some t := ⟨_, rfl⟩
  have hsub := (live_matches_stream ht).1
  obtain rfl := Option.some.inj ht
  exact ⟨_, rfl, rfl, rfl, hsub⟩

end TrafficMap.Api
