import Mathlib.Data.List.Sort
import TrafficMap.SniSniff.Sniffer

/-!
# Names without an application

`/api/unmatched` of `crates/api`: the names of the last hours that no rule has matched,
most frequent first, which tell an operator what rule to add.  Once a rule for such a
name has reached the sniffers, what they add to its count is at most what they were
about to log.
-/

namespace TrafficMap.Api

open Ingestor SniSniff Sql Wire

/-! ## The reply -/

/-- `WHERE app IS NULL AND ts > now() - interval '6 hours'`. -/
def unmatchedRows (now : DateTime) (log : List SniLog) : List SniLog :=
  log.filter fun r ↦
    decide (r.app = none ∧ ({ now with secs := now.secs - 6 * 3600 } : DateTime) < r.ts)

structure SniCount where
  sni : String
  count : ℕ
deriving DecidableEq

/-- `ORDER BY 2 DESC`. -/
structure CountOrder where
  mostFirst : List SniCount → List SniCount
  perm : ∀ ts, (mostFirst ts).Perm ts
  sorted : ∀ ts, (mostFirst ts).Pairwise fun t t' ↦ t'.count ≤ t.count

/-- The groups of the query, before its order and its limit. -/
def sniCounts (log : List SniLog) : Table String SniCount :=
  (Table.groupBy SniLog.sni log).select fun sni rows ↦ some ⟨sni, rows.length⟩

def unmatchedQuery (order : CountOrder) (now : DateTime) (log : List SniLog) : List SniCount :=
  (order.mostFirst ((sniCounts (unmatchedRows now log)).entries.map Sigma.snd)).take 15

def countJson (t : SniCount) : Json :=
  .object [("sni", .string t.sni), ("count", .ofI64 (Int64.ofNat t.count))]

/-- The reply without a database, and with the rows of one. -/
def unmatchedHandler : Option (Except String (List SniCount)) → Json
  | none => .object [("unmatched", .array [])]
  | some rows => .object [("unmatched", .array ((unwrapOrDefault rows).map countJson))]

/-! ## What is listed -/

def unmatchedCount (now : DateTime) (log : List SniLog) (sni : String) : ℕ :=
  (unmatchedRows now log).countP fun r ↦ r.sni = sni

/-- The names that occur most often, with how often they do. -/
structure TopNames (count : String → ℕ) (reply : List SniCount) : Prop where
  length_le : reply.length ≤ 15
  sorted : reply.Pairwise fun t t' ↦ t'.count ≤ t.count
  nodup : (reply.map SniCount.sni).Nodup
  exact : ∀ t ∈ reply, t.count = count t.sni ∧ 0 < t.count
  best : ∀ sni, 0 < count sni → sni ∉ reply.map SniCount.sni →
    reply.length = 15 ∧ ∀ t ∈ reply, count sni ≤ t.count

/-- The reply has an item for each name. -/
def ListsNames (j : Json) (reply : List SniCount) : Prop :=
  ∃ items, j.get "unmatched" = some (.array items) ∧
    List.Forall₂ (fun item t ↦ item.get "sni" = some (.string t.sni) ∧
      item.get "count" = some (.ofI64 (Int64.ofNat t.count))) items reply

section Reply

variable {order : CountOrder} {now now' : DateTime} {log : List SniLog}

theorem lookup_sniCounts (log : List SniLog) (sni : String) :
    (sniCounts log).lookup sni =
      if sni ∈ log.map SniLog.sni then some ⟨sni, log.countP fun r ↦ r.sni = sni⟩ else none := by
  rw [sniCounts, Table.lookup_select, Table.lookup_groupBy, List.countP_eq_length_filter]
  split <;> rfl

theorem mem_sniCounts {t : SniCount} (h : t ∈ (sniCounts log).entries.map Sigma.snd) :
    (sniCounts log).lookup t.sni = some t := by
  obtain ⟨e, he, rfl⟩ := List.mem_map.mp h
  have hlookup := AList.mem_lookup_iff.mpr he
  have hsni : e.2.sni = e.1 := by
    rw [Option.mem_def, lookup_sniCounts] at hlookup
    obtain ⟨-, he2⟩ := Option.ite_none_right_eq_some.mp hlookup
    exact Option.some.inj he2 ▸ rfl
  rw [hsni]
  exact hlookup

theorem topNames_unmatchedQuery (order : CountOrder) (now : DateTime) (log : List SniLog) :
    TopNames (unmatchedCount now log) (unmatchedQuery order now log) := by
  have hperm := order.perm ((sniCounts (unmatchedRows now log)).entries.map Sigma.snd)
  have hsorted := order.sorted ((sniCounts (unmatchedRows now log)).entries.map Sigma.snd)
  have hof : ∀ t ∈ unmatchedQuery order now log,
      (sniCounts (unmatchedRows now log)).lookup t.sni = some t := fun t ht ↦
    mem_sniCounts (hperm.mem_iff.mp (List.mem_of_mem_take ht))
  refine ⟨List.length_take_le .., hsorted.sublist (List.take_sublist ..), ?_, fun t ht ↦ ?_,
    fun sni hpos hout ↦ ?_⟩
  · have hkeys : (((sniCounts (unmatchedRows now log)).entries.map Sigma.snd).map
        SniCount.sni).Nodup := by
      apply Table.nodup_map_entries
      intro e he
      have hlookup := AList.mem_lookup_iff.mpr he
      rw [Option.mem_def, lookup_sniCounts] at hlookup
      obtain ⟨-, he2⟩ := Option.ite_none_right_eq_some.mp hlookup
      exact Option.some.inj he2 ▸ rfl
    exact ((hperm.map _).nodup_iff.mpr hkeys).sublist ((List.take_sublist ..).map _)
  · have hlookup := hof t ht
    rw [lookup_sniCounts] at hlookup
    obtain ⟨hmem, hcount⟩ := Option.ite_none_right_eq_some.mp hlookup
    have hexact : t.count = unmatchedCount now log t.sni := by
      rw [unmatchedCount]
      exact (congrArg SniCount.count (Option.some.inj hcount)).symm
    refine ⟨hexact, hexact ▸ List.countP_pos_iff.mpr ?_⟩
    obtain ⟨r, hr, hsni⟩ := List.mem_map.mp hmem
    exact ⟨r, hr, decide_eq_true hsni⟩
  · obtain ⟨r, hr, hsni⟩ := List.countP_pos_iff.mp hpos
    have hlookup : (sniCounts (unmatchedRows now log)).lookup sni =
        some ⟨sni, unmatchedCount now log sni⟩ := by
      rw [lookup_sniCounts, if_pos (List.mem_map.mpr ⟨r, hr, of_decide_eq_true hsni⟩)]
      rfl
    have hmem : (⟨sni, unmatchedCount now log sni⟩ : SniCount) ∈
        (sniCounts (unmatchedRows now log)).entries.map Sigma.snd :=
      List.mem_map.mpr ⟨_, AList.mem_lookup_iff.mp hlookup, rfl⟩
    have hnot : (⟨sni, unmatchedCount now log sni⟩ : SniCount) ∉ unmatchedQuery order now log :=
      fun hin ↦ hout (List.mem_map.mpr ⟨_, hin, rfl⟩)
    exact ⟨length_take_of_not_mem hperm hmem hnot,
      fun t ht ↦ rel_of_not_mem_take hperm hsorted ht hmem hnot⟩

theorem listsNames_unmatchedHandler (rows : Option (Except String (List SniCount))) :
    ListsNames (unmatchedHandler rows) (rows.elim [] unwrapOrDefault) := by
  cases rows with
  | none => exact ⟨[], rfl, .nil⟩
  | some rows =>
      refine ⟨_, rfl, ?_⟩
      rw [List.forall₂_map_left_iff, Option.elim_some, List.forall₂_same]
      exact fun t _ ↦ ⟨rfl, rfl⟩

/-- Time only takes rows away. -/
theorem unmatchedCount_mono (hnow : now ≤ now') (log : List SniLog) (sni : String) :
    unmatchedCount now' log sni ≤ unmatchedCount now log sni := by
  have hsince : ({ now with secs := now.secs - 6 * 3600 } : DateTime) ≤
      { now' with secs := now'.secs - 6 * 3600 } := by
    rcases Prod.Lex.le_iff.mp hnow with hlt | ⟨heq, hle⟩
    · exact Prod.Lex.le_iff.mpr (Or.inl (Int.sub_lt_sub_right hlt _))
    · exact Prod.Lex.le_iff.mpr (Or.inr ⟨congrArg (· - 6 * 3600) heq, hle⟩)
  refine List.Sublist.countP_le (List.monotone_filter_right log fun r hr ↦ ?_)
  obtain ⟨happ, hts⟩ := of_decide_eq_true hr
  exact decide_eq_true ⟨happ, hsince.trans_lt hts⟩

end Reply

/-! ## Adding a rule -/

/-- There is a rule for every name with the text. -/
def RulesFor (text : String) (rules : RuleMap) : Prop :=
  ∀ name, asciiText name = text → ∃ k, LabelSuffix k (trimEndDots name) ∧ k ∈ rules

/-- The rules that the action brings have one for the name. -/
def BringsRules (text : String) : SniffAct → Prop
  | .start _ rows _ | .loadRules _ rows => RulesFor text (loadRules rows)
  | _ => True

/-- Every sniffer has a rule for the name. -/
def Ruled (text : String) (s : Sniffers) : Prop :=
  ∀ id p, s.procs id = some p → RulesFor text p.rules

/-- The sniffer has found no application for the name and is about to log it. -/
def Waits (text : String) (s : Sniffers) (id : ℕ) : Prop :=
  ∃ p o, s.procs id = some p ∧ p.pending = .insert o ∧ asciiText o.sni = text ∧ o.app = none

/-- What a step logs of the name: nothing, or what one sniffer has waited for. -/
inductive Logs (text : String) (s t : Sniffers) : Prop
  | nothing (hwaits : ∀ id, Waits text t id → Waits text s id)
      (hcount : ∀ now, unmatchedCount now t.db.sniLog text = unmatchedCount now s.db.sniLog text)
  | waiting {id : ℕ} (hid : Waits text s id)
      (hwaits : ∀ id', Waits text t id' → id' ≠ id ∧ Waits text s id')
      (hcount : ∀ now,
        unmatchedCount now t.db.sniLog text ≤ unmatchedCount now s.db.sniLog text + 1)

section Loop

variable {e : AppEngine} {toTimestamp : ℚ → DateTime} {s t : Sniffers} {text : String}

theorem app_of_rulesFor {rules : RuleMap} (h : RulesFor text rules) {ts : ℚ} {conn : Conn}
    {sni : Bytes} (hsni : asciiText sni = text) : (sight rules ts conn sni).app ≠ none := by
  obtain ⟨k, hsuffix, hk⟩ := h sni hsni
  intro hnone
  exact classify_eq_none_iff.mp (Option.map_eq_none_iff.mp hnone) k hsuffix hk

theorem procs_setProc {id id' : ℕ} {p : Option Sniffer} {q : Sniffer}
    (h : (s.setProc id p).procs id' = some q) :
    id' = id ∧ p = some q ∨ id' ≠ id ∧ s.procs id' = some q := by
  change Function.update s.procs id p id' = some q at h
  by_cases hid : id' = id
  · subst hid
    rw [Function.update_self] at h
    exact Or.inl ⟨rfl, h⟩
  · rw [Function.update_of_ne hid] at h
    exact Or.inr ⟨hid, h⟩

/-- A process goes on, with a rule for the name. -/
theorem Ruled.setProc (h : Ruled text s) (id : ℕ) {p : Option Sniffer}
    (hrules : ∀ q, p = some q → RulesFor text q.rules) : Ruled text (s.setProc id p) := by
  intro id' q hq
  rcases procs_setProc hq with ⟨-, hp⟩ | ⟨-, hold⟩
  · exact hrules q hp
  · exact h id' q hold

/-- It does not come to wait for logging the name. -/
theorem waits_setProc {id id' : ℕ} {p : Option Sniffer}
    (hpending : ∀ q o, p = some q → q.pending = .insert o → asciiText o.sni = text →
      o.app = none → Waits text s id)
    (h : Waits text (s.setProc id p) id') : Waits text s id' := by
  obtain ⟨q, o, hq, ho, hsni, happ⟩ := h
  rcases procs_setProc hq with ⟨rfl, hp⟩ | ⟨-, hold⟩
  · exact hpending q o hp ho hsni happ
  · exact ⟨q, o, hold, ho, hsni, happ⟩

/-- The row of a sighting is listed only for the name of a sniffer that waits. -/
theorem unmatchedCount_concat (now : DateTime) (log : List SniLog) (o : Sighting) :
    unmatchedCount now (log ++ [o.row toTimestamp]) text ≤ unmatchedCount now log text + 1 ∧
      (¬ (asciiText o.sni = text ∧ o.app = none) →
        unmatchedCount now (log ++ [o.row toTimestamp]) text = unmatchedCount now log text) := by
  rw [unmatchedCount, unmatchedRows, List.filter_append, List.countP_append]
  constructor
  · refine Nat.add_le_add_left (List.countP_le_length.trans ?_) _
    exact List.length_filter_le _ _
  · intro hnot
    refine Nat.add_eq_left.mpr (List.countP_eq_zero.mpr fun r hr hsni ↦ hnot ?_)
    obtain ⟨hmem, hrow⟩ := List.mem_filter.mp hr
    obtain rfl := List.mem_singleton.mp hmem
    exact ⟨of_decide_eq_true hsni, (of_decide_eq_true hrow).1⟩

theorem Ruled.ended (h : Ruled text s) (id : ℕ) :
    Ruled text (s.setProc id none) ∧ Logs text s (s.setProc id none) := by
  refine ⟨h.setProc id ?_, .nothing (fun _ ↦ waits_setProc ?_) fun _ ↦ rfl⟩
  · rintro q ⟨⟩
  · rintro q o ⟨⟩

theorem Ruled.insert (h : Ruled text s) {id : ℕ} {ok : Bool}
    (hstep : s.stepInsert toTimestamp id ok = some t) : Ruled text t ∧ Logs text s t := by
  obtain ⟨p, o, hp, hpending, rfl⟩ := Sniffers.of_stepInsert hstep
  refine ⟨h.setProc id fun q hq ↦ Option.some.inj hq ▸ h id p hp, ?_⟩
  have hdone : ∀ id', Waits text (s.setProc id (some { p with pending := .publish o })) id' →
      id' ≠ id ∧ Waits text s id' := by
    rintro id' ⟨q, o', hq, ho, hrow⟩
    rcases procs_setProc hq with ⟨-, hq⟩ | ⟨hid, hold⟩
    · obtain rfl := Option.some.inj hq
      cases ho
    · exact ⟨hid, q, o', hold, ho, hrow⟩
  cases ok with
  | false => exact .nothing (fun id' hwaits ↦ (hdone id' hwaits).2) fun _ ↦ rfl
  | true =>
      by_cases hrow : asciiText o.sni = text ∧ o.app = none
      · exact .waiting ⟨p, o, hp, hpending, hrow⟩ hdone
          fun now ↦ (unmatchedCount_concat now s.db.sniLog o).1
      · exact .nothing (fun id' hwaits ↦ (hdone id' hwaits).2)
          fun now ↦ (unmatchedCount_concat now s.db.sniLog o).2 hrow

/-- No step makes a sniffer wait for logging the name. -/
theorem Ruled.step (h : Ruled text s) {a : SniffAct} (ha : BringsRules text a)
    (hstep : s.step e toTimestamp a = some t) : Ruled text t ∧ Logs text s t := by
  cases a with
  | start id rows stream =>
      have hloaded : Ruled text ((s.addStream stream).addRules (loadRules rows)) := h
      obtain ⟨-, ⟨rfl, -⟩ | ⟨le, linktype, r, -, rfl⟩⟩ := Sniffers.of_stepStart hstep
      · exact ⟨hloaded, .nothing (fun _ hwaits ↦ hwaits) fun _ ↦ rfl⟩
      · refine ⟨hloaded.setProc id fun q hq ↦ Option.some.inj hq ▸ ha,
          .nothing (fun _ ↦ waits_setProc fun q o hq ho ↦ ?_) fun _ ↦ rfl⟩
        obtain rfl := Option.some.inj hq
        cases ho
  | record id =>
      obtain ⟨p, hp, hidle, hround⟩ := Sniffers.round_of_stepRecord hstep
      have hrules := h id p hp
      cases hround with
      | ended => exact h.ended id
      | passed c r pkt =>
          refine ⟨h.setProc id fun q hq ↦ Option.some.inj hq ▸ hrules,
            .nothing (fun _ ↦ waits_setProc fun q o hq ho ↦ ?_) fun _ ↦ rfl⟩
          obtain rfl := Option.some.inj hq
          cases hidle.symm.trans ho
      | heard c conn sni r pkt =>
          have hseen : Ruled text (s.addSeen (sight p.rules c.ts conn sni)) := h
          refine ⟨hseen.setProc id fun q hq ↦ Option.some.inj hq ▸ hrules,
            .nothing (fun _ ↦ waits_setProc fun q o hq ho hsni happ ↦ ?_) fun _ ↦ rfl⟩
          obtain rfl := Option.some.inj hq
          obtain rfl := Pending.insert.inj ho
          exact absurd happ (app_of_rulesFor hrules hsni)
  | insert id ok => exact h.insert hstep
  | publish id ok =>
      obtain ⟨p, o, hp, hpending, rfl⟩ := Sniffers.of_stepPublish hstep
      refine ⟨h.setProc id fun q hq ↦ Option.some.inj hq ▸ h id p hp,
        .nothing (fun _ ↦ waits_setProc fun q o' hq ho ↦ ?_) fun _ ↦ rfl⟩
      obtain rfl := Option.some.inj hq
      cases ho
  | loadRules id rows =>
      obtain ⟨p, hp, rfl⟩ := Option.map_eq_some_iff.mp hstep
      have hloaded : Ruled text (s.addRules (loadRules rows)) := h
      refine ⟨hloaded.setProc id fun q hq ↦ Option.some.inj hq ▸ ha,
        .nothing (fun _ ↦ waits_setProc fun q o hq ho hsni happ ↦ ?_) fun _ ↦ rfl⟩
      obtain rfl := Option.some.inj hq
      exact ⟨p, o, hp, ho, hsni, happ⟩
  | rollUp id now ok =>
      obtain ⟨p, -, rfl⟩ := Option.map_eq_some_iff.mp hstep
      cases ok with
      | false => exact ⟨h, .nothing (fun _ hwaits ↦ hwaits) fun _ ↦ rfl⟩
      | true => exact ⟨h, .nothing (fun _ hwaits ↦ hwaits) fun _ ↦ rfl⟩
  | stop id =>
      obtain rfl := Option.some.inj hstep
      exact h.ended id
  | edit ip row =>
      obtain rfl := Option.some.inj hstep
      exact ⟨h, .nothing (fun _ hwaits ↦ hwaits) fun _ ↦ rfl⟩

/-- Each sniffer that waits logs the name once at most. -/
theorem Ruled.run (h : Ruled text s) {acts : List SniffAct} (hacts : ∀ a ∈ acts, BringsRules text a)
    (hrun : Machine.run (Sniffers.step e toTimestamp) s acts = some t) {ids : Finset ℕ}
    (hids : ∀ id, Waits text s id → id ∈ ids) (now : DateTime) :
    unmatchedCount now t.db.sniLog text ≤ unmatchedCount now s.db.sniLog text + ids.card := by
  induction acts generalizing s ids with
  | nil =>
      obtain rfl := Option.some.inj hrun
      exact Nat.le_add_right _ _
  | cons a acts ih =>
      obtain ⟨u, hu, hrest⟩ := Machine.run_cons.mp hrun
      obtain ⟨ha, hacts⟩ := List.forall_mem_cons.mp hacts
      obtain ⟨hruled, hlogs⟩ := h.step ha hu
      cases hlogs with
      | nothing hwaits hcount =>
          have hle := ih hruled hacts hrest fun id hid ↦ hids id (hwaits id hid)
          rwa [hcount now] at hle
      | @waiting id hid hwaits hcount =>
          have hothers : ∀ id', Waits text u id' → id' ∈ ids.erase id := fun id' hid' ↦
            Finset.mem_erase.mpr ⟨(hwaits id' hid').1, hids id' (hwaits id' hid').2⟩
          have hle := ih hruled hacts hrest hothers
          have hcard := Finset.card_erase_add_one (hids id hid)
          have hone := hcount now
          omega

/-- A row without an application goes back to a name that some rules did not match. -/
theorem heard_of_unmatched (hinv : SniffersInv toTimestamp s) {now : DateTime}
    (hcount : 0 < unmatchedCount now s.db.sniLog text) :
    ∃ o ∈ s.trail.seen, asciiText o.sni = text ∧ Heard s.trail o ∧
      ∃ rules ∈ s.trail.allRules, ∀ k, LabelSuffix k (trimEndDots o.sni) → k ∉ rules := by
  obtain ⟨r, hr, hsni⟩ := List.countP_pos_iff.mp hcount
  obtain ⟨hmem, hrow⟩ := List.mem_filter.mp hr
  obtain ⟨o, ho, rfl⟩ := hinv.logged r hmem
  have hheard := hinv.heard o ho
  obtain ⟨rules, hrules, hsight⟩ := hheard.classified
  have happ : o.app = none := (of_decide_eq_true hrow).1
  rw [hsight] at happ
  exact ⟨o, ho, of_decide_eq_true hsni, hheard, rules, hrules,
    classify_eq_none_iff.mp (Option.map_eq_none_iff.mp happ)⟩

/-- After every run of the sniffers: the reply shows the most frequent names with their
counts, each was heard in a stream when the rules then in force had none for it, and once
all rules have one, and are reloaded without an error, its count rises at most by one for
each sniffer that was about to log it without. -/
theorem unmatched_guides {acts : List SniffAct}
    (hrun : Machine.run (Sniffers.step e toTimestamp) .init acts = some s) (order : CountOrder)
    (now : DateTime) :
    ∃ reply, ListsNames
        (unmatchedHandler (some (.ok (unmatchedQuery order now s.db.sniLog)))) reply ∧
      TopNames (unmatchedCount now s.db.sniLog) reply ∧
      (∀ t ∈ reply, ∃ o ∈ s.trail.seen, asciiText o.sni = t.sni ∧ Heard s.trail o ∧
        ∃ rules ∈ s.trail.allRules, ∀ k, LabelSuffix k (trimEndDots o.sni) → k ∉ rules) ∧
      ∀ text later s' now', ∀ ids : Finset ℕ, Ruled text s →
        (∀ id, Waits text s id → id ∈ ids) → (∀ a ∈ later, BringsRules text a) →
        Machine.run (Sniffers.step e toTimestamp) s later = some s' → now ≤ now' →
          unmatchedCount now' s'.db.sniLog text ≤
            unmatchedCount now s.db.sniLog text + ids.card := by
  have htop := topNames_unmatchedQuery order now s.db.sniLog
  have hinv := Machine.run_invariant (fun _ _ _ h hstep ↦ SniffersInv.step h hstep)
    SniffersInv.init hrun
  refine ⟨_, listsNames_unmatchedHandler _, htop, fun t ht ↦ ?_,
    fun text later s' now' ids hruled hids hlater hrest hnow ↦ ?_⟩
  · obtain ⟨hexact, hpos⟩ := htop.exact t ht
    exact heard_of_unmatched hinv (hexact ▸ hpos)
  · exact (unmatchedCount_mono hnow _ text).trans (hruled.run hlater hrest hids now)

end Loop

/-! ## A run -/

def plainCountOrder : CountOrder where
  mostFirst := List.insertionSort fun t t' ↦ t'.count ≤ t.count
  perm := List.perm_insertionSort _
  sorted ts := by
    have htotal : Std.Total fun t t' : SniCount ↦ t'.count ≤ t.count :=
      ⟨fun t t' ↦ Nat.le_total t'.count t.count⟩
    have htrans : IsTrans SniCount fun t t' ↦ t'.count ≤ t.count := ⟨fun _ _ _ h h' ↦ h'.trans h⟩
    exact List.pairwise_insertionSort _ ts

def unknownSighting : Sighting := ⟨qqPacket.ts, qqConn, qqName, none, none⟩

theorem sight_unknown : sight (loadRules (.ok [])) qqPacket.ts qqConn qqName = unknownSighting := by
  have hnone : classify qqName (loadRules (.ok [])) = none :=
    classify_eq_none_iff.mpr fun k _ hk ↦ Finmap.notMem_empty hk
  rw [sight, hnone]
  rfl

theorem toNat_ofNat_byte (b : UInt8) : (Char.ofNat b.toNat).toNat = b.toNat := by
  have hvalid : Nat.isValidChar b.toNat := Or.inl (by have := b.toNat_lt; omega)
  rw [Char.ofNat, dif_pos hvalid]
  rfl

theorem asciiText_injective : Function.Injective asciiText := by
  have hchar : Function.Injective fun b : UInt8 ↦ Char.ofNat b.toNat := by
    intro b b' h
    have hnat := congrArg Char.toNat h
    dsimp only at hnat
    rw [toNat_ofNat_byte, toNat_ofNat_byte] at hnat
    exact UInt8.toNat_inj.mp hnat
  exact fun name name' h ↦ List.map_injective_iff.mpr hchar (String.ofList_injective h)

theorem rulesFor_qq : RulesFor "qq.com" (loadRules qqRows) := by
  intro name hname
  have hqq : name = qqName := asciiText_injective (hname.trans (by decide))
  have hlookup : (loadRules qqRows).lookup qqName = some qqRule := Finmap.lookup_insert _
  exact ⟨qqName, Or.inl (by rw [hqq]; rfl), Finmap.mem_of_lookup_eq_some hlookup⟩

/-- Two sniffers hear the name without a rule; one logs it and stops, and the other gets
the rule in front of its insert. -/
def ruledLate : List SniffAct :=
  [.start 0 (.ok []) qqStream, .record 0] ++ [.insert 0 true] ++
    [.start 1 (.ok []) qqStream, .record 1] ++ [.stop 0, .loadRules 1 qqRows]

/-- It logs the name, and a third one hears it with the rule. -/
def loggedLate : List SniffAct :=
  [.insert 1 true] ++ [.start 0 qqRows qqStream, .record 0] ++ [.insert 0 true]

section Late

variable (pkt : Bytes) (s : Sniffers)

def lateProcess : Sniffer :=
  { qqProcess qqRows with reader := ⟨[], none⟩, pkt := pkt, pending := .insert unknownSighting }

def lateRuled : Sniffers :=
  let stopped := (qqFound s 1 (.ok []) unknownSighting pkt).setProc 0 none
  (stopped.addRules (loadRules qqRows)).setProc 1 (some (lateProcess pkt))

def lateLogged : Sniffers :=
  { (lateRuled pkt s).setProc 1 (some { lateProcess pkt with
      pending := .publish unknownSighting }) with
    db := { s.db with sniLog := s.db.sniLog ++ [unknownSighting.row atEpoch] } }

variable {pkt} {s}

theorem run_lateRuled : Machine.run (Sniffers.step ⟨.first, id⟩ atEpoch)
    (qqFound s 1 (.ok []) unknownSighting pkt) [.stop 0, .loadRules 1 qqRows] =
      some (lateRuled pkt s) := rfl

theorem run_lateLogged : Machine.run (Sniffers.step ⟨.first, id⟩ atEpoch) (lateRuled pkt s)
    [.insert 1 true] = some (lateLogged pkt s) := rfl

theorem procs_lateRuled (hs : ∀ n, 1 < n → s.procs n = none) {n : ℕ} {p : Sniffer}
    (hp : (lateRuled pkt s).procs n = some p) : n = 1 ∧ p = lateProcess pkt := by
  rcases procs_setProc hp with ⟨rfl, hp⟩ | ⟨hne, hp⟩
  · exact ⟨rfl, (Option.some.inj hp).symm⟩
  · rcases procs_setProc hp with ⟨-, hp⟩ | ⟨hne', hp⟩
    · cases hp
    · rcases procs_setProc hp with ⟨rfl, -⟩ | ⟨-, hp⟩
      · exact absurd rfl hne
      · rcases procs_setProc hp with ⟨rfl, -⟩ | ⟨-, hp⟩
        · exact absurd rfl hne
        · cases (hs n (by omega)).symm.trans hp

end Late

/-- The name is listed, and rises once more for the sniffer that has waited. -/
theorem unmatched_guides_late : ∃ s s',
    Machine.run (Sniffers.step ⟨.first, id⟩ atEpoch) .init ruledLate = some s ∧
    Machine.run (Sniffers.step ⟨.first, id⟩ atEpoch) s loggedLate = some s' ∧
    unmatchedQuery plainCountOrder ⟨200, 0⟩ s.db.sniLog = [⟨"qq.com", 1⟩] ∧
    (∃ reply, ListsNames
        (unmatchedHandler (some (.ok (unmatchedQuery plainCountOrder ⟨200, 0⟩ s.db.sniLog))))
        reply ∧
      TopNames (unmatchedCount ⟨200, 0⟩ s.db.sniLog) reply ∧
      ∀ t ∈ reply, ∃ o ∈ s.trail.seen, asciiText o.sni = t.sni ∧ Heard s.trail o ∧
        ∃ rules ∈ s.trail.allRules, ∀ k, LabelSuffix k (trimEndDots o.sni) → k ∉ rules) ∧
    unmatchedCount ⟨300, 0⟩ s'.db.sniLog "qq.com" = 2 ∧
    unmatchedCount ⟨300, 0⟩ s'.db.sniLog "qq.com" ≤
      unmatchedCount ⟨200, 0⟩ s.db.sniLog "qq.com" + ({1} : Finset ℕ).card := by
  obtain ⟨pkt, hfirst⟩ := hear_qq (s := .init) (n := 0) rfl sight_unknown
  obtain ⟨pkt', hsecond⟩ := hear_qq (s := qqLogged .init 0 (.ok []) unknownSighting pkt) (n := 1)
    rfl sight_unknown
  obtain ⟨pkt'', hthird⟩ := hear_qq (n := 0)
    (s := lateLogged pkt' (qqLogged .init 0 (.ok []) unknownSighting pkt)) rfl sight_qq
  have hrun : Machine.run (Sniffers.step ⟨.first, id⟩ atEpoch) .init ruledLate =
      some (lateRuled pkt' (qqLogged .init 0 (.ok []) unknownSighting pkt)) :=
    Machine.run_append.mpr ⟨_, Machine.run_append.mpr
      ⟨_, Machine.run_append.mpr ⟨_, hfirst, log_qq pkt⟩, hsecond⟩, run_lateRuled⟩
  have hlater : Machine.run (Sniffers.step ⟨.first, id⟩ atEpoch)
      (lateRuled pkt' (qqLogged .init 0 (.ok []) unknownSighting pkt)) loggedLate =
        some (qqLogged (lateLogged pkt' (qqLogged .init 0 (.ok []) unknownSighting pkt)) 0 qqRows
          qqSighting pkt'') :=
    Machine.run_append.mpr ⟨_, Machine.run_append.mpr ⟨_, run_lateLogged, hthird⟩, log_qq pkt''⟩
  have hprocs : ∀ n p, (lateRuled pkt' (qqLogged .init 0 (.ok []) unknownSighting pkt)).procs n =
      some p → n = 1 ∧ p = lateProcess pkt' := by
    intro n p hp
    refine procs_lateRuled (fun n hn ↦ ?_) hp
    have hne : n ≠ 0 := by omega
    simp [qqLogged, qqFound, qqReading, Sniffers.setProc, Sniffers.addSeen, Sniffers.addRules,
      Sniffers.addStream, Sniffers.init, hne]
  obtain ⟨reply, hlists, htop, hheard, hguides⟩ := unmatched_guides hrun plainCountOrder ⟨200, 0⟩
  refine ⟨_, _, hrun, hlater, ?_, ⟨reply, hlists, htop, hheard⟩, ?_,
    hguides "qq.com" loggedLate _ ⟨300, 0⟩ {1} ?_ ?_ ?_ hlater (by decide)⟩
  · have hlog : unmatchedQuery plainCountOrder ⟨200, 0⟩ [unknownSighting.row atEpoch] =
        [⟨"qq.com", 1⟩] := by
      decide +kernel
    exact hlog
  · have hlog : unmatchedCount ⟨300, 0⟩ [unknownSighting.row atEpoch, unknownSighting.row atEpoch,
        qqSighting.row atEpoch] "qq.com" = 2 := by
      decide +kernel
    exact hlog
  · intro n p hp
    rw [(hprocs n p hp).2]
    exact rulesFor_qq
  · rintro n ⟨p, -, hp, -⟩
    exact Finset.mem_singleton.mpr (hprocs n p hp).1
  · simp only [loggedLate, List.cons_append, List.nil_append, List.forall_mem_cons]
    exact ⟨trivial, rulesFor_qq, trivial, trivial, fun a ha ↦ by cases ha⟩

end TrafficMap.Api
