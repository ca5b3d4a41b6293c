import TrafficMap.Ingestor.CleanRuns

/-!
# Duplicates across restarts

A clean run re-reads the log behind a watermark that has caught up with the
table.  The loop skips what is stamped before the watermark but not what is
stamped at it, so the rows of that second are inserted again; every row is in
the table once exactly if no run starts from a second that a row of the table
carries.
-/

namespace TrafficMap.Ingestor

variable {Rec Row Msg : Type} {P : Pipeline Rec Row Msg}

/-- A run starts from a second that none of the rows read before carries. -/
def FreshStart (P : Pipeline Rec Row Msg) (s : Flowd Rec Row Msg) : FlowdAct Rec → Prop
  | .start _ => ∀ r ∈ s.log.take s.reached, P.toRow r ≠ none → P.recvSec r ≠ s.store.watermark
  | _ => True

instance (P : Pipeline Rec Row Msg) (s : Flowd Rec Row Msg) : DecidablePred (FreshStart P s)
  | .start _ => inferInstanceAs
      (Decidable (∀ r ∈ s.log.take s.reached, P.toRow r ≠ none → P.recvSec r ≠ s.store.watermark))
  | .append _ | .send | .close | .recv | .own _ | .crash => isTrue trivial

/-! ## The ledger -/

/-- All rows the processes took and have not lost: those of the table and those
under way. -/
def Flowd.received (s : Flowd Rec Row Msg) : Multiset Row :=
  s.store.flows + (s.proc.elim 0 fun p ↦ p.drain.pending)

theorem Drain.OwnStep.received {st st' : Store Row Msg} {d d' : Drain Row} {a : OwnAct}
    (h : OwnStep P st d a st' d') : st'.flows + d'.pending = st.flows + d.pending := by
  cases h with
  | timer hsel | ctrlC hsel => rw [pending_flush, pending_select hsel]
  | pipeline after hphase => simp [pending, hphase]
  | insert after hphase => simp [pending, hphase]
  | set ok after hphase => cases ok <;> simp [pending, hphase]
  | clear after hphase =>
      rw [pending_resume]
      simp [pending, hphase]

theorem Drain.OwnStep.fields {st st' : Store Row Msg} {d d' : Drain Row} {a : OwnAct}
    (h : OwnStep P st d a st' d') :
    d'.startWatermark = d.startWatermark ∧ d'.maxRecv = d.maxRecv ∧
      (st'.watermark = st.watermark ∨ st'.watermark = some d.maxRecv) := by
  cases h with
  | set ok after hphase => cases ok <;> simp
  | timer | ctrlC | pipeline | insert | clear => simp

/-- What a clean step enters: nothing, the rows of a record that is new, or once
more the rows of a record that was read before. -/
inductive Entry (P : Pipeline Rec Row Msg) (s s' : Flowd Rec Row Msg) : Prop
  | same (hrec : s'.received = s.received) (hold : P.rows s'.old = P.rows s.old)
  | new (r : Rec) (hrec : s'.received = s.received + P.rows [r])
      (hold : P.rows s'.old = P.rows s.old + P.rows [r])
  | again (p : Process Row) (r : Rec) (hp : s.proc = some p) (hr : s.old[p.taken]? = some r)
      (hnot : ¬ P.Below p.drain.startWatermark r) (hrec : s'.received = s.received + P.rows [r])
      (hold : P.rows s'.old = P.rows s.old)

namespace CleanInv

variable {s s' : Flowd Rec Row Msg}

theorem received_of_ended (h : CleanInv P s) (hended : ∀ p, s.proc = some p → p.drain.phase.Ended) :
    s.received = s.store.flows := by
  rw [Flowd.received]
  cases hproc : s.proc with
  | none => simp
  | some p =>
      obtain ⟨after, hphase⟩ := hended p hproc
      simp [Drain.pending, hphase, (h.base.drain p hproc).ended after hphase]

theorem received_record {p : Process Row} (hp : s.proc = some p) (hsel : p.drain.phase = .select)
    {r : Rec} (hnot : ¬ P.Below p.drain.startWatermark r) :
    s.store.flows + (p.drain.receive P r).pending = s.received + P.rows [r] := by
  rw [(Drain.kept_receive hsel hnot).pending, Flowd.received, hp, ← add_assoc]
  rfl

theorem entry (h : CleanInv P s) {a : FlowdAct Rec} (hclean : a.Clean)
    (hstep : Flowd.Step P s a s') : Entry P s s' := by
  cases hstep with
  | append r hord =>
      refine .same rfl ?_
      rw [Flowd.old, List.take_append_of_le_length h.reached_le]
      rfl
  | start getOk hended =>
      refine .same ?_ rfl
      rw [h.received_of_ended hended]
      exact add_zero _
  | send p hp | close p hp =>
      refine .same ?_ rfl
      rw [Flowd.received, Flowd.received, hp]
      rfl
  | record p r hp hsel hlt hr =>
      rcases h.old_record hp hr with ⟨hread, hmax, hold⟩ | ⟨hnew, hmax, htake⟩
      · have hsame : s.log.take (max s.reached (p.taken + 1)) = s.old := by
          rw [hmax]
          rfl
        by_cases hbelow : P.Below p.drain.startWatermark r
        · refine .same ?_ (congrArg P.rows hsame)
          rw [Flowd.received, Flowd.received, hp]
          simp [Drain.receive_of_below hbelow]
        · exact .again p r hp hold hbelow (received_record hp hsel hbelow)
            (congrArg P.rows hsame)
      · refine .new r (received_record hp hsel (h.not_below_of_new hp hnew hr)) ?_
        rw [Flowd.old, hmax, htake, P.rows_append]
  | eof p hp hsel hle hclosed =>
      refine .same ?_ rfl
      rw [Flowd.received, Flowd.received, hp]
      simp [Drain.pending_select hsel]
  | own a p store drain hp hown =>
      refine .same ?_ rfl
      rw [Flowd.received, Flowd.received, hp]
      exact hown.received
  | crash => exact absurd hclean id

/-- At the end of its input a process has read all that any run has. -/
theorem reached_of_doneAt (h : CleanInv P s) {n : ℕ} (hdone : s.DoneAt n) :
    s.old = s.log.take n ∧ s.received = s.store.flows ∧
      ∀ p, s.proc = some p → s.reached ≤ p.taken := by
  obtain ⟨p, hp, hphase, rfl⟩ := hdone
  have hproc := h.proc p hp
  obtain ⟨hclosed, hall⟩ := h.base.eof p hp (by rw [hphase]; rfl)
  have hsent := hproc.closed hclosed
  have htaken := hproc.taken_le
  rw [h.length_old] at hsent htaken
  have hreached : s.reached = p.sent := by omega
  refine ⟨by rw [Flowd.old, hreached], h.received_of_ended ?_, ?_⟩
  · rintro q hq
    obtain rfl : q = p := Option.some.inj (hq.symm.trans hp)
    exact ⟨.eof, hphase⟩
  · rintro q hq
    obtain rfl : q = p := Option.some.inj (hq.symm.trans hp)
    omega

end CleanInv

/-! ## Fresh starts keep the table exact -/

/-- Every row that was read is in the table or under way once, and what a
process re-reads it skips. -/
structure FreshInv (P : Pipeline Rec Row Msg) (s : Flowd Rec Row Msg) : Prop where
  clean : CleanInv P s
  once : s.received = P.rows s.old
  behind : ∀ p, s.proc = some p → ∀ r ∈ s.old.drop p.taken, P.toRow r ≠ none →
    P.Below p.drain.startWatermark r

namespace FreshInv

variable {s s' : Flowd Rec Row Msg}

theorem init : FreshInv P (Flowd.init : Flowd Rec Row Msg) :=
  ⟨CleanInv.init, rfl, by simp [Flowd.init]⟩

theorem rows_again (h : FreshInv P s) {p : Process Row} (hp : s.proc = some p) {r : Rec}
    (hr : s.old[p.taken]? = some r) (hnot : ¬ P.Below p.drain.startWatermark r) :
    P.rows [r] = 0 := by
  have hmem : r ∈ s.old.drop p.taken := by
    refine List.mem_of_getElem? (i := 0) ?_
    rw [List.getElem?_drop, Nat.add_zero, hr]
  have hnone : P.toRow r = none := by
    by_contra hrow
    exact hnot (h.behind p hp r hmem hrow)
  simp [Pipeline.rows, hnone]

theorem behind_step (h : FreshInv P s) {a : FlowdAct Rec} (hclean : a.Clean)
    (hfresh : FreshStart P s a) (hstep : Flowd.Step P s a s') :
    ∀ p, s'.proc = some p → ∀ r ∈ s'.old.drop p.taken, P.toRow r ≠ none →
      P.Below p.drain.startWatermark r := by
  cases hstep with
  | append r hord =>
      rw [Flowd.old, List.take_append_of_le_length h.clean.reached_le]
      exact h.behind
  | start getOk hended =>
      obtain rfl : getOk = true := hclean
      rintro q ⟨⟩ r hr hrow
      obtain ⟨w, hw, rs, hrs, hle⟩ := h.clean.settled_of_ended hended r hr hrow
      have hne := hfresh r hr hrow
      rw [hrs, hw] at hne
      refine ⟨rs, hrs, ?_⟩
      change rs < s.store.watermark.getD 0
      rw [hw]
      exact hle.lt_of_ne fun heq ↦ hne (congrArg some heq)
  | send p hp | close p hp =>
      rintro q ⟨⟩
      exact h.behind p hp
  | eof p hp =>
      rintro q ⟨⟩
      rw [Drain.startWatermark_flush]
      exact h.behind p hp
  | record p r hp hsel hlt hr =>
      rintro q ⟨⟩
      dsimp only [Flowd.old]
      rw [(Drain.receive_bounds hsel r).1]
      rcases h.clean.old_record hp hr with ⟨hread, hmax, -⟩ | ⟨hnew, hmax, htake⟩
      · rw [hmax]
        intro q hq
        refine h.behind p hp q ?_
        rw [← List.drop_drop] at hq
        exact List.mem_of_mem_drop hq
      · rw [hmax, List.drop_eq_nil_of_le (List.length_take_le _ _)]
        simp
  | own a p store drain hp hown =>
      rintro q ⟨⟩
      rw [hown.fields.1]
      exact h.behind p hp
  | crash => exact absurd hclean id

theorem step (h : FreshInv P s) {a : FlowdAct Rec} (hclean : a.Clean) (hfresh : FreshStart P s a)
    (hstep : Flowd.Step P s a s') : FreshInv P s' := by
  refine ⟨h.clean.step hclean hstep, ?_, h.behind_step hclean hfresh hstep⟩
  cases h.clean.entry hclean hstep with
  | same hrec hold => rw [hrec, hold, h.once]
  | new r hrec hold => rw [hrec, hold, h.once]
  | again p r hp hr hnot hrec hold =>
      rw [hrec, hold, h.once, h.rows_again hp hr hnot, add_zero]

theorem run {acts : List (FlowdAct Rec)} (h : FreshInv P s) (hclean : ∀ a ∈ acts, a.Clean)
    (hfresh : Machine.Along (Flowd.step P) (FreshStart P) s acts)
    (hrun : Machine.run (Flowd.step P) s acts = some s') : FreshInv P s' := by
  have hboth : Machine.Along (Flowd.step P) (fun s a ↦ a.Clean ∧ FreshStart P s a) s acts :=
    (Machine.along_of_forall (fun a ha _ ↦ hclean a ha) s).and hfresh
  exact Machine.run_invariant_along
    (fun _ _ _ hs hP heq ↦ hs.step hP.1 hP.2 (Flowd.step_of_eq heq)) h hboth hrun

end FreshInv

/-! ## A stale start leaves a row twice -/

structure LedgerInv (P : Pipeline Rec Row Msg) (s : Flowd Rec Row Msg) : Prop where
  clean : CleanInv P s
  le : (P.rows s.old).card ≤ s.received.card

def Surplus (P : Pipeline Rec Row Msg) (s : Flowd Rec Row Msg) : Prop :=
  (P.rows s.old).card < s.received.card

/-- The record at `i` was read before, and no process can skip it before it gets
there. -/
structure Debt (P : Pipeline Rec Row Msg) (s : Flowd Rec Row Msg) (i : ℕ) (r : Rec) (rs : ℕ) :
    Prop where
  old : s.old[i]? = some r
  row : P.toRow r ≠ none
  sec : P.recvSec r = some rs
  watermark : s.store.watermark.getD 0 ≤ rs
  proc : ∀ p, s.proc = some p →
    p.taken ≤ i ∧ p.drain.startWatermark ≤ rs ∧ p.drain.maxRecv ≤ rs

def Dirty (P : Pipeline Rec Row Msg) (s : Flowd Rec Row Msg) : Prop :=
  Surplus P s ∨ ∃ i r rs, Debt P s i r rs

section Stale

variable {s s' : Flowd Rec Row Msg}

theorem Flowd.getElem?_of_old {i : ℕ} {r : Rec} (h : s.old[i]? = some r) :
    i < s.reached ∧ s.log[i]? = some r := by
  rw [old, List.getElem?_take] at h
  exact Option.ite_none_right_eq_some.mp h

theorem LedgerInv.init : LedgerInv P (Flowd.init : Flowd Rec Row Msg) :=
  ⟨CleanInv.init, le_rfl⟩

/-- A step takes at least the rows by which what was read grows. -/
theorem Entry.card_le (h : Entry P s s') :
    (P.rows s'.old).card + s.received.card ≤ (P.rows s.old).card + s'.received.card := by
  cases h with
  | same hrec hold => rw [hrec, hold]
  | new r hrec hold =>
      rw [hrec, hold, Multiset.card_add, Multiset.card_add]
      omega
  | again p r hp hr hnot hrec hold =>
      rw [hrec, hold, Multiset.card_add]
      omega

theorem LedgerInv.step (h : LedgerInv P s) {a : FlowdAct Rec} (hclean : a.Clean)
    (hstep : Flowd.Step P s a s') : LedgerInv P s' := by
  refine ⟨h.clean.step hclean hstep, ?_⟩
  have hle := h.le
  have hcard := (h.clean.entry hclean hstep).card_le
  omega

theorem Surplus.step (h : Surplus P s) (hinv : CleanInv P s) {a : FlowdAct Rec} (hclean : a.Clean)
    (hstep : Flowd.Step P s a s') : Surplus P s' := by
  have hcard := (hinv.entry hclean hstep).card_le
  rw [Surplus] at h ⊢
  omega

/-- A start from a second that a row carries owes that row. -/
theorem Debt.of_stale (hinv : CleanInv P s) {a : FlowdAct Rec} (hclean : a.Clean)
    (hstale : ¬ FreshStart P s a) (hstep : Flowd.Step P s a s') : ∃ i r rs, Debt P s' i r rs := by
  cases hstep with
  | start getOk hended =>
      obtain rfl : getOk = true := hclean
      rw [FreshStart] at hstale
      push Not at hstale
      obtain ⟨r, hr, hrow, hsec⟩ := hstale
      obtain ⟨w, hw, rs, hrs, -⟩ := hinv.settled_of_ended hended r hr hrow
      obtain ⟨i, hi⟩ := List.mem_iff_getElem?.mp hr
      have hle : s.store.watermark.getD 0 ≤ rs := by
        rw [← hsec, hrs]
        exact le_rfl
      refine ⟨i, r, rs, hi, hrow, hrs, hle, ?_⟩
      rintro q ⟨⟩
      exact ⟨Nat.zero_le _, hle, hle⟩
  | append | send | close | record | eof | own | crash => exact absurd trivial hstale

variable {i rs : ℕ} {r : Rec}

theorem Debt.maxRecv_le (h : Debt P s i r rs) (hinv : CleanInv P s) {p : Process Row}
    (hp : s.proc = some p) (hsel : p.drain.phase = .select) {q : Rec}
    (hq : s.log[p.taken]? = some q) (hlt : p.taken < i) : (p.drain.receive P q).maxRecv ≤ rs := by
  obtain ⟨-, -, hmax⟩ := h.proc p hp
  by_cases hbelow : P.Below p.drain.startWatermark q
  · rwa [Drain.receive_of_below hbelow]
  · rw [(Drain.kept_receive hsel hbelow).maxRecv]
    cases hqs : P.recvSec q with
    | none => exact hmax
    | some qs =>
        refine max_le hmax ?_
        have hlog := hinv.base.inOrder
        rw [← List.take_append_drop i s.log] at hlog
        have hbefore : q ∈ s.log.take i :=
          List.mem_of_getElem? (by rw [List.getElem?_take_of_lt hlt, hq])
        have hbehind : r ∈ s.log.drop i := by
          refine List.mem_of_getElem? (i := 0) ?_
          rw [List.getElem?_drop, Nat.add_zero, (Flowd.getElem?_of_old h.old).2]
        exact hlog.le hbefore hbehind hqs h.sec

/-- The record is taken a second time, or it is still owed. -/
theorem Debt.record (h : Debt P s i r rs) (hinv : LedgerInv P s) {p : Process Row}
    (hp : s.proc = some p) (hsel : p.drain.phase = .select) {q : Rec}
    (hq : s.log[p.taken]? = some q) :
    Dirty P { s with
      proc := some { p with drain := p.drain.receive P q, taken := p.taken + 1 }
      reached := max s.reached (p.taken + 1) } := by
  obtain ⟨htaken, hstart, -⟩ := h.proc p hp
  obtain ⟨hi, hlog⟩ := Flowd.getElem?_of_old h.old
  have hmax : max s.reached (p.taken + 1) = s.reached := by omega
  rcases htaken.lt_or_eq with hbefore | rfl
  · refine Or.inr ⟨i, r, rs, ?_, h.row, h.sec, h.watermark, ?_⟩
    · rw [hmax]
      exact h.old
    · rintro q' ⟨⟩
      refine ⟨hbefore, ?_, h.maxRecv_le hinv.clean hp hsel hq hbefore⟩
      rwa [(Drain.receive_bounds hsel q).1]
  · obtain rfl : q = r := Option.some.inj (hq.symm.trans hlog)
    have hnot : ¬ P.Below p.drain.startWatermark q := by
      rintro ⟨rs', hrs', hlt'⟩
      rw [h.sec] at hrs'
      obtain rfl := Option.some.inj hrs'
      omega
    have hone : (P.rows [q]).card = 1 := by
      obtain ⟨row, hrow⟩ := Option.ne_none_iff_exists'.mp h.row
      simp [Pipeline.rows, hrow]
    apply Or.inl
    rw [Surplus, hmax]
    change (P.rows s.old).card < (s.store.flows + (p.drain.receive P q).pending).card
    rw [CleanInv.received_record hp hsel hnot, Multiset.card_add, hone]
    exact Nat.lt_succ_of_le hinv.le

theorem Debt.step (h : Debt P s i r rs) (hinv : LedgerInv P s) {a : FlowdAct Rec} (hclean : a.Clean)
    (hstep : Flowd.Step P s a s') : Dirty P s' := by
  cases hstep with
  | append q hord =>
      refine Or.inr ⟨i, r, rs, ?_, h.row, h.sec, h.watermark, h.proc⟩
      rw [Flowd.old, List.take_append_of_le_length hinv.clean.reached_le]
      exact h.old
  | start getOk hended =>
      obtain rfl : getOk = true := hclean
      refine Or.inr ⟨i, r, rs, h.old, h.row, h.sec, h.watermark, ?_⟩
      rintro q ⟨⟩
      exact ⟨Nat.zero_le _, h.watermark, h.watermark⟩
  | send p hp | close p hp =>
      refine Or.inr ⟨i, r, rs, h.old, h.row, h.sec, h.watermark, ?_⟩
      rintro q ⟨⟩
      exact h.proc p hp
  | record p q hp hsel hlt hq => exact h.record hinv hp hsel hq
  | eof p hp =>
      refine Or.inr ⟨i, r, rs, h.old, h.row, h.sec, h.watermark, ?_⟩
      rintro q ⟨⟩
      simpa using h.proc p hp
  | own a p store drain hp hown =>
      obtain ⟨htaken, hstart, hmax⟩ := h.proc p hp
      obtain ⟨hstart', hmax', hwatermark⟩ := hown.fields
      refine Or.inr ⟨i, r, rs, h.old, h.row, h.sec, ?_, ?_⟩
      · rcases hwatermark with hsame | hset
        · rw [hsame]
          exact h.watermark
        · rw [hset]
          exact hmax
      · rintro q ⟨⟩
        refine ⟨htaken, ?_, ?_⟩
        · rwa [hstart']
        · rwa [hmax']
  | crash => exact absurd hclean id

theorem Dirty.run {acts : List (FlowdAct Rec)} (hinv : LedgerInv P s) (h : Dirty P s)
    (hclean : ∀ a ∈ acts, a.Clean) (hrun : Machine.run (Flowd.step P) s acts = some s') :
    Dirty P s' := by
  have hstep : ∀ t a t', LedgerInv P t ∧ Dirty P t → a.Clean → t.step P a = some t' →
      LedgerInv P t' ∧ Dirty P t' := by
    rintro t a t' ⟨ht, hdirty⟩ ha heq
    have hstep := Flowd.step_of_eq heq
    refine ⟨ht.step ha hstep, ?_⟩
    rcases hdirty with hsurplus | ⟨i, r, rs, hdebt⟩
    · exact Or.inl (hsurplus.step ht.clean ha hstep)
    · exact hdebt.step ht ha hstep
  exact (Machine.run_invariant_along hstep ⟨hinv, h⟩
    (Machine.along_of_forall (fun a ha _ ↦ hclean a ha) s) hrun).2

theorem Dirty.surplus_of_doneAt (h : Dirty P s) (hinv : CleanInv P s) {n : ℕ}
    (hdone : s.DoneAt n) : Surplus P s := by
  rcases h with hsurplus | ⟨i, r, rs, hdebt⟩
  · exact hsurplus
  · obtain ⟨-, -, hall⟩ := hinv.reached_of_doneAt hdone
    obtain ⟨p, hp, -⟩ := hdone
    have hi := (Flowd.getElem?_of_old hdebt.old).1
    have htaken := (hdebt.proc p hp).1
    have := hall p hp
    omega

theorem LedgerInv.fresh_of_once (hinv : LedgerInv P s) {acts : List (FlowdAct Rec)}
    (hclean : ∀ a ∈ acts, a.Clean) (hrun : Machine.run (Flowd.step P) s acts = some s')
    (honce : ¬ Dirty P s') : Machine.Along (Flowd.step P) (FreshStart P) s acts := by
  induction acts generalizing s with
  | nil => exact trivial
  | cons a as ih =>
      obtain ⟨ha, has⟩ := List.forall_mem_cons.mp hclean
      obtain ⟨s₁, heq, hrun₁⟩ := Machine.run_cons.mp hrun
      have hstep := Flowd.step_of_eq heq
      have hinv₁ := hinv.step ha hstep
      refine ⟨?_, fun s₂ heq₂ ↦ ?_⟩
      · by_contra hstale
        exact honce (Dirty.run hinv₁ (Or.inr (Debt.of_stale hinv.clean ha hstale hstep)) has hrun₁)
      · obtain rfl : s₁ = s₂ := Option.some.inj (heq.symm.trans heq₂)
        exact ih hinv₁ has hrun₁

end Stale

/-! ## Every row once -/

/-- After runs that all stopped cleanly, the last of them at the end of its input,
the table holds each row of that input once exactly if no run started from a
second that a row read before carries. -/
theorem rows_once_iff (out : Outside) (geo : Geo.GeoResolver)
    (acts : List (FlowdAct FlowdParse.FlowRecord)) (hclean : ∀ a ∈ acts, a.Clean)
    (s : Flowd FlowdParse.FlowRecord FlowRow Json)
    (hrun : Machine.run (Flowd.step (flowPipeline out geo)) Flowd.init acts = some s) (n : ℕ)
    (hdone : s.DoneAt n) :
    s.store.flows = (flowPipeline out geo).rows (s.log.take n) ↔
      Machine.Along (Flowd.step (flowPipeline out geo)) (FreshStart (flowPipeline out geo))
        Flowd.init acts := by
  have hinv : LedgerInv (flowPipeline out geo) s := by
    exact Machine.run_invariant_along (fun _ _ _ ht ha heq ↦ ht.step ha (Flowd.step_of_eq heq))
      LedgerInv.init (Machine.along_of_forall (fun a ha _ ↦ hclean a ha) _) hrun
  obtain ⟨hold, hreceived, -⟩ := hinv.clean.reached_of_doneAt hdone
  constructor
  · intro honce
    refine LedgerInv.init.fresh_of_once hclean hrun fun hdirty ↦ ?_
    have hsurplus := hdirty.surplus_of_doneAt hinv.clean hdone
    rw [Surplus, hold, hreceived, honce] at hsurplus
    exact absurd hsurplus (lt_irrefl _)
  · intro hfresh
    have honce := (FreshInv.init.run hclean hfresh hrun).once
    rwa [hold, hreceived] at honce

def readAll {Rec : Type} (n : ℕ) (last : List (FlowdAct Rec)) : List (FlowdAct Rec) :=
  .start true :: (List.replicate n .send ++ [.close] ++ List.replicate n .recv ++ .recv :: last)

/-- A flow, and later a record that raises the watermark and has no row: the
second run skips the flow. -/
def freshActs : List (FlowdAct FlowdParse.FlowRecord) :=
  [.append (flowAt 5), .append { recvSec := some 9 }] ++ readAll 2 writes ++ readAll 2 []

theorem rows_once_iff_fresh :
    (stateAfter freshActs).store.flows =
      plainPipeline.rows [flowAt 5, { recvSec := some 9 }] :=
  (rows_once_iff plainOutside plainGeo freshActs (by decide) (stateAfter freshActs) rfl 2
    ⟨_, rfl, rfl, rfl⟩).mpr (by decide +kernel)

def staleActs : List (FlowdAct FlowdParse.FlowRecord) :=
  .append (flowAt 5) :: (readAll 1 writes ++ readAll 1 writes)

/-- The flow is in the table twice. -/
theorem not_rows_once_stale :
    (∀ a ∈ staleActs, a.Clean) ∧
      Machine.run (Flowd.step plainPipeline) Flowd.init staleActs = some (stateAfter staleActs) ∧
      (stateAfter staleActs).DoneAt 1 ∧ (stateAfter staleActs).log.take 1 = [flowAt 5] ∧
      (stateAfter staleActs).store.flows = plainPipeline.rows [flowAt 5, flowAt 5] ∧
      (stateAfter staleActs).store.flows ≠ plainPipeline.rows [flowAt 5] := by
  have htwice : (stateAfter staleActs).store.flows = plainPipeline.rows [flowAt 5, flowAt 5] := rfl
  refine ⟨by decide, rfl, ⟨_, rfl, rfl, rfl⟩, rfl, htwice, fun honce ↦ ?_⟩
  rw [htwice] at honce
  exact absurd (congrArg Multiset.card honce) (by decide +kernel)

end TrafficMap.Ingestor
