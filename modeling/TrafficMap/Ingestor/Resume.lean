import TrafficMap.Ingestor.Flowd

/-!
# Nothing is lost across restarts

The watermark in Redis never overtakes the table: every accepted record stamped
before it is there.  A process adds to what lies below its watermark the
records it took from the log, less those still in its batch, so the watermark
it writes after an INSERT is again covered.
-/

namespace TrafficMap.Ingestor

variable {Rec Row Msg : Type} {P : Pipeline Rec Row Msg}

/-! ## Logs in order -/

namespace Pipeline

def Stamped (P : Pipeline Rec Row Msg) (log : List Rec) (w : ℕ) : Prop :=
  w = 0 ∨ ∃ r ∈ log, ∃ rs, P.recvSec r = some rs ∧ w ≤ rs

theorem Stamped.mono {log log' : List Rec} {w : ℕ} (h : P.Stamped log w) (hsub : log ⊆ log') :
    P.Stamped log' w :=
  h.imp_right fun ⟨r, hr, hrs⟩ ↦ ⟨r, hsub hr, hrs⟩

theorem InOrder.le {l l' : List Rec} (h : P.InOrder (l ++ l')) {r r' : Rec} (hr : r ∈ l)
    (hr' : r' ∈ l') {rs rs' : ℕ} (hrs : P.recvSec r = some rs) (hrs' : P.recvSec r' = some rs') :
    rs ≤ rs' := by
  rw [InOrder, List.filterMap_append, List.pairwise_append] at h
  exact h.2.2 rs (List.mem_filterMap.mpr ⟨r, hr, hrs⟩) rs' (List.mem_filterMap.mpr ⟨r', hr', hrs'⟩)

theorem InOrder.not_below {l l' : List Rec} (h : P.InOrder (l ++ l')) {w : ℕ}
    (hw : P.Stamped l w) {r : Rec} (hr : r ∈ l') : ¬ P.Below w r := by
  rintro ⟨rs, hrs, hlt⟩
  rcases hw with rfl | ⟨q, hq, qs, hqs, hle⟩
  · exact absurd hlt (Nat.not_lt_zero rs)
  · exact absurd (h.le hq hr hqs hrs) (by omega)

theorem InOrder.filter_below {l l' : List Rec} (h : P.InOrder (l ++ l')) {w : ℕ}
    (hw : P.Stamped l w) :
    ((l ++ l').filter fun r ↦ P.Below w r) = l.filter fun r ↦ P.Below w r := by
  have hnil : (l'.filter fun r ↦ P.Below w r) = [] := by
    rw [List.filter_eq_nil_iff]
    intro r hr
    simpa using h.not_below hw hr
  rw [List.filter_append, hnil, List.append_nil]

end Pipeline

/-! ## The invariant -/

def Phase.after : Phase → Option After
  | .select => none
  | .pipeline after | .insert after | .set after | .clear after | .ended after => some after

/-- What a process knows: its watermark and its maximum are stamps of the log,
and what lies below the watermark or was taken since is in the table or in the
batch. -/
structure DrainInv (P : Pipeline Rec Row Msg) (log : List Rec) (flows : Multiset Row)
    (taken : ℕ) (d : Drain Row) : Prop where
  stamped : P.Stamped log d.startWatermark
  maxRecv : d.maxRecv = d.startWatermark ∨ ∃ r ∈ log.take taken, P.recvSec r = some d.maxRecv
  kept : P.rows (log.filter fun r ↦ P.Below d.startWatermark r) +
    P.rows ((log.take taken).filter fun r ↦ ¬ P.Below d.startWatermark r) ≤ flows + d.pending
  ended : ∀ after, d.phase = .ended after → d.batch = []

structure FlowdInv (P : Pipeline Rec Row Msg) (s : Flowd Rec Row Msg) : Prop where
  inOrder : P.InOrder s.log
  stamped : P.Stamped s.log (s.store.watermark.getD 0)
  covers : P.rows (s.log.filter fun r ↦ P.Below (s.store.watermark.getD 0) r) ≤ s.store.flows
  sent_le : ∀ p, s.proc = some p → p.taken ≤ p.sent ∧ p.sent ≤ s.log.length
  eof : ∀ p, s.proc = some p → p.drain.phase.after = some .eof → p.closed = true ∧ p.sent ≤ p.taken
  drain : ∀ p, s.proc = some p → DrainInv P s.log s.store.flows p.taken p.drain

namespace DrainInv

variable {log : List Rec} {flows : Multiset Row} {taken : ℕ} {d : Drain Row}

theorem start {watermark : Option ℕ} (hstamped : P.Stamped log (watermark.getD 0))
    (hcovers : P.rows (log.filter fun r ↦ P.Below (watermark.getD 0) r) ≤ flows) :
    DrainInv P log flows 0 (.start watermark) where
  stamped := hstamped
  maxRecv := Or.inl rfl
  kept := by
    change P.rows (log.filter fun r ↦ P.Below (watermark.getD 0) r) + 0 ≤ flows + 0
    simpa using hcovers
  ended := by simp [Drain.start]

theorem append (h : DrainInv P log flows taken d) {r : Rec} (hlog : P.InOrder (log ++ [r]))
    (htaken : taken ≤ log.length) : DrainInv P (log ++ [r]) flows taken d where
  stamped := h.stamped.mono (List.subset_append_left log [r])
  maxRecv := by
    rw [List.take_append_of_le_length htaken]
    exact h.maxRecv
  kept := by
    rw [List.take_append_of_le_length htaken, hlog.filter_below h.stamped]
    exact h.kept
  ended := h.ended

theorem flush (h : DrainInv P log flows taken d) (hsel : d.phase = .select) (after : After) :
    DrainInv P log flows taken (d.flush after) where
  stamped := by simpa using h.stamped
  maxRecv := by simpa using h.maxRecv
  kept := by
    have hkept := h.kept
    rw [Drain.pending_select hsel] at hkept
    simpa using hkept
  ended := by
    intro after' hended
    simpa using Drain.batch_of_ended_flush hended

theorem receive (h : DrainInv P log flows taken d) (hsel : d.phase = .select) {r : Rec}
    (hr : log[taken]? = some r) : DrainInv P log flows (taken + 1) (d.receive P r) := by
  have htake : log.take (taken + 1) = log.take taken ++ [r] := by
    rw [List.take_add_one, hr]
    rfl
  by_cases hbelow : P.Below d.startWatermark r
  · rw [Drain.receive_of_below hbelow]
    refine ⟨h.stamped, ?_, ?_, ?_⟩
    · refine h.maxRecv.imp_right fun ⟨q, hq, hqs⟩ ↦ ⟨q, ?_, hqs⟩
      rw [htake]
      exact List.mem_append_left _ hq
    · simpa [htake, List.filter_append, hbelow] using h.kept
    · simp [hsel]
  · have hkept := Drain.kept_receive hsel hbelow
    have hphase := hkept.phase
    refine ⟨hkept.startWatermark ▸ h.stamped, ?_, ?_, ?_⟩
    · rw [hkept.maxRecv, hkept.startWatermark, htake]
      cases hsec : P.recvSec r with
      | none =>
          refine h.maxRecv.imp_right fun ⟨q, hq, hqs⟩ ↦ ⟨q, List.mem_append_left _ hq, hqs⟩
      | some rs =>
          rcases le_total rs d.maxRecv with hle | hle
          · rw [Option.elim_some, max_eq_left hle]
            exact h.maxRecv.imp_right fun ⟨q, hq, hqs⟩ ↦ ⟨q, List.mem_append_left _ hq, hqs⟩
          · rw [Option.elim_some, max_eq_right hle]
            exact Or.inr ⟨r, by simp, hsec⟩
    · rw [hkept.startWatermark, hkept.pending, htake, List.filter_append, P.rows_append,
        ← add_assoc, ← add_assoc]
      refine add_le_add h.kept ?_
      simp [hbelow]
    · intro after hended
      rcases hphase with hphase | hphase <;> simp [hphase] at hended

theorem own (h : DrainInv P log flows taken d) {st st' : Store Row Msg} {d' : Drain Row}
    {a : OwnAct} (hflows : st.flows = flows) (hstep : Drain.OwnStep P st d a st' d') :
    DrainInv P log st'.flows taken d' := by
  subst hflows
  cases hstep with
  | timer hsel | ctrlC hsel => exact h.flush hsel _
  | pipeline after hphase =>
      refine ⟨h.stamped, h.maxRecv, ?_, by simp⟩
      simpa [Drain.pending, hphase] using h.kept
  | insert after hphase =>
      refine ⟨h.stamped, h.maxRecv, ?_, by simp⟩
      simpa [Drain.pending, hphase] using h.kept
  | set ok after hphase =>
      refine ⟨h.stamped, h.maxRecv, ?_, by simp⟩
      cases ok <;> simpa [Drain.pending, hphase] using h.kept
  | clear after hphase =>
      refine ⟨by simpa using h.stamped, by simpa using h.maxRecv, ?_, by simp⟩
      have hpending : ({ d with batch := ([] : List Row) }.resume after).pending = 0 :=
        Drain.pending_resume _ after
      rw [hpending]
      simpa [Drain.pending, hphase] using h.kept

/-- Everything stamped before the maximum is in the table once the batch is. -/
theorem covers (h : DrainInv P log flows taken d) (hlog : P.InOrder log)
    (hpending : d.pending = 0) : P.rows (log.filter fun r ↦ P.Below d.maxRecv r) ≤ flows := by
  have hkept := h.kept
  rw [hpending, add_zero] at hkept
  rcases h.maxRecv with hmax | ⟨r, hr, hsec⟩
  · rw [hmax]
    exact (Multiset.le_add_right _ _).trans hkept
  · have hstamped : P.Stamped (log.take taken) d.maxRecv := Or.inr ⟨r, hr, d.maxRecv, hsec, le_rfl⟩
    have htaken : (log.filter fun r ↦ P.Below d.maxRecv r) =
        (log.take taken).filter fun r ↦ P.Below d.maxRecv r := by
      have hlog' := hlog
      rw [← List.take_append_drop taken log] at hlog'
      have := hlog'.filter_below hstamped
      rwa [List.take_append_drop] at this
    calc
      P.rows (log.filter fun r ↦ P.Below d.maxRecv r)
          = P.rows ((log.take taken).filter fun r ↦ P.Below d.maxRecv r) := by rw [htaken]
      _ ≤ P.rows (log.take taken) := P.rows_le_of_sublist List.filter_sublist
      _ = P.rows ((log.take taken).filter fun r ↦ P.Below d.startWatermark r) +
          P.rows ((log.take taken).filter fun r ↦ ¬ P.Below d.startWatermark r) :=
        (P.rows_filter_add _ _).symm
      _ ≤ P.rows (log.filter fun r ↦ P.Below d.startWatermark r) +
          P.rows ((log.take taken).filter fun r ↦ ¬ P.Below d.startWatermark r) :=
        add_le_add_left (P.rows_le_of_sublist ((List.take_sublist taken log).filter _)) _
      _ ≤ flows := hkept

theorem stamped_maxRecv (h : DrainInv P log flows taken d) : P.Stamped log d.maxRecv := by
  rcases h.maxRecv with hmax | ⟨r, hr, hsec⟩
  · rw [hmax]
    exact h.stamped
  · exact Or.inr ⟨r, List.mem_of_mem_take hr, d.maxRecv, hsec, le_rfl⟩

end DrainInv

/-! ## Every run keeps the invariant -/

theorem Drain.eof_of_flush {d : Drain Row} {after : After}
    (h : (d.flush after).phase.after = some .eof) : after = .eof := by
  rw [flush] at h
  split at h
  · cases after <;> simp_all [resume, Phase.after]
  · simpa [Phase.after] using h

theorem Drain.eof_of_receive {d : Drain Row} {r : Rec} (hsel : d.phase = .select) :
    (d.receive P r).phase.after ≠ some .eof := by
  by_cases hbelow : P.Below d.startWatermark r
  · simp [receive_of_below hbelow, hsel, Phase.after]
  · rcases (kept_receive hsel hbelow).phase with hphase | hphase <;> simp [hphase, Phase.after]

theorem Drain.OwnStep.eof {st st' : Store Row Msg} {d d' : Drain Row} {a : OwnAct}
    (h : OwnStep P st d a st' d')
    (heof : d'.phase.after = some .eof) : d.phase.after = some .eof := by
  cases h with
  | timer hsel | ctrlC hsel => exact absurd (eof_of_flush heof) (by simp)
  | pipeline after hphase | insert after hphase | set ok after hphase => rwa [hphase]
  | clear after hphase =>
      rw [hphase]
      cases after <;> simp_all [resume, Phase.after]

namespace FlowdInv

variable {s s' : Flowd Rec Row Msg}

theorem init : FlowdInv P (Flowd.init : Flowd Rec Row Msg) where
  inOrder := List.Pairwise.nil
  stamped := Or.inl rfl
  covers := le_rfl
  sent_le := by simp [Flowd.init]
  eof := by simp [Flowd.init]
  drain := by simp [Flowd.init]

theorem withProc (h : FlowdInv P s) {p' : Process Row} {reached : ℕ}
    (hsent : p'.taken ≤ p'.sent ∧ p'.sent ≤ s.log.length)
    (heof : p'.drain.phase.after = some .eof → p'.closed = true ∧ p'.sent ≤ p'.taken)
    (hdrain : DrainInv P s.log s.store.flows p'.taken p'.drain) :
    FlowdInv P { s with proc := some p', reached := reached } := by
  refine ⟨h.inOrder, h.stamped, h.covers, ?_, ?_, ?_⟩ <;> rintro q ⟨⟩
  · exact hsent
  · exact heof
  · exact hdrain

theorem own (h : FlowdInv P s) {p : Process Row} (hp : s.proc = some p) {store : Store Row Msg}
    {drain : Drain Row} {a : OwnAct} (hstep : Drain.OwnStep P s.store p.drain a store drain) :
    FlowdInv P { s with store := store, proc := some { p with drain := drain } } := by
  have hinv := h.drain p hp
  refine ⟨h.inOrder, ?_, ?_, ?_, ?_, ?_⟩
  · cases hstep with
    | set ok after hphase =>
        cases ok
        · exact h.stamped
        · exact hinv.stamped_maxRecv
    | timer | ctrlC | pipeline | insert | clear => exact h.stamped
  · cases hstep with
    | insert after hphase => exact h.covers.trans (Multiset.le_add_right _ _)
    | set ok after hphase =>
        cases ok
        · exact h.covers
        · exact hinv.covers h.inOrder (by simp [Drain.pending, hphase])
    | timer | ctrlC | pipeline | clear => exact h.covers
  · rintro q ⟨⟩
    exact h.sent_le p hp
  · rintro q ⟨⟩ heof
    exact h.eof p hp (hstep.eof heof)
  · rintro q ⟨⟩
    exact hinv.own rfl hstep

theorem drainInv_start (h : FlowdInv P s) (getOk : Bool) :
    DrainInv P s.log s.store.flows 0 (.start (if getOk then s.store.watermark else none)) := by
  cases getOk
  · refine DrainInv.start (Or.inl rfl) ?_
    have hnil : (s.log.filter fun r ↦ P.Below ((none : Option ℕ).getD 0) r) = [] := by
      rw [List.filter_eq_nil_iff]
      rintro r -
      simp [Pipeline.Below]
    change P.rows (s.log.filter fun r ↦ P.Below ((none : Option ℕ).getD 0) r) ≤ _
    rw [hnil]
    exact Multiset.zero_le _
  · exact DrainInv.start h.stamped h.covers

theorem step (h : FlowdInv P s) {a : FlowdAct Rec} (hstep : Flowd.Step P s a s') :
    FlowdInv P s' := by
  cases hstep with
  | append r hord =>
      refine ⟨hord, h.stamped.mono (List.subset_append_left _ _), ?_, fun p hp ↦ ?_, h.eof,
        fun p hp ↦ (h.drain p hp).append hord ((h.sent_le p hp).1.trans (h.sent_le p hp).2)⟩
      · rw [hord.filter_below h.stamped]
        exact h.covers
      · refine (h.sent_le p hp).imp_right fun hle ↦ hle.trans ?_
        rw [List.length_append]
        omega
  | start getOk hended =>
      exact h.withProc ⟨le_rfl, Nat.zero_le _⟩
        (by simp [Process.start, Drain.start, Phase.after]) (h.drainInv_start getOk)
  | send p hp hlt hopen =>
      have hsent := h.sent_le p hp
      refine h.withProc ⟨by dsimp only; omega, hlt⟩ (fun heof ↦ ?_) (h.drain p hp)
      rw [(h.eof p hp heof).1] at hopen
      cases hopen
  | close p hp hall =>
      exact h.withProc (h.sent_le p hp) (fun heof ↦ ⟨rfl, (h.eof p hp heof).2⟩) (h.drain p hp)
  | record p r hp hsel hlt hr =>
      exact h.withProc ⟨hlt, (h.sent_le p hp).2⟩
        (fun heof ↦ absurd heof (Drain.eof_of_receive hsel)) ((h.drain p hp).receive hsel hr)
  | eof p hp hsel hle hclosed =>
      exact h.withProc (h.sent_le p hp) (fun _ ↦ ⟨hclosed, hle⟩) ((h.drain p hp).flush hsel .eof)
  | own a p store drain hp hown => exact h.own hp hown
  | crash => exact ⟨h.inOrder, h.stamped, h.covers, by simp, by simp, by simp⟩

theorem run {acts : List (FlowdAct Rec)} (h : FlowdInv P s)
    (hrun : Machine.run (Flowd.step P) s acts = some s') : FlowdInv P s' :=
  Machine.run_invariant (fun _ _ _ hs heq ↦ hs.step (Flowd.step_of_eq heq)) h hrun

/-- A run that reached the end of its input has every row in the table. -/
theorem rows_le_of_doneAt (h : FlowdInv P s) {n : ℕ} (hdone : s.DoneAt n) :
    P.rows (s.log.take n) ≤ s.store.flows := by
  obtain ⟨p, hp, hphase, rfl⟩ := hdone
  have hinv := h.drain p hp
  have hkept := hinv.kept
  have hall := (h.eof p hp (by rw [hphase]; rfl)).2
  have hpending : p.drain.pending = 0 := by
    rw [Drain.pending, hphase]
    exact congrArg _ (hinv.ended .eof hphase)
  rw [hpending, add_zero] at hkept
  calc
    P.rows (s.log.take p.sent) ≤ P.rows (s.log.take p.taken) :=
      P.rows_le_of_sublist (List.take_sublist_take_left hall)
    _ = _ := (P.rows_filter_add (P.Below p.drain.startWatermark) _).symm
    _ ≤ _ := add_le_add_left (P.rows_le_of_sublist ((List.take_sublist p.taken s.log).filter _)) _
    _ ≤ s.store.flows := hkept

end FlowdInv

theorem flows_le_of_run {s s' : Flowd Rec Row Msg} {acts : List (FlowdAct Rec)}
    (hrun : Machine.run (Flowd.step P) s acts = some s') : s.store.flows ≤ s'.store.flows := by
  refine Machine.run_invariant (I := fun t ↦ s.store.flows ≤ t.store.flows)
    (fun t a t' ht heq ↦ ht.trans ?_) le_rfl hrun
  cases Flowd.step_of_eq heq with
  | own a p store drain hp hown =>
      cases hown with
      | insert after hphase => exact Multiset.le_add_right _ _
      | set ok after hphase => cases ok <;> exact le_rfl
      | timer | ctrlC | pipeline | clear => exact le_rfl
  | append | start | send | close | record | eof | crash => exact le_rfl

/-! ## The stream is written first -/

/-- Each row of the table, and of a batch about to be inserted, was added to the
stream. -/
structure StreamInv (P : Pipeline Rec Row Msg) (s : Flowd Rec Row Msg) : Prop where
  flows : s.store.flows.map P.json ≤ s.store.stream
  inserting : ∀ p, s.proc = some p → ∀ after, p.drain.phase = .insert after →
    (s.store.flows + p.drain.batch).map P.json ≤ s.store.stream

namespace StreamInv

variable {s s' : Flowd Rec Row Msg}

theorem own (h : StreamInv P s) {p : Process Row} (hp : s.proc = some p) {store : Store Row Msg}
    {drain : Drain Row} {a : OwnAct} (hstep : Drain.OwnStep P s.store p.drain a store drain) :
    StreamInv P { s with store := store, proc := some { p with drain := drain } } := by
  cases hstep with
  | timer hsel | ctrlC hsel =>
      refine ⟨h.flows, ?_⟩
      rintro q ⟨⟩ after hphase
      dsimp only at hphase
      rw [Drain.flush] at hphase
      split at hphase <;> cases hphase
  | pipeline after hphase =>
      have hstream : s.store.flows.map P.json + (p.drain.batch.map P.json : List Msg) ≤
          ((s.store.stream ++ p.drain.batch.map P.json : List Msg) : Multiset Msg) := by
        rw [← Multiset.coe_add]
        exact add_le_add_left h.flows _
      refine ⟨(Multiset.le_add_right _ _).trans hstream, ?_⟩
      rintro q ⟨⟩ after' -
      simpa using hstream
  | insert after hphase =>
      refine ⟨h.inserting p hp after hphase, ?_⟩
      rintro q ⟨⟩ after' hphase'
      cases hphase'
  | set ok after hphase =>
      refine ⟨by cases ok <;> exact h.flows, ?_⟩
      rintro q ⟨⟩ after' hphase'
      cases hphase'
  | clear after hphase =>
      refine ⟨h.flows, ?_⟩
      rintro q ⟨⟩ after' hphase'
      cases after <;> cases hphase'

theorem step (h : StreamInv P s) {a : FlowdAct Rec} (hstep : Flowd.Step P s a s') :
    StreamInv P s' := by
  cases hstep with
  | append r hord => exact ⟨h.flows, h.inserting⟩
  | start getOk hended =>
      refine ⟨h.flows, ?_⟩
      rintro q ⟨⟩ after hphase
      cases hphase
  | send p hp | close p hp =>
      refine ⟨h.flows, ?_⟩
      rintro q ⟨⟩
      exact h.inserting p hp
  | record p r hp hsel hlt hr =>
      refine ⟨h.flows, ?_⟩
      rintro q ⟨⟩ after hphase
      by_cases hbelow : P.Below p.drain.startWatermark r
      · simp [Drain.receive_of_below hbelow, hsel] at hphase
      · rcases (Drain.kept_receive hsel hbelow).phase with hphase' | hphase' <;>
          simp [hphase'] at hphase
  | eof p hp hsel hle hclosed =>
      refine ⟨h.flows, ?_⟩
      rintro q ⟨⟩ after hphase
      dsimp only at hphase
      rw [Drain.flush] at hphase
      split at hphase <;> cases hphase
  | own a p store drain hp hown => exact h.own hp hown
  | crash => exact ⟨h.flows, by simp⟩

theorem run {acts : List (FlowdAct Rec)} (h : StreamInv P s)
    (hrun : Machine.run (Flowd.step P) s acts = some s') : StreamInv P s' :=
  Machine.run_invariant (fun _ _ _ hs heq ↦ hs.step (Flowd.step_of_eq heq)) h hrun

end StreamInv

/-! ## Flowd logs -/

/-- A closed channel has had the whole log, and that stays the input of the
run. -/
theorem input_of_close {s s₁ s₂ : Flowd Rec Row Msg} {acts : List (FlowdAct Rec)} {n : ℕ}
    (hclose : s.step P .close = some s₁) (hsame : ∀ a ∈ acts, a.SameRun)
    (hrun : Machine.run (Flowd.step P) s₁ acts = some s₂) (hdone : s₂.DoneAt n) :
    s₂.log.take n = s.log := by
  have hclosed : s.log <+: s₂.log ∧
      ∃ p, s₂.proc = some p ∧ p.closed = true ∧ p.sent = s.log.length := by
    refine Machine.run_invariant_along (P := fun _ a ↦ a.SameRun)
      (I := fun t ↦ s.log <+: t.log ∧
        ∃ p, t.proc = some p ∧ p.closed = true ∧ p.sent = s.log.length)
      ?_ ?_ (Machine.along_of_forall (fun a ha _ ↦ hsame a ha) s₁) hrun
    · rintro t a t' ⟨hlog, p, hp, hclosed, hsent⟩ ha heq
      cases Flowd.step_of_eq heq with
      | append r hord => exact ⟨hlog.trans (List.prefix_append _ _), p, hp, hclosed, hsent⟩
      | start => exact absurd ha id
      | crash => exact absurd ha id
      | send q hq hlt hopen =>
          obtain rfl : q = p := Option.some.inj (hq.symm.trans hp)
          rw [hclosed] at hopen
          cases hopen
      | close q hq | record q _ hq | eof q hq | own _ q _ _ hq =>
          obtain rfl : q = p := Option.some.inj (hq.symm.trans hp)
          exact ⟨hlog, _, rfl, by simp [hclosed], hsent⟩
    · cases Flowd.step_of_eq hclose with
      | close p hp hall => exact ⟨List.prefix_rfl, _, rfl, rfl, hall⟩
  obtain ⟨hlog, p, hp, -, hsent⟩ := hclosed
  obtain ⟨q, hq, -, rfl⟩ := hdone
  obtain rfl : q = p := Option.some.inj (hq.symm.trans hp)
  rw [hsent]
  exact (List.prefix_iff_eq_take.mp hlog).symm

/-- Whatever crashes, failures and restarts came before, each row of the table
was added to the stream first; and when a run finds the end of the log and its
final flush succeeds, the rows of all the log's records are in the table, and
they stay there. -/
theorem no_flow_lost (out : Outside) (geo : Geo.GeoResolver)
    (acts : List (FlowdAct FlowdParse.FlowRecord)) (s : Flowd FlowdParse.FlowRecord FlowRow Json)
    (hrun : Machine.run (Flowd.step (flowPipeline out geo)) Flowd.init acts = some s) :
    s.store.flows.map FlowRow.json ≤ s.store.stream ∧
      ∀ s₁, s.step (flowPipeline out geo) .close = some s₁ →
        ∀ acts₁, (∀ a ∈ acts₁, a.SameRun) → ∀ s₂ n,
          Machine.run (Flowd.step (flowPipeline out geo)) s₁ acts₁ = some s₂ → s₂.DoneAt n →
            ∀ acts' s', Machine.run (Flowd.step (flowPipeline out geo)) s₂ acts' = some s' →
              (flowPipeline out geo).rows s.log ≤ s'.store.flows := by
  have hstream : StreamInv (flowPipeline out geo) s :=
    StreamInv.run ⟨le_rfl, by simp [Flowd.init]⟩ hrun
  refine ⟨hstream.flows, fun s₁ hclose acts₁ hsame s₂ n hrun₁ hdone acts' s' hrun' ↦ ?_⟩
  have hrun₂ : Machine.run (Flowd.step (flowPipeline out geo)) Flowd.init
      (acts ++ .close :: acts₁) = some s₂ :=
    Machine.run_append.mpr ⟨s, hrun, Machine.run_cons.mpr ⟨s₁, hclose, hrun₁⟩⟩
  have hrows := (FlowdInv.init.run hrun₂).rows_le_of_doneAt hdone
  rw [input_of_close hclose hsame hrun₁ hdone] at hrows
  exact hrows.trans (flows_le_of_run hrun')

/-! ## Three flows -/

def flowAt (sec : UInt32) : FlowdParse.FlowRecord :=
  { recvSec := some sec, srcAddr := some (.v4 ⟨1⟩), dstAddr := some (.v4 ⟨2⟩),
    packets := some 1, octets := some 100 }

def stateAfter (acts : List (FlowdAct FlowdParse.FlowRecord)) :
    Flowd FlowdParse.FlowRecord FlowRow Json :=
  (Machine.run (Flowd.step plainPipeline) Flowd.init acts).getD Flowd.init

def writes {Rec : Type} : List (FlowdAct Rec) :=
  [.own .pipeline, .own .insert, .own (.set true), .own .clear]

/-- Of three flows the first is written with its watermark; the process stops behind the
INSERT of the second, and the next one reads the log from the start. -/
def crashActs : List (FlowdAct FlowdParse.FlowRecord) :=
  [.append (flowAt 5), .append (flowAt 7), .append (flowAt 9), .start true, .send, .send, .recv,
    .own .timer] ++ writes ++
    [.recv, .own .timer, .own .pipeline, .own .insert, .crash, .start true, .send, .send, .send]

def readToEnd : List (FlowdAct FlowdParse.FlowRecord) :=
  [.recv, .recv, .own .timer] ++ writes ++ [.recv, .recv] ++ writes

/-- All three are in the table behind the second run, and behind another crash. -/
theorem no_flow_lost_crash :
    (stateAfter crashActs).store.flows = plainPipeline.rows [flowAt 5, flowAt 7] ∧
      (stateAfter crashActs).store.flows.map FlowRow.json ≤ (stateAfter crashActs).store.stream ∧
      plainPipeline.rows [flowAt 5, flowAt 7, flowAt 9] ≤
        (stateAfter (crashActs ++ .close :: readToEnd ++ [.crash])).store.flows := by
  have hlost := no_flow_lost plainOutside plainGeo crashActs (stateAfter crashActs) rfl
  refine ⟨rfl, hlost.1, ?_⟩
  exact hlost.2 (stateAfter (crashActs ++ [.close])) rfl readToEnd (by decide)
    (stateAfter (crashActs ++ .close :: readToEnd)) 3 rfl ⟨_, rfl, rfl, rfl⟩ [.crash] _ rfl

end TrafficMap.Ingestor
