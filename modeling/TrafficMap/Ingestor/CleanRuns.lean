import TrafficMap.Ingestor.Resume

/-!
# Clean runs

Runs that all end cleanly, with a Redis that answers.  Whenever nothing is under
way the watermark has caught up with every record that was read and has a row,
and each run reads at least as far as the runs before it did.
-/

namespace TrafficMap.Ingestor

variable {Rec Row Msg : Type} {P : Pipeline Rec Row Msg}

/-- Processes end by themselves, and Redis answers. -/
def FlowdAct.Clean : FlowdAct Rec → Prop
  | .start getOk => getOk = true
  | .own (.set ok) => ok = true
  | .crash => False
  | _ => True

instance : ∀ a : FlowdAct Rec, Decidable a.Clean
  | .start getOk => inferInstanceAs (Decidable (getOk = true))
  | .own (.set ok) => inferInstanceAs (Decidable (ok = true))
  | .crash => isFalse id
  | .append _ | .send | .close | .recv => isTrue trivial
  | .own .timer | .own .ctrlC | .own .pipeline | .own .insert | .own .clear => isTrue trivial

def Pipeline.Bounded (P : Pipeline Rec Row Msg) (l : List Rec) (w : ℕ) : Prop :=
  ∀ r ∈ l, P.toRow r ≠ none → ∃ rs, P.recvSec r = some rs ∧ rs ≤ w

/-- The watermark has caught up with every record that has a row. -/
def Pipeline.Settled (P : Pipeline Rec Row Msg) (l : List Rec) (watermark : Option ℕ) : Prop :=
  ∀ r ∈ l, P.toRow r ≠ none → ∃ w, watermark = some w ∧ ∃ rs, P.recvSec r = some rs ∧ rs ≤ w

/-- What a process knows of the part `old` of the log that some run has read. -/
structure CleanProc (P : Pipeline Rec Row Msg) (old : List Rec) (watermark : Option ℕ)
    (p : Process Row) : Prop where
  taken_le : p.taken ≤ old.length
  stamped : P.Stamped old p.drain.startWatermark
  bounded : P.Bounded old p.drain.maxRecv
  settled : (p.drain.batch = [] ∨ ∃ after, p.drain.phase = .clear after) → P.Settled old watermark
  closed : p.closed = true → old.length ≤ p.sent

def Flowd.old (s : Flowd Rec Row Msg) : List Rec := s.log.take s.reached

structure CleanInv (P : Pipeline Rec Row Msg) (s : Flowd Rec Row Msg) : Prop where
  base : FlowdInv P s
  reached_le : s.reached ≤ s.log.length
  stamped : P.Stamped s.old (s.store.watermark.getD 0)
  idle : s.proc = none → P.Settled s.old s.store.watermark
  proc : ∀ p, s.proc = some p → CleanProc P s.old s.store.watermark p

namespace CleanInv

variable {s s' : Flowd Rec Row Msg}

theorem length_old (h : CleanInv P s) : s.old.length = s.reached :=
  List.length_take_of_le h.reached_le

theorem init : CleanInv P (Flowd.init : Flowd Rec Row Msg) where
  base := FlowdInv.init
  reached_le := le_rfl
  stamped := Or.inl rfl
  idle := by simp [Flowd.old, Flowd.init, Pipeline.Settled]
  proc := by simp [Flowd.init]

theorem settled_of_ended (h : CleanInv P s) (hended : ∀ p, s.proc = some p → p.drain.phase.Ended) :
    P.Settled s.old s.store.watermark := by
  cases hproc : s.proc with
  | none => exact h.idle hproc
  | some p =>
      obtain ⟨after, hphase⟩ := hended p hproc
      exact (h.proc p hproc).settled (Or.inl ((h.base.drain p hproc).ended after hphase))

/-- The record a process takes next was read before, or is the first new one. -/
theorem old_record (h : CleanInv P s) {p : Process Row} (hp : s.proc = some p) {r : Rec}
    (hr : s.log[p.taken]? = some r) :
    (p.taken < s.reached ∧ max s.reached (p.taken + 1) = s.reached ∧ s.old[p.taken]? = some r) ∨
      (p.taken = s.reached ∧ max s.reached (p.taken + 1) = p.taken + 1 ∧
        s.log.take (p.taken + 1) = s.old ++ [r]) := by
  have hle := (h.proc p hp).taken_le
  rw [h.length_old] at hle
  rcases hle.lt_or_eq with hlt | heq
  · refine Or.inl ⟨hlt, by omega, ?_⟩
    rw [Flowd.old, List.getElem?_take_of_lt hlt, hr]
  · refine Or.inr ⟨heq, by omega, ?_⟩
    rw [List.take_add_one, hr, Flowd.old, heq]
    rfl

theorem not_below_of_new (h : CleanInv P s) {p : Process Row} (hp : s.proc = some p) {r : Rec}
    (hnew : p.taken = s.reached) (hr : s.log[p.taken]? = some r) :
    ¬ P.Below p.drain.startWatermark r := by
  have hlog := h.base.inOrder
  rw [← List.take_append_drop s.reached s.log] at hlog
  refine hlog.not_below (h.proc p hp).stamped ?_
  rw [hnew] at hr
  exact List.mem_of_getElem? (by rw [List.getElem?_drop, Nat.add_zero]; exact hr)

end CleanInv

theorem Drain.receive_bounds {d : Drain Row} (hsel : d.phase = .select) (r : Rec) :
    (d.receive P r).startWatermark = d.startWatermark ∧ d.maxRecv ≤ (d.receive P r).maxRecv := by
  by_cases hbelow : P.Below d.startWatermark r
  · rw [receive_of_below hbelow]
    exact ⟨rfl, le_rfl⟩
  · have hkept := kept_receive hsel hbelow
    refine ⟨hkept.startWatermark, ?_⟩
    rw [hkept.maxRecv]
    cases P.recvSec r with
    | none => exact le_rfl
    | some rs => exact le_max_left _ _

/-- Nothing waits after a record only if nothing did before and the record has
no row or was skipped. -/
theorem Drain.idle_of_receive {d : Drain Row} (hsel : d.phase = .select) {r : Rec}
    (h : (d.receive P r).batch = [] ∨ ∃ after, (d.receive P r).phase = .clear after) :
    d.batch = [] ∧ (¬ P.Below d.startWatermark r → P.toRow r = none) := by
  by_cases hbelow : P.Below d.startWatermark r
  · rw [receive_of_below hbelow, hsel] at h
    exact ⟨by simpa using h, fun hnot ↦ absurd hbelow hnot⟩
  · have hkept := kept_receive hsel hbelow
    have hbatch : (d.receive P r).batch = [] := by
      apply h.resolve_right
      rintro ⟨after, hphase⟩
      rcases hkept.phase with hphase' | hphase' <;> simp [hphase'] at hphase
    rw [hkept.batch, List.append_eq_nil_iff] at hbatch
    exact ⟨hbatch.1, fun _ ↦ by simpa using hbatch.2⟩

namespace CleanProc

variable {old : List Rec} {watermark : Option ℕ} {p : Process Row}

theorem reread (h : CleanProc P old watermark p) (hsel : p.drain.phase = .select) {r : Rec}
    (hlt : p.taken < old.length) :
    CleanProc P old watermark
      { p with drain := p.drain.receive P r, taken := p.taken + 1 } where
  taken_le := hlt
  stamped := by
    rw [(Drain.receive_bounds hsel r).1]
    exact h.stamped
  bounded := fun q hq hrow ↦ by
    obtain ⟨rs, hrs, hle⟩ := h.bounded q hq hrow
    exact ⟨rs, hrs, hle.trans (Drain.receive_bounds hsel r).2⟩
  settled := fun hidle ↦ h.settled (Or.inl (Drain.idle_of_receive hsel hidle).1)
  closed := h.closed

theorem readNew (h : CleanProc P old watermark p) (hsel : p.drain.phase = .select) {r : Rec}
    (heq : p.taken = old.length) (hsent : p.taken < p.sent)
    (hnew : ¬ P.Below p.drain.startWatermark r) :
    CleanProc P (old ++ [r]) watermark
      { p with drain := p.drain.receive P r, taken := p.taken + 1 } where
  taken_le := by simp [heq]
  stamped := by
    rw [(Drain.receive_bounds hsel r).1]
    exact h.stamped.mono (List.subset_append_left _ _)
  bounded := fun q hq hrow ↦ by
    rcases List.mem_append.mp hq with hold | hlast
    · obtain ⟨rs, hrs, hle⟩ := h.bounded q hold hrow
      exact ⟨rs, hrs, hle.trans (Drain.receive_bounds hsel r).2⟩
    · obtain rfl := List.mem_singleton.mp hlast
      obtain ⟨row, hrow⟩ := Option.ne_none_iff_exists'.mp hrow
      obtain ⟨rs, hrs⟩ := P.recvSec_of_toRow hrow
      refine ⟨rs, hrs, ?_⟩
      rw [(Drain.kept_receive hsel hnew).maxRecv, hrs]
      exact le_max_right _ _
  settled := fun hidle q hq hrow ↦ by
    obtain ⟨hbatch, hnone⟩ := Drain.idle_of_receive hsel hidle
    rcases List.mem_append.mp hq with hold | hlast
    · exact h.settled (Or.inl hbatch) q hold hrow
    · rw [List.mem_singleton.mp hlast] at hrow
      exact absurd (hnone hnew) hrow
  closed := fun _ ↦ by
    rw [List.length_append, List.length_singleton, ← heq]
    exact hsent

theorem flush (h : CleanProc P old watermark p) (after : After) :
    CleanProc P old watermark { p with drain := p.drain.flush after } where
  taken_le := h.taken_le
  stamped := by simpa using h.stamped
  bounded := by simpa using h.bounded
  settled := fun hidle ↦ h.settled (Or.inl (by
    rcases hidle with hbatch | ⟨after', hphase⟩
    · simpa using hbatch
    · dsimp only at hphase
      rw [Drain.flush] at hphase
      split at hphase
      · next hempty => simpa using hempty
      · cases hphase))
  closed := h.closed

theorem clear (h : CleanProc P old watermark p) {after : After}
    (hphase : p.drain.phase = .clear after) :
    CleanProc P old watermark { p with drain := { p.drain with batch := [] }.resume after } where
  taken_le := h.taken_le
  stamped := by simpa using h.stamped
  bounded := by simpa using h.bounded
  settled := fun _ ↦ h.settled (Or.inr ⟨after, hphase⟩)
  closed := h.closed

end CleanProc

namespace CleanInv

variable {s s' : Flowd Rec Row Msg}

/-- A step that leaves the log and what was read of it. -/
theorem withProc (h : CleanInv P s) {store : Store Row Msg} {p' : Process Row}
    (hbase : FlowdInv P { s with store := store, proc := some p' })
    (hstamped : P.Stamped s.old (store.watermark.getD 0))
    (hproc : CleanProc P s.old store.watermark p') :
    CleanInv P { s with store := store, proc := some p' } := by
  refine ⟨hbase, h.reached_le, hstamped, by simp, ?_⟩
  rintro q ⟨⟩
  exact hproc

theorem own (h : CleanInv P s) {p : Process Row} (hp : s.proc = some p) {store : Store Row Msg}
    {drain : Drain Row} {a : OwnAct} (hclean : (FlowdAct.own a : FlowdAct Rec).Clean)
    (hstep : Drain.OwnStep P s.store p.drain a store drain) :
    CleanInv P { s with store := store, proc := some { p with drain := drain } } := by
  have hproc := h.proc p hp
  have hbase := h.base.own hp hstep
  cases hstep with
  | timer hsel | ctrlC hsel => exact h.withProc hbase h.stamped (hproc.flush _)
  | pipeline after hphase | insert after hphase =>
      refine h.withProc hbase h.stamped
        ⟨hproc.taken_le, hproc.stamped, hproc.bounded, fun hidle ↦ ?_, hproc.closed⟩
      exact hproc.settled (Or.inl (hidle.resolve_right (by simp)))
  | set ok after hphase =>
      obtain rfl : ok = true := hclean
      have hstamped : P.Stamped s.old p.drain.maxRecv := by
        rcases (h.base.drain p hp).maxRecv with hmax | ⟨r, hr, hsec⟩
        · rw [hmax]
          exact hproc.stamped
        · refine Or.inr ⟨r, ?_, _, hsec, le_rfl⟩
          have htaken := hproc.taken_le
          rw [h.length_old] at htaken
          exact (List.take_sublist_take_left htaken).subset hr
      refine h.withProc hbase hstamped
        ⟨hproc.taken_le, hproc.stamped, hproc.bounded, fun _ r hr hrow ↦ ?_, hproc.closed⟩
      exact ⟨_, rfl, hproc.bounded r hr hrow⟩
  | clear after hphase => exact h.withProc hbase h.stamped (hproc.clear hphase)

theorem record (h : CleanInv P s) {p : Process Row} (hp : s.proc = some p)
    (hsel : p.drain.phase = .select) (hlt : p.taken < p.sent) {r : Rec}
    (hr : s.log[p.taken]? = some r)
    (hbase : FlowdInv P { s with
      proc := some { p with drain := p.drain.receive P r, taken := p.taken + 1 }
      reached := max s.reached (p.taken + 1) }) :
    CleanInv P { s with
      proc := some { p with drain := p.drain.receive P r, taken := p.taken + 1 }
      reached := max s.reached (p.taken + 1) } := by
  have hproc := h.proc p hp
  rcases h.old_record hp hr with ⟨hread, hmax, -⟩ | ⟨hnew, hmax, htake⟩
  · rw [hmax] at hbase ⊢
    refine h.withProc hbase h.stamped (hproc.reread hsel ?_)
    rw [h.length_old]
    exact hread
  · rw [hmax] at hbase ⊢
    refine ⟨hbase, ?_, ?_, by simp, ?_⟩
    · have := (h.base.sent_le p hp).2
      dsimp only
      omega
    · change P.Stamped (s.log.take (p.taken + 1)) _
      rw [htake]
      exact h.stamped.mono (List.subset_append_left _ _)
    · rintro q ⟨⟩
      change CleanProc P (s.log.take (p.taken + 1)) _ _
      rw [htake]
      exact hproc.readNew hsel (by rw [h.length_old]; exact hnew) hlt
        (h.not_below_of_new hp hnew hr)

theorem step (h : CleanInv P s) {a : FlowdAct Rec} (hclean : a.Clean)
    (hstep : Flowd.Step P s a s') : CleanInv P s' := by
  have hbase := h.base.step hstep
  cases hstep with
  | append r hord =>
      have hold : ({ s with log := s.log ++ [r] } : Flowd Rec Row Msg).old = s.old :=
        List.take_append_of_le_length h.reached_le
      refine ⟨hbase, ?_, ?_, ?_, ?_⟩
      · change s.reached ≤ (s.log ++ [r]).length
        rw [List.length_append]
        exact h.reached_le.trans (Nat.le_add_right _ _)
      · rw [hold]
        exact h.stamped
      · rw [hold]
        exact h.idle
      · rw [hold]
        exact h.proc
  | start getOk hended =>
      obtain rfl : getOk = true := hclean
      have hsettled := h.settled_of_ended hended
      refine h.withProc hbase h.stamped
        ⟨Nat.zero_le _, h.stamped, fun r hr hrow ↦ ?_, fun _ ↦ hsettled, fun hclosed ↦ ?_⟩
      · obtain ⟨w, hw, rs, hrs, hle⟩ := hsettled r hr hrow
        refine ⟨rs, hrs, ?_⟩
        change rs ≤ s.store.watermark.getD 0
        rw [hw]
        exact hle
      · cases hclosed
  | send p hp hlt hopen =>
      have hproc := h.proc p hp
      exact h.withProc hbase h.stamped ⟨hproc.taken_le, hproc.stamped, hproc.bounded, hproc.settled,
        fun hclosed ↦ (hproc.closed hclosed).trans (Nat.le_succ _)⟩
  | close p hp hall =>
      have hproc := h.proc p hp
      refine h.withProc hbase h.stamped
        ⟨hproc.taken_le, hproc.stamped, hproc.bounded, hproc.settled, fun _ ↦ ?_⟩
      have := h.reached_le
      rw [← h.length_old, ← hall] at this
      exact this
  | record p r hp hsel hlt hr => exact h.record hp hsel hlt hr hbase
  | eof p hp hsel hle hclosed =>
      exact h.withProc hbase h.stamped ((h.proc p hp).flush .eof)
  | own a p store drain hp hown => exact h.own hp hclean hown
  | crash => exact absurd hclean id

end CleanInv

end TrafficMap.Ingestor
