import TrafficMap.Lib.BigEndian

/-!
# Optional results over indexing that may panic

A slice is read either through `get`, which answers `none` outside its bounds,
or by raw indexing, which panics there.  A computation that mixes the two
returns some value, returns none, or panics; `NoPanic` excludes the third
outcome and is computed through `bind` by the rules below.
-/

namespace Wire

structure Panic where
  index : ℕ
  length : ℕ
deriving DecidableEq, Repr

/-- Some value, none, or a panic. -/
abbrev Checked := OptionT (Except Panic)

namespace Checked

/-- Raw indexing, `b[i]`. -/
def index (b : Bytes) (i : ℕ) : Checked UInt8 :=
  if h : i < b.length then pure b[i] else OptionT.mk (.error ⟨i, b.length⟩)

def slice (b : Bytes) (lo hi : ℕ) : Checked Bytes :=
  if hi ≤ b.length then pure ((b.take hi).drop lo) else OptionT.mk (.error ⟨hi, b.length⟩)

/-- `b.get(i)`. -/
def get (b : Bytes) (i : ℕ) : Checked UInt8 :=
  OptionT.mk (.ok b[i]?)

def getRange (b : Bytes) (lo hi : ℕ) : Checked Bytes :=
  if hi ≤ b.length then pure ((b.take hi).drop lo) else failure

def getFrom (b : Bytes) (lo : ℕ) : Checked Bytes :=
  if lo ≤ b.length then pure (b.drop lo) else failure

/-! ## Outcomes of the readers -/

theorem run_index {b : Bytes} {i : ℕ} (h : i < b.length) :
    (index b i).run = .ok (some b[i]) := by
  rw [index, dif_pos h]
  rfl

theorem run_index_of_le {b : Bytes} {i : ℕ} (h : b.length ≤ i) :
    (index b i).run = .error ⟨i, b.length⟩ := by
  rw [index, dif_neg (by omega)]
  rfl

theorem run_slice {b : Bytes} {lo hi : ℕ} (h : hi ≤ b.length) :
    (slice b lo hi).run = .ok (some ((b.take hi).drop lo)) := by
  rw [slice, if_pos h]
  rfl

theorem run_slice_of_lt {b : Bytes} {lo hi : ℕ} (h : b.length < hi) :
    (slice b lo hi).run = .error ⟨hi, b.length⟩ := by
  rw [slice, if_neg (by omega)]
  rfl

theorem run_get (b : Bytes) (i : ℕ) : (get b i).run = .ok b[i]? := rfl

theorem run_getRange {b : Bytes} {lo hi : ℕ} (h : hi ≤ b.length) :
    (getRange b lo hi).run = .ok (some ((b.take hi).drop lo)) := by
  rw [getRange, if_pos h]
  rfl

theorem run_getRange_of_lt {b : Bytes} {lo hi : ℕ} (h : b.length < hi) :
    (getRange b lo hi).run = .ok none := by
  rw [getRange, if_neg (by omega)]
  rfl

theorem run_getFrom {b : Bytes} {lo : ℕ} (h : lo ≤ b.length) :
    (getFrom b lo).run = .ok (some (b.drop lo)) := by
  rw [getFrom, if_pos h]
  rfl

theorem run_getFrom_of_lt {b : Bytes} {lo : ℕ} (h : b.length < lo) :
    (getFrom b lo).run = .ok none := by
  rw [getFrom, if_neg (by omega)]
  rfl

/-! ## Some value -/

section Some

variable {α β : Type}

theorem run_pure_eq_some {a b : α} : (pure a : Checked α).run = .ok (some b) ↔ a = b := by
  constructor
  · intro h
    exact Option.some.inj (Except.ok.inj h)
  · rintro rfl
    rfl

theorem run_bind_eq_some {x : Checked α} {f : α → Checked β} {b : β} :
    (x >>= f).run = .ok (some b) ↔ ∃ a, x.run = .ok (some a) ∧ (f a).run = .ok (some b) := by
  rw [OptionT.run_bind]
  constructor
  · intro h
    cases hx : x.run with
    | error p =>
        rw [hx] at h
        cases h
    | ok o =>
        rw [hx] at h
        cases o with
        | none => cases h
        | some a => exact ⟨a, rfl, h⟩
  · rintro ⟨a, hx, hf⟩
    rw [hx]
    exact hf

theorem run_failure_bind_ne_some {f : α → Checked β} {b : β} :
    ((failure : Checked α) >>= f).run ≠ .ok (some b) := by
  intro h
  obtain ⟨a, ha, -⟩ := run_bind_eq_some.mp h
  cases ha

theorem run_index_eq_some {b : Bytes} {i : ℕ} {x : UInt8} :
    (index b i).run = .ok (some x) ↔ i < b.length ∧ b.getD i 0 = x := by
  by_cases h : i < b.length
  · rw [run_index h]
    simp [List.getD, h]
  · rw [run_index_of_le (not_lt.mp h)]
    simp [h]

theorem run_get_eq_some {b : Bytes} {i : ℕ} {x : UInt8} :
    (get b i).run = .ok (some x) ↔ i < b.length ∧ b.getD i 0 = x := by
  by_cases h : i < b.length
  · rw [run_get, List.getElem?_eq_getElem h]
    simp [List.getD, h]
  · rw [run_get, List.getElem?_eq_none (not_lt.mp h)]
    simp [h]

theorem run_getFrom_eq_some {b c : Bytes} {lo : ℕ} :
    (getFrom b lo).run = .ok (some c) ↔ lo ≤ b.length ∧ b.drop lo = c := by
  by_cases h : lo ≤ b.length
  · rw [run_getFrom h]
    simp [h]
  · rw [run_getFrom_of_lt (not_le.mp h)]
    simp [h]

theorem run_getRange_eq_some {b c : Bytes} {lo hi : ℕ} :
    (getRange b lo hi).run = .ok (some c) ↔ hi ≤ b.length ∧ (b.take hi).drop lo = c := by
  by_cases h : hi ≤ b.length
  · rw [run_getRange h]
    simp [h]
  · rw [run_getRange_of_lt (not_le.mp h)]
    simp [h]

theorem run_slice_eq_some {b c : Bytes} {lo hi : ℕ} :
    (slice b lo hi).run = .ok (some c) ↔ hi ≤ b.length ∧ (b.take hi).drop lo = c := by
  by_cases h : hi ≤ b.length
  · rw [run_slice h]
    simp [h]
  · rw [run_slice_of_lt (not_le.mp h)]
    simp [h]

end Some

/-! ## Absence of panics -/

variable {α β : Type}

def NoPanic (x : Checked α) : Prop := ∃ o, x.run = .ok o

@[simp] theorem noPanic_pure (a : α) : NoPanic (pure a) := ⟨some a, rfl⟩

@[simp] theorem noPanic_failure : NoPanic (failure : Checked α) := ⟨none, rfl⟩

theorem noPanic_bind_of_some {x : Checked α} {a : α} (h : x.run = .ok (some a))
    (f : α → Checked β) : NoPanic (x >>= f) ↔ NoPanic (f a) := by
  simp only [NoPanic, OptionT.run_bind, h]
  rfl

theorem noPanic_bind_of_none {x : Checked α} (h : x.run = .ok none)
    (f : α → Checked β) : NoPanic (x >>= f) := by
  refine ⟨none, ?_⟩
  rw [OptionT.run_bind, h]
  rfl

@[simp] theorem noPanic_failure_bind (f : α → Checked β) :
    NoPanic ((failure : Checked α) >>= f) :=
  noPanic_bind_of_none rfl f

theorem not_noPanic_bind_of_panic {x : Checked α} {p : Panic} (h : x.run = .error p)
    (f : α → Checked β) : ¬ NoPanic (x >>= f) := by
  rintro ⟨o, ho⟩
  rw [OptionT.run_bind, h] at ho
  cases ho

@[simp] theorem noPanic_index_bind (b : Bytes) (i : ℕ) (f : UInt8 → Checked β) :
    NoPanic (index b i >>= f) ↔ ∃ h : i < b.length, NoPanic (f b[i]) := by
  by_cases h : i < b.length
  · simp [noPanic_bind_of_some (run_index h), h]
  · simp [not_noPanic_bind_of_panic (run_index_of_le (not_lt.mp h)), h]

@[simp] theorem noPanic_slice_bind (b : Bytes) (lo hi : ℕ) (f : Bytes → Checked β) :
    NoPanic (slice b lo hi >>= f) ↔ hi ≤ b.length ∧ NoPanic (f ((b.take hi).drop lo)) := by
  by_cases h : hi ≤ b.length
  · simp [noPanic_bind_of_some (run_slice h), h]
  · simp [not_noPanic_bind_of_panic (run_slice_of_lt (not_le.mp h)), h]

@[simp] theorem noPanic_get_bind (b : Bytes) (i : ℕ) (f : UInt8 → Checked β) :
    NoPanic (get b i >>= f) ↔ ∀ h : i < b.length, NoPanic (f b[i]) := by
  by_cases h : i < b.length
  · have hrun : (get b i).run = .ok (some b[i]) := by simp [run_get, h]
    simp [noPanic_bind_of_some hrun, h]
  · have hrun : (get b i).run = .ok none := by simpa [run_get] using h
    simp [noPanic_bind_of_none hrun, h]

@[simp] theorem noPanic_getRange_bind (b : Bytes) (lo hi : ℕ) (f : Bytes → Checked β) :
    NoPanic (getRange b lo hi >>= f) ↔
      (hi ≤ b.length → NoPanic (f ((b.take hi).drop lo))) := by
  by_cases h : hi ≤ b.length
  · simp [noPanic_bind_of_some (run_getRange h), h]
  · simp [noPanic_bind_of_none (run_getRange_of_lt (not_le.mp h)), h]

@[simp] theorem noPanic_getFrom_bind (b : Bytes) (lo : ℕ) (f : Bytes → Checked β) :
    NoPanic (getFrom b lo >>= f) ↔ (lo ≤ b.length → NoPanic (f (b.drop lo))) := by
  by_cases h : lo ≤ b.length
  · simp [noPanic_bind_of_some (run_getFrom h), h]
  · simp [noPanic_bind_of_none (run_getFrom_of_lt (not_le.mp h)), h]

theorem NoPanic.bind_iff {x : Checked α} (hx : NoPanic x) (f : α → Checked β) :
    NoPanic (x >>= f) ↔ ∀ a, x.run = .ok (some a) → NoPanic (f a) := by
  obtain ⟨o, ho⟩ := hx
  cases o with
  | none => simp [noPanic_bind_of_none ho, ho]
  | some a => simp [noPanic_bind_of_some ho, ho]

theorem NoPanic.bind {x : Checked α} (hx : NoPanic x) {f : α → Checked β}
    (hf : ∀ a, NoPanic (f a)) : NoPanic (x >>= f) :=
  (hx.bind_iff f).mpr fun a _ ↦ hf a

theorem noPanic_bind_iff {x : Checked α} {f : α → Checked β} (hf : ∀ a, NoPanic (f a)) :
    NoPanic (x >>= f) ↔ NoPanic x := by
  refine ⟨fun h ↦ ?_, fun hx ↦ hx.bind hf⟩
  cases hrun : x.run with
  | error p => exact absurd h (not_noPanic_bind_of_panic hrun f)
  | ok o => exact ⟨o, hrun⟩

theorem noPanic_getFrom (b : Bytes) (lo : ℕ) : NoPanic (getFrom b lo) := by
  rw [getFrom]
  split
  · exact noPanic_pure _
  · exact noPanic_failure

end Checked

end Wire
