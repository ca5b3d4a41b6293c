import TrafficMap.Lib.BigEndian

/-!
# Cursor parsers and what they consume

A cursor is a buffer with a position in it, and a parser is a state-passing
function on cursors in some monad of outcomes.  `Consumes p bs a` says that
wherever the bytes `bs` stand in a buffer, `p` started in front of them steps
over exactly `bs` and returns `a`.  These facts compose along `bind`, which is
how a reader is matched against the concatenation a writer produces.
`ReadsTo` is the other direction, for any buffer: `p` started at one place in
it either ends at another, or fails because the buffer is too short for that.
-/

namespace Wire

structure Cursor where
  buf : Bytes
  pos : ℕ
deriving DecidableEq, Repr

namespace Cursor

def new (buf : Bytes) : Cursor := ⟨buf, 0⟩

def rest (c : Cursor) : Bytes := c.buf.drop c.pos

def between (pre suf : Bytes) : Cursor := ⟨pre ++ suf, pre.length⟩

@[simp] theorem buf_between (pre suf : Bytes) : (between pre suf).buf = pre ++ suf := rfl

@[simp] theorem pos_between (pre suf : Bytes) : (between pre suf).pos = pre.length := rfl

@[simp] theorem rest_between (pre suf : Bytes) : (between pre suf).rest = suf := by
  simp [rest]

theorem new_eq_between (buf : Bytes) : new buf = between [] buf := rfl

end Cursor

section Consumes

variable {m : Type → Type} [Monad m]
variable {α β : Type}

/-- `p` steps over exactly the bytes `bs`, wherever they stand, and returns
`a`. -/
def Consumes (p : StateT Cursor m α) (bs : Bytes) (a : α) : Prop :=
  ∀ pre suf : Bytes,
    p.run (Cursor.between pre (bs ++ suf)) =
      pure (a, Cursor.between (pre ++ bs) suf)

theorem Consumes.run_new {p : StateT Cursor m α} {bs : Bytes} {a : α}
    (h : Consumes p bs a) :
    p.run (Cursor.new bs) = pure (a, Cursor.between bs []) := by
  simpa [Cursor.new_eq_between] using h [] []

theorem Consumes.pure (a : α) :
    Consumes (Pure.pure a : StateT Cursor m α) [] a := by
  intro pre suf
  simp

variable [LawfulMonad m]

theorem Consumes.bind {p : StateT Cursor m α} {f : α → StateT Cursor m β}
    {bs cs : Bytes} {a : α} {b : β}
    (hp : Consumes p bs a) (hf : Consumes (f a) cs b) :
    Consumes (p >>= f) (bs ++ cs) b := by
  intro pre suf
  have hfirst := hp pre (cs ++ suf)
  have hsecond := hf (pre ++ bs) suf
  rw [StateT.run_bind, List.append_assoc, hfirst, pure_bind, hsecond,
    List.append_assoc]

theorem Consumes.map {p : StateT Cursor m α} {bs : Bytes} {a : α}
    (hp : Consumes p bs a) (f : α → β) : Consumes (f <$> p) bs (f a) := by
  intro pre suf
  rw [StateT.run_map, hp pre suf, map_pure]

theorem Consumes.bind_pure {p : StateT Cursor m α} {f : α → StateT Cursor m β}
    {bs : Bytes} {a : α} {b : β}
    (hp : Consumes p bs a) (hf : Consumes (f a) [] b) :
    Consumes (p >>= f) bs b := by
  simpa using hp.bind hf

end Consumes

/-! ## Reading a given buffer -/

section ReadsTo

variable {ε α β : Type} {short : ε} {buf : Bytes} {lo mid hi : ℕ} {a : α} {b : β}
variable {p : StateT Cursor (Except ε) α} {f : α → StateT Cursor (Except ε) β}

/-- From place `lo` of `buf`, `p` returns `a` and ends at `hi`, or it fails with
`short` because `buf` ends before `hi`. -/
def ReadsTo (short : ε) (buf : Bytes) (p : StateT Cursor (Except ε) α) (lo hi : ℕ) (a : α) :
    Prop :=
  lo ≤ hi ∧ (lo ≤ buf.length →
    p.run ⟨buf, lo⟩ = if hi ≤ buf.length then .ok (a, ⟨buf, hi⟩) else .error short)

theorem ReadsTo.pure (a : α) :
    ReadsTo short buf (Pure.pure a : StateT Cursor (Except ε) α) lo lo a := by
  refine ⟨le_rfl, fun hlo ↦ ?_⟩
  rw [if_pos hlo]
  rfl

theorem ReadsTo.bind (hp : ReadsTo short buf p lo mid a) (hf : ReadsTo short buf (f a) mid hi b) :
    ReadsTo short buf (p >>= f) lo hi b := by
  refine ⟨hp.1.trans hf.1, fun hlo ↦ ?_⟩
  rw [StateT.run_bind, hp.2 hlo]
  by_cases hmid : mid ≤ buf.length
  · rw [if_pos hmid]
    exact hf.2 hmid
  · have hhi : ¬ hi ≤ buf.length := fun h ↦ hmid (hf.1.trans h)
    rw [if_neg hmid, if_neg hhi]
    rfl

theorem ReadsTo.bind_pure (hp : ReadsTo short buf p lo hi a)
    (hf : ∀ lo, ReadsTo short buf (f a) lo lo b) : ReadsTo short buf (p >>= f) lo hi b :=
  hp.bind (hf hi)

end ReadsTo

/-! ## Errors -/

section FailsOnly

variable {ε α β : Type} {P : ε → Prop}

def FailsOnly (P : ε → Prop) (p : StateT Cursor (Except ε) α) : Prop :=
  ∀ c e, p.run c = .error e → P e

theorem FailsOnly.pure (a : α) : FailsOnly P (Pure.pure a : StateT Cursor (Except ε) α) := by
  intro c e h
  cases h

theorem FailsOnly.bind {p : StateT Cursor (Except ε) α} {f : α → StateT Cursor (Except ε) β}
    (hp : FailsOnly P p) (hf : ∀ a, FailsOnly P (f a)) : FailsOnly P (p >>= f) := by
  intro c e h
  rw [StateT.run_bind] at h
  cases hrun : p.run c with
  | error e' =>
      obtain rfl : e' = e := by simpa [hrun, Bind.bind, Except.bind] using h
      exact hp c e' hrun
  | ok r =>
      rw [hrun] at h
      exact hf r.1 r.2 e h

end FailsOnly

end Wire
