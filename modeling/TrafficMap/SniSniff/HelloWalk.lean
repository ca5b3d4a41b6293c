import TrafficMap.SniSniff.ClientHello

/-!
# What the walker computes

The cursor walk of the hello parser never panics, and its value is a function
of two chains: the extensions in the captured bytes behind the fixed part of
the hello, and the names behind the list length of the first `server_name`
extension.
-/

namespace TrafficMap.SniSniff

open Wire Checked

/-! ## Readers of a fixed size -/

/-- `p` takes `n` bytes and returns `f` of them, or returns none when fewer are
left. -/
def Fixed {α : Type} (p : Parse α) (n : ℕ) (f : Bytes → α) : Prop :=
  ∀ pre suf : Bytes, (p.run (Cursor.between pre suf)).run =
    .ok (if n ≤ suf.length then
      some (f (suf.take n), Cursor.between (pre ++ suf.take n) (suf.drop n)) else none)

section Fixed

variable {α β : Type} {p : Parse α} {n : ℕ} {f : Bytes → α}

theorem fixed_take (n : ℕ) : Fixed (Cursor.take n) n id := by
  intro pre suf
  by_cases h : n ≤ suf.length
  · have hbuf : pre.length + n ≤ (pre ++ suf).length := by
      rw [List.length_append]
      omega
    have htake : ((pre ++ suf).take (pre.length + n)).drop pre.length = suf.take n := by
      rw [List.take_length_add_append, List.drop_left]
    have hcur : (⟨pre ++ suf, pre.length + n⟩ : Cursor) =
        Cursor.between (pre ++ suf.take n) (suf.drop n) := by
      simp [Cursor.between, h]
    simp only [StateT.run, Cursor.take, Cursor.between, OptionT.run_bind, run_getRange hbuf,
      htake, if_pos h]
    rw [hcur]
    rfl
  · have hbuf : (pre ++ suf).length < pre.length + n := by
      rw [List.length_append]
      omega
    simp only [StateT.run, Cursor.take, Cursor.between, OptionT.run_bind,
      run_getRange_of_lt hbuf, if_neg h]
    rfl

theorem Fixed.run_bind (hp : Fixed p n f) (k : α → Parse β) (pre suf : Bytes) :
    ((p >>= k).run (Cursor.between pre suf)).run =
      if n ≤ suf.length then
        ((k (f (suf.take n))).run (Cursor.between (pre ++ suf.take n) (suf.drop n))).run
      else .ok none := by
  rw [StateT.run_bind, OptionT.run_bind, hp pre suf]
  split
  · rfl
  · rfl

theorem Fixed.post (hp : Fixed p n f) {k : α → Parse β} {g : α → β}
    (hk : ∀ bs : Bytes, bs.length = n → ∀ c, ((k (f bs)).run c).run = .ok (some (g (f bs), c))) :
    Fixed (p >>= k) n (g ∘ f) := by
  intro pre suf
  rw [hp.run_bind]
  by_cases h : n ≤ suf.length
  · rw [if_pos h, if_pos h, hk _ (List.length_take_of_le h)]
    rfl
  · rw [if_neg h, if_neg h]

end Fixed

theorem fixed_u8 : Fixed Cursor.u8 1 (fun s ↦ s.headD 0) := by
  refine (fixed_take 1).post (g := fun s ↦ s.headD 0) fun bs hbs c ↦ ?_
  obtain ⟨a, rfl⟩ := List.length_eq_one_iff.mp hbs
  rfl

theorem fixed_u16 : Fixed Cursor.u16 2 u16FromBe := by
  refine (fixed_take 2).post (g := u16FromBe) fun bs hbs c ↦ ?_
  obtain ⟨a, b, rfl⟩ := List.length_eq_two.mp hbs
  rfl

theorem fixed_u24 : Fixed Cursor.u24 3 (fun s ↦ u32FromBe (0 :: s)) := by
  refine (fixed_take 3).post (g := fun s ↦ u32FromBe (0 :: s)) fun bs hbs c ↦ ?_
  obtain ⟨a, b, d, rfl⟩ := List.length_eq_three.mp hbs
  rfl

theorem fixed_skip (n : ℕ) : Fixed (Cursor.skip n) n (fun _ ↦ ()) :=
  (fixed_take n).post (g := fun _ ↦ ()) fun _ _ _ ↦ rfl

/-! ## The two loops -/

/-- The value of a step at a place in a buffer. -/
def evalAt {α : Type} (p : Parse α) (pre suf : Bytes) : Except Panic (Option α) :=
  (Option.map Prod.fst) <$> (p.run (Cursor.between pre suf)).run

theorem evalAt_lift {α : Type} {x : Checked α} {o : Option α} (h : x.run = .ok o)
    (pre suf : Bytes) : evalAt (liftM x : Parse α) pre suf = .ok o := by
  have hrun : ((liftM x : Parse α).run (Cursor.between pre suf)).run =
      .ok (o.map fun a ↦ (a, Cursor.between pre suf)) := by
    change (x >>= fun a ↦ pure (a, Cursor.between pre suf)).run = _
    rw [OptionT.run_bind, h]
    cases o <;> rfl
  rw [evalAt, hrun]
  cases o <;> rfl

theorem Fixed.evalAt_bind {α β : Type} {p : Parse α} {n : ℕ} {f : Bytes → α} (hp : Fixed p n f)
    (k : α → Parse β) (pre suf : Bytes) :
    evalAt (p >>= k) pre suf =
      if n ≤ suf.length then evalAt (k (f (suf.take n))) (pre ++ suf.take n) (suf.drop n)
      else .ok none := by
  rw [evalAt, hp.run_bind]
  split
  · rfl
  · rfl

/-- The first usable host name of a list of names; a host name that is not
UTF-8 ends the search. -/
def firstHost : List (ℕ × Bytes) → Option Bytes
  | [] => none
  | (nameType, name) :: names =>
      if nameType = 0 then
        if isUtf8 name then
          if isHostname name then some (asciiLower name) else firstHost names
        else none
      else firstHost names

def serverName (ext : Bytes) : Option Bytes :=
  if 2 ≤ ext.length then firstHost (tlvs 1 2 (ext.drop 2)) else none

def sniOf (exts : List (ℕ × Bytes)) : Option Bytes :=
  (exts.find? fun e ↦ decide (e.1 = 0)).bind fun e ↦ serverName e.2

theorem u16FromBe_take_eq_zero_iff (suf : Bytes) :
    u16FromBe (suf.take 2) = 0 ↔ ofBe (suf.take 2) = 0 := by
  rw [← UInt16.toNat_inj, toNat_u16FromBe (List.length_take_le 2 suf)]
  rfl

theorem headD_take_one_eq_zero_iff {suf : Bytes} (h : 1 ≤ suf.length) :
    (suf.take 1).headD 0 = 0 ↔ ofBe (suf.take 1) = 0 := by
  cases suf with
  | nil => simp at h
  | cons b bs => simp [ofBe, ← UInt8.toNat_inj]

theorem evalAt_item {τ β : Type} {tw : ℕ} {tag : Parse τ} {f : Bytes → τ}
    (htag : Fixed tag tw f) (k : τ → Bytes → Parse β) (pre suf : Bytes) :
    (tlvNext tw 2 suf = none ∧
      evalAt (do
        let t ← tag
        let len ← Cursor.u16
        let v ← Cursor.take len.toNat
        k t v) pre suf = .ok none) ∨
    ∃ value rest pre', tlvNext tw 2 suf = some ((ofBe (suf.take tw), value), rest) ∧
      tw ≤ suf.length ∧
      evalAt (do
        let t ← tag
        let len ← Cursor.u16
        let v ← Cursor.take len.toNat
        k t v) pre suf = evalAt (k (f (suf.take tw)) value) pre' rest := by
  rw [htag.evalAt_bind]
  by_cases htw : tw ≤ suf.length
  · rw [if_pos htw, fixed_u16.evalAt_bind]
    by_cases hlw : 2 ≤ (suf.drop tw).length
    · have hhead : tw + 2 ≤ suf.length := by
        rw [List.length_drop] at hlw
        omega
      rw [if_pos hlw, (fixed_take _).evalAt_bind, toNat_u16FromBe (List.length_take_le _ _),
        List.drop_drop]
      by_cases hbody : ofBe ((suf.drop tw).take 2) ≤ (suf.drop (tw + 2)).length
      · have hnext : tlvNext tw 2 suf = some ((ofBe (suf.take tw),
            (suf.drop (tw + 2)).take (ofBe ((suf.drop tw).take 2))),
            (suf.drop (tw + 2)).drop (ofBe ((suf.drop tw).take 2))) := by
          rw [tlvNext, if_pos hhead]
          exact if_pos hbody
        rw [if_pos hbody]
        exact Or.inr ⟨_, _, _, hnext, htw, rfl⟩
      · refine Or.inl ⟨?_, if_neg hbody⟩
        rw [tlvNext, if_pos hhead]
        exact if_neg hbody
    · refine Or.inl ⟨?_, if_neg hlw⟩
      rw [tlvNext, if_neg]
      rw [List.length_drop] at hlw
      omega
  · refine Or.inl ⟨?_, if_neg htw⟩
    rw [tlvNext, if_neg (by omega)]

theorem evalAt_walkNames (fuel : ℕ) (pre suf : Bytes) :
    evalAt (walkNames fuel) pre suf = .ok (firstHost (tlvChain 1 2 fuel suf)) := by
  induction fuel generalizing pre suf with
  | zero => rfl
  | succ fuel ih =>
      rw [tlvChain]
      rcases evalAt_item fixed_u8 (fun nameType name ↦
          if nameType = 0 then
            if isUtf8 name then
              if isHostname name then return asciiLower name
              else walkNames fuel
            else failure
          else walkNames fuel) pre suf with ⟨hnext, heval⟩ | ⟨name, rest, pre', hnext, hlen, heval⟩
      · rw [hnext]
        exact heval
      · rw [hnext]
        apply heval.trans
        by_cases htype : ofBe (suf.take 1) = 0
        · rw [if_pos ((headD_take_one_eq_zero_iff hlen).mpr htype)]
          by_cases hutf : isUtf8 name
          · by_cases hhost : isHostname name
            · simp only [firstHost, if_pos htype, if_pos hutf, if_pos hhost]
              rfl
            · simp only [firstHost, if_pos htype, if_pos hutf, if_neg hhost, ih]
          · simp only [firstHost, if_pos htype, if_neg hutf]
            rfl
        · rw [if_neg (mt (headD_take_one_eq_zero_iff hlen).mp htype)]
          simp only [firstHost, if_neg htype, ih]

theorem run_parseServerName (ext : Bytes) : (parseServerName ext).run = .ok (serverName ext) := by
  have heval : (parseServerName ext).run =
      evalAt (do let _listLen ← Cursor.u16; walkNames (ext.length + 1)) [] ext := by
    rw [parseServerName, OptionT.run_bind, evalAt, Cursor.new_eq_between]
    cases (StateT.run (do let _listLen ← Cursor.u16; walkNames (ext.length + 1))
      (Cursor.between [] ext)).run with
    | error e => rfl
    | ok o => cases o <;> rfl
  rw [heval, fixed_u16.evalAt_bind, serverName]
  by_cases h : 2 ≤ ext.length
  · rw [if_pos h, if_pos h, evalAt_walkNames,
      tlvChain_of_le (by decide) (by rw [List.length_drop]; omega)]
  · rw [if_neg h, if_neg h]

theorem evalAt_walkExtensions (fuel : ℕ) (pre suf : Bytes) :
    evalAt (walkExtensions fuel) pre suf = .ok (sniOf (tlvChain 2 2 fuel suf)) := by
  induction fuel generalizing pre suf with
  | zero => rfl
  | succ fuel ih =>
      rw [tlvChain]
      rcases evalAt_item fixed_u16 (fun extType ext ↦
          if extType = 0x0000 then (parseServerName ext : Parse Bytes)
          else walkExtensions fuel) pre suf with
        ⟨hnext, heval⟩ | ⟨ext, rest, pre', hnext, hlen, heval⟩
      · rw [hnext]
        exact heval
      · rw [hnext]
        apply heval.trans
        by_cases htype : ofBe (suf.take 2) = 0
        · rw [if_pos ((u16FromBe_take_eq_zero_iff suf).mpr htype)]
          have hsni : sniOf ((ofBe (suf.take 2), ext) :: tlvChain 2 2 fuel rest) =
              serverName ext := by
            simp [sniOf, htype]
          refine Eq.trans ?_ (congrArg Except.ok hsni.symm)
          exact evalAt_lift (run_parseServerName ext) pre' rest
        · rw [if_neg (mt (u16FromBe_take_eq_zero_iff suf).mp htype)]
          have hsni : sniOf ((ofBe (suf.take 2), ext) :: tlvChain 2 2 fuel rest) =
              sniOf (tlvChain 2 2 fuel rest) := by
            simp [sniOf, htype]
          rw [ih]
          exact congrArg Except.ok hsni.symm

end TrafficMap.SniSniff
