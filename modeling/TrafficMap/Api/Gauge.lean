import TrafficMap.Api.Window

/-!
# The throughput gauge

`bps` and its two directions divide the bytes of the window by its length as it was
asked for, while the buckets that are summed are a whole number of seconds.  Both
rates are compared in exact arithmetic, where the rounding of floats is the identity.
-/

namespace TrafficMap.Api

/-- `q.window.unwrap_or(60.0).clamp(1.0, 600.0)`. -/
def statsWindow (window : Option ℚ) : ℚ := max 1 (min 600 (window.getD 60))

/-- The sum over the summed buckets. -/
def windowSum (a : Aggregator) (w : ℕ) : DataInfo :=
  ((List.range w).map fun i ↦ (a.buckets.back i).total).sum

theorem total_merged (it : IterOrder) (a : Aggregator) (w : ℕ) :
    (a.merged it w).total = windowSum a w := by
  rw [Aggregator.merged, windowSum]
  induction w with
  | zero => rfl
  | succ w ih =>
      rw [List.range_succ, List.foldl_append, List.map_append, List.sum_append, ← ih]
      simp [Aggregator.mergeBack, DataInfo.add_def]

/-! ## Rounding -/

theorem le_roundHalfAway_iff {q : ℚ} (hq : 0 ≤ q) (m : ℤ) :
    m + 1 ≤ roundHalfAway q ↔ (m : ℚ) + 1 / 2 ≤ q := by
  rw [roundHalfAway, if_pos hq, Int.le_floor]
  push_cast
  constructor
  · intro h
    linarith
  · intro h
    linarith

theorem toInt_satI64 (q : ℤ) : (satI64 q).toInt = max (-2 ^ 63) (min (2 ^ 63 - 1) q) := by
  rw [satI64]
  apply Int64.toInt_ofInt_of_le
  · exact le_max_left _ _
  · exact max_lt (by norm_num) ((min_le_left _ _).trans_lt (by norm_num))

theorem ofI64_inj {m n : Int64} : Json.ofI64 m = Json.ofI64 n ↔ m = n := by
  refine ⟨fun h ↦ Int64.toInt_inj.mp ?_, congrArg Json.ofI64⟩
  rw [Json.ofI64, Json.ofI64] at h
  have hm := m.toInt_lt
  have hn := n.toInt_lt
  split at h
  · rename_i hmpos
    split at h
    · rename_i hnpos
      rw [Json.number.injEq, Number.posInt.injEq, ← UInt64.toNat_inj, UInt64.toNat_ofNat',
        UInt64.toNat_ofNat', Nat.mod_eq_of_lt (by omega), Nat.mod_eq_of_lt (by omega)] at h
      omega
    · cases h
  · split at h
    · cases h
    · exact Number.negInt.inj (Json.number.inj h)

/-- Two rates come out as the same number if no half lies between them, below the
largest number there is. -/
theorem satI64_round_eq_iff {p q : ℚ} (hp : 0 ≤ p) (hq : 0 ≤ q) :
    satI64 (roundHalfAway p) = satI64 (roundHalfAway q) ↔
      ∀ m : ℕ, m + 1 < 2 ^ 63 → ((m : ℚ) + 1 / 2 ≤ p ↔ (m : ℚ) + 1 / 2 ≤ q) := by
  have hnat : ∀ {x : ℚ}, 0 ≤ x → 0 ≤ roundHalfAway x := by
    intro x hx
    rw [roundHalfAway, if_pos hx]
    exact Int.floor_nonneg.mpr (by linarith)
  have hround : ∀ {x : ℚ}, 0 ≤ x → ∀ m : ℕ, (m : ℚ) + 1 / 2 ≤ x ↔ (m : ℤ) + 1 ≤ roundHalfAway x :=
    fun hx m ↦ (le_roundHalfAway_iff hx m).symm
  have hpnat := hnat hp
  have hqnat := hnat hq
  simp only [hround hp, hround hq]
  rw [← Int64.toInt_inj, toInt_satI64, toInt_satI64]
  constructor
  · intro h m hm
    omega
  · intro h
    rcases lt_trichotomy (roundHalfAway p) (roundHalfAway q) with hlt | heq | hlt
    · have hbound := h (roundHalfAway p).toNat
      omega
    · rw [heq]
    · have hbound := h (roundHalfAway q).toNat
      omega

/-! ## The gauge -/

/-- Bits a second over `n` buckets. -/
def summedRate (n : ℕ) (bytes : UInt64) : Json :=
  .ofI64 (satI64 (roundHalfAway (bytes.toNat * 8 / n)))

/-- The three rates are those of the summed buckets over the number of buckets, without
the rounding of floats. -/
structure DividesSummed (it : IterOrder) (a : Aggregator) (window : ℚ) (n : ℕ) : Prop where
  bps : (a.snapshot it id window).get "bps" = some (summedRate n (windowSum a n).total)
  bpsIn : (a.snapshot it id window).get "bps_in" = some (summedRate n (windowSum a n).inBytes)
  bpsOut : (a.snapshot it id window).get "bps_out" = some (summedRate n (windowSum a n).outBytes)

/-- No half lies between the bits over the window and the bits over the buckets. -/
def SameRate (window : ℚ) (n : ℕ) (bytes : UInt64) : Prop := ∀ m : ℕ, m + 1 < 2 ^ 63 →
  ((m : ℚ) + 1 / 2 ≤ bytes.toNat * 8 / window ↔ (m : ℚ) + 1 / 2 ≤ bytes.toNat * 8 / n)

theorem bps_eq_iff {window : ℚ} (hpos : 0 < window) (n : ℕ) (bytes : UInt64) :
    bps id window bytes = summedRate n bytes ↔ SameRate window n bytes := by
  have hbits : (0 : ℚ) ≤ bytes.toNat * 8 := by positivity
  rw [bps, summedRate, ofI64_inj]
  exact satI64_round_eq_iff (div_nonneg hbits hpos.le) (div_nonneg hbits n.cast_nonneg)

theorem rates_snapshot (it : IterOrder) (a : Aggregator) (window : ℚ) :
    (a.snapshot it id window).get "bps" =
        some (bps id window (windowSum a (Aggregator.windowBuckets window)).total) ∧
      (a.snapshot it id window).get "bps_in" =
        some (bps id window (windowSum a (Aggregator.windowBuckets window)).inBytes) ∧
      (a.snapshot it id window).get "bps_out" =
        some (bps id window (windowSum a (Aggregator.windowBuckets window)).outBytes) := by
  rw [← total_merged it]
  exact ⟨rfl, rfl, rfl⟩

/-- Each rate is that of the summed buckets if and only if no half lies between it and
the rate over the window as asked for. -/
theorem dividesSummed_iff (it : IterOrder) (a : Aggregator) (q : Option ℚ) :
    let window := statsWindow q
    let n := Aggregator.windowBuckets window
    DividesSummed it a window n ↔ SameRate window n (windowSum a n).total ∧
      SameRate window n (windowSum a n).inBytes ∧ SameRate window n (windowSum a n).outBytes := by
  intro window n
  have hpos : 0 < window := lt_max_of_lt_left one_pos
  obtain ⟨htotal, hin, hout⟩ := rates_snapshot it a window
  rw [← bps_eq_iff hpos, ← bps_eq_iff hpos, ← bps_eq_iff hpos]
  constructor
  · rintro ⟨h, h', h''⟩
    exact ⟨Option.some.inj (htotal.symm.trans h), Option.some.inj (hin.symm.trans h'),
      Option.some.inj (hout.symm.trans h'')⟩
  · rintro ⟨h, h', h''⟩
    exact ⟨htotal.trans (congrArg some h), hin.trans (congrArg some h'),
      hout.trans (congrArg some h'')⟩

/-- A whole number of seconds. -/
theorem sameRate_natCast {w : ℕ} (hw : 1 ≤ w) (hw' : w ≤ BUCKETS) (bytes : UInt64) :
    SameRate w (Aggregator.windowBuckets w) bytes := by
  intro m _
  rw [windowBuckets_natCast hw hw']

/-- The sum is that of the flows in the window. -/
theorem windowSum_run (it : IterOrder) (ops : List Op) {w : ℕ} (hw : w ≤ BUCKETS) :
    windowSum (Aggregator.run ops) w = totalOf ((Reference.run ops).inWindow w) := by
  have hrefines := refines_run ops
  rw [← total_merged it, (counted_merged it hrefines hw).total]
  exact totalOf_perm (Reference.periods_perm_inWindow hrefines.1 w)

/-- A second and a half are divided by, and two buckets are summed. -/
theorem half_second_rate : ¬ DividesSummed inOrder (Aggregator.run [.record outgoingFlow])
    (statsWindow (some (3 / 2))) (Aggregator.windowBuckets (statsWindow (some (3 / 2)))) := by
  have hwindow : statsWindow (some (3 / 2)) = 3 / 2 := by norm_num [statsWindow]
  have hbuckets : Aggregator.windowBuckets (3 / 2) = 2 := by
    norm_num [Aggregator.windowBuckets, roundHalfAway]
    rfl
  have hsum : (windowSum (Aggregator.run [.record outgoingFlow]) 2).total.toNat = 1000 := by
    rw [windowSum_run inOrder _ (by decide)]
    decide
  intro h
  have hrate := ((dividesSummed_iff _ _ _).mp h).1 4500 (by norm_num)
  rw [hwindow, hbuckets, hsum] at hrate
  norm_num at hrate

end TrafficMap.Api
