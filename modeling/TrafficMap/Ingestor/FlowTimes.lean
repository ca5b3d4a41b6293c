import TrafficMap.Ingestor.Telegraf

/-!
# Flow times

`wall_clock_times` against the device's true clock: the record carries the
lowest 32 bits of three times in milliseconds since boot.
-/

namespace TrafficMap.Ingestor

open FlowdParse

/-- The moment so many milliseconds after the epoch. -/
def msTime (ms : ℕ) : DateTime := ⟨(ms / 1000 : ℕ), ms % 1000 * 10 ^ 6⟩

theorem msTime_injective {ms ms' : ℕ} (h : msTime ms = msTime ms') : ms = ms' := by
  obtain ⟨hsecs, hnanos⟩ := DateTime.mk.inj h
  omega

theorem msTime_le {ms ms' : ℕ} (h : ms ≤ ms') : msTime ms ≤ msTime ms' := by
  change toLex (((ms / 1000 : ℕ) : ℤ), ms % 1000 * 10 ^ 6) ≤
    toLex (((ms' / 1000 : ℕ) : ℤ), ms' % 1000 * 10 ^ 6)
  rw [Prod.Lex.toLex_le_toLex]
  dsimp only
  omega

/-- Exact arithmetic, and the clock type as documented: every second up to the
year 2242 with every nanosecond of it. -/
structure Outside.Exact (out : Outside) : Prop where
  fl : ∀ q, out.fl q = q
  fromTimestamp : ∀ secs nanos, 0 ≤ secs → secs < 2 ^ 33 → nanos < 10 ^ 9 →
    out.fromTimestamp secs nanos = some ⟨secs, nanos⟩

theorem exact_plainOutside : plainOutside.Exact where
  fl _ := rfl
  fromTimestamp _ _ _ _ hnanos := if_pos (Or.inl hnanos)

section Times

variable {out : Outside} (hout : out.Exact)
include hout

theorem secsF64ToDt_ms {ms : ℕ} (hms : ms < 2 ^ 33 * 1000) :
    secsF64ToDt out (ms / 1000) = some (msTime ms) := by
  have hfloor : ⌊(ms : ℚ) / 1000⌋ = (ms / 1000 : ℕ) := by
    exact_mod_cast Rat.floor_natCast_div_natCast ms 1000
  have hfrac : ((ms : ℚ) / 1000 - (ms / 1000 : ℕ)) * 10 ^ 9 = (ms % 1000 * 10 ^ 6 : ℕ) := by
    have hdiv : (ms : ℚ) = 1000 * (ms / 1000 : ℕ) + (ms % 1000 : ℕ) := by
      exact_mod_cast (Nat.div_add_mod ms 1000).symm
    push_cast at hdiv ⊢
    linarith
  have hnonneg : ¬ (ms : ℚ) / 1000 < 0 := not_lt.mpr (by positivity)
  rw [secsF64ToDt, if_neg hnonneg, hfloor]
  dsimp only
  rw [Int.cast_natCast, hout.fl, hfrac, roundHalfAway_natCast, Int.toNat_natCast]
  exact hout.fromTimestamp _ _ (by omega) (by omega) (by omega)

/-- The times that the code computes from the counters, in milliseconds. -/
theorem wallClockTimes_eq {rec : FlowRecord} {recv uptime start finish : UInt32}
    (hrecv : rec.recvSec = some recv) (huptime : rec.sysUptimeMs = some uptime)
    (hstart : rec.flowStart = some start) (hfinish : rec.flowFinish = some finish)
    {startMs endMs : ℕ}
    (hstartMs : (startMs : ℤ) = recv.toNat * 1000 - (uptime.toNat - start.toNat))
    (hendMs : (endMs : ℤ) = recv.toNat * 1000 - (uptime.toNat - finish.toNat)) :
    wallClockTimes out rec = (some (msTime startMs), some (msTime endMs)) := by
  have hend : (recv.toNat : ℚ) - ((uptime.toNat : ℚ) - finish.toNat) / 1000 = endMs / 1000 := by
    have hcast : (endMs : ℚ) = recv.toNat * 1000 - (uptime.toNat - finish.toNat) := by
      exact_mod_cast hendMs
    rw [hcast]
    ring
  have hstart' : (endMs : ℚ) / 1000 - ((finish.toNat : ℚ) - start.toNat) / 1000 =
      startMs / 1000 := by
    have hcast : (startMs : ℚ) = recv.toNat * 1000 - (uptime.toNat - start.toNat) := by
      exact_mod_cast hstartMs
    rw [← hend, hcast]
    ring
  have hlt := recv.toNat_lt
  have hlt' := start.toNat_lt
  have hlt'' := finish.toNat_lt
  rw [wallClockTimes, hrecv, huptime, hstart, hfinish]
  dsimp only
  rw [hout.fl, hout.fl, hout.fl, hout.fl, hend, hstart', secsF64ToDt_ms hout (by omega),
    secsF64ToDt_ms hout (by omega)]

end Times

/-! ## The counter's wrap -/

/-- The times of a flow that began and ended so many milliseconds before it was
received. -/
def ShowsTimes (out : Outside) (rec : FlowRecord) (recv : UInt32) (sinceStart sinceEnd : ℕ) :
    Prop :=
  let recvMs := recv.toNat * 1000
  wallClockTimes out rec =
      (some (msTime (recvMs - sinceStart)), some (msTime (recvMs - sinceEnd))) ∧
    msTime (recvMs - sinceStart) ≤ msTime (recvMs - sinceEnd) ∧
    msTime (recvMs - sinceEnd) ≤ msTime recvMs

/-- A record with the counters of the device at the true times `S`, `F` and `T`. -/
def deviceRecord (rec : FlowRecord) (recv : UInt32) (S F T : ℕ) : FlowRecord :=
  { rec with
    recvSec := some recv
    sysUptimeMs := some (UInt32.ofNat T)
    flowStart := some (UInt32.ofNat S)
    flowFinish := some (UInt32.ofNat F) }

section Wrap

variable {out : Outside} (hout : out.Exact)
include hout

/-- Three counters that are the lowest bits of three times. -/
theorem showsTimes_iff {rec : FlowRecord} {recv uptime start finish : UInt32} {S F T : ℕ}
    (hrecv : rec.recvSec = some recv) (huptime : rec.sysUptimeMs = some uptime)
    (hstart : rec.flowStart = some start) (hfinish : rec.flowFinish = some finish)
    (hT : uptime.toNat = T % 2 ^ 32) (hS : start.toNat = S % 2 ^ 32)
    (hF : finish.toNat = F % 2 ^ 32) (hSF : S ≤ F) (hFT : F ≤ T) (hST : T - S < 2 ^ 32)
    (hpos : T - S ≤ recv.toNat * 1000) :
    ShowsTimes out rec recv (T - S) (T - F) ↔ S / 2 ^ 32 = T / 2 ^ 32 := by
  have hordered : msTime (recv.toNat * 1000 - (T - S)) ≤ msTime (recv.toNat * 1000 - (T - F)) ∧
      msTime (recv.toNat * 1000 - (T - F)) ≤ msTime (recv.toNat * 1000) :=
    ⟨msTime_le (by omega), msTime_le (by omega)⟩
  rw [ShowsTimes, and_iff_left hordered]
  constructor
  · intro h
    -- a wrap puts the start 2 ^ 32 milliseconds too late
    by_contra hwrap
    have hstartMs : ((recv.toNat * 1000 + 2 ^ 32 - (T - S) : ℕ) : ℤ) =
        recv.toNat * 1000 - (uptime.toNat - start.toNat) := by omega
    have hendMs : ((recv.toNat * 1000 + finish.toNat - uptime.toNat : ℕ) : ℤ) =
        recv.toNat * 1000 - (uptime.toNat - finish.toNat) := by omega
    rw [wallClockTimes_eq hout hrecv huptime hstart hfinish hstartMs hendMs] at h
    have hsame := msTime_injective (Option.some.inj (Prod.mk.inj h).1)
    omega
  · intro hsame
    exact wallClockTimes_eq hout hrecv huptime hstart hfinish (by omega) (by omega)

/-- The flow times are right exactly if the counter does not wrap between the
start of the flow and the export, and for a metric between its two ends. -/
theorem flowTimes_iff :
    (∀ (rec : FlowRecord) (recv : UInt32) (S F T : ℕ), S ≤ F → F ≤ T → T - S < 2 ^ 32 →
      T - S ≤ recv.toNat * 1000 →
      (ShowsTimes out (deviceRecord rec recv S F T) recv (T - S) (T - F) ↔
        S / 2 ^ 32 = T / 2 ^ 32)) ∧
    ∀ (v f : Json) (rec : FlowRecord) (recv : UInt32) (first last : UInt64),
      flowrecordFromTelegraf v = some rec → rec.recvSec = some recv → v.get "fields" = some f →
      (f.get "first_switched").bind Json.asU64 = some first →
      (f.get "last_switched").bind Json.asU64 = some last → first ≤ last →
      last.toNat - first.toNat < 2 ^ 32 → last.toNat - first.toNat ≤ recv.toNat * 1000 →
      (ShowsTimes out rec recv (last.toNat - first.toNat) 0 ↔
        first.toNat / 2 ^ 32 = last.toNat / 2 ^ 32) := by
  constructor
  · intro rec recv S F T hSF hFT hST hpos
    exact showsTimes_iff hout rfl rfl rfl rfl UInt32.toNat_ofNat' UInt32.toNat_ofNat'
      UInt32.toNat_ofNat' hSF hFT hST hpos
  · intro v f rec recv first last hrec hrecv hfields hfirst hlast hle hlt hpos
    rw [flowrecordFromTelegraf, hfields] at hrec
    obtain rfl := Option.some.inj hrec
    have hswitched : ((f.get "first_switched").bind Json.asU64).bind (fun fs ↦
        ((f.get "last_switched").bind Json.asU64).map fun ls ↦ (fs, ls)) = some (first, last) := by
      rw [hfirst, hlast]
      rfl
    have hend : last.toNat - last.toNat = 0 := Nat.sub_self _
    rw [← hend]
    refine showsTimes_iff hout hrecv ?_ ?_ ?_ last.toNat_toUInt32 first.toNat_toUInt32
      last.toNat_toUInt32 (UInt64.le_iff_toNat_le.mp hle) le_rfl hlt hpos
    · exact congrArg (Option.map _) hswitched
    · exact congrArg (Option.map _) hswitched
    · exact congrArg (Option.map _) hswitched

end Wrap

def shortMetric : Json :=
  .object [("timestamp", .ofU64 5000),
    ("fields", .object [("first_switched", .ofU64 1000), ("last_switched", .ofU64 3000)])]

theorem flowTimes_short :
    ShowsTimes plainOutside (deviceRecord lan 1700000000 1000 6000 7000) 1700000000 6000 1000 ∧
      ∃ rec, flowrecordFromTelegraf shortMetric = some rec ∧
        ShowsTimes plainOutside rec 5 2000 0 := by
  refine ⟨((flowTimes_iff exact_plainOutside).1 lan 1700000000 1000 6000 7000 (by decide)
    (by decide) (by decide) (by decide)).mpr rfl, _, rfl, ?_⟩
  exact ((flowTimes_iff exact_plainOutside).2 shortMetric _ _ 5 1000 3000 rfl rfl rfl rfl rfl
    (by decide) (by decide) (by decide)).mpr rfl

/-- A flow of five seconds that begins before the wrap and is exported after it. -/
theorem wrap_lost : ¬ ∀ (out : Outside), out.Exact → ∀ (rec : FlowRecord) (recv : UInt32)
    (S F T : ℕ), S ≤ F → F ≤ T → T - S < 2 ^ 32 → T - S ≤ recv.toNat * 1000 →
      ShowsTimes out (deviceRecord rec recv S F T) recv (T - S) (T - F) := by
  intro h
  have hwrap := (showsTimes_iff exact_plainOutside rfl rfl rfl rfl UInt32.toNat_ofNat'
    UInt32.toNat_ofNat' UInt32.toNat_ofNat' (by decide) (by decide) (by decide) (by decide)).mp
    (h plainOutside exact_plainOutside lan 1700000000 (2 ^ 32 - 6000) (2 ^ 32 - 1000) (2 ^ 32)
      (by decide) (by decide) (by decide) (by decide))
  exact absurd hwrap (by decide)

end TrafficMap.Ingestor
