import TrafficMap.Web.FlowStream

/-!
# The timers of a replay

`replay` of `flowStream.ts` spreads the flows of a response over its playback
time, in the order and in proportion of their receive times.
-/

namespace TrafficMap.Web

namespace Stream

def recv (f : Flow) : ℚ := f.recvSec.getD 0

/-- Every flow of the response has a receive time. -/
def Received (flows : List Flow) : Prop := ∀ f ∈ flows, f.recvSec.isSome

def firstSec (flows : List Flow) : ℚ :=
  ((flows.mergeSort recvOrder).head?.bind Flow.recvSec).getD 0

def lastSec (flows : List Flow) : ℚ :=
  ((flows.mergeSort recvOrder).getLast?.bind Flow.recvSec).getD (firstSec flows + 1)

/-- The delay of a flow. -/
def delay (flows : List Flow) (f : Flow) : ℚ :=
  (f.recvSec.getD (firstSec flows) - firstSec flows) / max 1 (lastSec flows - firstSec flows) *
    REPLAY_MS

theorem replayTimers_eq (now : ℚ) (seq : ℕ) (flows : List Flow) : replayTimers now seq flows =
    (flows.mergeSort recvOrder).map fun f ↦ ⟨now + delay flows f, seq, f⟩ := rfl

section Sorted

variable {flows : List Flow}

theorem pairwise_recv (flows : List Flow) :
    (flows.mergeSort recvOrder).Pairwise fun f g ↦ recv f ≤ recv g := by
  have htrans : ∀ f g h, recvOrder f g = true → recvOrder g h = true → recvOrder f h = true :=
    fun f g h hfg hgh ↦ decide_eq_true ((of_decide_eq_true hfg).trans (of_decide_eq_true hgh))
  have htotal : ∀ f g, (recvOrder f g || recvOrder g f) = true := by
    intro f g
    simpa [recvOrder] using le_total (f.recvSec.getD 0) (g.recvSec.getD 0)
  exact (List.pairwise_mergeSort htrans htotal flows).imp fun h ↦ of_decide_eq_true h

variable (hrecv : Received flows)
include hrecv

theorem recvSec_eq {f : Flow} (hf : f ∈ flows) : f.recvSec = some (recv f) := by
  obtain ⟨sec, hsec⟩ := Option.isSome_iff_exists.mp (hrecv f hf)
  rw [recv, hsec, Option.getD_some]

theorem firstSec_le {f : Flow} (hf : f ∈ flows) : firstSec flows ≤ recv f := by
  have hmem : f ∈ flows.mergeSort recvOrder := List.mem_mergeSort.mpr hf
  have hsorted := pairwise_recv flows
  have hall : ∀ g ∈ flows.mergeSort recvOrder, g.recvSec = some (recv g) :=
    fun g hg ↦ recvSec_eq hrecv (List.mem_mergeSort.mp hg)
  rw [firstSec]
  cases hcases : flows.mergeSort recvOrder with
  | nil =>
      rw [hcases] at hmem
      cases hmem
  | cons a l =>
      rw [hcases] at hmem hsorted hall
      rw [List.head?_cons, Option.bind_some, hall a List.mem_cons_self, Option.getD_some]
      rcases List.mem_cons.mp hmem with rfl | hl
      · exact le_rfl
      · exact (List.pairwise_cons.mp hsorted).1 f hl

/-- The last flow of the response. -/
theorem exists_last (hne : flows ≠ []) :
    ∃ g ∈ flows, recv g = lastSec flows ∧ ∀ f ∈ flows, recv f ≤ recv g := by
  have hsorted := pairwise_recv flows
  have hsome : flows.mergeSort recvOrder ≠ [] := by
    intro hnil
    exact hne (List.perm_nil.mp (hnil ▸ (List.mergeSort_perm flows recvOrder).symm))
  have hmem : (flows.mergeSort recvOrder).getLast hsome ∈ flows :=
    List.mem_mergeSort.mp (List.getLast_mem hsome)
  have hlast := List.dropLast_concat_getLast hsome
  refine ⟨_, hmem, ?_, fun f hf ↦ ?_⟩
  · rw [lastSec, List.getLast?_eq_some_getLast hsome, Option.bind_some, recvSec_eq hrecv hmem,
      Option.getD_some]
  · rw [← hlast] at hsorted
    have hf' : f ∈ flows.mergeSort recvOrder := List.mem_mergeSort.mpr hf
    rw [← hlast] at hf'
    rcases List.mem_append.mp hf' with hold | hnew
    · exact (List.pairwise_append.mp hsorted).2.2 f hold _ (List.mem_singleton_self _)
    · rw [List.mem_singleton.mp hnew]

theorem le_lastSec {f : Flow} (hf : f ∈ flows) : recv f ≤ lastSec flows := by
  obtain ⟨g, -, hlast, hle⟩ := exists_last hrecv (List.ne_nil_of_mem hf)
  exact hlast ▸ hle f hf

/-! ## Delays -/

theorem delay_eq {f : Flow} (hf : f ∈ flows) : delay flows f =
    (recv f - firstSec flows) / max 1 (lastSec flows - firstSec flows) * REPLAY_MS := by
  rw [delay, recvSec_eq hrecv hf, Option.getD_some]

theorem delay_mono {f g : Flow} (hf : f ∈ flows) (hg : g ∈ flows) (h : recv f ≤ recv g) :
    delay flows f ≤ delay flows g := by
  rw [delay_eq hrecv hf, delay_eq hrecv hg]
  have hspan : (0 : ℚ) < max 1 (lastSec flows - firstSec flows) := lt_max_of_lt_left one_pos
  gcongr

theorem delay_nonneg {f : Flow} (hf : f ∈ flows) : 0 ≤ delay flows f := by
  rw [delay_eq hrecv hf]
  have hspan : (0 : ℚ) < max 1 (lastSec flows - firstSec flows) := lt_max_of_lt_left one_pos
  have hfirst := sub_nonneg.mpr (firstSec_le hrecv hf)
  positivity

theorem delay_le {f : Flow} (hf : f ∈ flows) : delay flows f ≤ REPLAY_MS := by
  rw [delay_eq hrecv hf]
  have hspan : (0 : ℚ) < max 1 (lastSec flows - firstSec flows) := lt_max_of_lt_left one_pos
  have hshare : (recv f - firstSec flows) / max 1 (lastSec flows - firstSec flows) ≤ 1 := by
    rw [div_le_one hspan]
    have hlast := le_lastSec hrecv hf
    exact le_max_of_le_right (by linarith)
  calc (recv f - firstSec flows) / max 1 (lastSec flows - firstSec flows) * REPLAY_MS
      ≤ 1 * REPLAY_MS := by gcongr
    _ = REPLAY_MS := one_mul _

/-- The last flow is due after the whole playback time, or in proportion if the
response spans less than a second. -/
theorem forall_delay_le_iff (hne : flows ≠ []) (bound : ℚ) : (∀ f ∈ flows, delay flows f ≤ bound) ↔
    min 1 (lastSec flows - firstSec flows) * REPLAY_MS ≤ bound := by
  obtain ⟨g, hg, hlast, hle⟩ := exists_last hrecv hne
  have hspan : 0 ≤ lastSec flows - firstSec flows := by
    rw [← hlast]
    exact sub_nonneg.mpr (firstSec_le hrecv hg)
  have hshare : (lastSec flows - firstSec flows) / max 1 (lastSec flows - firstSec flows) =
      min 1 (lastSec flows - firstSec flows) := by
    rcases le_total 1 (lastSec flows - firstSec flows) with hlong | hshort
    · rw [max_eq_right hlong, min_eq_left hlong, div_self (by linarith)]
    · rw [max_eq_left hshort, min_eq_right hshort, div_one]
  have hdelay : delay flows g = min 1 (lastSec flows - firstSec flows) * REPLAY_MS := by
    rw [delay_eq hrecv hg, hlast, hshare]
  rw [← hdelay]
  constructor
  · exact fun h ↦ h g hg
  · exact fun h f hf ↦ (delay_mono hrecv hf hg (hle f hf)).trans h

end Sorted

end Stream

end TrafficMap.Web
