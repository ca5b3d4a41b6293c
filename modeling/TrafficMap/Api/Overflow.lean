import TrafficMap.Api.Cardinality
import TrafficMap.Api.Gauge
import Mathlib.Algebra.Order.BigOperators.Group.List

/-!
# Counters that wrap

The additions that recording a flow and taking a snapshot perform, and when the sums of
the flows leave room for all of them.
-/

namespace TrafficMap.Api

open Tally RingWindow

/-! ## The counters -/

inductive Counter
  | inBytes
  | outBytes
  | inPkts
  | outPkts

namespace DataInfo

def read (d : DataInfo) : Counter → UInt64
  | .inBytes => d.inBytes
  | .outBytes => d.outBytes
  | .inPkts => d.inPkts
  | .outPkts => d.outPkts

theorem read_zero (c : Counter) : (0 : DataInfo).read c = 0 := by cases c <;> rfl

theorem read_add (d o : DataInfo) (c : Counter) : (d + o).read c = d.read c + o.read c := by
  cases c <;> rfl

end DataInfo

/-- The sum without a bound. -/
def sumOf (c : Counter) (l : List DataInfo) : ℕ := (l.map fun d ↦ (d.read c).toNat).sum

theorem sumOf_append (c : Counter) (l l' : List DataInfo) :
    sumOf c (l ++ l') = sumOf c l + sumOf c l' := by
  simp [sumOf]

theorem sumOf_cons (c : Counter) (d : DataInfo) (l : List DataInfo) :
    sumOf c (d :: l) = (d.read c).toNat + sumOf c l := by
  simp [sumOf]

theorem sumOf_le_of_sublist {c : Counter} {l l' : List DataInfo} (h : l.Sublist l') :
    sumOf c l ≤ sumOf c l' :=
  (h.map _).sum_le_sum fun _ _ ↦ Nat.zero_le _

theorem toNat_read_sum (c : Counter) (l : List DataInfo) :
    (l.sum.read c).toNat = sumOf c l % 2 ^ 64 := by
  induction l with
  | nil => rw [List.sum_nil, DataInfo.read_zero]; rfl
  | cons d l ih =>
      rw [List.sum_cons, DataInfo.read_add, UInt64.toNat_add, ih, sumOf_cons, Nat.add_mod_mod]

theorem toNat_read_sum_le (c : Counter) (l : List DataInfo) :
    (l.sum.read c).toNat ≤ sumOf c l := by
  rw [toNat_read_sum]
  exact Nat.mod_le _ _

/-! ## The additions -/

/-- The two additions of `add`. -/
def AddFits (d : DataInfo) (f : Flow) : Prop :=
  if f.incoming then
    d.inBytes.toNat + f.bytes.toNat < 2 ^ 64 ∧ d.inPkts.toNat + f.pkts.toNat < 2 ^ 64
  else d.outBytes.toNat + f.bytes.toNat < 2 ^ 64 ∧ d.outPkts.toNat + f.pkts.toNat < 2 ^ 64

/-- The four additions of `merge`. -/
def MergeFits (d o : DataInfo) : Prop := ∀ c, (d.read c).toNat + (o.read c).toNat < 2 ^ 64

/-- The addition of `total`. -/
def TotalFits (d : DataInfo) : Prop := d.inBytes.toNat + d.outBytes.toNat < 2 ^ 64

/-- The amount at a key, zero if there is none. -/
def valueAt {K E : Type} [DecidableEq K] (π : E → DataInfo) (m : Map K E) (k : K) : DataInfo :=
  ((m.lookup k).map π).getD 0

/-- The additions of `record`, for a flow that has octets. -/
structure RecordFits (f : Flow) (b : Bucket) : Prop where
  total : AddFits b.total f
  service : ∀ k, f.service = some k → AddFits (valueAt id b.service k) f
  src : ∀ k, f.lan = some k → AddFits (valueAt id b.src k) f
  dst : ∀ k, f.dstKey = some k → b.dst.keys.length < DST_CAP ∨ k ∈ b.dst →
    AddFits (valueAt Prod.fst b.dst k) f
  country : ∀ k, f.countryKey = some k → AddFits (valueAt id b.country k) f
  host : ∀ k, f.hostKey = some k → AddFits (valueAt id b.host k) f

/-- The merges of the entries of a bucket, one after the other. -/
def EntriesFit {K E E' : Type} [DecidableEq K] (π : E → DataInfo) (π' : E' → DataInfo)
    (fold : List ((_ : K) × E') → Map K E) (entries : List ((_ : K) × E')) : Prop :=
  ∀ visited e rest, entries = visited ++ e :: rest →
    MergeFits (valueAt π (fold visited) e.1) (π' e.2)

section Snapshot

variable (it : IterOrder) (a : Aggregator)

/-- The merges of the bucket `i` places back. -/
structure MergeBackFits (acc : Bucket) (i : ℕ) : Prop where
  total : MergeFits acc.total (a.buckets.back i).total
  dst : EntriesFit Prod.fst Prod.fst (mergeDst acc.dst)
    (it.visit .dst i (a.buckets.back i).dst.entries)
  country : EntriesFit id id (mergeAxis acc.country)
    (it.visit .country i (a.buckets.back i).country.entries)
  src : EntriesFit id id (mergeAxis acc.src) (it.visit .src i (a.buckets.back i).src.entries)
  service : EntriesFit id id (mergeAxis acc.service)
    (it.visit .service i (a.buckets.back i).service.entries)
  host : EntriesFit id id (mergeAxis acc.host) (it.visit .host i (a.buckets.back i).host.entries)

/-- The additions of a snapshot of `w` buckets: the merges, and the totals that the
rates, the order and the rows take. -/
structure SnapshotFits (w : ℕ) : Prop where
  merges : ∀ i < w, MergeBackFits it a (a.merged it i) i
  total : TotalFits (a.merged it w).total
  dst : ∀ e ∈ (a.merged it w).dst.entries, TotalFits e.2.1
  country : ∀ e ∈ (a.merged it w).country.entries, TotalFits e.2
  src : ∀ e ∈ (a.merged it w).src.entries, TotalFits e.2
  service : ∀ e ∈ (a.merged it w).service.entries, TotalFits e.2
  host : ∀ e ∈ (a.merged it w).host.entries, TotalFits e.2

end Snapshot

/-- The amounts that the flows bring. -/
def amounts (vs : List Json) : List DataInfo := vs.flatMap fun v ↦ (flowOf v).totalContribution

/-- The flows leave room for the octets of both directions together, and for the
packets of each. -/
structure SumsFit (vs : List Json) : Prop where
  bytes : sumOf .inBytes (amounts vs) + sumOf .outBytes (amounts vs) < 2 ^ 64
  inPkts : sumOf .inPkts (amounts vs) < 2 ^ 64
  outPkts : sumOf .outPkts (amounts vs) < 2 ^ 64

theorem SumsFit.lt {vs : List Json} (h : SumsFit vs) (c : Counter) :
    sumOf c (amounts vs) < 2 ^ 64 := by
  have hbytes := h.bytes
  cases c with
  | inBytes => omega
  | outBytes => omega
  | inPkts => exact h.inPkts
  | outPkts => exact h.outPkts

/-- An addition of `add` is one of `merge`. -/
theorem addFits_of_mergeFits {d : DataInfo} {f : Flow} (h : MergeFits d f.amount) :
    AddFits d f := by
  rw [AddFits]
  have hin := h .inBytes
  have hout := h .outBytes
  have hinPkts := h .inPkts
  have houtPkts := h .outPkts
  rw [Flow.amount, DataInfo.amount] at hin hout hinPkts houtPkts
  split
  · rename_i hincoming
    rw [hincoming, if_pos rfl] at hin hinPkts
    exact ⟨hin, hinPkts⟩
  · rename_i hincoming
    rw [if_neg hincoming] at hout houtPkts
    exact ⟨hout, houtPkts⟩

/-! ## One bucket -/

section Axis

variable {K E : Type} [DecidableEq K] {π : E → DataInfo} {m : Map K E}
  {l : List (K × DataInfo)} {c : Counter}

/-- The amounts of a key. -/
def amountsAt (l : List (K × DataInfo)) (k : K) : List DataInfo :=
  (l.filter fun p ↦ p.1 = k).map Prod.snd

/-- What the map holds is the whole sum of a key. -/
def Whole (π : E → DataInfo) (m : Map K E) (l : List (K × DataInfo)) : Prop :=
  ∀ k ∈ m, (m.lookup k).map π = Tally.total l k

theorem read_valueAt_le (h : Whole π m l) (k : K) :
    ((valueAt π m k).read c).toNat ≤ sumOf c (amountsAt l k) := by
  by_cases hk : k ∈ m
  · have hmem : k ∈ l.map Prod.fst := by
      rw [← total_isSome, ← h k hk, Option.isSome_map]
      exact AList.lookup_isSome.mpr hk
    rw [valueAt, h k hk, Tally.total, if_pos hmem, Option.getD_some]
    exact toNat_read_sum_le c _
  · rw [valueAt, AList.lookup_eq_none.mpr hk, Option.map_none, Option.getD_none,
      DataInfo.read_zero]
    exact Nat.zero_le _

theorem sumOf_amountsAt_le (l : List (K × DataInfo)) (k : K) (c : Counter) :
    sumOf c (amountsAt l k) ≤ sumOf c (l.map Prod.snd) :=
  sumOf_le_of_sublist (List.filter_sublist.map _)

theorem Whole.read_le (h : Whole π m l) {e : (_ : K) × E} (he : e ∈ m.entries) :
    ((π e.2).read c).toNat ≤ sumOf c (amountsAt l e.1) := by
  have hvalue : valueAt π m e.1 = π e.2 := by
    rw [valueAt, AList.mem_lookup_iff.mpr he]
    rfl
  rw [← hvalue]
  exact read_valueAt_le h e.1

/-- The amounts of one key and those of the others. -/
theorem sumOf_split (l : List (K × DataInfo)) (k : K) (c : Counter) :
    sumOf c (amountsAt l k) + sumOf c ((l.filter fun p ↦ !decide (p.1 = k)).map Prod.snd) =
      sumOf c (l.map Prod.snd) := by
  rw [amountsAt, ← sumOf_append, ← List.map_append]
  exact (((List.filter_append_perm _ l).map Prod.snd).map _).sum_eq

theorem sumOf_keys_le {es : List ((_ : K) × E)} (hes : es.NodupKeys)
    (hle : ∀ e ∈ es, ((π e.2).read c).toNat ≤ sumOf c (amountsAt l e.1)) :
    sumOf c (es.map fun e ↦ π e.2) ≤ sumOf c (l.map Prod.snd) := by
  induction es generalizing l with
  | nil => exact Nat.zero_le _
  | cons e es ih =>
      obtain ⟨hfresh, hes⟩ := List.nodupKeys_cons.mp hes
      obtain ⟨he, hle⟩ := List.forall_mem_cons.mp hle
      have hrest : ∀ e' ∈ es, ((π e'.2).read c).toNat ≤
          sumOf c (amountsAt (l.filter fun p ↦ !decide (p.1 = e.1)) e'.1) := by
        intro e' he'
        have hne : e'.1 ≠ e.1 := fun heq ↦ hfresh (heq ▸ List.mem_keys_of_mem he')
        have hsame : amountsAt (l.filter fun p ↦ !decide (p.1 = e.1)) e'.1 = amountsAt l e'.1 := by
          rw [amountsAt, amountsAt, List.filter_filter]
          congr 1
          apply List.filter_congr
          intro p _
          by_cases hp : p.1 = e'.1
          · simp [hp, hne]
          · simp [hp]
        rw [hsame]
        exact hle e' he'
      have hsplit := sumOf_split l e.1 c
      have htail := ih hes hrest
      rw [List.map_cons, sumOf_cons]
      omega

/-- The entries of a map bring no more than what was added to it. -/
theorem Whole.sumOf_entries_le (h : Whole π m l) (c : Counter) :
    sumOf c (m.entries.map fun e ↦ π e.2) ≤ sumOf c (l.map Prod.snd) :=
  sumOf_keys_le m.nodupKeys fun _ he ↦ h.read_le he

theorem whole_of_counts (h : Counts π m l) : Whole π m l := fun k _ ↦ h k

end Axis

theorem contributions_sublist {K : Type} (key : Flow → Option K) (vs : List Json) :
    ((contributions key vs).map Prod.snd).Sublist (amounts vs) := by
  induction vs with
  | nil => exact List.Sublist.slnil
  | cons v vs ih =>
      have hone : (((flowOf v).contribution key).map Prod.snd).Sublist
          (flowOf v).totalContribution := by
        rw [Flow.contribution, Flow.totalContribution]
        split
        · exact List.Sublist.slnil
        · cases key (flowOf v) with
          | none => exact List.nil_sublist _
          | some k => exact List.Sublist.refl _
      rw [contributions, List.flatMap_cons, List.map_append, amounts, List.flatMap_cons]
      exact hone.append ih

theorem sumOf_contributions_le {K : Type} (key : Flow → Option K) (vs : List Json) (c : Counter) :
    sumOf c ((contributions key vs).map Prod.snd) ≤ sumOf c (amounts vs) :=
  sumOf_le_of_sublist (contributions_sublist key vs)

theorem amounts_append (vs vs' : List Json) : amounts (vs ++ vs') = amounts vs ++ amounts vs' :=
  List.flatMap_append

/-! ## Recording a flow -/

section Record

variable {vs : List Json} {v : Json}

theorem mergeFits_of_le {d o : DataInfo} {n : Counter → ℕ} (hd : ∀ c, (d.read c).toNat ≤ n c)
    (hfits : ∀ c, n c + (o.read c).toNat < 2 ^ 64) : MergeFits d o :=
  fun c ↦ (Nat.add_le_add_right (hd c) _).trans_lt (hfits c)

theorem recordFits_bucketOf (hbytes : (flowOf v).bytes ≠ 0) (h : SumsFit (vs ++ [v])) :
    RecordFits (flowOf v) (bucketOf vs) := by
  have hfits : ∀ c, sumOf c (amounts vs) + ((flowOf v).amount.read c).toNat < 2 ^ 64 := by
    intro c
    have hlt := h.lt c
    rw [amounts_append, sumOf_append] at hlt
    have hnew : amounts [v] = [(flowOf v).amount] := by
      simp [amounts, Flow.totalContribution, hbytes]
    rw [hnew, sumOf_cons] at hlt
    exact (Nat.add_le_add_left (Nat.le_add_right _ _) _).trans_lt hlt
  have hcounted := counted_bucketOf vs
  have haxis {K E : Type} [DecidableEq K] {π : E → DataInfo} {m : Map K E} {key : Flow → Option K}
      (hm : Whole π m (contributions key vs)) (k : K) : AddFits (valueAt π m k) (flowOf v) :=
    addFits_of_mergeFits (mergeFits_of_le (fun c ↦ (read_valueAt_le hm k).trans
      ((sumOf_amountsAt_le _ k c).trans (sumOf_contributions_le key vs c))) hfits)
  constructor
  · apply addFits_of_mergeFits (mergeFits_of_le (fun c ↦ ?_) hfits)
    rw [hcounted.total]
    exact toNat_read_sum_le c _
  · exact fun k _ ↦ haxis (whole_of_counts hcounted.service) k
  · exact fun k _ ↦ haxis (whole_of_counts hcounted.src) k
  · exact fun k _ _ ↦ haxis (capped_bucketOf vs).total_eq k
  · exact fun k _ ↦ haxis (whole_of_counts hcounted.country) k
  · exact fun k _ ↦ haxis (whole_of_counts hcounted.host) k

end Record

/-! ## Merging -/

section Merge

variable {K E E' : Type} [DecidableEq K]

/-- A map that counts amounts of no more than `n`. -/
def AxisWithin (π : E → DataInfo) (m : Map K E) (n : Counter → ℕ) : Prop :=
  ∃ l, Counts π m l ∧ ∀ c, sumOf c (l.map Prod.snd) ≤ n c

variable {π : E → DataInfo} {π' : E' → DataInfo} {m : Map K E} {m' : Map K E'}
  {n p : Counter → ℕ}

theorem axisWithin_empty (π : E → DataInfo) : AxisWithin π (∅ : Map K E) fun _ ↦ 0 :=
  ⟨[], counts_empty π, fun _ ↦ le_rfl⟩

/-- A map whose keys have whole totals counts its own entries. -/
theorem Whole.axisWithin {l : List (K × DataInfo)} (h : Whole π m l)
    (hn : ∀ c, sumOf c (l.map Prod.snd) ≤ n c) : AxisWithin π m n := by
  refine ⟨m.entries.map fun e ↦ (e.1, π e.2), counts_entries π m, fun c ↦ ?_⟩
  rw [List.map_map]
  exact (h.sumOf_entries_le c).trans (hn c)

theorem AxisWithin.read_le (h : AxisWithin π m n) (k : K) (c : Counter) :
    ((valueAt π m k).read c).toNat ≤ n c := by
  obtain ⟨l, hl, hn⟩ := h
  exact (read_valueAt_le (whole_of_counts hl) k).trans ((sumOf_amountsAt_le l k c).trans (hn c))

theorem AxisWithin.totalFits (h : AxisWithin π m n) (hn : n .inBytes + n .outBytes < 2 ^ 64)
    {e : (_ : K) × E} (he : e ∈ m.entries) : TotalFits (π e.2) := by
  have hvalue : valueAt π m e.1 = π e.2 := by
    rw [valueAt, AList.mem_lookup_iff.mpr he]
    rfl
  have hin := h.read_le e.1 .inBytes
  have hout := h.read_le e.1 .outBytes
  rw [hvalue] at hin hout
  exact (Nat.add_le_add hin hout).trans_lt hn

theorem AxisWithin.merge (h : AxisWithin π m n) (h' : AxisWithin π' m' p)
    {entries : List ((_ : K) × E')} (hentries : entries.Perm m'.entries)
    {new : ((_ : K) × E') → E} {f : ((_ : K) × E') → E → E}
    (hnew : ∀ s, π (new s) = 0) (hf : ∀ s e, π (f s e) = π e + π' s.2) :
    AxisWithin π (entries.foldl (fun m s ↦ Tally.upsert s.1 (new s) (f s) m) m)
      (fun c ↦ n c + p c) ∧
    ((∀ c, n c + p c < 2 ^ 64) → EntriesFit π π'
      (fun visited ↦ visited.foldl (fun m s ↦ Tally.upsert s.1 (new s) (f s) m) m) entries) := by
  obtain ⟨l, hl, hn⟩ := h
  obtain ⟨l', hl', hp⟩ := h'
  have hsum : ∀ c, sumOf c (entries.map fun e ↦ π' e.2) ≤ p c := by
    intro c
    have hperm : sumOf c (entries.map fun e ↦ π' e.2) = sumOf c (m'.entries.map fun e ↦ π' e.2) :=
      ((hentries.map _).map _).sum_eq
    rw [hperm]
    exact ((whole_of_counts hl').sumOf_entries_le c).trans (hp c)
  have hcounts : ∀ visited : List ((_ : K) × E'),
      Counts π (visited.foldl (fun m s ↦ Tally.upsert s.1 (new s) (f s) m) m)
        (l ++ visited.map fun s ↦ (s.1, π' s.2)) :=
    fun visited ↦ hl.foldl visited (fun s ↦ s.1) (fun s ↦ π' s.2) hnew hf
  constructor
  · refine ⟨_, hcounts entries, fun c ↦ ?_⟩
    rw [List.map_append, sumOf_append, List.map_map]
    exact Nat.add_le_add (hn c) (hsum c)
  · rintro hfits visited e rest rfl c
    have hvalue := (read_valueAt_le (c := c) (whole_of_counts (hcounts visited)) e.1).trans
      (sumOf_amountsAt_le _ e.1 c)
    have hvisited := hsum c
    have hbound := hfits c
    have hold := hn c
    rw [List.map_append, sumOf_append, List.map_map] at hvalue
    rw [List.map_append, List.map_cons, sumOf_append, sumOf_cons] at hvisited
    change _ ≤ sumOf c (l.map Prod.snd) + sumOf c (visited.map fun s ↦ π' s.2) at hvalue
    dsimp only
    omega

end Merge

/-- A bucket that counts amounts of no more than `n`, in all its parts. -/
structure Within (b : Bucket) (n : Counter → ℕ) : Prop where
  total : ∀ c, (b.total.read c).toNat ≤ n c
  dst : AxisWithin Prod.fst b.dst n
  country : AxisWithin id b.country n
  src : AxisWithin id b.src n
  service : AxisWithin id b.service n
  host : AxisWithin id b.host n

theorem within_empty : Within Bucket.empty fun _ ↦ 0 where
  total c := by rw [Bucket.empty, DataInfo.read_zero]; rfl
  dst := axisWithin_empty Prod.fst
  country := axisWithin_empty id
  src := axisWithin_empty id
  service := axisWithin_empty id
  host := axisWithin_empty id

theorem within_bucketOf (vs : List Json) : Within (bucketOf vs) fun c ↦ sumOf c (amounts vs) where
  total c := by
    rw [(counted_bucketOf vs).total]
    exact toNat_read_sum_le c _
  dst := Whole.axisWithin (capped_bucketOf vs).total_eq (sumOf_contributions_le _ vs)
  country := (whole_of_counts (counted_bucketOf vs).country).axisWithin
    (sumOf_contributions_le _ vs)
  src := (whole_of_counts (counted_bucketOf vs).src).axisWithin (sumOf_contributions_le _ vs)
  service := (whole_of_counts (counted_bucketOf vs).service).axisWithin
    (sumOf_contributions_le _ vs)
  host := (whole_of_counts (counted_bucketOf vs).host).axisWithin (sumOf_contributions_le _ vs)

section Window

variable (it : IterOrder) {a : Aggregator} {acc : Bucket} {i : ℕ} {n p : Counter → ℕ}

theorem within_mergeAxis {K : Type} [DecidableEq K] {m m' : Map K DataInfo}
    (h : AxisWithin id m n) (h' : AxisWithin id m' p) (axis : Axis) (i : ℕ) :
    AxisWithin id (mergeAxis m (it.visit axis i m'.entries)) (fun c ↦ n c + p c) ∧
      ((∀ c, n c + p c < 2 ^ 64) →
        EntriesFit id id (mergeAxis m) (it.visit axis i m'.entries)) :=
  h.merge h' (it.perm axis i m'.entries) (fun _ ↦ rfl) fun _ _ ↦ rfl

theorem within_mergeDst {m m' : Map String (DataInfo × Option String)}
    (h : AxisWithin Prod.fst m n) (h' : AxisWithin Prod.fst m' p) (axis : Axis) (i : ℕ) :
    AxisWithin Prod.fst (mergeDst m (it.visit axis i m'.entries)) (fun c ↦ n c + p c) ∧
      ((∀ c, n c + p c < 2 ^ 64) →
        EntriesFit Prod.fst Prod.fst (mergeDst m) (it.visit axis i m'.entries)) :=
  h.merge h' (it.perm axis i m'.entries) (fun _ ↦ rfl) fun _ _ ↦ rfl

theorem Within.mergeBack (h : Within acc n) (h' : Within (a.buckets.back i) p) :
    Within (a.mergeBack it acc i) (fun c ↦ n c + p c) ∧
      ((∀ c, n c + p c < 2 ^ 64) → MergeBackFits it a acc i) := by
  have hdst := within_mergeDst it h.dst h'.dst .dst i
  have hcountry := within_mergeAxis it h.country h'.country .country i
  have hsrc := within_mergeAxis it h.src h'.src .src i
  have hservice := within_mergeAxis it h.service h'.service .service i
  have hhost := within_mergeAxis it h.host h'.host .host i
  have htotal : ∀ c, (acc.total.read c).toNat + ((a.buckets.back i).total.read c).toNat ≤
      n c + p c := fun c ↦ Nat.add_le_add (h.total c) (h'.total c)
  refine ⟨⟨fun c ↦ ?_, hdst.1, hcountry.1, hsrc.1, hservice.1, hhost.1⟩, fun hfits ↦
    ⟨fun c ↦ (htotal c).trans_lt (hfits c), hdst.2 hfits, hcountry.2 hfits, hsrc.2 hfits,
      hservice.2 hfits, hhost.2 hfits⟩⟩
  change ((acc.total + (a.buckets.back i).total).read c).toNat ≤ n c + p c
  rw [DataInfo.read_add, UInt64.toNat_add]
  exact (Nat.mod_le _ _).trans (htotal c)

theorem within_back {r : Reference} (h : Refines a r) (hi : i < BUCKETS) :
    Within (a.buckets.back i) fun c ↦ sumOf c (amounts (r.period i)) := by
  have hback : a.buckets.back i = bucketOf (r.period i) := h.2 i hi
  rw [hback]
  exact within_bucketOf _

theorem within_merged {r : Reference} (h : Refines a r) {w : ℕ} (hw : w ≤ BUCKETS) :
    Within (a.merged it w) fun c ↦ sumOf c (amounts ((List.range w).flatMap r.period)) := by
  induction w with
  | zero => exact within_empty
  | succ w ih =>
      have hstep := ((ih (Nat.le_of_succ_le hw)).mergeBack it (within_back h hw)).1
      rw [Aggregator.merged, List.range_succ, List.foldl_append, List.flatMap_append,
        List.flatMap_singleton, amounts_append]
      simp only [sumOf_append]
      exact hstep

theorem sumOf_periods_le {r : Reference} {v w : ℕ} (hvw : v ≤ w) (c : Counter) :
    sumOf c (amounts ((List.range v).flatMap r.period)) ≤
      sumOf c (amounts ((List.range w).flatMap r.period)) := by
  obtain ⟨k, rfl⟩ := Nat.exists_eq_add_of_le hvw
  rw [List.range_add, List.flatMap_append, amounts_append, sumOf_append]
  exact Nat.le_add_right _ _

theorem sumOf_inWindow {r : Reference} (h : r.Past) (w : ℕ) (c : Counter) :
    sumOf c (amounts (r.inWindow w)) = sumOf c (amounts ((List.range w).flatMap r.period)) :=
  ((((Reference.periods_perm_inWindow h w).flatMap_right _).map _).sum_eq).symm

theorem snapshotFits_of_sumsFit {r : Reference} (h : Refines a r)
    (hsums : SumsFit (r.inWindow BUCKETS)) {w : ℕ} (hw : w ≤ BUCKETS) : SnapshotFits it a w := by
  have hle : ∀ v ≤ BUCKETS, ∀ c, sumOf c (amounts ((List.range v).flatMap r.period)) ≤
      sumOf c (amounts (r.inWindow BUCKETS)) := by
    intro v hv c
    rw [sumOf_inWindow h.1]
    exact sumOf_periods_le hv c
  have hwithin := within_merged it h hw
  have htotals : sumOf .inBytes (amounts ((List.range w).flatMap r.period)) +
      sumOf .outBytes (amounts ((List.range w).flatMap r.period)) < 2 ^ 64 :=
    (Nat.add_le_add (hle w hw _) (hle w hw _)).trans_lt hsums.bytes
  constructor
  · intro i hi
    have hback := within_back h (hi.trans_le hw)
    refine ((within_merged it h (hi.le.trans hw)).mergeBack it hback).2 fun c ↦ ?_
    have hnext := hle (i + 1) (hi.trans_le hw) c
    rw [List.range_succ, List.flatMap_append, List.flatMap_singleton, amounts_append,
      sumOf_append] at hnext
    exact hnext.trans_lt (hsums.lt c)
  · exact (Nat.add_le_add (hwithin.total .inBytes) (hwithin.total .outBytes)).trans_lt htotals
  · exact fun e he ↦ hwithin.dst.totalFits htotals he
  · exact fun e he ↦ hwithin.country.totalFits htotals he
  · exact fun e he ↦ hwithin.src.totalFits htotals he
  · exact fun e he ↦ hwithin.service.totalFits htotals he
  · exact fun e he ↦ hwithin.host.totalFits htotals he

end Window

/-! ## Every run -/

/-- What a snapshot shows are the sums of the flows in its window, without a bound; on
the destination axis if nothing was left out there. -/
structure ExactIn (whole : Prop) (m : Bucket) (vs : List Json) : Prop where
  total : ∀ c, (m.total.read c).toNat = sumOf c (amounts vs)
  dst : whole → ∀ k c, ((valueAt Prod.fst m.dst k).read c).toNat =
    sumOf c (amountsAt (contributions Flow.dstKey vs) k)
  country : ∀ k c, ((valueAt id m.country k).read c).toNat =
    sumOf c (amountsAt (contributions Flow.countryKey vs) k)
  src : ∀ k c, ((valueAt id m.src k).read c).toNat =
    sumOf c (amountsAt (contributions Flow.lan vs) k)
  service : ∀ k c, ((valueAt id m.service k).read c).toNat =
    sumOf c (amountsAt (contributions Flow.service vs) k)
  host : ∀ k c, ((valueAt id m.host k).read c).toNat =
    sumOf c (amountsAt (contributions Flow.hostKey vs) k)

theorem read_valueAt_eq {K E : Type} [DecidableEq K] {π : E → DataInfo} {m : Map K E}
    {key : Flow → Option K} {vs : List Json} (h : Counts π m (contributions key vs))
    (hlt : ∀ c, sumOf c (amounts vs) < 2 ^ 64) (k : K) (c : Counter) :
    ((valueAt π m k).read c).toNat = sumOf c (amountsAt (contributions key vs) k) := by
  have hsmall : sumOf c (amountsAt (contributions key vs) k) < 2 ^ 64 :=
    ((sumOf_amountsAt_le _ k c).trans (sumOf_contributions_le key vs c)).trans_lt (hlt c)
  rw [valueAt, h k, Tally.total]
  split
  · rw [Option.getD_some, toNat_read_sum]
    exact Nat.mod_eq_of_lt hsmall
  · rename_i hk
    rw [Option.getD_none, DataInfo.read_zero, amountsAt, filter_key_eq_nil hk]
    rfl

theorem exactIn_of_sumsFit (it : IterOrder) {a : Aggregator} {r : Reference} (h : Refines a r)
    (hsums : SumsFit (r.inWindow BUCKETS)) {w : ℕ} (hw : w ≤ BUCKETS) :
    ExactIn (∀ i < w, peerCount (r.period i) ≤ DST_CAP) (a.merged it w) (r.inWindow w) := by
  have hcount := (counted_merged it h hw).perm (Reference.periods_perm_inWindow h.1 w)
  have hlt : ∀ c, sumOf c (amounts (r.inWindow w)) < 2 ^ 64 := by
    intro c
    refine lt_of_le_of_lt ?_ (hsums.lt c)
    rw [sumOf_inWindow h.1, sumOf_inWindow h.1]
    exact sumOf_periods_le hw c
  constructor
  · intro c
    rw [hcount.total, totalOf, toNat_read_sum]
    exact Nat.mod_eq_of_lt (hlt c)
  · exact fun hwhole k c ↦ read_valueAt_eq (hcount.dst hwhole) hlt k c
  · exact read_valueAt_eq hcount.country hlt
  · exact read_valueAt_eq hcount.src hlt
  · exact read_valueAt_eq hcount.service hlt
  · exact read_valueAt_eq hcount.host hlt

/-- No addition wraps in the whole run, nor in a snapshot of any of its states, and what
the snapshots show is exact. -/
structure CountersHold (ops : List Op) : Prop where
  record : ∀ pre v, pre ++ [.record v] <+: ops → (flowOf v).bytes ≠ 0 →
    RecordFits (flowOf v) ((Aggregator.run pre).buckets.back 0)
  snapshot : ∀ pre, pre <+: ops → ∀ it, ∀ w ≤ BUCKETS, SnapshotFits it (Aggregator.run pre) w
  exact : ∀ pre, pre <+: ops → ∀ it, ∀ w ≤ BUCKETS,
    ExactIn (∀ i < w, peerCount ((Reference.run pre).period i) ≤ DST_CAP)
      ((Aggregator.run pre).merged it w) ((Reference.run pre).inWindow w)

theorem SumsFit.of_le {vs vs' : List Json} (h : SumsFit vs)
    (hle : ∀ c, sumOf c (amounts vs') ≤ sumOf c (amounts vs)) : SumsFit vs' where
  bytes := (Nat.add_le_add (hle .inBytes) (hle .outBytes)).trans_lt h.bytes
  inPkts := (hle .inPkts).trans_lt h.inPkts
  outPkts := (hle .outPkts).trans_lt h.outPkts

/-- The counters hold in a run if and only if in each of its states the flows of the
ring leave room. -/
theorem countersHold_iff (ops : List Op) : CountersHold ops ↔
    ∀ pre, pre <+: ops → SumsFit ((Reference.run pre).inWindow BUCKETS) := by
  constructor
  · intro h pre hpre
    have hexact := (h.exact pre hpre inOrder BUCKETS le_rfl).total
    have htotal := (h.snapshot pre hpre inOrder BUCKETS le_rfl).total
    constructor
    · rw [← hexact, ← hexact]
      exact htotal
    · rw [← hexact]
      exact UInt64.toNat_lt _
    · rw [← hexact]
      exact UInt64.toNat_lt _
  · intro h
    refine ⟨fun pre v hpre hbytes ↦ ?_, fun pre hpre it w hw ↦ ?_, fun pre hpre it w hw ↦ ?_⟩
    · have hback : (Aggregator.run pre).buckets.back 0 = bucketOf ((Reference.run pre).period 0) :=
        (refines_run pre).2 0 (by decide)
      rw [hback]
      refine recordFits_bucketOf hbytes ((h _ hpre).of_le fun c ↦ ?_)
      have hperiod : (Reference.run (pre ++ [.record v])).period 0 =
          (Reference.run pre).period 0 ++ [v] := by
        rw [Reference.run, List.foldl_append]
        exact Reference.period_record_zero _ v
      have hone := sumOf_periods_le (r := Reference.run (pre ++ [.record v]))
        (Nat.one_le_iff_ne_zero.mpr (by decide : BUCKETS ≠ 0)) c
      rw [List.range_one, List.flatMap_singleton, hperiod,
        ← sumOf_inWindow (refines_run _).1] at hone
      exact hone
    · exact snapshotFits_of_sumsFit it (refines_run pre) (h pre hpre) hw
    · exact exactIn_of_sumsFit it (refines_run pre) (h pre hpre) hw

/-- Half of what a counter can hold. -/
def hugeFlow : Json := .object [("octets", .ofU64 9223372036854775808), ("packets", .ofU64 1)]

theorem huge_wraps : ¬ CountersHold [.record hugeFlow, .record hugeFlow] := by
  rw [countersHold_iff]
  intro h
  have hbytes := (h _ (List.prefix_refl _)).bytes
  have hamounts : amounts ((Reference.run [.record hugeFlow, .record hugeFlow]).inWindow BUCKETS) =
      [⟨0, 2 ^ 63, 0, 1⟩, ⟨0, 2 ^ 63, 0, 1⟩] := by decide +kernel
  rw [hamounts] at hbytes
  exact absurd hbytes (by decide +kernel)

end TrafficMap.Api
