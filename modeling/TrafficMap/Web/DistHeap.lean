import TrafficMap.Lib.Heap
import TrafficMap.Lib.Int32
import TrafficMap.Lib.Loop
import TrafficMap.Lib.Machine
import Mathlib.Data.Multiset.AddSub

/-!
# The heap of distances

`push` and `pop`, which stand with the same text in `landRoute` of `hubs.ts` and
in `jointRoute` of `cables.ts`: an array of a distance and a node each, sifted by
two loops.  They compute the heap that the searches are modelled with, and over
any sequence of calls they are a priority queue.
-/

namespace TrafficMap.Web

namespace DistHeap

variable {K : Type}

/-! ## The two loops -/

/-- `[heap[a], heap[b]] = [heap[b], heap[a]]`, of places in the heap. -/
def exchange (heap : Array (K × ℕ)) (a b : ℕ) : Option (Array (K × ℕ)) := do
  let x ← heap[b]?
  let y ← heap[a]?
  return (heap.setIfInBounds a x).setIfInBounds b y

section Loops

variable [LinearOrder K]

/-- A round of the loop of `push`. -/
def upRound : Array (K × ℕ) × ℕ → Option (Loop.Next (Array (K × ℕ) × ℕ) (Array (K × ℕ)))
  | (heap, i) =>
      if 0 < i then do
        let p := (i - 1) >>> 1
        let parent ← heap[p]?
        let entry ← heap[i]?
        if parent.1 ≤ entry.1 then return .done heap
        return .again (← exchange heap p i, p)
      else some (.done heap)

/-- `none` is also a loop that is not done after a round for each entry. -/
def push (heap : Array (K × ℕ)) (d : K) (n : ℕ) : Option (Array (K × ℕ)) :=
  let heap := heap.push (d, n)
  Loop.run upRound heap.size (heap, heap.size - 1)

/-- `if (c < heap.length && heap[c][0] < heap[s][0]) s = c`. -/
def lesser (heap : Array (K × ℕ)) (s c : ℕ) : Option ℕ :=
  if c < heap.size then do
    let child ← heap[c]?
    let entry ← heap[s]?
    return if child.1 < entry.1 then c else s
  else some s

/-- A round of the loop of `pop`. -/
def downRound : Array (K × ℕ) × ℕ → Option (Loop.Next (Array (K × ℕ) × ℕ) (Array (K × ℕ)))
  | (heap, i) => do
      let l := 2 * i + 1
      let r := 2 * i + 2
      let s := i
      let s ← lesser heap s l
      let s ← lesser heap s r
      if s = i then return .done heap
      return .again (← exchange heap s i, s)

/-- An empty heap has no distance and no node for the caller. -/
def pop (heap : Array (K × ℕ)) : Option ((K × ℕ) × Array (K × ℕ)) := do
  let top ← heap[0]?
  let last ← heap.back?
  let heap := heap.pop
  if 0 < heap.size then
    let heap ← Loop.run downRound heap.size (heap.setIfInBounds 0 last, 0)
    return (top, heap)
  else return (top, heap)

end Loops

/-- `>>` takes its operand as a 32-bit integer, which loses nothing of a place. -/
theorem shiftRight_parent {i : ℕ} (hi : i ≤ 2 ^ 31) :
    Int32Bits.shiftRight (i - 1) 1 = ((i - 1) >>> 1 : ℕ) := by
  rw [Int32Bits.shiftRight_of_lt (by omega), Nat.shiftRight_eq_div_pow]

/-! ## The heap of the library -/

section Refines

variable [LinearOrder K] {heap : Array (K × ℕ)} {i : ℕ}

omit [LinearOrder K] in
theorem getElem?_eq_toList (hi : i < heap.size) : ∃ x, heap[i]? = some x ∧
    Heap.keyAt heap.toList i = (x.1 : WithTop K) := by
  have hget : heap[i]? = some heap[i] := Array.getElem?_eq_getElem hi
  refine ⟨heap[i], hget, ?_⟩
  rw [Heap.keyAt, Array.getElem?_toList, hget]
  rfl

omit [LinearOrder K] in
theorem exchange_eq {a b : ℕ} (ha : a < heap.size) (hb : b < heap.size) :
    exchange heap a b = some (heap.toList.swap a b).toArray := by
  have hset : ((heap.setIfInBounds a heap[b]).setIfInBounds b heap[a]).toList =
      heap.toList.swap a b := by
    rw [List.swap_eq_of_lt (by simpa using ha) (by simpa using hb), Array.toList_setIfInBounds,
      Array.toList_setIfInBounds, Array.getElem_toList, Array.getElem_toList]
  rw [exchange, Array.getElem?_eq_getElem hb, Array.getElem?_eq_getElem ha, ← hset,
    Array.toArray_toList]
  rfl

theorem upRound_succ (heap : Array (K × ℕ)) (i : ℕ) : upRound (heap, i + 1) =
    heap[i / 2]?.bind fun parent ↦ heap[i + 1]?.bind fun entry ↦
      if parent.1 ≤ entry.1 then some (.done heap)
      else (exchange heap (i / 2) (i + 1)).bind fun heap ↦ some (.again (heap, i / 2)) := by
  rw [upRound, if_pos (Nat.succ_pos i), Nat.add_sub_cancel, Nat.shiftRight_succ,
    Nat.shiftRight_zero]
  rfl

/-- A round of the loop of `push` is one of the library's. -/
theorem upRound_spec (hi : i < heap.size) :
    upRound (heap, i) = some (.done (Heap.siftUp heap.toList i).toArray) ∨
      ∃ heap' p, upRound (heap, i) = some (.again (heap', p)) ∧ p < heap'.size ∧
        Heap.siftUp heap'.toList p = Heap.siftUp heap.toList i ∧ p < i := by
  cases i with
  | zero =>
      left
      rw [Heap.siftUp, Array.toArray_toList]
      rfl
  | succ i =>
      have hp : i / 2 < heap.size := by omega
      obtain ⟨entry, hentry, hkey⟩ := getElem?_eq_toList hi
      obtain ⟨parent, hparent, hkey'⟩ := getElem?_eq_toList hp
      rw [upRound_succ, hparent, hentry, Option.bind_some, Option.bind_some]
      by_cases hle : parent.1 ≤ entry.1
      · left
        have hkeys : Heap.keyAt heap.toList (i / 2) ≤ Heap.keyAt heap.toList (i + 1) := by
          rwa [hkey, hkey', WithTop.coe_le_coe]
        rw [if_pos hle, Heap.siftUp, if_pos hkeys, Array.toArray_toList]
      · right
        have hkeys : ¬ Heap.keyAt heap.toList (i / 2) ≤ Heap.keyAt heap.toList (i + 1) := by
          rwa [hkey, hkey', WithTop.coe_le_coe]
        refine ⟨(heap.toList.swap (i / 2) (i + 1)).toArray, i / 2, ?_, ?_, ?_, ?_⟩
        · rw [if_neg hle, exchange_eq hp hi, Option.bind_some]
        · simpa using hp
        · rw [Heap.siftUp, if_neg hkeys]
        · omega

theorem run_upRound {n : ℕ} (hi : i < heap.size) (hn : i < n) :
    Loop.run upRound n (heap, i) = some (Heap.siftUp heap.toList i).toArray := by
  apply Loop.run_eq_some (fun s : Array (K × ℕ) × ℕ ↦ s.2 < s.1.size)
    (fun s ↦ (Heap.siftUp s.1.toList s.2).toArray) Prod.snd ?_ hi hn
  rintro ⟨heap, i⟩ hi
  rcases upRound_spec hi with hdone | ⟨heap', p, hagain, hp, hsame, hless⟩
  · exact Or.inl hdone
  · exact Or.inr ⟨(heap', p), hagain, hp, congrArg List.toArray hsame, hless⟩

theorem push_eq (heap : Array (K × ℕ)) (d : K) (n : ℕ) :
    push heap d n = some (Heap.push heap.toList (d, n)).toArray := by
  have hlast : (heap.push (d, n)).size - 1 = heap.size := by
    rw [Array.size_push, Nat.add_sub_cancel]
  have hrun : Loop.run upRound (heap.size + 1) (heap.push (d, n), heap.size) =
      some (Heap.siftUp (heap.push (d, n)).toList heap.size).toArray := by
    apply run_upRound
    · rw [Array.size_push]
      exact Nat.lt_succ_self _
    · exact Nat.lt_succ_self _
  rw [push, hlast, Array.size_push, hrun, Heap.push, Array.toList_push, Array.length_toList]

theorem lesser_eq {s : ℕ} (hs : s < heap.size) (c : ℕ) :
    lesser heap s c = some (Heap.smaller heap.toList s c) := by
  obtain ⟨entry, hentry, hkey⟩ := getElem?_eq_toList hs
  rw [lesser, Heap.smaller]
  by_cases hc : c < heap.size
  · obtain ⟨child, hchild, hkey'⟩ := getElem?_eq_toList hc
    rw [if_pos hc, hchild, hentry, hkey, hkey']
    simp only [WithTop.coe_lt_coe]
    rfl
  · have hout : ¬ Heap.keyAt heap.toList c < Heap.keyAt heap.toList s := by
      rw [Heap.keyAt_of_le (by simpa using hc)]
      exact not_top_lt
    rw [if_neg hc, if_neg hout]

theorem smaller_lt {s : ℕ} (hs : s < heap.size) (c : ℕ) :
    Heap.smaller heap.toList s c < heap.size := by
  rw [Heap.smaller]
  split
  · rename_i hlt
    simpa using Heap.lt_length_of_keyAt_lt hlt
  · exact hs

/-- A round of the loop of `pop` is one of the library's. -/
theorem downRound_eq (hi : i < heap.size) : downRound (heap, i) =
    if Heap.smallest heap.toList i = i then some (.done heap)
    else some (.again ((heap.toList.swap (Heap.smallest heap.toList i) i).toArray,
      Heap.smallest heap.toList i)) := by
  have hs := smaller_lt hi (2 * i + 1)
  have hround : downRound (heap, i) =
      (lesser heap i (2 * i + 1)).bind fun s ↦ (lesser heap s (2 * i + 2)).bind fun s ↦
        if s = i then some (.done heap)
        else (exchange heap s i).bind fun heap ↦ some (.again (heap, s)) := rfl
  rw [hround, lesser_eq hi, Option.bind_some, lesser_eq hs, Option.bind_some,
    exchange_eq (smaller_lt hs _) hi, Option.bind_some, Heap.smallest]

theorem run_downRound {n : ℕ} (hi : i < heap.size) (hn : heap.size - 1 - i < n) :
    Loop.run downRound n (heap, i) = some (Heap.siftDown heap.toList i).toArray := by
  apply Loop.run_eq_some (fun s : Array (K × ℕ) × ℕ ↦ s.2 < s.1.size)
    (fun s ↦ (Heap.siftDown s.1.toList s.2).toArray) (fun s ↦ s.1.size - 1 - s.2) ?_ hi hn
  rintro ⟨heap, i⟩ hi
  rw [downRound_eq hi, Heap.siftDown]
  by_cases hsame : Heap.smallest heap.toList i = i
  · left
    rw [if_pos hsame, if_pos hsame, Array.toArray_toList]
  · right
    obtain ⟨hbelow, hlen⟩ := Heap.smallest_bounds hsame
    rw [Array.length_toList] at hlen
    refine ⟨_, if_neg hsame, ?_, ?_, ?_⟩
    · simpa using hlen
    · rw [if_neg hsame]
    · simp only [List.size_toArray, List.length_swap, Array.length_toList]
      omega

theorem pop_eq (heap : Array (K × ℕ)) :
    pop heap = (Heap.pop heap.toList).map fun r ↦ (r.1, r.2.toArray) := by
  obtain ⟨entries⟩ := heap
  cases entries with
  | nil => rfl
  | cons top rest =>
      by_cases hrest : rest = []
      · subst hrest
        rfl
      · have hlast : (top :: rest).toArray.back? = some (rest.getLast hrest) := by
          rw [List.back?_toArray, List.getLast?_eq_some_getLast (List.cons_ne_nil _ _),
            List.getLast_cons hrest]
        have hmoved : (top :: rest).toArray.pop.setIfInBounds 0 (rest.getLast hrest) =
            (rest.getLast hrest :: rest.dropLast).toArray := by
          rw [List.pop_toArray, List.dropLast_cons_of_ne_nil hrest, List.setIfInBounds_toArray,
            List.set_cons_zero]
        have hsize : (top :: rest).toArray.pop.size = rest.length := by
          rw [Array.size_pop, List.size_toArray, List.length_cons, Nat.add_sub_cancel]
        have hpos : 0 < rest.length := List.length_pos_iff.mpr hrest
        have hrun : Loop.run downRound rest.length
            ((rest.getLast hrest :: rest.dropLast).toArray, 0) =
            some (Heap.siftDown (rest.getLast hrest :: rest.dropLast) 0).toArray := by
          apply run_downRound
          · simp
          · simp only [List.size_toArray, List.length_cons, List.length_dropLast]
            omega
        have htop : (top :: rest).toArray[0]? = some top := rfl
        rw [pop, htop, hlast]
        simp only [Option.bind_eq_bind, Option.bind_some, hsize, if_pos hpos, hmoved, hrun,
          Heap.pop, dif_neg hrest, Option.map_some]
        rfl

end Refines

/-! ## A priority queue -/

inductive Call (K : Type)
  | push (d : K) (n : ℕ)
  | pop

/-- The heap, and what the calls of `pop` have returned. -/
structure State (K : Type) where
  heap : Array (K × ℕ)
  popped : List (K × ℕ)

def start (d : K) (n : ℕ) : State K where
  heap := #[(d, n)]
  popped := []

/-- No call of `pop` finds the heap empty, with so many entries at first. -/
def Enough : ℕ → List (Call K) → Prop
  | _, [] => True
  | k, .push _ _ :: calls => Enough (k + 1) calls
  | 0, .pop :: _ => False
  | k + 1, .pop :: calls => Enough k calls

def pushed (calls : List (Call K)) : List (K × ℕ) :=
  calls.filterMap fun
    | .push d n => some (d, n)
    | .pop => none

variable [LinearOrder K]

def State.step (s : State K) : Call K → Option (State K)
  | .push d n => (push s.heap d n).map fun heap ↦ { s with heap := heap }
  | .pop => (pop s.heap).map fun (top, heap) ↦ { heap := heap, popped := s.popped ++ [top] }

/-- No distance is smaller than that of the parent. -/
def MinHeap (heap : Array (K × ℕ)) : Prop :=
  ∀ i parent entry, 0 < i → heap[(i - 1) / 2]? = some parent → heap[i]? = some entry →
    parent.1 ≤ entry.1

/-- A call of `pop` returns an entry of the heap with the least distance. -/
def TakesMin (s : State K) : Call K → Prop
  | .push _ _ => True
  | .pop => ∃ top heap, pop s.heap = some (top, heap) ∧ top ∈ s.heap ∧
      ∀ entry ∈ s.heap, top.1 ≤ entry.1

/-- The order, and where the entries pushed so far are. -/
structure Queue (all : Multiset (K × ℕ)) (s : State K) : Prop where
  order : MinHeap s.heap
  entries : (s.heap.toList : Multiset (K × ℕ)) + s.popped = all

section Calls

variable {all : Multiset (K × ℕ)} {s : State K}

theorem minHeap_iff {heap : Array (K × ℕ)} : MinHeap heap ↔ Heap.Ordered heap.toList := by
  constructor
  · intro h i
    rcases lt_or_ge (i + 1) heap.size with hi | hi
    · obtain ⟨entry, hentry, hkey⟩ := getElem?_eq_toList hi
      obtain ⟨parent, hparent, hkey'⟩ := getElem?_eq_toList (show i / 2 < heap.size by omega)
      rw [hkey, hkey', WithTop.coe_le_coe]
      exact h (i + 1) parent entry (Nat.succ_pos i) hparent hentry
    · have hout : Heap.keyAt heap.toList (i + 1) = ⊤ := Heap.keyAt_of_le (by simpa using hi)
      rw [hout]
      exact le_top
  · intro h i parent entry hi hparent hentry
    obtain ⟨i, rfl⟩ := Nat.exists_eq_succ_of_ne_zero hi.ne'
    have hkeys := h i
    rw [Heap.keyAt, Heap.keyAt, Array.getElem?_toList, Array.getElem?_toList, hentry] at hkeys
    rw [Nat.succ_sub_one] at hparent
    rw [hparent] at hkeys
    exact WithTop.coe_le_coe.mp hkeys

theorem Queue.push (hq : Queue all s) (d : K) (n : ℕ) : ∃ t, s.step (.push d n) = some t ∧
    Queue ((d, n) ::ₘ all) t ∧ t.heap.size = s.heap.size + 1 := by
  refine ⟨_, congrArg (Option.map _) (push_eq s.heap d n), ⟨?_, ?_⟩, ?_⟩
  · exact minHeap_iff.mpr (Heap.ordered_push (minHeap_iff.mp hq.order) _)
  · have hperm := Heap.push_perm s.heap.toList (d, n)
    rw [← hq.entries, ← Multiset.cons_add, Multiset.cons_coe]
    exact congrArg (· + (s.popped : Multiset (K × ℕ))) (Multiset.coe_eq_coe.mpr hperm)
  · exact Heap.length_push _ _

theorem Queue.pop (hq : Queue all s) (hsize : 0 < s.heap.size) : ∃ t, s.step .pop = some t ∧
    Queue all t ∧ t.heap.size + 1 = s.heap.size ∧ TakesMin s .pop := by
  have hne : Heap.pop s.heap.toList ≠ none := by
    rw [ne_eq, Heap.pop_eq_none, ← List.length_eq_zero_iff]
    exact hsize.ne'
  obtain ⟨⟨top, rest⟩, hpop⟩ := Option.ne_none_iff_exists'.mp hne
  have hperm := Heap.pop_perm hpop
  obtain ⟨horder, hmin⟩ := Heap.ordered_pop (minHeap_iff.mp hq.order) hpop
  have hreturns : DistHeap.pop s.heap = some (top, rest.toArray) := by
    rw [pop_eq, hpop]
    rfl
  refine ⟨⟨rest.toArray, s.popped ++ [top]⟩, ?_, ⟨?_, ?_⟩, ?_, top, rest.toArray, hreturns, ?_, ?_⟩
  · rw [State.step, hreturns]
    rfl
  · exact minHeap_iff.mpr horder
  · have hentries : (s.heap.toList : Multiset (K × ℕ)) = top ::ₘ (rest : Multiset (K × ℕ)) :=
      Multiset.coe_eq_coe.mpr hperm
    rw [← hq.entries, hentries, ← Multiset.coe_add, Multiset.coe_singleton, Multiset.cons_add,
      ← Multiset.add_assoc, Multiset.add_comm _ {top}, Multiset.singleton_add]
  · exact hperm.length_eq.symm
  · exact Array.mem_toList_iff.mp (hperm.mem_iff.mpr (List.mem_cons_self ..))
  · exact fun entry hentry ↦ hmin entry (Array.mem_toList_iff.mpr hentry)

/-- Every call returns, and the queue is kept. -/
theorem Queue.run (hq : Queue all s) {calls : List (Call K)} (h : Enough s.heap.size calls) :
    ∃ t, Machine.run State.step s calls = some t ∧
      Queue (all + (pushed calls : Multiset (K × ℕ))) t ∧
      Machine.Along State.step TakesMin s calls := by
  induction calls generalizing s all with
  | nil =>
      refine ⟨s, rfl, ?_, trivial⟩
      rwa [pushed, List.filterMap_nil, Multiset.coe_nil, Multiset.add_zero]
  | cons call calls ih =>
      have hafter : ∀ t, s.step call = some t → Machine.Along State.step TakesMin t calls →
          ∀ t', s.step call = some t' → Machine.Along State.step TakesMin t' calls := by
        intro t ht halong t' ht'
        exact Option.some.inj (ht.symm.trans ht') ▸ halong
      cases call with
      | push d n =>
          obtain ⟨t, hstep, ht, hsize⟩ := hq.push d n
          obtain ⟨u, hrun, hu, halong⟩ := ih ht (hsize ▸ h)
          refine ⟨u, Machine.run_cons.mpr ⟨t, hstep, hrun⟩, ?_, trivial, hafter t hstep halong⟩
          rwa [Multiset.cons_add, ← Multiset.add_cons, Multiset.cons_coe] at hu
      | pop =>
          have hpos : 0 < s.heap.size := by
            by_contra hzero
            rw [Nat.eq_zero_of_not_pos hzero] at h
            exact h
          obtain ⟨t, hstep, ht, hsize, hmin⟩ := hq.pop hpos
          rw [← hsize] at h
          obtain ⟨u, hrun, hu, halong⟩ := ih ht h
          exact ⟨u, Machine.run_cons.mpr ⟨t, hstep, hrun⟩, hu, hmin, hafter t hstep halong⟩

end Calls

/-- The heap is a priority queue: whatever is pushed and popped after the first
entry, both loops of every call end, the order holds, the heap has the entries
that are pushed and not yet popped, and each pop takes one with the least distance. -/
theorem heap_priorityQueue (d : K) (n : ℕ) (calls : List (Call K)) (h : Enough 1 calls) :
    ∃ s, Machine.run State.step (start d n) calls = some s ∧ MinHeap s.heap ∧
      (s.heap.toList : Multiset (K × ℕ)) + s.popped = (d, n) ::ₘ (pushed calls : Multiset (K × ℕ)) ∧
      Machine.Along State.step TakesMin (start d n) calls := by
  have hstart : Queue {(d, n)} (start d n) := by
    refine ⟨minHeap_iff.mpr ?_, rfl⟩
    intro i
    exact le_of_le_of_eq le_top (Heap.keyAt_of_le (Nat.le_add_left 1 i)).symm
  obtain ⟨s, hrun, hs, halong⟩ := hstart.run h
  refine ⟨s, hrun, hs.order, ?_, halong⟩
  rw [hs.entries, Multiset.singleton_add]

theorem three_entries : ∃ s : State ℕ,
    Machine.run State.step (start 5 0) [.push 7 1, .push 2 2, .pop, .pop] = some s ∧
      MinHeap s.heap ∧
      (s.heap.toList : Multiset (ℕ × ℕ)) + s.popped =
        (5, 0) ::ₘ (([(7, 1), (2, 2)] : List (ℕ × ℕ)) : Multiset (ℕ × ℕ)) ∧
      Machine.Along State.step TakesMin (start 5 0) [.push 7 1, .push 2 2, .pop, .pop] :=
  heap_priorityQueue 5 0 [.push 7 1, .push 2 2, .pop, .pop] trivial

end DistHeap

end TrafficMap.Web
