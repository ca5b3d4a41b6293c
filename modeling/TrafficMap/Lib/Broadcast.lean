import Mathlib.Data.List.Infix
import Mathlib.Data.List.TakeDrop
import Mathlib.Logic.Function.Basic

/-!
# A bounded broadcast

The operations of a channel that keeps the last values sent for receivers that
read it at their own pace, and what is documented of them: a receiver is owed the
values sent since it joined, in their order, and if more are owed to it than are
kept it is told how many it has missed and goes on with the oldest one kept.
Beside the log of everything sent, what a receiver has got is the log from where
it joined with the missed values left out.
-/

namespace Broadcast

variable {α : Type*}

/-- What a read finds. -/
inductive Recv (α : Type*)
  | value (a : α)
  | lagged (n : ℕ)
  | empty

/-- The operations; a receiver is named by a number. -/
structure Ops (α : Type*) where
  Chan : Type
  channel : ℕ → Chan
  send : Chan → α → Chan
  subscribe : Chan → ℕ → Chan
  recv : Chan → ℕ → Recv α × Chan
  drop : Chan → ℕ → Chan

/-- What the operations promise, in terms of the values owed to each receiver.  A
channel made for `capacity` values keeps `retained`, which can be more. -/
structure Documented (b : Ops α) (capacity retained : ℕ)
    (Owes : b.Chan → (ℕ → Option (List α)) → Prop) : Prop where
  retained_ge : capacity ≤ retained
  channel : Owes (b.channel capacity) fun _ ↦ none
  send {c owed} (a : α) (h : Owes c owed) : Owes (b.send c a) fun id ↦ (owed id).map (· ++ [a])
  subscribe {c owed i} (h : Owes c owed) (hi : owed i = none) :
    Owes (b.subscribe c i) (Function.update owed i (some []))
  drop {c owed i} (h : Owes c owed) : Owes (b.drop c i) (Function.update owed i none)
  value {c owed i a rest} (h : Owes c owed) (hi : owed i = some (a :: rest))
    (hfew : (a :: rest).length ≤ retained) :
    ∃ c', b.recv c i = (.value a, c') ∧ Owes c' (Function.update owed i (some rest))
  lagged {c owed i l} (h : Owes c owed) (hi : owed i = some l) (hmany : retained < l.length) :
    ∃ c', b.recv c i = (.lagged (l.length - retained), c') ∧
      Owes c' (Function.update owed i (some (l.drop (l.length - retained))))
  empty {c owed i} (h : Owes c owed) (hi : owed i = some []) : (b.recv c i).1 = .empty

/-! ## What a receiver has got -/

/-- It joined at `start`, and has got these values and missed so many. -/
structure Reader (α : Type*) where
  start : ℕ
  got : List α
  missed : ℕ

namespace Reader

/-- The number of the value to read next. -/
def next (r : Reader α) : ℕ := r.start + r.got.length + r.missed

def take (r : Reader α) (a : α) : Reader α := { r with got := r.got ++ [a] }

def skip (r : Reader α) (n : ℕ) : Reader α := { r with missed := r.missed + n }

@[simp] theorem next_new (n : ℕ) : (⟨n, [], 0⟩ : Reader α).next = n := rfl

@[simp] theorem next_take (r : Reader α) (a : α) : (r.take a).next = r.next + 1 := by
  simp only [next, take, List.length_append, List.length_singleton]
  omega

@[simp] theorem next_skip (r : Reader α) (n : ℕ) : (r.skip n).next = r.next + n :=
  (Nat.add_assoc _ _ _).symm

end Reader

/-- What it has got is part of the log, from where it joined to where it stands. -/
structure Follows (log : List α) (r : Reader α) : Prop where
  next_le : r.next ≤ log.length
  sublist : r.got.Sublist ((log.take r.next).drop r.start)

namespace Follows

variable {log : List α} {r : Reader α}

theorem start_le (r : Reader α) : r.start ≤ r.next :=
  (Nat.le_add_right _ _).trans (Nat.le_add_right _ _)

theorem new (log : List α) : Follows log ⟨log.length, [], 0⟩ :=
  ⟨le_refl log.length, List.nil_sublist _⟩

/-- More is sent, and the receiver has not moved. -/
theorem append (h : Follows log r) (more : List α) : Follows (log ++ more) r where
  next_le := h.next_le.trans (by rw [List.length_append]; exact Nat.le_add_right _ _)
  sublist := by
    rw [List.take_append_of_le_length h.next_le]
    exact h.sublist

theorem take (h : Follows log r) {a : α} (ha : log[r.next]? = some a) :
    Follows log (r.take a) where
  next_le := by
    rw [Reader.next_take]
    exact (List.getElem?_eq_some_iff.mp ha).1
  sublist := by
    have hlen : r.start ≤ (log.take r.next).length := by
      rw [List.length_take_of_le h.next_le]
      exact start_le r
    rw [Reader.next_take, List.take_add_one, ha]
    change (r.got ++ [a]).Sublist ((log.take r.next ++ [a]).drop r.start)
    rw [List.drop_append_of_le_length hlen]
    exact h.sublist.append (List.Sublist.refl _)

theorem skip (h : Follows log r) {n : ℕ} (hn : r.next + n ≤ log.length) :
    Follows log (r.skip n) where
  next_le := by
    rw [Reader.next_skip]
    exact hn
  sublist := by
    rw [Reader.next_skip]
    exact h.sublist.trans
      ((List.take_prefix_take_left (Nat.le_add_right _ _)).sublist.drop r.start)

/-- A receiver that has missed nothing has got everything up to where it stands. -/
theorem got_append_drop (h : Follows log r) (hmissed : r.missed = 0) :
    r.got ++ log.drop r.next = log.drop r.start := by
  have hgot : r.got = (log.take r.next).drop r.start := by
    apply h.sublist.eq_of_length
    rw [List.length_drop, List.length_take_of_le h.next_le, Reader.next, hmissed, Nat.add_zero,
      Nat.add_sub_cancel_left]
  calc r.got ++ log.drop r.next
      = (log.take r.next).drop r.start ++ log.drop r.next := congrArg (· ++ log.drop r.next) hgot
    _ = (log.take r.next ++ log.drop r.next).drop r.start := by
        rw [List.drop_append_of_le_length]
        rw [List.length_take_of_le h.next_le]
        exact start_le r
    _ = log.drop r.start := by rw [List.take_append_drop]

end Follows

/-! ## All receivers -/

variable {b : Ops α} {capacity retained : ℕ} {Owes : b.Chan → (ℕ → Option (List α)) → Prop}

/-- The channel owes each receiver the log from where it stands. -/
structure Tracks (Owes : b.Chan → (ℕ → Option (List α)) → Prop) (c : b.Chan) (log : List α)
    (readers : ℕ → Option (Reader α)) : Prop where
  owes : Owes c fun id ↦ (readers id).map fun r ↦ log.drop r.next
  follows : ∀ id r, readers id = some r → Follows log r

namespace Tracks

variable {c c' : b.Chan} {log : List α} {readers : ℕ → Option (Reader α)} {id : ℕ} {r : Reader α}

/-- One receiver changes, and is owed the log from its new place. -/
theorem update (h : Tracks Owes c log readers) {reader : Option (Reader α)}
    (howes : Owes c' (Function.update (fun id ↦ (readers id).map fun r ↦ log.drop r.next) id
      (reader.map fun r ↦ log.drop r.next)))
    (hfollows : ∀ r, reader = some r → Follows log r) :
    Tracks Owes c' log (Function.update readers id reader) where
  owes := by
    have hmap := Function.comp_update (Option.map fun r : Reader α ↦ log.drop r.next) readers id
      reader
    exact (congrArg (Owes c') hmap).mpr howes
  follows := by
    intro id' r hr
    by_cases hid : id' = id
    · rw [hid, Function.update_self] at hr
      exact hfollows r hr
    · rw [Function.update_of_ne hid] at hr
      exact h.follows id' r hr

section Documented

variable (hb : Documented b capacity retained Owes)

include hb

theorem channel : Tracks Owes (b.channel capacity) [] fun _ ↦ none :=
  ⟨hb.channel, fun _ _ ↦ nofun⟩

theorem send (h : Tracks Owes c log readers) (a : α) :
    Tracks Owes (b.send c a) (log ++ [a]) readers where
  owes := by
    have hmore : (fun id ↦ (readers id).map fun r ↦ (log ++ [a]).drop r.next) =
        fun id ↦ ((readers id).map fun r ↦ log.drop r.next).map (· ++ [a]) := by
      funext id
      cases hr : readers id with
      | none => rfl
      | some r =>
          exact congrArg some (List.drop_append_of_le_length (h.follows id r hr).next_le)
    rw [hmore]
    exact hb.send a h.owes
  follows := fun id r hr ↦ (h.follows id r hr).append [a]

theorem subscribe (h : Tracks Owes c log readers) (hid : readers id = none) :
    Tracks Owes (b.subscribe c id) log
      (Function.update readers id (some ⟨log.length, [], 0⟩)) := by
  refine h.update ?_ ?_
  · have howes := hb.subscribe (i := id) h.owes (by rw [hid]; rfl)
    rw [← List.drop_length (l := log)] at howes
    exact howes
  · rintro r ⟨⟩
    exact .new log

theorem drop (h : Tracks Owes c log readers) (id : ℕ) :
    Tracks Owes (b.drop c id) log (Function.update readers id none) :=
  h.update (hb.drop h.owes) nofun

/-- What a read can find, by what is owed. -/
theorem recv (h : Tracks Owes c log readers) (hr : readers id = some r) :
    (∃ a c', b.recv c id = (.value a, c') ∧ r.next < log.length ∧
        Tracks Owes c' log (Function.update readers id (some (r.take a)))) ∨
      (∃ n c', b.recv c id = (.lagged n, c') ∧ retained < log.length - r.next ∧
        Tracks Owes c' log (Function.update readers id (some (r.skip n)))) ∨
      ((b.recv c id).1 = .empty ∧ r.next = log.length) := by
  have hfollows := h.follows id r hr
  have hnext := hfollows.next_le
  have howed : (readers id).map (fun r ↦ log.drop r.next) = some (log.drop r.next) := by
    rw [hr]
    rfl
  rcases hnext.eq_or_lt with heq | hlt
  · refine .inr (.inr ⟨hb.empty (i := id) h.owes ?_, heq⟩)
    rw [howed, heq, List.drop_length]
  · by_cases hfew : log.length - r.next ≤ retained
    · rw [List.drop_eq_getElem_cons hlt] at howed
      obtain ⟨c', hrecv, howes⟩ := hb.value (i := id) h.owes howed (by
        rw [← List.drop_eq_getElem_cons hlt, List.length_drop]
        exact hfew)
      refine .inl ⟨_, c', hrecv, hlt, h.update ?_ ?_⟩
      · rw [Option.map_some, Reader.next_take]
        exact howes
      · rintro _ ⟨⟩
        exact hfollows.take (List.getElem?_eq_getElem hlt)
    · have hlen : (log.drop r.next).length = log.length - r.next := List.length_drop
      obtain ⟨c', hrecv, howes⟩ := hb.lagged (i := id) h.owes howed (by omega)
      refine .inr (.inl ⟨_, c', hrecv, by omega, h.update ?_ ?_⟩)
      · rw [Option.map_some, Reader.next_skip, ← List.drop_drop]
        exact howes
      · rintro _ ⟨⟩
        exact hfollows.skip (by omega)

theorem value (h : Tracks Owes c log readers) (hr : readers id = some r) {a : α}
    (hrecv : b.recv c id = (.value a, c')) :
    Tracks Owes c' log (Function.update readers id (some (r.take a))) := by
  rcases h.recv hb hr with ⟨_, _, heq, -, htracks⟩ | ⟨_, _, heq, -⟩ | ⟨heq, -⟩
  · rw [hrecv] at heq
    obtain ⟨⟨⟩, rfl⟩ := Prod.mk.inj heq
    exact htracks
  · rw [hrecv] at heq
    cases heq
  · rw [hrecv] at heq
    cases heq

theorem lagged (h : Tracks Owes c log readers) (hr : readers id = some r) {n : ℕ}
    (hrecv : b.recv c id = (.lagged n, c')) :
    retained < log.length - r.next ∧
      Tracks Owes c' log (Function.update readers id (some (r.skip n))) := by
  rcases h.recv hb hr with ⟨_, _, heq, -⟩ | ⟨_, _, heq, hmany, htracks⟩ | ⟨heq, -⟩
  · rw [hrecv] at heq
    cases heq
  · rw [hrecv] at heq
    obtain ⟨⟨⟩, rfl⟩ := Prod.mk.inj heq
    exact ⟨hmany, htracks⟩
  · rw [hrecv] at heq
    cases heq

theorem recv_empty_iff (h : Tracks Owes c log readers) (hr : readers id = some r) :
    (b.recv c id).1 = .empty ↔ r.next = log.length := by
  rcases h.recv hb hr with ⟨_, _, heq, hlt, -⟩ | ⟨_, _, heq, hmany, -⟩ | ⟨heq, hend⟩
  · rw [heq]
    exact iff_of_false nofun (by omega)
  · rw [heq]
    exact iff_of_false nofun (by omega)
  · exact iff_of_true heq hend

end Documented

end Tracks

/-! ## A ring -/

/-- `pos` values were sent; the last of them are kept, the oldest first.  A receiver
is the number of the value to read next. -/
structure Ring (α : Type*) where
  capacity : ℕ
  pos : ℕ
  kept : List α
  receivers : ℕ → Option ℕ

namespace Ring

/-- The number of the oldest value kept. -/
def oldest (c : Ring α) : ℕ := c.pos - c.kept.length

def send (c : Ring α) (a : α) : Ring α :=
  { c with
    pos := c.pos + 1
    kept := (c.kept ++ [a]).drop (c.kept.length + 1 - c.capacity) }

def move (c : Ring α) (id : ℕ) (next : Option ℕ) : Ring α :=
  { c with receivers := Function.update c.receivers id next }

def recv (c : Ring α) (id : ℕ) : Recv α × Ring α :=
  match c.receivers id with
  | none => (.empty, c)
  | some next =>
      if next < c.oldest then (.lagged (c.oldest - next), c.move id (some c.oldest))
      else
        match c.kept[next - c.oldest]? with
        | some a => (.value a, c.move id (some (next + 1)))
        | none => (.empty, c)

theorem recv_lagged {c : Ring α} {id next : ℕ} (hid : c.receivers id = some next)
    (hlt : next < c.oldest) :
    c.recv id = (.lagged (c.oldest - next), c.move id (some c.oldest)) := by
  simp only [recv, hid, if_pos hlt]

theorem recv_value {c : Ring α} {id next : ℕ} (hid : c.receivers id = some next)
    (hge : c.oldest ≤ next) {a : α} (ha : c.kept[next - c.oldest]? = some a) :
    c.recv id = (.value a, c.move id (some (next + 1))) := by
  simp only [recv, hid, if_neg (Nat.not_lt.mpr hge), ha]

theorem recv_empty {c : Ring α} {id next : ℕ} (hid : c.receivers id = some next)
    (hge : c.oldest ≤ next) (hnone : c.kept[next - c.oldest]? = none) :
    c.recv id = (.empty, c) := by
  simp only [recv, hid, if_neg (Nat.not_lt.mpr hge), hnone]

/-- The ring as a channel. -/
def ops (α : Type) : Ops α where
  Chan := Ring α
  channel capacity := ⟨capacity, 0, [], fun _ ↦ none⟩
  send := send
  subscribe c id := c.move id (some c.pos)
  recv := recv
  drop c id := c.move id none

/-- The ring keeps the end of the log, and the rest of it is owed. -/
structure Keeps (capacity : ℕ) (log : List α) (c : Ring α) (owed : ℕ → Option (List α)) :
    Prop where
  capacity : c.capacity = capacity
  pos : c.pos = log.length
  kept : c.kept = log.drop (log.length - c.capacity)
  le : ∀ id next, c.receivers id = some next → next ≤ log.length
  owed : ∀ id, owed id = (c.receivers id).map log.drop

namespace Keeps

variable {capacity : ℕ} {log : List α} {c : Ring α} {owed : ℕ → Option (List α)}

theorem oldest (h : Keeps capacity log c owed) : c.oldest = log.length - capacity := by
  rw [Ring.oldest, h.pos, h.kept, List.length_drop, h.capacity]
  omega

theorem kept_get (h : Keeps capacity log c owed) {n : ℕ} (hn : c.oldest ≤ n) :
    c.kept[n - c.oldest]? = log[n]? := by
  rw [h.kept, List.getElem?_drop, h.capacity, ← h.oldest, Nat.add_sub_cancel' hn]

theorem move (h : Keeps capacity log c owed) (id : ℕ) (next : Option ℕ)
    (hnext : ∀ n, next = some n → n ≤ log.length) :
    Keeps capacity log (c.move id next) (Function.update owed id (next.map log.drop)) where
  capacity := h.capacity
  pos := h.pos
  kept := h.kept
  le := by
    intro id' n hn
    rw [Ring.move] at hn
    dsimp only at hn
    by_cases hid : id' = id
    · rw [hid, Function.update_self] at hn
      exact hnext n hn
    · rw [Function.update_of_ne hid] at hn
      exact h.le id' n hn
  owed := by
    intro id'
    rw [Ring.move]
    dsimp only
    by_cases hid : id' = id
    · rw [hid, Function.update_self, Function.update_self]
    · rw [Function.update_of_ne hid, Function.update_of_ne hid]
      exact h.owed id'

theorem send (h : Keeps capacity log c owed) (a : α) :
    Keeps capacity (log ++ [a]) (c.send a) fun id ↦ (owed id).map (· ++ [a]) where
  capacity := h.capacity
  pos := by rw [Ring.send, h.pos, List.length_append, List.length_singleton]
  kept := by
    have hle : log.length - c.capacity ≤ log.length := Nat.sub_le _ _
    have hcount : log.length - c.capacity + (log.length - (log.length - c.capacity) + 1 -
        c.capacity) = (log ++ [a]).length - c.capacity := by
      simp only [List.length_append, List.length_singleton]
      omega
    rw [Ring.send, h.kept, ← List.drop_append_of_le_length hle, List.drop_drop,
      List.length_drop, hcount]
  le := fun id next hnext ↦ (h.le id next hnext).trans (by simp)
  owed := by
    intro id
    rw [h.owed id]
    change ((c.receivers id).map log.drop).map (· ++ [a]) =
      (c.receivers id).map (log ++ [a]).drop
    cases hnext : c.receivers id with
    | none => rfl
    | some next =>
        exact congrArg some (List.drop_append_of_le_length (h.le id next hnext)).symm

theorem receiver (h : Keeps capacity log c owed) {id : ℕ} {l : List α}
    (hid : owed id = some l) :
    ∃ next, c.receivers id = some next ∧ log.drop next = l ∧ next ≤ log.length := by
  rw [h.owed id] at hid
  obtain ⟨next, hnext, hl⟩ := Option.map_eq_some_iff.mp hid
  exact ⟨next, hnext, hl, h.le id next hnext⟩

/-- The next value owed is still kept. -/
theorem value (h : Keeps capacity log c owed) {id : ℕ} {rest : List α}
    (hid : owed id = some (a :: rest)) (hfew : (a :: rest).length ≤ capacity) :
    ∃ c', c.recv id = (.value a, c') ∧
      Keeps capacity log c' (Function.update owed id (some rest)) := by
  obtain ⟨next, hnext, hdrop, hle⟩ := h.receiver hid
  have hlen : log.length - next = (a :: rest).length := by
    rw [← hdrop, List.length_drop]
  have hkept : c.oldest ≤ next := by
    rw [h.oldest]
    omega
  have ha : log[next]? = some a := by
    rw [← List.head?_drop, hdrop]
    rfl
  have hrest : log.drop (next + 1) = rest := by
    rw [← List.tail_drop, hdrop]
    rfl
  refine ⟨c.move id (some (next + 1)), ?_, ?_⟩
  · exact recv_value hnext hkept ((h.kept_get hkept).trans ha)
  · have hmove := h.move id (some (next + 1)) (by
      rintro n ⟨⟩
      exact (List.getElem?_eq_some_iff.mp ha).1)
    rw [Option.map_some, hrest] at hmove
    exact hmove

/-- The values that are kept no more are those behind the capacity. -/
theorem lagged (h : Keeps capacity log c owed) {id : ℕ} {l : List α} (hid : owed id = some l)
    (hmany : capacity < l.length) :
    ∃ c', c.recv id = (.lagged (l.length - capacity), c') ∧
      Keeps capacity log c' (Function.update owed id (some (l.drop (l.length - capacity)))) := by
  obtain ⟨next, hnext, hdrop, hle⟩ := h.receiver hid
  have hlen : log.length - next = l.length := by
    rw [← hdrop, List.length_drop]
  have hlt : next < c.oldest := by
    rw [h.oldest]
    omega
  have hmissed : c.oldest - next = l.length - capacity := by
    rw [h.oldest]
    omega
  refine ⟨c.move id (some c.oldest), ?_, ?_⟩
  · rw [← hmissed]
    exact recv_lagged hnext hlt
  · have hmove := h.move id (some c.oldest) (by
      rintro n ⟨⟩
      rw [h.oldest]
      exact Nat.sub_le _ _)
    have holdest : c.oldest = next + (l.length - capacity) := by omega
    rw [Option.map_some, holdest, ← List.drop_drop, hdrop] at hmove
    rw [holdest]
    exact hmove

end Keeps

/-- The ring keeps the promises. -/
theorem documented (α : Type) (capacity : ℕ) :
    Documented (ops α) capacity capacity fun c owed ↦ ∃ log, Keeps capacity log c owed where
  retained_ge := le_rfl
  channel := ⟨[], rfl, rfl, List.drop_nil.symm, fun _ _ ↦ nofun, fun _ ↦ rfl⟩
  send := by
    rintro c owed a ⟨log, h⟩
    exact ⟨log ++ [a], h.send a⟩
  subscribe := by
    rintro c owed id ⟨log, h⟩ -
    have hmove := h.move id (some c.pos) (by rintro n ⟨⟩; exact h.pos.le)
    rw [Option.map_some, h.pos, List.drop_length, ← h.pos] at hmove
    exact ⟨log, hmove⟩
  drop := by
    rintro c owed id ⟨log, h⟩
    exact ⟨log, h.move id none nofun⟩
  value := by
    rintro c owed id a rest ⟨log, h⟩ hid hfew
    obtain ⟨c', hread, hkeeps⟩ := h.value hid hfew
    exact ⟨c', hread, log, hkeeps⟩
  lagged := by
    rintro c owed id l ⟨log, h⟩ hid hmany
    obtain ⟨c', hread, hkeeps⟩ := h.lagged hid hmany
    exact ⟨c', hread, log, hkeeps⟩
  empty := by
    rintro c owed id ⟨log, h⟩ hid
    obtain ⟨next, hnext, hdrop, hle⟩ := h.receiver hid
    have hend : log.length ≤ next := List.drop_eq_nil_iff.mp hdrop
    have hkept : c.oldest ≤ next := by
      rw [h.oldest]
      omega
    have hnone : c.kept[next - c.oldest]? = none :=
      (h.kept_get hkept).trans (List.getElem?_eq_none hend)
    exact congrArg Prod.fst (recv_empty hnext hkept hnone)

end Ring

end Broadcast
