import Mathlib.Data.List.Infix
import TrafficMap.Lib.Cursor
import TrafficMap.Lib.Checked

/-!
# Length-prefixed layouts

Vectors behind a big-endian length and chains of tag-length-value items, as
writers lay them out and as a reader meets them.  A chain is read until the
next item does not arrive whole, so the chain of a prefix of a buffer is a
prefix of the buffer's chain.
-/

namespace Wire

/-! ## Vectors -/

/-- A vector behind its length in `w` bytes. -/
def vec (w : ℕ) (bs : Bytes) : Bytes := toBe w bs.length ++ bs

@[simp] theorem length_vec (w : ℕ) (bs : Bytes) : (vec w bs).length = w + bs.length := by
  simp [vec]

theorem vec_append_inj {w : ℕ} {as bs xs ys : Bytes}
    (has : as.length < 256 ^ w) (hbs : bs.length < 256 ^ w)
    (h : vec w as ++ xs = vec w bs ++ ys) : as = bs ∧ xs = ys := by
  rw [vec, vec, List.append_assoc, List.append_assoc] at h
  obtain ⟨hlen, hrest⟩ := List.append_inj h (by simp)
  have hsame : as.length = bs.length := by
    have := congrArg ofBe hlen
    rwa [ofBe_toBe_of_lt has, ofBe_toBe_of_lt hbs] at this
  exact List.append_inj hrest hsame

/-! ## Tag-length-value chains -/

/-- One item: its tag in `tw` bytes and its value behind a length in `lw`
bytes. -/
def tlv (tw lw : ℕ) (item : ℕ × Bytes) : Bytes := toBe tw item.1 ++ vec lw item.2

def tlvNext (tw lw : ℕ) (bs : Bytes) : Option ((ℕ × Bytes) × Bytes) :=
  if tw + lw ≤ bs.length then
    let len := ofBe ((bs.drop tw).take lw)
    let rest := bs.drop (tw + lw)
    if len ≤ rest.length then some ((ofBe (bs.take tw), rest.take len), rest.drop len)
    else none
  else none

/-- The whole items at the start of a buffer, at most `fuel` of them. -/
def tlvChain (tw lw : ℕ) : ℕ → Bytes → List (ℕ × Bytes)
  | 0, _ => []
  | fuel + 1, bs =>
      match tlvNext tw lw bs with
      | some (item, rest) => item :: tlvChain tw lw fuel rest
      | none => []

def tlvs (tw lw : ℕ) (bs : Bytes) : List (ℕ × Bytes) := tlvChain tw lw bs.length bs

section Tlv

variable {tw lw : ℕ}

theorem length_of_tlvNext {bs rest : Bytes} {item : ℕ × Bytes}
    (h : tlvNext tw lw bs = some (item, rest)) :
    rest.length + tw + lw + item.2.length = bs.length := by
  rw [tlvNext] at h
  split at h
  · dsimp only at h
    split at h
    · next hhead hbody =>
        obtain ⟨rfl, rfl⟩ := Prod.mk.inj (Option.some.inj h)
        simp only [List.length_drop, List.length_take] at hbody ⊢
        omega
    · cases h
  · cases h

theorem tlvNext_append {bs rest : Bytes} {item : ℕ × Bytes}
    (h : tlvNext tw lw bs = some (item, rest)) (suf : Bytes) :
    tlvNext tw lw (bs ++ suf) = some (item, rest ++ suf) := by
  rw [tlvNext] at h
  split at h
  · dsimp only at h
    split at h
    · next hhead hbody =>
        obtain ⟨rfl, rfl⟩ := Prod.mk.inj (Option.some.inj h)
        have htag : (bs ++ suf).take tw = bs.take tw := List.take_append_of_le_length (by omega)
        have hlen : ((bs ++ suf).drop tw).take lw = (bs.drop tw).take lw := by
          rw [List.drop_append_of_le_length (by omega),
            List.take_append_of_le_length (by simp; omega)]
        have hdrop : (bs ++ suf).drop (tw + lw) = bs.drop (tw + lw) ++ suf :=
          List.drop_append_of_le_length hhead
        rw [tlvNext, if_pos (by rw [List.length_append]; omega)]
        dsimp only
        rw [hlen, hdrop, htag, if_pos (by rw [List.length_append]; omega),
          List.take_append_of_le_length hbody, List.drop_append_of_le_length hbody]
    · cases h
  · cases h

theorem tlvNext_tlv {item : ℕ × Bytes} (htag : item.1 < 256 ^ tw)
    (hlen : item.2.length < 256 ^ lw) (suf : Bytes) :
    tlvNext tw lw (tlv tw lw item ++ suf) = some (item, suf) := by
  have hsplit : tlv tw lw item ++ suf =
      toBe tw item.1 ++ (toBe lw item.2.length ++ (item.2 ++ suf)) := by
    simp [tlv, vec]
  have htw : (toBe tw item.1).length = tw := length_toBe _ _
  have hlw : (toBe lw item.2.length).length = lw := length_toBe _ _
  have hdropTag : (tlv tw lw item ++ suf).drop tw =
      toBe lw item.2.length ++ (item.2 ++ suf) := by
    rw [hsplit, List.drop_append_of_le_length htw.ge, List.drop_of_length_le htw.le,
      List.nil_append]
  have hdrop : (tlv tw lw item ++ suf).drop (tw + lw) = item.2 ++ suf := by
    rw [← List.drop_drop, hdropTag, List.drop_append_of_le_length hlw.ge,
      List.drop_of_length_le hlw.le, List.nil_append]
  have htake : (tlv tw lw item ++ suf).take tw = toBe tw item.1 := by
    rw [hsplit, List.take_append_of_le_length htw.ge, List.take_of_length_le htw.le]
  have htakeLen : ((tlv tw lw item ++ suf).drop tw).take lw = toBe lw item.2.length := by
    rw [hdropTag, List.take_append_of_le_length hlw.ge, List.take_of_length_le hlw.le]
  rw [tlvNext, if_pos (by rw [hsplit]; simp)]
  dsimp only
  rw [htakeLen, hdrop, htake, ofBe_toBe_of_lt hlen, ofBe_toBe_of_lt htag,
    if_pos (by rw [List.length_append]; omega), List.take_left, List.drop_left]

theorem tlvChain_of_le (htw : 0 < tw) {fuel : ℕ} {bs : Bytes} (h : bs.length ≤ fuel) :
    tlvChain tw lw fuel bs = tlvs tw lw bs := by
  suffices hgen : ∀ m n (bs : Bytes), bs.length ≤ m → bs.length ≤ n →
      tlvChain tw lw m bs = tlvChain tw lw n bs from hgen _ _ bs h le_rfl
  intro m
  induction m with
  | zero =>
      intro n bs hm _
      have hnil : bs = [] := List.eq_nil_of_length_eq_zero (by omega)
      cases n with
      | zero => rfl
      | succ n => simp [tlvChain, tlvNext, hnil, htw.ne']
  | succ m ih =>
      intro n bs hm hn
      cases n with
      | zero =>
          have hnil : bs = [] := List.eq_nil_of_length_eq_zero (by omega)
          simp [tlvChain, tlvNext, hnil, htw.ne']
      | succ n =>
          simp only [tlvChain]
          cases hnext : tlvNext tw lw bs with
          | none => rfl
          | some next =>
              have hlen := length_of_tlvNext hnext
              exact congrArg _ (ih n next.2 (by omega) (by omega))

theorem tlvs_of_next (htw : 0 < tw) {bs rest : Bytes} {item : ℕ × Bytes}
    (h : tlvNext tw lw bs = some (item, rest)) :
    tlvs tw lw bs = item :: tlvs tw lw rest := by
  have hlen := length_of_tlvNext h
  rw [← tlvChain_of_le htw (Nat.le_succ bs.length), tlvChain, h]
  exact congrArg _ (tlvChain_of_le htw (by omega))

theorem tlvs_of_next_none (htw : 0 < tw) {bs : Bytes} (h : tlvNext tw lw bs = none) :
    tlvs tw lw bs = [] := by
  rw [← tlvChain_of_le htw (Nat.le_succ bs.length), tlvChain, h]

/-- A reader meets the items a writer laid out. -/
theorem tlvs_flatMap_append (htw : 0 < tw) {items : List (ℕ × Bytes)}
    (hfit : ∀ item ∈ items, item.1 < 256 ^ tw ∧ item.2.length < 256 ^ lw) (suf : Bytes) :
    tlvs tw lw (items.flatMap (tlv tw lw) ++ suf) = items ++ tlvs tw lw suf := by
  induction items with
  | nil => simp
  | cons item items ih =>
      have hhead := hfit item (by simp)
      rw [List.flatMap_cons, List.append_assoc,
        tlvs_of_next htw (tlvNext_tlv hhead.1 hhead.2 _),
        ih fun i hi ↦ hfit i (List.mem_cons_of_mem _ hi), List.cons_append]

theorem tlvs_prefix_append (htw : 0 < tw) (bs suf : Bytes) :
    tlvs tw lw bs <+: tlvs tw lw (bs ++ suf) := by
  induction hn : bs.length using Nat.strong_induction_on generalizing bs with
  | _ n ih =>
      cases hnext : tlvNext tw lw bs with
      | none =>
          rw [tlvs_of_next_none htw hnext]
          exact List.nil_prefix
      | some next =>
          obtain ⟨item, rest⟩ := next
          have hlen := length_of_tlvNext hnext
          rw [tlvs_of_next htw hnext, tlvs_of_next htw (tlvNext_append hnext suf),
            List.prefix_cons_inj]
          exact ih rest.length (by omega) rest rfl

theorem tlvs_take_prefix (htw : 0 < tw) (n : ℕ) (bs : Bytes) :
    tlvs tw lw (bs.take n) <+: tlvs tw lw bs := by
  simpa using tlvs_prefix_append htw (bs.take n) (bs.drop n)

end Tlv

end Wire
