import TrafficMap.Lib.Memo
import TrafficMap.Web.Segment

/-!
# The path cache

`segmentPath` of `cables.ts` with the answers that it keeps, filed by the
coordinates with one decimal.
-/

namespace TrafficMap.Web

noncomputable section

/-! ## The cache -/

/-- `toFixed(1)`: ten times the number, rounded half away from zero. -/
def toFixed (x : ℝ) : String :=
  let n := ⌊|x| * (10 : ℕ) + 1 / (2 : ℕ)⌋₊
  (if x < 0 then "-" else "") ++ toString (n / 10) ++ "." ++ toString (n % 10)

def cacheKey (p : LngLat ℝ × LngLat ℝ) : String :=
  toFixed p.1.1 ++ "," ++ toFixed p.1.2 ++ ">" ++ toFixed p.2.1 ++ "," ++ toFixed p.2.2

abbrev Cache := String → Option Drawn

/-- A call, with the cache before and after it. -/
def segmentPath (w : World) (cache : Cache) (a b : LngLat ℝ) : Drawn × Cache :=
  match cache (cacheKey (a, b)) with
  | some hit => (hit, cache)
  | none =>
      if !w.loaded then (⟨densifyGreatCircle a b, false⟩, cache)
      else (w.compute a b, Function.update cache (cacheKey (a, b)) (some (w.compute a b)))

/-- Calls in a row. -/
def segmentPaths (w : World) : Cache → List (LngLat ℝ × LngLat ℝ) → List Drawn
  | _, [] => []
  | cache, p :: ps =>
      (segmentPath w cache p.1 p.2).1 :: segmentPaths w (segmentPath w cache p.1 p.2).2 ps

/-! ## Keys -/

theorem toList_toFixed (x : ℝ) : (toFixed x).toList =
    (if x < 0 then ['-'] else []) ++ Nat.toDigits 10 (⌊|x| * (10 : ℕ) + 1 / (2 : ℕ)⌋₊ / 10) ++
      '.' :: Nat.toDigits 10 (⌊|x| * (10 : ℕ) + 1 / (2 : ℕ)⌋₊ % 10) := by
  have hsign : (if x < 0 then "-" else "").toList = if x < 0 then ['-'] else [] := by
    split <;> rfl
  rw [toFixed, String.toList_append, String.toList_append, String.toList_append, hsign]
  simp [Nat.toString_eq_repr, Nat.toList_repr]

theorem notMem_toDigits {c : Char} (hc : c.isDigit = false) (n : ℕ) : c ∉ Nat.toDigits 10 n := by
  intro hmem
  rw [Nat.isDigit_of_mem_toDigits (by decide) (by decide) hmem] at hc
  cases hc

theorem toDigits_inj {m n : ℕ} (h : Nat.toDigits 10 m = Nat.toDigits 10 n) : m = n := by
  rw [← Nat.ofDigitChars_ten_toDigits (n := m), h, Nat.ofDigitChars_ten_toDigits]

/-- A separator is no character of a number. -/
theorem notMem_toFixed {c : Char} (hc : c.isDigit = false) (hsign : c ≠ '-') (hpoint : c ≠ '.')
    (x : ℝ) : c ∉ (toFixed x).toList := by
  rw [toList_toFixed]
  intro hmem
  rcases List.mem_append.mp hmem with hfront | hback
  · rcases List.mem_append.mp hfront with hneg | hdigit
    · split at hneg
      · exact hsign (List.mem_singleton.mp hneg)
      · cases hneg
    · exact notMem_toDigits hc _ hdigit
  · rcases List.mem_cons.mp hback with hdot | hdigit
    · exact hpoint hdot
    · exact notMem_toDigits hc _ hdigit

/-- What stands before the point shows the sign. -/
theorem sign_inj {x y : ℝ} {m n : ℕ} (h : (if x < 0 then ['-'] else []) ++ Nat.toDigits 10 m =
    (if y < 0 then ['-'] else []) ++ Nat.toDigits 10 n) : (x < 0 ↔ y < 0) ∧ m = n := by
  have hdigit : ∀ k l, '-' :: Nat.toDigits 10 k ≠ Nat.toDigits 10 l := by
    intro k l heq
    exact notMem_toDigits rfl l (heq ▸ List.mem_cons_self ..)
  by_cases hx : x < 0
  · by_cases hy : y < 0
    · rw [if_pos hx, if_pos hy] at h
      exact ⟨iff_of_true hx hy, toDigits_inj (List.append_cancel_left h)⟩
    · rw [if_pos hx, if_neg hy] at h
      exact absurd h (hdigit m n)
  · by_cases hy : y < 0
    · rw [if_neg hx, if_pos hy] at h
      exact absurd h.symm (hdigit n m)
    · rw [if_neg hx, if_neg hy] at h
      exact ⟨iff_of_false hx hy, toDigits_inj h⟩

/-- Numbers that look the same are less than one apart. -/
theorem abs_sub_lt_of_toFixed {x y : ℝ} (h : toFixed x = toFixed y) : |x - y| < 1 := by
  have hdot : ∀ (z : ℝ) (n : ℕ), '.' ∉ (if z < 0 then ['-'] else []) ++ Nat.toDigits 10 n := by
    intro z n hmem
    rcases List.mem_append.mp hmem with hneg | hdigit
    · split at hneg
      · exact absurd (List.mem_singleton.mp hneg) (by decide)
      · cases hneg
    · exact notMem_toDigits rfl _ hdigit
  have hlist := congrArg String.toList h
  rw [toList_toFixed, toList_toFixed] at hlist
  obtain ⟨hfront, -, hback⟩ := (List.append_cons_inj_of_notMem (hdot x _)
    (notMem_toDigits rfl _)).mp hlist
  obtain ⟨hsign, hten⟩ := sign_inj hfront
  have hone := toDigits_inj hback
  have hfloor : ⌊|x| * (10 : ℕ) + 1 / (2 : ℕ)⌋₊ = ⌊|y| * (10 : ℕ) + 1 / (2 : ℕ)⌋₊ := by omega
  have hx : 0 ≤ |x| * (10 : ℕ) + 1 / (2 : ℕ) := by positivity
  have hy : 0 ≤ |y| * (10 : ℕ) + 1 / (2 : ℕ) := by positivity
  have habs : |(|x| - |y|) * 10| < 1 := by
    have hint : ⌊|x| * (10 : ℕ) + 1 / (2 : ℕ)⌋ = ⌊|y| * (10 : ℕ) + 1 / (2 : ℕ)⌋ := by
      rw [← Int.natCast_floor_eq_floor hx, ← Int.natCast_floor_eq_floor hy, hfloor]
    have hlt := Int.abs_sub_lt_one_of_floor_eq_floor hint
    rwa [add_sub_add_right_eq_sub, ← sub_mul, Nat.cast_ofNat] at hlt
  have hxy : |x - y| = |(|x| - |y|)| := by
    by_cases hneg : x < 0
    · rw [abs_of_neg hneg, abs_of_neg (hsign.mp hneg), neg_sub_neg, abs_sub_comm]
    · rw [abs_of_nonneg (not_lt.mp hneg),
        abs_of_nonneg (not_lt.mp fun hy ↦ hneg (hsign.mpr hy))]
  rw [abs_mul, ← hxy] at habs
  norm_num at habs
  linarith

theorem toFixed_of_cacheKey {p q : LngLat ℝ × LngLat ℝ} (h : cacheKey p = cacheKey q) :
    (toFixed p.1.1 = toFixed q.1.1 ∧ toFixed p.1.2 = toFixed q.1.2) ∧
      toFixed p.2.1 = toFixed q.2.1 ∧ toFixed p.2.2 = toFixed q.2.2 := by
  have hcomma : ∀ x, ',' ∉ (toFixed x).toList := notMem_toFixed rfl (by decide) (by decide)
  have harrow : ∀ x, '>' ∉ (toFixed x).toList := notMem_toFixed rfl (by decide) (by decide)
  have hpair : ∀ x y, '>' ∉ (toFixed x).toList ++ ',' :: (toFixed y).toList := by
    intro x y hmem
    rcases List.mem_append.mp hmem with hx | hy
    · exact harrow x hx
    · rcases List.mem_cons.mp hy with heq | hy
      · exact absurd heq (by decide)
      · exact harrow y hy
  have hkey : ∀ r : LngLat ℝ × LngLat ℝ, (cacheKey r).toList =
      ((toFixed r.1.1).toList ++ ',' :: (toFixed r.1.2).toList) ++
        '>' :: ((toFixed r.2.1).toList ++ ',' :: (toFixed r.2.2).toList) := by
    intro r
    simp [cacheKey]
  have hlist := congrArg String.toList h
  rw [hkey, hkey] at hlist
  obtain ⟨ha, -, hb⟩ := (List.append_cons_inj_of_notMem (hpair _ _) (hpair _ _)).mp hlist
  obtain ⟨hlon, -, hlat⟩ := (List.append_cons_inj_of_notMem (hcomma _) (hcomma _)).mp ha
  obtain ⟨hlon', -, hlat'⟩ := (List.append_cons_inj_of_notMem (hcomma _) (hcomma _)).mp hb
  exact ⟨⟨String.ext hlon, String.ext hlat⟩, String.ext hlon', String.ext hlat'⟩

/-- A place less than a turn away is the same point. -/
theorem SameSpot.eq_of_toFixed {p q : LngLat ℝ} (h : SameSpot p q)
    (hlon : toFixed p.1 = toFixed q.1) : p = q := by
  obtain ⟨hlat, k, hk⟩ := h
  have hlt := abs_sub_lt_of_toFixed hlon
  rw [hk, add_sub_cancel_left, abs_mul] at hlt
  have hzero : k = 0 := by
    by_contra hne
    have hone : (1 : ℝ) ≤ |(k : ℝ)| := by exact_mod_cast Int.one_le_abs hne
    norm_num at hlt
    linarith
  refine Prod.ext ?_ hlat
  rw [hk, hzero, Int.cast_zero, mul_zero, add_zero]

/-! ## Calls in a row -/

/-- Each call returns what would be computed, a line between its endpoints. -/
def Transparent (w : World) (calls : List (LngLat ℝ × LngLat ℝ)) : Prop :=
  List.Forall₂ (fun p drawn ↦ drawn = w.compute p.1 p.2 ∧ Joins p.1 p.2 drawn.path) calls
    (segmentPaths w (fun _ ↦ none) calls)

/-- The key tells the calls apart. -/
def KeysApart (calls : List (LngLat ℝ × LngLat ℝ)) : Prop :=
  ∀ p ∈ calls, ∀ q ∈ calls, cacheKey p = cacheKey q → p = q

section Calls

variable {w : World} {calls : List (LngLat ℝ × LngLat ℝ)}

/-- A provisional line is not kept. -/
theorem segmentPath_snd_of_not_loaded (h : w.loaded = false) (cache : Cache) (a b : LngLat ℝ) :
    (segmentPath w cache a b).2 = cache := by
  rw [segmentPath]
  split
  · rfl
  · rw [h]
    rfl

theorem segmentPath_eq_ask (h : w.loaded = true) (cache : Cache) (p : LngLat ℝ × LngLat ℝ) :
    segmentPath w cache p.1 p.2 = Memo.ask cacheKey (fun p ↦ w.compute p.1 p.2) cache p := by
  rw [segmentPath, Memo.ask]
  cases cache (cacheKey p) with
  | some hit => rfl
  | none => exact if_neg (by rw [h]; exact Bool.false_ne_true)

theorem segmentPaths_eq_answers (h : w.loaded = true) (cache : Cache) :
    segmentPaths w cache calls = Memo.answers cacheKey (fun p ↦ w.compute p.1 p.2) cache calls := by
  induction calls generalizing cache with
  | nil => rfl
  | cons p ps ih => rw [segmentPaths, Memo.answers, ih, segmentPath_eq_ask h]

theorem Transparent.eq_map (h : Transparent w calls) :
    segmentPaths w (fun _ ↦ none) calls = calls.map fun p ↦ w.compute p.1 p.2 := by
  have heq := h.imp fun _ _ hcall ↦ hcall.1.symm
  rwa [← List.forall₂_map_left_iff (R := Eq), List.forall₂_eq_eq_eq, eq_comm] at heq

theorem KeysApart.eq_map (hloaded : w.loaded = true) (h : KeysApart calls) :
    segmentPaths w (fun _ ↦ none) calls = calls.map fun p ↦ w.compute p.1 p.2 := by
  rw [segmentPaths_eq_answers hloaded]
  apply Memo.answers_eq_map_iff.mpr
  intro p hp q hq hkey
  rw [h p hp q hq hkey]

/-- A line has no other ends, and places with one key are the same only if they are
equal. -/
theorem Transparent.keysApart (hloaded : w.loaded = true)
    (hends : ∀ p ∈ calls, w.Anchored p.1 p.2) (h : Transparent w calls) : KeysApart calls := by
  have hmap := h.eq_map
  rw [segmentPaths_eq_answers hloaded] at hmap
  intro p hp q hq hkey
  have hsame : w.compute p.1 p.2 = w.compute q.1 q.2 :=
    Memo.answers_eq_map_iff.mp hmap p hp q hq hkey
  have hjoin := (hends p hp).joins_compute
  rw [hsame] at hjoin
  obtain ⟨hspota, hspotb⟩ := hjoin.unique (hends q hq).joins_compute
  obtain ⟨⟨hlona, -⟩, hlonb, -⟩ := toFixed_of_cacheKey hkey
  exact Prod.ext (hspota.eq_of_toFixed hlona) (hspotb.eq_of_toFixed hlonb)

end Calls

/-- The cache goes unnoticed if the key tells the calls apart, and between endpoints
with lines of their own only if it does. -/
theorem transparent_segmentPaths (w : World) (hloaded : w.loaded = true)
    (calls : List (LngLat ℝ × LngLat ℝ)) :
    (KeysApart calls →
      segmentPaths w (fun _ ↦ none) calls = calls.map fun p ↦ w.compute p.1 p.2) ∧
    ((∀ p ∈ calls, w.Anchored p.1 p.2) → (Transparent w calls ↔ KeysApart calls)) := by
  refine ⟨KeysApart.eq_map hloaded, fun hends ↦ ⟨Transparent.keysApart hloaded hends, ?_⟩⟩
  intro h
  rw [Transparent, h.eq_map hloaded, List.forall₂_map_right_iff, List.forall₂_same]
  exact fun p hp ↦ ⟨rfl, (hends p hp).joins_compute⟩

/-! ## Calls from one place -/

def bayCable : CableData ℝ := ⟨equatorLine (10 : ℕ) (14 : ℕ), onMap_bay⟩

def bayWorld : World := ⟨farPolys, bayHub, bayCable, true⟩

theorem loaded_bayWorld : bayWorld.loaded = true := by
  simp [World.loaded, bayWorld, bayHub, loadHubs, farPolys, loadLandmass, farLand]

theorem pool_bayWorld {p : LngLat ℝ} (hp : p ∈ bayWorld.pool) :
    ∃ y, p = (y, 0) ∧ (y = 0 ∨ 10 ≤ y) ∧ y ≤ 14 := by
  have hpool : bayWorld.pool = [(0, 0), (10, 0), (14, 0), (10, 0), (14, 0)] := by
    change bayHub.hubs ++ bayNet.nodeCoord ++ bayNet.branches.flatten = _
    rw [bayNet_eq.1, bayNet_eq.2]
    rfl
  rw [hpool] at hp
  simp only [List.mem_cons, List.not_mem_nil, or_false] at hp
  rcases hp with rfl | rfl | rfl | rfl | rfl
  · exact ⟨0, rfl, Or.inl rfl, by norm_num⟩
  all_goals exact ⟨_, rfl, Or.inr (by norm_num), by norm_num⟩

/-- Endpoints on the equator, the start at the hub or some way from it. -/
theorem anchored_bayWorld {x : ℝ} (hx : x = 0 ∨ 1 / 100 ≤ x) (hx' : x ≤ 1) :
    bayWorld.Anchored (x, 0) (5, 0) where
  lat_a := by norm_num
  lat_b := by norm_num
  opposite := by
    have hequator : ∀ p ∈ (x, 0) :: (5, 0) :: bayWorld.pool, ∃ y, 0 ≤ y ∧ y ≤ 14 ∧
        p = ((y, 0) : LngLat ℝ) := by
      intro p hp
      rcases List.mem_cons.mp hp with rfl | hp
      · exact ⟨x, hx.elim (fun h ↦ h.ge) fun h ↦ by linarith, by linarith, rfl⟩
      · rcases List.mem_cons.mp hp with rfl | hp
        · exact ⟨5, by norm_num, by norm_num, rfl⟩
        · obtain ⟨y, rfl, hy, hhi⟩ := pool_bayWorld hp
          exact ⟨y, hy.elim (fun h ↦ h.ge) fun h ↦ by linarith, hhi, rfl⟩
    intro p hp q hq
    obtain ⟨y, hylo, hyhi, rfl⟩ := hequator p hp
    obtain ⟨z, hzlo, hzhi, rfl⟩ := hequator q hq
    have hle : |z - y| ≤ 14 := abs_le.mpr ⟨by linarith, by linarith⟩
    rw [Opposite, omegaOf_equator (hle.trans (by norm_num)), D2R_eq]
    have hpi := Real.pi_pos
    intro heq
    nlinarith
  near := by
    intro p hp hnear
    obtain ⟨y, rfl, hy, hhi⟩ := pool_bayWorld hp
    have hxlo : 0 ≤ x := hx.elim (fun h ↦ h.ge) fun h ↦ by linarith
    have hylo : 0 ≤ y := hy.elim (fun h ↦ h.ge) fun h ↦ by linarith
    by_cases heq : y = x
    · rw [heq]
      exact SameSpot.refl _
    · have hfar : 1 / 100 ≤ |y - x| := by
        rw [le_abs]
        rcases hy with rfl | hy
        · rcases hx with rfl | hx
          · exact absurd rfl heq
          · right
            linarith
        · left
          linarith
      have hle : |y - x| ≤ 180 := abs_le.mpr ⟨by linarith, by linarith⟩
      rw [Near, omegaOf_equator hle, minOmega, D2R_eq] at hnear
      have hpi := Real.two_le_pi
      push_cast at hnear
      nlinarith

/-- Calls from two places, one of them twice. -/
theorem transparent_twoPlaces :
    Transparent bayWorld [((0, 0), (5, 0)), ((1, 0), (5, 0)), ((0, 0), (5, 0))] := by
  have hends : ∀ p ∈ [(((0, 0), (5, 0)) : LngLat ℝ × LngLat ℝ), ((1, 0), (5, 0)), ((0, 0), (5, 0))],
      (p = ((0, 0), (5, 0)) ∨ p = ((1, 0), (5, 0))) := by
    intro p hp
    simp only [List.mem_cons, List.not_mem_nil, or_false] at hp
    tauto
  refine ((transparent_segmentPaths bayWorld loaded_bayWorld _).2 ?_).mpr ?_
  · intro p hp
    rcases hends p hp with rfl | rfl
    · exact anchored_bayWorld (Or.inl rfl) zero_le_one
    · exact anchored_bayWorld (Or.inr (by norm_num)) le_rfl
  · have hne : toFixed 0 ≠ toFixed 1 := fun heq ↦ absurd (abs_sub_lt_of_toFixed heq) (by norm_num)
    intro p hp q hq hkey
    have hlon := (toFixed_of_cacheKey hkey).1.1
    rcases hends p hp with rfl | rfl
    · rcases hends q hq with rfl | rfl
      · rfl
      · exact absurd hlon hne
    · rcases hends q hq with rfl | rfl
      · exact absurd hlon.symm hne
      · rfl

/-- Two hosts of one place are less than a tenth of a degree apart. -/
theorem not_transparent_fannedOut : bayWorld.loaded = true ∧
    ¬ Transparent bayWorld [((0, 0), (5, 0)), ((1 / 100, 0), (5, 0))] := by
  refine ⟨loaded_bayWorld, ?_⟩
  intro h
  have hends : ∀ p ∈ [(((0, 0), (5, 0)) : LngLat ℝ × LngLat ℝ), ((1 / 100, 0), (5, 0))],
      bayWorld.Anchored p.1 p.2 := by
    intro p hp
    rcases List.mem_cons.mp hp with rfl | hp
    · exact anchored_bayWorld (Or.inl rfl) zero_le_one
    · rw [List.mem_singleton.mp hp]
      exact anchored_bayWorld (Or.inr le_rfl) (by norm_num)
  have hfixed : toFixed 0 = toFixed (1 / 100) := by
    have hfloor : ⌊|(0 : ℝ)| * (10 : ℕ) + 1 / (2 : ℕ)⌋₊ =
        ⌊|(1 / 100 : ℝ)| * (10 : ℕ) + 1 / (2 : ℕ)⌋₊ := by
      rw [Nat.floor_eq_zero.mpr (by norm_num), Nat.floor_eq_zero.mpr (by norm_num)]
    have hneg : ¬ (1 / 100 : ℝ) < 0 := by norm_num
    rw [toFixed, toFixed, hfloor, if_neg (lt_irrefl _), if_neg hneg]
  have hkey : cacheKey ((0, 0), (5, 0)) = cacheKey ((1 / 100, 0), (5, 0)) := by
    rw [cacheKey, cacheKey, hfixed]
  have heq := h.keysApart loaded_bayWorld hends _ (List.mem_cons_self ..) _
    (List.mem_cons_of_mem _ (List.mem_singleton_self _)) hkey
  norm_num at heq

end

end TrafficMap.Web
