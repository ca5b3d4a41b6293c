import Mathlib.Data.Rat.Floor

/-!
# JSON values

The part of `serde_json::Value` that the crates read and write.  A float stands
for its exact value, and the rounding of `f64` arithmetic is a function that
the definitions which compute with floats take as a parameter.
-/

namespace TrafficMap

inductive Number
  | posInt (n : UInt64)
  | negInt (n : ℤ) (range : -2 ^ 63 ≤ n ∧ n < 0)
  | float (q : ℚ)

inductive Json
  | null
  | bool (b : Bool)
  | number (n : Number)
  | string (s : String)
  | array (items : List Json)
  | object (fields : List (String × Json))

namespace Json

def get (v : Json) (key : String) : Option Json :=
  match v with
  | object fields => fields.lookup key
  | _ => none

def setField (key : String) (x : Json) : List (String × Json) → List (String × Json)
  | [] => [(key, x)]
  | (k, y) :: fields => if k = key then (key, x) :: fields else (k, y) :: setField key x fields

/-- `v[key] = x`, which panics on a value that has no keys. -/
def set (v : Json) (key : String) (x : Json) : Option Json :=
  match v with
  | null => some (object [(key, x)])
  | object fields => some (object (setField key x fields))
  | _ => none

theorem lookup_setField (key : String) (x : Json) (fields : List (String × Json)) (k : String) :
    (setField key x fields).lookup k = if k = key then some x else fields.lookup k := by
  induction fields with
  | nil =>
      by_cases hk : k = key
      · simp [setField, hk]
      · simp [setField, hk]
  | cons p fields ih =>
      obtain ⟨k', y⟩ := p
      rw [setField]
      by_cases hkey : k' = key
      · subst hkey
        rw [if_pos rfl, List.lookup_cons, List.lookup_cons]
        by_cases hk : k = k'
        · simp [hk]
        · simp [hk, beq_false_of_ne hk]
      · rw [if_neg hkey, List.lookup_cons, List.lookup_cons, ih]
        by_cases hk : k = k'
        · simp [hk, hkey]
        · simp [beq_false_of_ne hk]

theorem get_set {v w : Json} {key : String} {x : Json} (h : v.set key x = some w) (k : String) :
    w.get k = if k = key then some x else v.get k := by
  cases v with
  | null =>
      obtain rfl := Option.some.inj h
      exact lookup_setField key x [] k
  | object fields =>
      obtain rfl := Option.some.inj h
      exact lookup_setField key x fields k
  | bool b => cases h
  | number n => cases h
  | string s => cases h
  | array items => cases h

/-- An object with distinct keys shows every member. -/
theorem get_object_of_mem {fields : List (String × Json)} (h : (fields.map Prod.fst).Nodup)
    {p : String × Json} (hp : p ∈ fields) : (object fields).get p.1 = some p.2 := by
  rw [get]
  induction fields with
  | nil => cases hp
  | cons q fields ih =>
      obtain ⟨hq, hfields⟩ := List.nodup_cons.mp h
      rw [List.lookup_cons]
      rcases List.mem_cons.mp hp with rfl | hp
      · simp
      · have hne : p.1 ≠ q.1 := fun heq ↦ hq (heq ▸ List.mem_map_of_mem hp)
        rw [beq_false_of_ne hne]
        exact ih hfields hp

def parseIndex (token : String) : Option ℕ :=
  let digits := token.toList
  if digits.isEmpty || (digits.head? == some '0' && digits.length != 1) ||
      !digits.all Char.isDigit then none
  else
    let n := digits.foldl (fun n c ↦ 10 * n + (c.toNat - '0'.toNat)) 0
    if n < 2 ^ 64 then some n else none

/-- `Value::pointer`, with the reference tokens of the pointer. -/
def pointer (v : Json) : List String → Option Json
  | [] => some v
  | token :: tokens =>
      match v with
      | object fields => (fields.lookup token).bind fun x ↦ x.pointer tokens
      | array items => (parseIndex token).bind fun i ↦ items[i]?.bind fun x ↦ x.pointer tokens
      | _ => none

def asBool : Json → Option Bool
  | bool b => some b
  | _ => none

def asStr : Json → Option String
  | string s => some s
  | _ => none

def asArray : Json → Option (List Json)
  | array items => some items
  | _ => none

def asU64 : Json → Option UInt64
  | number (.posInt n) => some n
  | _ => none

def asI64 : Json → Option ℤ
  | number (.posInt n) => if n.toNat < 2 ^ 63 then some n.toNat else none
  | number (.negInt n _) => some n
  | _ => none

def ofU64 (n : UInt64) : Json := number (.posInt n)

def ofI64 (n : Int64) : Json :=
  if h : 0 ≤ n.toInt then number (.posInt (UInt64.ofNat n.toInt.toNat))
  else number (.negInt n.toInt ⟨n.le_toInt, by omega⟩)

def ofOption {α : Type} (f : α → Json) : Option α → Json
  | some a => f a
  | none => null

end Json

/-! ## Floats -/

/-- `f64::round`: to the nearest integer, halves away from zero. -/
def roundHalfAway (q : ℚ) : ℤ := if 0 ≤ q then ⌊q + 1 / 2⌋ else ⌈q - 1 / 2⌉

def satI64 (q : ℤ) : Int64 := Int64.ofInt (max (-2 ^ 63) (min (2 ^ 63 - 1) q))

theorem roundHalfAway_natCast (n : ℕ) : roundHalfAway n = n := by
  have hfloor : ⌊(n : ℚ) + 1 / 2⌋ = n := by
    rw [Int.floor_eq_iff]
    constructor
    · push_cast
      linarith
    · push_cast
      linarith
  rw [roundHalfAway, if_pos (Nat.cast_nonneg n), hfloor]

end TrafficMap
