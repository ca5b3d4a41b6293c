import TrafficMap.Net

/-!
# Addresses as text

`FromStr` and `Display` of `std::net::IpAddr`: dotted IPv4, and IPv6 groups
with `::` for a run of zeros and an embedded IPv4 address at the end.
-/

namespace TrafficMap

open Wire

/-! ## Reading -/

abbrev ReadText (α : Type) := List Char → Option (α × List Char)

def digitOf (radix : ℕ) (c : Char) : Option ℕ :=
  let n :=
    if '0' ≤ c ∧ c ≤ '9' then c.toNat - '0'.toNat
    else if 'a' ≤ c ∧ c ≤ 'f' then c.toNat - 'a'.toNat + 10
    else if 'A' ≤ c ∧ c ≤ 'F' then c.toNat - 'A'.toNat + 10
    else radix
  if n < radix then some n else none

def spanDigits (radix : ℕ) : List Char → List ℕ × List Char
  | [] => ([], [])
  | c :: cs =>
      match digitOf radix c with
      | some d => (d :: (spanDigits radix cs).1, (spanDigits radix cs).2)
      | none => ([], c :: cs)

def readNumber (radix maxDigits bound : ℕ) (allowZeroPrefix : Bool) : ReadText ℕ := fun cs ↦
  let (ds, rest) := spanDigits radix cs
  let n := ds.foldl (fun n d ↦ radix * n + d) 0
  if ds.isEmpty || decide (maxDigits < ds.length) then none
  else if !allowZeroPrefix && decide (ds.head? = some 0) && decide (1 < ds.length) then none
  else if n < bound then some (n, rest) else none

/-- The item at place `index` of a list: behind a separator unless it is the
first. -/
def readSeparator {α : Type} (sep : Char) (index : ℕ) (inner : ReadText α) : ReadText α := fun cs ↦
  if index = 0 then inner cs
  else
    match cs with
    | c :: rest => if c = sep then inner rest else none
    | [] => none

def readIpv4Addr : ReadText Ipv4Addr := fun cs ↦ do
  let octet := readNumber 10 3 256 false
  let (a, cs) ← readSeparator '.' 0 octet cs
  let (b, cs) ← readSeparator '.' 1 octet cs
  let (c, cs) ← readSeparator '.' 2 octet cs
  let (d, cs) ← readSeparator '.' 3 octet cs
  return (Ipv4Addr.ofOctets [UInt8.ofNat a, UInt8.ofNat b, UInt8.ofNat c, UInt8.ofNat d], cs)

/-- At most `room` more groups, the first of them at place `i`; whether the last
two came from an IPv4 address; and what is left. -/
def readGroups : ℕ → ℕ → List Char → List ℕ × Bool × List Char
  | 0, _, cs => ([], false, cs)
  | room + 1, i, cs =>
      match if 0 < room then readSeparator ':' i readIpv4Addr cs else none with
      | some (a, rest) => ([ofBe (a.octets.take 2), ofBe (a.octets.drop 2)], true, rest)
      | none =>
          match readSeparator ':' i (readNumber 16 4 65536 true) cs with
          | some (group, rest) =>
              let (groups, ipv4, rest) := readGroups room (i + 1) rest
              (group :: groups, ipv4, rest)
          | none => ([], false, cs)

def ipv6OfGroups (groups : List ℕ) : Ipv6Addr :=
  ⟨BitVec.ofNat 128 (groups.foldl (fun n g ↦ 65536 * n + g) 0)⟩

def readIpv6Addr : ReadText Ipv6Addr := fun cs ↦
  let (head, ipv4, rest) := readGroups 8 0 cs
  if head.length = 8 then some (ipv6OfGroups head, rest)
  -- IPv4 part is not allowed before `::`
  else if ipv4 then none
  else
    match rest with
    | ':' :: ':' :: rest =>
        let (tail, _, rest) := readGroups (7 - head.length) 0 rest
        let zeros := List.replicate (8 - head.length - tail.length) 0
        some (ipv6OfGroups (head ++ zeros ++ tail), rest)
    | _ => none

/-- `s.parse::<IpAddr>().ok()`. -/
def IpAddr.parse (s : String) : Option IpAddr :=
  match readIpv4Addr s.toList with
  | some (a, rest) => if rest.isEmpty then some (.v4 a) else none
  | none =>
      match readIpv6Addr s.toList with
      | some (a, rest) => if rest.isEmpty then some (.v6 a) else none
      | none => none

/-! ## Writing -/

def Ipv4Addr.toText (a : Ipv4Addr) : String :=
  ".".intercalate (a.octets.map fun o ↦ toString o.toNat)

def Ipv6Addr.segments (a : Ipv6Addr) : List ℕ :=
  (List.range 8).map fun i ↦ ofBe ((a.octets.drop (2 * i)).take 2)

/-- Start and length of the longest run of zeros, the first of several. -/
def longestZeros (segments : List ℕ) : ℕ × ℕ :=
  let step (st : (ℕ × ℕ) × (ℕ × ℕ)) (p : ℕ × ℕ) : (ℕ × ℕ) × (ℕ × ℕ) :=
    let (current, longest) := st
    let (segment, i) := p
    if segment = 0 then
      let current := (if current.2 = 0 then i else current.1, current.2 + 1)
      (current, if longest.2 < current.2 then current else longest)
    else ((0, 0), longest)
  (segments.zipIdx.foldl step ((0, 0), (0, 0))).2

def segmentsText (segments : List ℕ) : String :=
  ":".intercalate (segments.map fun g ↦ String.ofList (Nat.toDigits 16 g))

def Ipv6Addr.toText (a : Ipv6Addr) : String :=
  let segments := a.segments
  if segments.take 6 = [0, 0, 0, 0, 0, 0xffff] then
    "::ffff:" ++ (Ipv4Addr.ofOctets (a.octets.drop 12)).toText
  else
    let (start, len) := longestZeros segments
    if 1 < len then
      segmentsText (segments.take start) ++ "::" ++ segmentsText (segments.drop (start + len))
    else segmentsText segments

def IpAddr.toText : IpAddr → String
  | .v4 a => a.toText
  | .v6 a => a.toText

example : (IpAddr.parse "2001:db8::1:0:0:7").map IpAddr.toText = some "2001:db8::1:0:0:7" := by
  decide +kernel

end TrafficMap
