import TrafficMap.Ingestor.Telegraf
import TrafficMap.Lib.Fields

/-!
# Well-known services

The build script of `crates/services` reads `services.txt` into the entries that
the static map is generated from, and stops the build at the first line that it
does not understand.
-/

namespace TrafficMap.Services

open Fields Ingestor

abbrev Text := List Char

abbrev EXPECTED_ENTRIES : ℕ := 12093

/-! ## The build script -/

structure Entry where
  name : String
  port : UInt16
  proto : UInt8

def stripCr (line : Text) : Text := if line.getLast? = some '\r' then line.dropLast else line

/-- `BufRead::lines`. -/
def lines (file : Text) : List Text :=
  let pieces := file.splitOn '\n'
  let last := pieces.getLast?.getD []
  pieces.dropLast.map stripCr ++ if last = [] then [] else [last]

def validName (name : Text) : Bool :=
  !name.isEmpty && name.all (fun c ↦ decide (c.toNat < 128)) && !name.contains ' ' &&
    !name.contains '?'

def stripPlus : Text → Text
  | '+' :: rest => rest
  | cs => cs

def parseU16 (s : Text) : Option UInt16 :=
  match spanDigits 10 (stripPlus s) with
  | (d :: ds, []) =>
      let n := (d :: ds).foldl (fun n d ↦ 10 * n + d) 0
      if n < 65536 then some (UInt16.ofNat n) else none
  | _ => none

def protoOf (s : Text) : Option UInt8 :=
  if s = ['t', 'c', 'p'] then some 6
  else if s = ['u', 'd', 'p'] then some 17
  else none

def readPort (portProto : Text) : Option (UInt16 × UInt8) :=
  match portProto.splitOn '/' with
  | [port, proto] => do
      let port ← parseU16 port
      let proto ← protoOf proto
      return (port, proto)
  | _ => none

/-- The entry of a line, if it is not blank or a comment; no result where the
build stops. -/
def readLine (line : Text) : Option (Option Entry) :=
  let t := trim isWhitespace line
  if t = [] ∨ t.head? = some '#' then some none
  else
    match t.splitOn '\t' with
    | [name, portProto] =>
        let name := trim isWhitespace name
        if validName name then
          (readPort (trim isWhitespace portProto)).map fun p ↦
            some ⟨String.ofList name, p.1, p.2⟩
        else none
    | _ => none

def entryKey (e : Entry) : UInt32 :=
  (UInt32.ofNat e.port.toNat <<< 8) ||| UInt32.ofNat e.proto.toNat

/-- The entries of the static map. -/
abbrev Entries := List (UInt32 × String)

def addLine (map : Entries) (line : Text) : Option Entries :=
  (readLine line).bind fun
    | none => some map
    | some e =>
        if entryKey e ∈ map.map Prod.fst then none else some (map ++ [(entryKey e, e.name)])

def main (file : Text) : Option Entries :=
  ((lines file).foldlM addLine []).filter fun map ↦ map.length = EXPECTED_ENTRIES

/-! ## What the file says -/

/-- A number of a port, perhaps behind a plus sign. -/
def Denotes (text : Text) (n : ℕ) : Prop :=
  ∃ digits : Text, (text = digits ∨ text = '+' :: digits) ∧ digits ≠ [] ∧
    (∀ c ∈ digits, c.isDigit = true) ∧ Nat.ofDigitChars 10 digits 0 = n

def Names (proto : Text) (n : UInt8) : Prop :=
  proto = ['t', 'c', 'p'] ∧ n = 6 ∨ proto = ['u', 'd', 'p'] ∧ n = 17

/-- `name<TAB>port/proto` between blanks. -/
def EntryText (core : Text) (e : Entry) : Prop :=
  ∃ w w' port proto : Text, Blank isWhitespace w ∧ '\t' ∉ w ∧ Blank isWhitespace w' ∧ '\t' ∉ w' ∧
    Denotes port e.port.toNat ∧ Names proto e.proto ∧
    core = (e.name.toList ++ w) ++ '\t' :: (w' ++ (port ++ '/' :: proto))

/-- The line is the entry: its name begins and ends with something else than a
blank, and it is no comment. -/
structure EntryLine (line : Text) (e : Entry) : Prop where
  nonempty : e.name.toList ≠ []
  tight : Tight isWhitespace e.name.toList
  noTab : '\t' ∉ e.name.toList
  noComment : e.name.toList.head? ≠ some '#'
  text : ∃ before after core : Text, Blank isWhitespace before ∧ Blank isWhitespace after ∧
    EntryText core e ∧ line = before ++ core ++ after

/-! ## Numbers and protocols -/

theorem digitOf_ten (c : Char) :
    digitOf 10 c = if c.isDigit = true then some (c.toNat - '0'.toNat) else none := by
  have hrange : ('0' ≤ c ∧ c ≤ '9') ↔ c.isDigit = true := Char.isDigit_iff_toNat.symm
  rw [digitOf]
  by_cases hc : c.isDigit = true
  · have hle := (Char.isDigit_iff_toNat.mp hc).2
    have hlt : c.toNat - '0'.toNat < 10 := by
      change c.toNat ≤ 57 at hle
      change c.toNat - 48 < 10
      omega
    rw [if_pos (hrange.mpr hc), if_pos hlt, if_pos hc]
  · rw [if_neg (mt hrange.mp hc), if_neg hc]
    refine if_neg ?_
    split
    · omega
    · split
      · omega
      · omega

theorem spanDigits_eq_iff {cs : Text} {ds : List ℕ} : spanDigits 10 cs = (ds, []) ↔
    (∀ c ∈ cs, c.isDigit = true) ∧ ds = cs.map fun c ↦ c.toNat - '0'.toNat := by
  induction cs generalizing ds with
  | nil =>
      constructor
      · intro h
        exact ⟨fun c hc ↦ absurd hc List.not_mem_nil, (Prod.mk.inj h).1.symm⟩
      · rintro ⟨-, rfl⟩
        rfl
  | cons c cs ih =>
      rw [spanDigits, digitOf_ten]
      by_cases hc : c.isDigit = true
      · rw [if_pos hc]
        constructor
        · intro h
          obtain ⟨rfl, hrest⟩ := Prod.mk.inj h
          obtain ⟨hdigits, hvalues⟩ := ih.mp (Prod.ext rfl hrest)
          exact ⟨List.forall_mem_cons.mpr ⟨hc, hdigits⟩, congrArg (List.cons _) hvalues⟩
        · rintro ⟨hdigits, rfl⟩
          have hspan := ih.mpr ⟨(List.forall_mem_cons.mp hdigits).2, rfl⟩
          simp only [hspan, List.map_cons]
      · rw [if_neg hc]
        constructor
        · intro h
          cases (Prod.mk.inj h).2
        · rintro ⟨hdigits, -⟩
          exact absurd (hdigits c List.mem_cons_self) hc

theorem denotes_iff {text : Text} {n : ℕ} : Denotes text n ↔ stripPlus text ≠ [] ∧
    (∀ c ∈ stripPlus text, c.isDigit = true) ∧ Nat.ofDigitChars 10 (stripPlus text) 0 = n := by
  constructor
  · rintro ⟨digits, hplus, hne, hdigits, hvalue⟩
    have hstrip : stripPlus text = digits := by
      rcases hplus with rfl | rfl
      · unfold stripPlus
        split
        · cases hdigits '+' List.mem_cons_self
        · rfl
      · rfl
    rw [hstrip]
    exact ⟨hne, hdigits, hvalue⟩
  · rintro ⟨hne, hdigits, hvalue⟩
    refine ⟨stripPlus text, ?_, hne, hdigits, hvalue⟩
    unfold stripPlus
    split
    · exact Or.inr rfl
    · exact Or.inl rfl

theorem parseU16_eq_some_iff {s : Text} {p : UInt16} :
    parseU16 s = some p ↔ Denotes s p.toNat := by
  rw [denotes_iff, parseU16]
  generalize stripPlus s = cs
  have hvalue : ∀ ds, ds = cs.map (fun c ↦ c.toNat - '0'.toNat) →
      ds.foldl (fun n d ↦ 10 * n + d) 0 = Nat.ofDigitChars 10 cs 0 := by
    rintro ds rfl
    rw [List.foldl_map, Nat.ofDigitChars_eq_foldl]
  constructor
  · intro h
    split at h
    · rename_i d ds hspan
      obtain ⟨hdigits, hds⟩ := spanDigits_eq_iff.mp hspan
      obtain ⟨hlt, h⟩ := Option.ite_none_right_eq_some.mp h
      obtain rfl := Option.some.inj h
      refine ⟨fun hnil ↦ ?_, hdigits, ?_⟩
      · rw [hnil] at hds
        cases hds
      · rw [← hvalue _ hds]
        exact (Nat.mod_eq_of_lt hlt).symm
    · cases h
  · rintro ⟨hne, hdigits, hp⟩
    have hspan := spanDigits_eq_iff.mpr ⟨hdigits, rfl⟩
    obtain ⟨c, cs', hcs⟩ := List.exists_cons_of_ne_nil hne
    have hlt := p.toNat_lt
    rw [← hp, ← hvalue _ rfl, hcs, List.map_cons] at hlt
    rw [hspan, hcs, List.map_cons]
    dsimp only
    rw [if_pos hlt, ← List.map_cons (f := fun c : Char ↦ c.toNat - '0'.toNat), ← hcs,
      hvalue _ rfl, hp, UInt16.ofNat_toNat]

theorem protoOf_eq_some_iff {s : Text} {n : UInt8} : protoOf s = some n ↔ Names s n := by
  rw [protoOf, Names]
  split
  · rename_i htcp
    simp [htcp, eq_comm]
  · rename_i htcp
    split
    · rename_i hudp
      simp [hudp, eq_comm]
    · rename_i hudp
      simp [htcp, hudp]

/-- Digits, a plus sign and letters. -/
def plain (c : Char) : Bool := !isWhitespace c && c != '/'

theorem plain_of_isDigit {c : Char} (h : c.isDigit = true) : plain c = true := by
  obtain ⟨hlo, hhi⟩ := Char.isDigit_iff_toNat.mp h
  change 48 ≤ c.toNat at hlo
  change c.toNat ≤ 57 at hhi
  have hslash : c ≠ '/' := by
    rintro rfl
    cases h
  simp [plain, isWhitespace, hslash]
  omega

theorem plain_of_denotes {text : Text} {n : ℕ} (h : Denotes text n) :
    text ≠ [] ∧ ∀ c ∈ text, plain c = true := by
  obtain ⟨digits, rfl | rfl, hne, hdigits, -⟩ := h
  · exact ⟨hne, fun c hc ↦ plain_of_isDigit (hdigits c hc)⟩
  · refine ⟨List.cons_ne_nil _ _, List.forall_mem_cons.mpr ⟨by decide, fun c hc ↦ ?_⟩⟩
    exact plain_of_isDigit (hdigits c hc)

theorem plain_of_names {text : Text} {n : UInt8} (h : Names text n) :
    text ≠ [] ∧ ∀ c ∈ text, plain c = true := by
  rcases h with ⟨rfl, -⟩ | ⟨rfl, -⟩
  · exact ⟨List.cons_ne_nil _ _, List.all_eq_true.mp rfl⟩
  · exact ⟨List.cons_ne_nil _ _, List.all_eq_true.mp rfl⟩

theorem readPort_eq_some_iff {t : Text} {port : UInt16} {proto : UInt8} :
    readPort t = some (port, proto) ↔
      ∃ p q, Denotes p port.toNat ∧ Names q proto ∧ t = p ++ '/' :: q := by
  constructor
  · intro h
    rw [readPort] at h
    split at h
    · rename_i p q hsplit
      obtain ⟨n, hn, h⟩ := Option.bind_eq_some_iff.mp h
      obtain ⟨m, hm, h⟩ := Option.bind_eq_some_iff.mp h
      obtain ⟨rfl, rfl⟩ := Prod.mk.inj (Option.some.inj h)
      obtain ⟨-, -, ht⟩ := splitOn_eq_pair_iff.mp hsplit
      exact ⟨p, q, parseU16_eq_some_iff.mp hn, protoOf_eq_some_iff.mp hm, ht⟩
    · cases h
  · rintro ⟨p, q, hp, hq, rfl⟩
    have hslash : ∀ text : Text, (∀ c ∈ text, plain c = true) → '/' ∉ text :=
      fun text htext hmem ↦ absurd (htext _ hmem) (by decide)
    have hsplit := splitOn_eq_pair_iff.mpr ⟨hslash p (plain_of_denotes hp).2,
      hslash q (plain_of_names hq).2, rfl⟩
    simp only [readPort, hsplit, parseU16_eq_some_iff.mpr hp, protoOf_eq_some_iff.mpr hq]
    rfl

/-! ## Lines -/

section Line

variable {line : Text} {e : Entry}

theorem notBlank_of_plain {text : Text} (h : ∀ c ∈ text, plain c = true) :
    ∀ c ∈ text, isWhitespace c = false := by
  intro c hc
  have hplain := h c hc
  rw [plain, Bool.and_eq_true, Bool.not_eq_true'] at hplain
  exact hplain.1

/-- The text of port and protocol has no blanks. -/
theorem notBlank_portText {p q : Text} {n : ℕ} {m : UInt8} (hp : Denotes p n) (hq : Names q m) :
    ∀ c ∈ p ++ '/' :: q, isWhitespace c = false := by
  intro c hc
  rcases List.mem_append.mp hc with hport | hrest
  · exact notBlank_of_plain (plain_of_denotes hp).2 c hport
  · rcases List.mem_cons.mp hrest with rfl | hproto
    · rfl
    · exact notBlank_of_plain (plain_of_names hq).2 c hproto

/-- What the script makes of a line with one tab. -/
theorem readLine_of_cut {left right : Text}
    (hcut : trim isWhitespace line = left ++ '\t' :: right) (hleft : '\t' ∉ left)
    (hright : '\t' ∉ right) (hcomment : (left ++ '\t' :: right).head? ≠ some '#') :
    readLine line =
      if validName (trim isWhitespace left) then
        (readPort (trim isWhitespace right)).map fun p ↦
          some ⟨String.ofList (trim isWhitespace left), p.1, p.2⟩
      else none := by
  have hentry : ¬(left ++ '\t' :: right = [] ∨ (left ++ '\t' :: right).head? = some '#') := by
    rw [not_or]
    exact ⟨by simp, hcomment⟩
  have hsplit := splitOn_eq_pair_iff.mpr ⟨hleft, hright, (rfl : left ++ '\t' :: right = _)⟩
  rw [readLine]
  dsimp only
  rw [hcut, if_neg hentry, hsplit]

/-- A line that gives an entry has one tab. -/
theorem exists_cut (h : readLine line = some (some e)) : ∃ left right,
    trim isWhitespace line = left ++ '\t' :: right ∧ '\t' ∉ left ∧ '\t' ∉ right ∧
      (left ++ '\t' :: right).head? ≠ some '#' := by
  rw [readLine] at h
  dsimp only at h
  split at h
  · cases h
  · rename_i hentry
    split at h
    · rename_i left right hsplit
      obtain ⟨hleft, hright, hcut⟩ := splitOn_eq_pair_iff.mp hsplit
      exact ⟨left, right, hcut, hleft, hright, hcut ▸ (not_or.mp hentry).2⟩
    · cases h

/-- What the script makes of an entry's line. -/
theorem readLine_of_entryLine (h : EntryLine line e) :
    readLine line = if validName e.name.toList then some (some e) else none := by
  obtain ⟨before, after, core, hbefore, hafter, hcore, rfl⟩ := h.text
  obtain ⟨w, w', port, proto, hw, htab, hw', htab', hport, hproto, rfl⟩ := hcore
  have hplain := notBlank_portText hport hproto
  have htight := tight_of_forall hplain
  have hnotab : '\t' ∉ port ++ '/' :: proto := fun hmem ↦ absurd (hplain _ hmem) (by decide)
  have hcore : Tight isWhitespace
      ((e.name.toList ++ w) ++ '\t' :: (w' ++ (port ++ '/' :: proto))) := by
    have happend := h.tight.append h.nonempty (w ++ '\t' :: w') htight (by simp)
    simpa using happend
  have hcomment : ((e.name.toList ++ w) ++ '\t' :: (w' ++ (port ++ '/' :: proto))).head? ≠
      some '#' := by
    rw [List.append_assoc, List.head?_append_of_ne_nil _ h.nonempty]
    exact h.noComment
  have hnil : Blank isWhitespace [] := fun _ hc ↦ absurd hc List.not_mem_nil
  have hname : trim isWhitespace (e.name.toList ++ w) = e.name.toList :=
    trim_within hnil hw h.tight
  have hports : trim isWhitespace (w' ++ (port ++ '/' :: proto)) = port ++ '/' :: proto := by
    have hright := trim_within hw' hnil htight
    rwa [List.append_nil] at hright
  have hread := readPort_eq_some_iff.mpr ⟨port, proto, hport, hproto, rfl⟩
  rw [readLine_of_cut (trim_within hbefore hafter hcore) (List.not_mem_append h.noTab htab)
    (List.not_mem_append htab' hnotab) hcomment, hname, hports, hread, Option.map_some,
    String.ofList_toList]

theorem entryLine_of_readLine (h : readLine line = some (some e)) : EntryLine line e := by
  obtain ⟨left, right, hcut, hleft, hright, hcomment⟩ := exists_cut h
  rw [readLine_of_cut hcut hleft hright hcomment] at h
  obtain ⟨hvalid, h⟩ := Option.ite_none_right_eq_some.mp h
  obtain ⟨⟨p, q⟩, hread, h⟩ := Option.map_eq_some_iff.mp h
  obtain rfl := Option.some.inj h
  obtain ⟨port, proto, hport, hproto, hports⟩ := readPort_eq_some_iff.mp hread
  obtain ⟨before, after, hbefore, hafter, hline⟩ := exists_within isWhitespace line
  obtain ⟨u, w, hu, hw, hname⟩ := exists_within isWhitespace left
  obtain ⟨w', v, hw', hv, hpp⟩ := exists_within isWhitespace right
  rw [hports] at hpp
  have hnonempty : trim isWhitespace left ≠ [] := by
    rintro hnil
    rw [hnil] at hvalid
    cases hvalid
  -- the line is trimmed, so that its first character is that of the name
  have hhead : u = [] := by
    refine (tight_trim isWhitespace line).nil_of_starts hu ?_
    rw [hcut, hname]
    simp only [List.append_assoc, List.prefix_append]
  rw [hhead, List.nil_append] at hname
  have htab : '\t' ∉ w := fun hc ↦ hleft (hname ▸ List.mem_append_right _ hc)
  have htab' : '\t' ∉ w' :=
    fun hc ↦ hright (hpp ▸ List.mem_append_left _ (List.mem_append_left _ hc))
  have hblank : Blank isWhitespace (v ++ after) := by
    intro c hc
    rcases List.mem_append.mp hc with hinner | houter
    · exact hv c hinner
    · exact hafter c houter
  refine ⟨?_, ?_, ?_, ?_, before, v ++ after, _, hbefore, hblank,
    ⟨w, w', port, proto, hw, htab, hw', htab', hport, hproto, rfl⟩, ?_⟩
  · rwa [String.toList_ofList]
  · rw [String.toList_ofList]
    exact tight_trim isWhitespace left
  · rw [String.toList_ofList]
    exact fun hc ↦ hleft (hname ▸ List.mem_append_left _ hc)
  · rw [String.toList_ofList]
    rwa [hname, List.append_assoc, List.head?_append_of_ne_nil _ hnonempty] at hcomment
  · rw [hline, String.toList_ofList, ← hname, hcut, hpp]
    simp

end Line

/-! ## The map -/

/-- The entries of the lines. -/
def entries (ls : List Text) : List Entry := ls.filterMap fun line ↦ (readLine line).join

def pair (e : Entry) : UInt32 × String := (entryKey e, e.name)

section Build

variable {ls : List Text} {map : Entries} {file : Text}

theorem entries_concat (ls : List Text) (line : Text) :
    entries (ls ++ [line]) = entries ls ++ ((readLine line).join).toList := by
  rw [entries, List.filterMap_append, entries]
  cases h : (readLine line).join with
  | none => simp [h]
  | some e => simp [h]

theorem addLine_iff {m : Entries} {line : Text} : addLine map line = some m ↔
    (readLine line).isSome ∧
      (∀ e ∈ (readLine line).join, entryKey e ∉ map.map Prod.fst) ∧
      m = map ++ ((readLine line).join).toList.map pair := by
  rw [addLine]
  rcases readLine line with - | - | e
  · simp
  · simp [eq_comm]
  · simp only [Option.bind_some, Option.ite_none_left_eq_some]
    simp [pair, eq_comm]

theorem nodup_append_toList {keys : List UInt32} {o : Option Entry} :
    (keys ++ o.toList.map entryKey).Nodup ↔ keys.Nodup ∧ ∀ e ∈ o, entryKey e ∉ keys := by
  cases o with
  | none => simp
  | some e =>
      have hne : (∀ k ∈ keys, ¬k = entryKey e) ↔ entryKey e ∉ keys :=
        ⟨fun h hmem ↦ h _ hmem rfl, fun h k hk hkey ↦ h (hkey ▸ hk)⟩
      simp [List.nodup_append, hne]

/-- The script gets through the lines if it understands each and no key comes twice. -/
theorem foldlM_addLine_iff : ls.foldlM addLine [] = some map ↔
    (∀ line ∈ ls, (readLine line).isSome) ∧ ((entries ls).map entryKey).Nodup ∧
      map = (entries ls).map pair := by
  induction ls using List.reverseRecOn generalizing map with
  | nil =>
      constructor
      · intro h
        obtain rfl := Option.some.inj h
        exact ⟨by simp, List.nodup_nil, rfl⟩
      · rintro ⟨-, -, rfl⟩
        rfl
  | append_singleton ls line ih =>
      have hkeys : ((entries ls).map pair).map Prod.fst = (entries ls).map entryKey := by
        rw [List.map_map]
        rfl
      have hfold : (ls ++ [line]).foldlM addLine [] = some map ↔
          ∃ m, ls.foldlM addLine [] = some m ∧ addLine m line = some map := by
        rw [List.foldlM_append]
        simp [Option.bind_eq_some_iff]
      rw [hfold, entries_concat, List.forall_mem_append, List.forall_mem_singleton,
        List.map_append, nodup_append_toList, List.map_append]
      constructor
      · rintro ⟨m, hm, hadd⟩
        obtain ⟨hlines, hnodup, rfl⟩ := ih.mp hm
        obtain ⟨hline, hnew, rfl⟩ := addLine_iff.mp hadd
        rw [hkeys] at hnew
        exact ⟨⟨hlines, hline⟩, ⟨hnodup, hnew⟩, rfl⟩
      · rintro ⟨⟨hlines, hline⟩, ⟨hnodup, hnew⟩, rfl⟩
        refine ⟨_, ih.mpr ⟨hlines, hnodup, rfl⟩, addLine_iff.mpr ⟨hline, ?_, rfl⟩⟩
        rwa [hkeys]

theorem main_eq_some (h : main file = some map) :
    (∀ line ∈ lines file, (readLine line).isSome) ∧ ((entries (lines file)).map entryKey).Nodup ∧
      map = (entries (lines file)).map pair :=
  foldlM_addLine_iff.mp (Option.filter_eq_some_iff.mp h).1

end Build

/-! ## Writing a file -/

def protoText (n : UInt8) : Text := if n = 6 then ['t', 'c', 'p'] else ['u', 'd', 'p']

def renderLine (e : Entry) : Text :=
  e.name.toList ++ '\t' :: (Nat.toDigits 10 e.port.toNat ++ '/' :: protoText e.proto)

def render (es : List Entry) : Text := es.flatMap fun e ↦ renderLine e ++ ['\n']

/-- An entry that fits a line. -/
structure Clean (e : Entry) : Prop where
  valid : validName e.name.toList = true
  notBlank : ∀ c ∈ e.name.toList, isWhitespace c = false
  noComment : e.name.toList.head? ≠ some '#'
  proto : e.proto = 6 ∨ e.proto = 17

section Render

variable {e : Entry} {es : List Entry}

theorem names_protoText (h : Clean e) : Names (protoText e.proto) e.proto := by
  rcases h.proto with htcp | hudp
  · rw [htcp]
    exact Or.inl ⟨rfl, rfl⟩
  · rw [hudp]
    exact Or.inr ⟨rfl, rfl⟩

theorem denotes_toDigits (n : ℕ) : Denotes (Nat.toDigits 10 n) n :=
  ⟨_, Or.inl rfl, Nat.toDigits_ne_nil,
    fun _ hc ↦ Nat.isDigit_of_mem_toDigits (by decide) (by decide) hc,
    Nat.ofDigitChars_ten_toDigits⟩

theorem entryLine_render (h : Clean e) : EntryLine (renderLine e) e where
  nonempty hnil := by
    have hvalid := h.valid
    rw [hnil] at hvalid
    cases hvalid
  tight := tight_of_forall h.notBlank
  noTab htab := absurd (h.notBlank _ htab) (by decide)
  noComment := h.noComment
  text := by
    have hnil : Blank isWhitespace [] := fun _ hc ↦ absurd hc List.not_mem_nil
    refine ⟨[], [], renderLine e, hnil, hnil, ?_, by simp⟩
    refine ⟨[], [], _, _, hnil, List.not_mem_nil, hnil, List.not_mem_nil, denotes_toDigits _,
      names_protoText h, ?_⟩
    simp [renderLine]

theorem readLine_render (h : Clean e) : readLine (renderLine e) = some (some e) := by
  rw [readLine_of_entryLine (entryLine_render h), if_pos h.valid]

/-- Lines of a file whose lines end without a carriage return. -/
theorem lines_flatMap {ls : List Text} (hbreak : ∀ line ∈ ls, '\n' ∉ line)
    (hreturn : ∀ line ∈ ls, line.getLast? ≠ some '\r') :
    lines (ls.flatMap fun line ↦ line ++ ['\n']) = ls := by
  have hsplit : (ls.flatMap fun line ↦ line ++ ['\n']).splitOn '\n' = ls ++ [[]] := by
    clear hreturn
    induction ls with
    | nil => rfl
    | cons line ls ih =>
        obtain ⟨hline, hls⟩ := List.forall_mem_cons.mp hbreak
        rw [List.flatMap_cons, List.append_assoc, List.singleton_append,
          List.splitOn_append_cons_self_of_not_mem hline, ih hls, List.cons_append]
  have hstrip : ls.map stripCr = ls := by
    refine (List.map_congr_left fun line hline ↦ ?_).trans (List.map_id ls)
    exact if_neg (hreturn line hline)
  rw [lines, hsplit, List.dropLast_concat, List.getLast?_concat]
  simp [hstrip]

theorem renderLine_ends (h : Clean e) :
    '\n' ∉ renderLine e ∧ (renderLine e).getLast? ≠ some '\r' := by
  have htext := notBlank_portText (denotes_toDigits e.port.toNat) (names_protoText h)
  have hcut : renderLine e = (e.name.toList ++ ['\t']) ++
      (Nat.toDigits 10 e.port.toNat ++ '/' :: protoText e.proto) := by simp [renderLine]
  rw [hcut]
  constructor
  · intro hmem
    rcases List.mem_append.mp hmem with hleft | hright
    · rcases List.mem_append.mp hleft with hname | htab
      · exact absurd (h.notBlank _ hname) (by decide)
      · exact absurd (List.mem_singleton.mp htab) (by decide)
    · exact absurd (htext _ hright) (by decide)
  · intro hlast
    rw [List.getLast?_append_of_ne_nil _ (by simp)] at hlast
    exact absurd (htext _ (List.mem_of_getLast? hlast)) (by decide)

theorem lines_render (h : ∀ e ∈ es, Clean e) : lines (render es) = es.map renderLine := by
  have hmap : render es = (es.map renderLine).flatMap fun line ↦ line ++ ['\n'] := by
    rw [render, List.flatMap_map]
  rw [hmap]
  apply lines_flatMap
  · rintro line hline
    obtain ⟨e, he, rfl⟩ := List.mem_map.mp hline
    exact (renderLine_ends (h e he)).1
  · rintro line hline
    obtain ⟨e, he, rfl⟩ := List.mem_map.mp hline
    exact (renderLine_ends (h e he)).2

/-- The build reads a written file back. -/
theorem main_render (h : ∀ e ∈ es, Clean e) (hnodup : (es.map entryKey).Nodup)
    (hlength : es.length = EXPECTED_ENTRIES) : main (render es) = some (es.map pair) := by
  have hentries : entries (es.map renderLine) = es := by
    rw [entries, List.filterMap_map]
    refine (List.filterMap_congr fun e he ↦ ?_).trans List.filterMap_some
    rw [Function.comp_apply, readLine_render (h e he)]
    rfl
  have hfold : (lines (render es)).foldlM addLine [] = some (es.map pair) := by
    rw [lines_render h, foldlM_addLine_iff, hentries]
    refine ⟨fun line hline ↦ ?_, hnodup, rfl⟩
    obtain ⟨e, he, rfl⟩ := List.mem_map.mp hline
    rw [readLine_render (h e he)]
    rfl
  rw [main, hfold]
  simp [Option.filter, hlength]

end Render

end TrafficMap.Services
