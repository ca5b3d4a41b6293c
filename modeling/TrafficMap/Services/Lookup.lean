import TrafficMap.Services.Build

/-!
# The name of a service

The library of `crates/services` looks a port and a protocol up in the static
map, with a key of its own, against the lines of the file that the map is built
from.
-/

namespace TrafficMap.Services

open Fields Ingestor

/-! ## Keys -/

theorem serviceKey_toNat (port : UInt16) (proto : UInt8) :
    (serviceKey port proto).toNat = port.toNat * 256 + proto.toNat := by
  have hport := port.toNat_lt
  have hproto := proto.toNat_lt
  have hshift : (UInt32.ofNat port.toNat <<< 8).toNat = port.toNat <<< 8 := by
    rw [UInt32.toNat_shiftLeft, UInt32.toNat_ofNat',
      Nat.mod_eq_of_lt (by omega : port.toNat < 2 ^ 32)]
    change port.toNat <<< 8 % 2 ^ 32 = port.toNat <<< 8
    rw [Nat.shiftLeft_eq]
    omega
  rw [serviceKey, UInt32.toNat_or, hshift, UInt32.toNat_ofNat',
    Nat.mod_eq_of_lt (by omega), ← Nat.shiftLeft_add_eq_or_of_lt hproto, Nat.shiftLeft_eq]

theorem serviceKey_inj {port port' : UInt16} {proto proto' : UInt8}
    (h : serviceKey port proto = serviceKey port' proto') : port = port' ∧ proto = proto' := by
  have hnat := congrArg UInt32.toNat h
  rw [serviceKey_toNat, serviceKey_toNat] at hnat
  have hproto := proto.toNat_lt
  have hproto' := proto'.toNat_lt
  exact ⟨UInt16.toNat_inj.mp (by omega), UInt8.toNat_inj.mp (by omega)⟩

/-! ## The two tables -/

/-- Line `i` of the file is the entry. -/
def HasEntry (file : Text) (i : ℕ) (e : Entry) : Prop :=
  ∃ line, (lines file)[i]? = some line ∧ EntryLine line e

section Lookup

variable {file : Text} {map : Entries}

/-- In a file that is understood, the entries are those that the script reads. -/
theorem readLine_iff {i : ℕ} {line : Text} (hlines : ∀ line ∈ lines file, (readLine line).isSome)
    (hline : (lines file)[i]? = some line) (e : Entry) :
    readLine line = some (some e) ↔ EntryLine line e := by
  constructor
  · exact entryLine_of_readLine
  · intro h
    have hsome := hlines line (List.mem_of_getElem? hline)
    rw [readLine_of_entryLine h] at hsome ⊢
    split at hsome
    · rename_i hvalid
      rw [if_pos hvalid]
    · cases hsome

theorem mem_entries_iff (hlines : ∀ line ∈ lines file, (readLine line).isSome) (e : Entry) :
    e ∈ entries (lines file) ↔ ∃ i, HasEntry file i e := by
  rw [entries, List.mem_filterMap]
  constructor
  · rintro ⟨line, hline, hread⟩
    obtain ⟨i, hi⟩ := List.mem_iff_getElem?.mp hline
    exact ⟨i, line, hi, (readLine_iff hlines hi e).mp (Option.join_eq_some_iff.mp hread)⟩
  · rintro ⟨i, line, hi, hentry⟩
    exact ⟨line, List.mem_of_getElem? hi,
      Option.join_eq_some_iff.mpr ((readLine_iff hlines hi e).mpr hentry)⟩

/-- No two lines have a key in common. -/
theorem index_unique (h : main file = some map) {i j : ℕ} {e e' : Entry} (hi : HasEntry file i e)
    (hj : HasEntry file j e') (hkey : entryKey e = entryKey e') : i = j := by
  obtain ⟨hlines, hnodup, -⟩ := main_eq_some h
  obtain ⟨line, hline, hentry⟩ := hi
  obtain ⟨line', hline', hentry'⟩ := hj
  have hread := Option.join_eq_some_iff.mpr ((readLine_iff hlines hline e).mpr hentry)
  have hread' := Option.join_eq_some_iff.mpr ((readLine_iff hlines hline' e').mpr hentry')
  rw [List.Nodup, List.pairwise_map, entries, List.pairwise_filterMap,
    List.pairwise_iff_getElem] at hnodup
  obtain ⟨hi, rfl⟩ := List.getElem?_eq_some_iff.mp hline
  obtain ⟨hj, rfl⟩ := List.getElem?_eq_some_iff.mp hline'
  rcases Nat.lt_trichotomy i j with hlt | heq | hgt
  · exact absurd hkey (hnodup i j hi hj hlt e hread e' hread')
  · exact heq
  · exact absurd hkey.symm (hnodup j i hj hi hgt e' hread' e hread)

/-- The script and the library pack a key in the same way. -/
theorem entryKey_eq (e : Entry) : entryKey e = serviceKey e.port e.proto := rfl

/-- For a file that the build accepts, and a static map that is right about its
entries, the name of a port and a protocol is that of their one line, and there
is none if there is no such line. -/
theorem serviceName_iff (out : Outside) (file : Text) (map : Entries)
    (hbuild : main file = some map)
    (hmap : ∀ k name, out.services k = some name ↔ (k, name) ∈ map) (port : UInt16)
    (proto : UInt8) :
    (∀ name, serviceName out port proto = some name ↔ ∃ i, HasEntry file i ⟨name, port, proto⟩) ∧
    (∀ i j name name', HasEntry file i ⟨name, port, proto⟩ →
      HasEntry file j ⟨name', port, proto⟩ → i = j ∧ name = name') ∧
    (serviceName out port proto = none ↔ ∀ i name, ¬HasEntry file i ⟨name, port, proto⟩) := by
  obtain ⟨hlines, -, hpairs⟩ := main_eq_some hbuild
  have hname : ∀ name, serviceName out port proto = some name ↔
      ∃ i, HasEntry file i ⟨name, port, proto⟩ := by
    intro name
    rw [serviceName, hmap, ← mem_entries_iff hlines, hpairs, List.mem_map]
    constructor
    · rintro ⟨⟨name', port', proto'⟩, he, hpair⟩
      obtain ⟨hkey, rfl⟩ := Prod.mk.inj hpair
      rw [entryKey_eq] at hkey
      obtain ⟨rfl, rfl⟩ := serviceKey_inj hkey
      exact he
    · exact fun he ↦ ⟨_, he, rfl⟩
  refine ⟨hname, fun i j name name' hi hj ↦ ⟨index_unique hbuild hi hj rfl, ?_⟩, ?_⟩
  · have hsome := (hname name).mpr ⟨i, hi⟩
    rw [(hname name').mpr ⟨j, hj⟩] at hsome
    exact (Option.some.inj hsome).symm
  · rw [Option.eq_none_iff_forall_ne_some]
    constructor
    · exact fun h i name hi ↦ h name ((hname name).mpr ⟨i, hi⟩)
    · intro h name hsome
      obtain ⟨i, hi⟩ := (hname name).mp hsome
      exact h i name hi

end Lookup

/-! ## A file -/

def svcEntry (i : ℕ) : Entry := ⟨"svc", UInt16.ofNat i, 6⟩

def svcEntries : List Entry := (List.range EXPECTED_ENTRIES).map svcEntry

theorem svcEntry_clean (i : ℕ) : Clean (svcEntry i) := by
  have hname : (svcEntry i).name.toList = ['s', 'v', 'c'] := by simp [svcEntry]
  have hall : ['s', 'v', 'c'].all (fun c ↦ !isWhitespace c) = true := rfl
  refine ⟨?_, ?_, ?_, Or.inl rfl⟩
  · rw [hname]
    rfl
  · rw [hname]
    exact fun c hc ↦ (Bool.not_eq_true' _).mp (List.all_eq_true.mp hall c hc)
  · rw [hname]
    intro h
    have hchar : 's'.toNat = '#'.toNat := congrArg Char.toNat (Option.some.inj h)
    exact absurd hchar (by decide)

theorem svcEntries_nodup : (svcEntries.map entryKey).Nodup := by
  rw [svcEntries, List.map_map]
  refine List.Nodup.map_on (fun i hi j hj hkey ↦ ?_) List.nodup_range
  have hport := congrArg UInt16.toNat (serviceKey_inj hkey).1
  have hi' := List.mem_range.mp hi
  have hj' := List.mem_range.mp hj
  rw [EXPECTED_ENTRIES] at hi' hj'
  rw [svcEntry, svcEntry, UInt16.toNat_ofNat', UInt16.toNat_ofNat',
    Nat.mod_eq_of_lt (by omega), Nat.mod_eq_of_lt (by omega)] at hport
  exact hport

/-- With the table of the file. -/
def svcOutside : Outside :=
  { plainOutside with
    services := fun k ↦ if k ∈ svcEntries.map entryKey then some "svc" else none }

theorem serviceName_svc : serviceName svcOutside 443 6 = some "svc" := by
  have hclean : ∀ e ∈ svcEntries, Clean e := by
    intro e he
    obtain ⟨i, -, rfl⟩ := List.mem_map.mp he
    exact svcEntry_clean i
  have hlength : svcEntries.length = EXPECTED_ENTRIES := by
    rw [svcEntries, List.length_map, List.length_range]
  have hmap : ∀ k name, svcOutside.services k = some name ↔ (k, name) ∈ svcEntries.map pair := by
    intro k name
    rw [svcOutside]
    simp only [Option.ite_none_right_eq_some, Option.some.injEq, List.mem_map]
    constructor
    · rintro ⟨⟨e, he, rfl⟩, rfl⟩
      obtain ⟨i, -, rfl⟩ := List.mem_map.mp he
      exact ⟨_, he, rfl⟩
    · rintro ⟨e, he, hpair⟩
      obtain ⟨rfl, rfl⟩ := Prod.mk.inj hpair
      obtain ⟨i, -, rfl⟩ := List.mem_map.mp he
      exact ⟨⟨_, he, rfl⟩, rfl⟩
  refine ((serviceName_iff svcOutside (render svcEntries) (svcEntries.map pair)
    (main_render hclean svcEntries_nodup hlength) hmap 443 6).1 "svc").mpr ?_
  refine ⟨443, renderLine (svcEntry 443), ?_, entryLine_render (svcEntry_clean 443)⟩
  rw [lines_render hclean, svcEntries, List.map_map, List.getElem?_map,
    List.getElem?_range (by decide)]
  rfl

end TrafficMap.Services
