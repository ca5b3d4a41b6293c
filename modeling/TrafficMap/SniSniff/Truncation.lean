import TrafficMap.SniSniff.Declared

/-!
# Hellos cut short

A snap length or a TCP segment boundary leaves a prefix of the hello.  Every
read that succeeds on the prefix is the same read on the whole, and the walk
answers inside the whole items of the prefix, so a cut can hide the name but
cannot change it.
-/

namespace TrafficMap.SniSniff

open Wire Checked

theorem sniOf_take_of {exts exts' : List (ℕ × Bytes)} (hpre : exts <+: exts') {name : Bytes}
    (h : sniOf exts = some name) : sniOf exts' = some name := by
  rw [sniOf, Option.bind_eq_some_iff] at h
  obtain ⟨e, hfind, hname⟩ := h
  rw [sniOf, hpre.find?_eq_some hfind]
  exact hname

/-- The answer on a payload is the answer on every payload it starts. -/
theorem run_parse_append {payload name : Bytes}
    (h : (parseClientHelloSni payload).run = .ok (some name)) (tail : Bytes) :
    (parseClientHelloSni (payload ++ tail)).run = .ok (some name) := by
  obtain ⟨hd, rest, rfl⟩ := exists_head_of_run h
  rw [run_parse_head] at h
  rw [List.append_assoc, run_parse_head]
  have hpre : tlvs 2 2 rest <+: tlvs 2 2 (rest ++ tail) := tlvs_prefix_append (by decide) rest tail
  exact congrArg _ (sniOf_take_of hpre (Except.ok.inj h))

theorem sni_of_truncated (payload tail : Bytes) :
    (∀ name, (parseClientHelloSni payload).run = .ok (some name) →
      (parseClientHelloSni (payload ++ tail)).run = .ok (some name)) ∧
    ((parseClientHelloSni payload).run = .ok none ∨
      (parseClientHelloSni payload).run = (parseClientHelloSni (payload ++ tail)).run) := by
  constructor
  · intro name h
    exact run_parse_append h tail
  · obtain ⟨o, ho⟩ := noPanic_parseClientHelloSni payload
    cases o with
    | none => exact Or.inl ho
    | some name => exact Or.inr (ho.trans (run_parse_append ho tail).symm)

theorem sni_of_truncated_trailer :
    (parseClientHelloSni (bareHead.bytes ++ trailer)).run = .ok (some [0x61]) ∧
      (parseClientHelloSni ((bareHead.bytes ++ trailer) ++ [0x00, 0x2b])).run =
        .ok (some [0x61]) := by
  have hrun : (parseClientHelloSni (bareHead.bytes ++ trailer)).run = .ok (some [0x61]) := by
    decide +kernel
  exact ⟨hrun, (sni_of_truncated _ [0x00, 0x2b]).1 _ hrun⟩

end TrafficMap.SniSniff
