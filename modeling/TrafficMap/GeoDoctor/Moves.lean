import TrafficMap.GeoDoctor.Standing

/-!
# Where a correction comes from

The canonical table under any interleaving of the passes with the ingestor, the
tracer and an operator.  A correction that stands was entered by the operator, or a
relocate pass found it justified by the path that was measured then.
-/

namespace TrafficMap.GeoDoctor

open Ingestor Sql

/-! ## The table and its past -/

/-- The tables that each relocate pass found, and the rows that an operator wrote. -/
structure Moves where
  relocations : List Db
  edits : List (IpNetwork × GeoRow)

/-- No code reads the moves. -/
structure GeoStore where
  db : Db
  moves : Moves

/-- The rows that the table has not had as they are. -/
def newRows (before after : Table IpNetwork GeoRow) : List (IpNetwork × GeoRow) :=
  (after.entries.map fun e ↦ (e.1, e.2)).filter fun e ↦ before.lookup e.1 ≠ some e.2

def Moves.after (m : Moves) (db : Db) : Action → Moves
  | .relocatePass _ => { m with relocations := m.relocations ++ [db] }
  | .setGeo ipGeo => { m with edits := m.edits ++ newRows db.ipGeo ipGeo }
  | _ => m

section Store

variable {D : Type} [Field D] [LinearOrder D] (e : Engine D) (homeLat homeLon : ℚ)

namespace GeoStore

def init : GeoStore := ⟨⟨[], ∅, [], ∅⟩, ⟨[], []⟩⟩

def step (s : GeoStore) (a : Action) : Option GeoStore :=
  (GeoDoctor.step e homeLat homeLon s.db a).map fun db ↦ ⟨db, s.moves.after s.db a⟩

end GeoStore

/-! ## Sources -/

/-- The correction is that of a row that the operator wrote. -/
def Entered (m : Moves) (ip : IpNetwork) (g : GeoRow) : Prop :=
  ∃ g₀, (ip, g₀) ∈ m.edits ∧ g.corrLat = g₀.corrLat ∧ g.corrLon = g₀.corrLon ∧
    g.corrCountry = g₀.corrCountry

/-- A relocate pass found the row contradicted by its path, and the correction is the
deepest hop of that path within its own bound. -/
def Moved (m : Moves) (ip : IpNetwork) (g : GeoRow) : Prop :=
  ∃ db ∈ m.relocations, ∃ g₀ r longest h, db.ipGeo.lookup ip = some g₀ ∧ g₀.source ≠ "manual" ∧
    db.routes.lookup ip = some r ∧ Justified e homeLat homeLon g₀ r.hops longest ∧
      CorrectedTo e homeLat homeLon g r.hops longest h

def HasSource (m : Moves) (ip : IpNetwork) (g : GeoRow) : Prop :=
  g.corrLat = none ∨ Entered m ip g ∨ Moved e homeLat homeLon m ip g

def AllSourced (s : GeoStore) : Prop :=
  ∀ ip g, s.db.ipGeo.lookup ip = some g → HasSource e homeLat homeLon s.moves ip g

variable {e} {homeLat homeLon} {m m' : Moves} {ip : IpNetwork} {g g' : GeoRow} {db : Db}

structure Moves.Grows (m m' : Moves) : Prop where
  relocations : m.relocations ⊆ m'.relocations
  edits : m.edits ⊆ m'.edits

theorem Moves.grows_after (m : Moves) (db : Db) (a : Action) : m.Grows (m.after db a) := by
  cases a with
  | relocatePass now => exact ⟨List.subset_append_left _ _, List.Subset.refl _⟩
  | setGeo ipGeo => exact ⟨List.Subset.refl _, List.subset_append_left _ _⟩
  | _ => exact ⟨List.Subset.refl _, List.Subset.refl _⟩

theorem HasSource.mono (h : HasSource e homeLat homeLon m ip g) (hgrows : m.Grows m') :
    HasSource e homeLat homeLon m' ip g := by
  refine h.imp_right (Or.imp ?_ ?_)
  · rintro ⟨g₀, hmem, hcorr⟩
    exact ⟨g₀, hgrows.edits hmem, hcorr⟩
  · rintro ⟨db, hdb, hmoved⟩
    exact ⟨db, hgrows.relocations hdb, hmoved⟩

/-- The observed pass writes what no correction is about. -/
theorem HasSource.updateRow (h : HasSource e homeLat homeLon m ip g) (now : DateTime)
    (c : Computed) : HasSource e homeLat homeLon m ip (updateRow now c g) := by
  refine h.imp_right (Or.imp_right ?_)
  rintro ⟨db, hdb, g₀, r, longest, hop, hg₀, hsource, hr, hjust, hto⟩
  exact ⟨db, hdb, g₀, r, longest, hop, hg₀, hsource, hr, hjust, ⟨hto.mem, hto.reachable,
    hto.deepest, hto.source, hto.lat, hto.lon, hto.country, hto.anchorIp, hto.rttMs, hto.conf⟩⟩

/-! ## The passes -/

theorem hasSource_passSql {now : DateTime}
    (h : ∀ ip g, db.ipGeo.lookup ip = some g → HasSource e homeLat homeLon m ip g)
    (hg : (passSql e now db).ipGeo.lookup ip = some g) : HasSource e homeLat homeLon m ip g := by
  cases hc : (computed e db.flows).lookup ip with
  | none =>
      rw [lookup_passSql_of_none hc] at hg
      exact h ip g hg
  | some c =>
      cases hold : db.ipGeo.lookup ip with
      | none =>
          rw [lookup_passSql_new hc hold] at hg
          obtain rfl := Option.some.inj hg
          exact Or.inl rfl
      | some g₀ =>
          by_cases hsource : g₀.source = "manual"
          · rw [lookup_passSql_manual hold hsource] at hg
            obtain rfl := Option.some.inj hg
            exact h ip g₀ hold
          · rw [lookup_passSql_old hc hold hsource] at hg
            obtain rfl := Option.some.inj hg
            exact (h ip g₀ hold).updateRow now c

/-- A correction is set where the path justifies it, kept where it is of another kind,
and dropped else. -/
theorem hasSource_relocateSql {now : DateTime}
    (h : ∀ ip g, db.ipGeo.lookup ip = some g → HasSource e homeLat homeLon m ip g)
    (hdb : db ∈ m'.relocations) (hgrows : m.Grows m')
    (hg : (relocateSql e homeLat homeLon now db).ipGeo.lookup ip = some g) :
    HasSource e homeLat homeLon m' ip g := by
  rw [lookup_relocateSql] at hg
  obtain ⟨g₀, hg₀, rfl⟩ := Option.map_eq_some_iff.mp hg
  rw [relocateRow]
  cases hx : (relocate e homeLat homeLon db).lookup ip with
  | some x =>
      have hmanual := not_manual_of_relocate hx hg₀
      obtain ⟨r, hr, hjust⟩ := justified_of_relocate hg₀ hx
      have hupdate : ∃ g', doUpdate now x g₀ = some g' := ⟨_, if_neg hmanual⟩
      obtain ⟨g', hg'⟩ := hupdate
      obtain ⟨hop, hto⟩ := correctedTo_of_relocate hg₀ hr hx hg'
      simp only [hg', Option.getD_some]
      exact Or.inr (Or.inr ⟨db, hdb, g₀, r, x.dstRtt, hop, hg₀, hmanual, hr, hjust, hto⟩)
  | none =>
      by_cases hcorr : g₀.corrSource = some "mtr-rtt"
      · simp only [selfHeal, if_pos hcorr, Option.getD_some]
        exact Or.inl rfl
      · simp only [selfHeal, if_neg hcorr, Option.getD_none]
        exact (h ip g₀ hg₀).mono hgrows

theorem hasSource_setGeo {ipGeo : Table IpNetwork GeoRow}
    (h : ∀ ip g, db.ipGeo.lookup ip = some g → HasSource e homeLat homeLon m ip g)
    (hedits : newRows db.ipGeo ipGeo ⊆ m'.edits) (hgrows : m.Grows m')
    (hg : ipGeo.lookup ip = some g) : HasSource e homeLat homeLon m' ip g := by
  by_cases hsame : db.ipGeo.lookup ip = some g
  · exact (h ip g hsame).mono hgrows
  · refine Or.inr (Or.inl ⟨g, hedits ?_, rfl, rfl, rfl⟩)
    refine List.mem_filter.mpr ⟨?_, decide_eq_true hsame⟩
    exact List.mem_map.mpr ⟨⟨ip, g⟩, AList.mem_lookup_iff.mp hg, rfl⟩

theorem AllSourced.step {s t : GeoStore} {a : Action} (h : AllSourced e homeLat homeLon s)
    (hstep : s.step e homeLat homeLon a = some t) : AllSourced e homeLat homeLon t := by
  obtain rfl := Option.some.inj hstep
  have hgrows := s.moves.grows_after s.db a
  intro ip g hg
  cases a with
  | observedPass now => exact hasSource_passSql h hg
  | relocatePass now =>
      exact hasSource_relocateSql h (List.mem_append_right _ (List.mem_singleton_self _)) hgrows hg
  | setGeo ipGeo => exact hasSource_setGeo h (List.subset_append_right _ _) hgrows hg
  | bogonPass now => exact h ip g hg
  | setFlows flows => exact h ip g hg
  | setRoutes routes => exact h ip g hg

theorem GeoStore.grows_of_step {s t : GeoStore} {a : Action}
    (hstep : s.step e homeLat homeLon a = some t) : s.moves.Grows t.moves := by
  obtain rfl := Option.some.inj hstep
  exact s.moves.grows_after s.db a

end Store

/-- A database that measures along the equator, 100 km to the degree. -/
def flatEarth : Engine ℚ where
  modeNum := Mode.first
  modeText := Mode.first
  deepest := Top.first
  real := id
  km := fun _ lon₁ _ lon₂ ↦ |lon₂ - lon₁| * 100

end TrafficMap.GeoDoctor
