import TrafficMap.Api.Timeline
import TrafficMap.SniSniff.Apps

/-!
# The applications panel

`/api/apps` of `crates/api` against the labels of the flows.  The panel joins
the flows to `ip_app` on their destination and nothing else; a label comes from
the destination or, where that has none, from the source.  The join compares
`inet` values, a label is looked up by the text of the address.
-/

namespace TrafficMap.Api

open Ingestor SniSniff Sql

/-! ## The panel -/

structure AppTotal where
  app : String
  category : Option String
  bytes : ℤ
  flows : ℕ

/-- `ORDER BY 3 DESC`. -/
structure TotalOrder where
  mostFirst : List AppTotal → List AppTotal
  perm : ∀ ts, (mostFirst ts).Perm ts
  sorted : ∀ ts, (mostFirst ts).Pairwise fun t t' ↦ t'.bytes ≤ t.bytes

def appsWindow (window : Option ℚ) (now : ℚ) (flows : List FlowRow) : List FlowRow :=
  flows.filter fun f ↦ now - clamp (window.getD 60) 1 3600 < epoch f.recvTime

/-- The application of the row with this key. -/
def keyApp (ipApp : Table IpNetwork IpApp) (ip : IpNetwork) : Option String :=
  (ipApp.lookup ip).bind IpApp.app

structure Joined where
  app : String
  category : Option String
  flow : FlowRow

/-- `flows f JOIN ip_app a ON a.ip = f.dst_addr … AND a.app IS NOT NULL`. -/
def joined (ipApp : Table IpNetwork IpApp) (flows : List FlowRow) : List Joined :=
  flows.filterMap fun f ↦ (ipApp.lookup f.dstAddr).bind fun a ↦
    a.app.map fun app ↦ ⟨app, a.category, f⟩

/-- The groups of the query, before its order and its limit. -/
def appTotals (m : Mode String) (ipApp : Table IpNetwork IpApp) (flows : List FlowRow) :
    Table String AppTotal :=
  (Table.groupBy Joined.app (joined ipApp flows)).select fun app js ↦ some
    { app := app
      category := m.run (js.filterMap Joined.category)
      bytes := sumOctets (js.map Joined.flow)
      flows := js.length }

def InBigint (n : ℤ) : Prop := -2 ^ 63 ≤ n ∧ n < 2 ^ 63

instance : DecidablePred InBigint := fun _ ↦ instDecidableAnd

/-- A sum that is no `bigint` fails the query. -/
def appGroups (m : Mode String) (ipApp : Table IpNetwork IpApp) (flows : List FlowRow) :
    Except String (Table String AppTotal) :=
  if ∀ e ∈ (appTotals m ipApp flows).entries, InBigint e.2.bytes then
    .ok (appTotals m ipApp flows)
  else .error "bigint out of range"

def appsQuery (m : Mode String) (order : TotalOrder) (ipApp : Table IpNetwork IpApp)
    (flows : List FlowRow) : Except String (List AppTotal) :=
  (appGroups m ipApp flows).map fun totals ↦
    (order.mostFirst (totals.entries.map Sigma.snd)).take 15

def totalJson (t : AppTotal) : Json :=
  .object [("app", .string t.app), ("category", .ofOption .string t.category),
    ("bytes", .ofI64 (Int64.ofInt t.bytes)), ("flows", .ofI64 (Int64.ofNat t.flows))]

/-- The reply without a database, and with the rows of one. -/
def appsHandler : Option (Except String (List AppTotal)) → Json
  | none => .object [("apps", .array [])]
  | some rows => .object [("apps", .array ((unwrapOrDefault rows).map totalJson))]

/-! ## The labels -/

/-- The rows of `load_apps`. -/
def appRows (db : Database) (ipApp : Table IpNetwork IpApp) :
    List (String × String × Option String) :=
  ipApp.entries.filterMap fun e ↦ e.2.app.map fun app ↦ (db.host e.1, app, e.2.category)

def appLabel (flow : Json) : Option String := (flow.get "app").bind Json.asStr

/-- The label of a stored flow, with the map loaded from the table. -/
def flowLabel (db : Database) (ipApp : Table IpNetwork IpApp) (f : FlowRow) : Option String :=
  (applyApps (loadApps (.ok (appRows db ipApp))) (histJson (histRow db f))).bind appLabel

/-! ## Their agreement -/

/-- The bytes of an application in the panel, none if the query fails. -/
def panelBytes (m : Mode String) (ipApp : Table IpNetwork IpApp) (flows : List FlowRow)
    (app : String) : ℤ :=
  match appGroups m ipApp flows with
  | .ok totals => ((totals.lookup app).map AppTotal.bytes).getD 0
  | .error _ => 0

def labelledBytes (db : Database) (ipApp : Table IpNetwork IpApp) (flows : List FlowRow)
    (app : String) : ℤ :=
  sumOctets (flows.filter fun f ↦ flowLabel db ipApp f = some app)

def PanelAgrees (m : Mode String) (db : Database) (ipApp : Table IpNetwork IpApp)
    (flows : List FlowRow) : Prop :=
  ∀ app, panelBytes m ipApp flows app = labelledBytes db ipApp flows app

/-- The rows of the reply are the totals of their applications, the largest first. -/
structure Shows (m : Mode String) (ipApp : Table IpNetwork IpApp) (flows : List FlowRow)
    (shown : List AppTotal) : Prop where
  length_le : shown.length ≤ 15
  sorted : shown.Pairwise fun t t' ↦ t'.bytes ≤ t.bytes
  bytes : ∀ t ∈ shown, t.bytes = panelBytes m ipApp flows t.app
  /-- An application with octets is there, unless the cut leaves it out. -/
  complete : ∀ app, panelBytes m ipApp flows app ≠ 0 → (∃ t ∈ shown, t.app = app) ∨
    shown.length = 15 ∧ ∀ t ∈ shown, panelBytes m ipApp flows app ≤ t.bytes

/-! ## What is in a label -/

section Label

variable {apps : AppMap} {v : Json} {d s : String}

theorem set_object {v : Json} (h : ∃ fields, v = .object fields) (key : String) (x : Json) :
    ∃ w, v.set key x = some w ∧ (∃ fields, w = .object fields) ∧
      ∀ k, w.get k = if k = key then some x else v.get k := by
  obtain ⟨fields, rfl⟩ := h
  obtain ⟨w, hw⟩ : ∃ w, (Json.object fields).set key x = some w := ⟨_, rfl⟩
  exact ⟨w, hw, ⟨_, (Option.some.inj hw).symm⟩, Json.get_set hw⟩

theorem stampApp_of_none (hget : v.get d = some (.string s)) (happ : apps.lookup s = none) :
    stampApp apps d v = some v := by
  rw [stampApp, hget]
  simp [Json.asStr, happ]

theorem stampApp_of_stamped (h : (appLabel v).isSome) (key : String) :
    stampApp apps key v = some v := by
  rw [stampApp]
  cases (v.get key).bind Json.asStr with
  | none => rfl
  | some ip =>
      cases hip : apps.lookup ip with
      | none => simp [hip]
      | some entry => simp [hip, show ((v.get "app").bind Json.asStr).isSome from h]

theorem stampApp_of_some {app : String} {category : Option String}
    (hobj : ∃ fields, v = .object fields) (hopen : appLabel v = none)
    (hget : v.get d = some (.string s)) (happ : apps.lookup s = some (app, category)) :
    ∃ w, stampApp apps d v = some w ∧ appLabel w = some app := by
  obtain ⟨w, hw, hobj', hgets⟩ := set_object hobj "app" (.string app)
  obtain ⟨w', hw', -, hgets'⟩ := set_object hobj' "category" (.ofOption .string category)
  refine ⟨w', ?_, ?_⟩
  · rw [stampApp, hget]
    rw [appLabel] at hopen
    simp [Json.asStr, happ, hopen, hw, hw']
  · rw [appLabel, hgets', hgets]
    rfl

/-- The destination is asked first, and the source only where it has no name. -/
theorem appLabel_applyApps (hobj : ∃ fields, v = .object fields) (hopen : appLabel v = none)
    (hdst : v.get "dst_addr" = some (.string d)) (hsrc : v.get "src_addr" = some (.string s)) :
    (applyApps apps v).bind appLabel =
      ((apps.lookup d).or (apps.lookup s)).map Prod.fst := by
  rw [applyApps]
  cases hd : apps.lookup d with
  | some entry =>
      obtain ⟨w, hw, hlabel⟩ := stampApp_of_some hobj hopen hdst hd
      rw [hw, Option.bind_some, stampApp_of_stamped (by rw [hlabel]; rfl)]
      exact hlabel
  | none =>
      rw [stampApp_of_none hdst hd, Option.bind_some]
      cases hs : apps.lookup s with
      | some entry =>
          obtain ⟨w, hw, hlabel⟩ := stampApp_of_some hobj hopen hsrc hs
          rw [hw]
          exact hlabel
      | none =>
          rw [stampApp_of_none hsrc hs]
          exact hopen

end Label

/-- The application of the text of an address. -/
def textApp (db : Database) (ipApp : Table IpNetwork IpApp) (ip : IpNetwork) : Option String :=
  ((loadApps (.ok (appRows db ipApp))).lookup (db.host ip)).map Prod.fst

theorem flowLabel_eq (db : Database) (ipApp : Table IpNetwork IpApp) (f : FlowRow) :
    flowLabel db ipApp f = (textApp db ipApp f.dstAddr).or (textApp db ipApp f.srcAddr) := by
  have hobj : ∃ fields, histJson (histRow db f) = .object fields := ⟨_, rfl⟩
  rw [flowLabel, appLabel_applyApps hobj rfl rfl rfl, Option.map_or]
  rfl

/-! ## What is in the map -/

theorem collect_concat {κ ρ : Type} [DecidableEq κ] (rows : List (κ × ρ)) (row : κ × ρ) :
    collect (rows ++ [row]) = (collect rows).insert row.1 row.2 := by
  simp [collect]

theorem lookup_collect {κ ρ : Type} [DecidableEq κ] (rows : List (κ × ρ)) (k : κ) :
    (∀ r, (collect rows).lookup k = some r → (k, r) ∈ rows) ∧
      ((collect rows).lookup k = none → ∀ r, (k, r) ∉ rows) := by
  induction rows using List.reverseRecOn with
  | nil => simp [collect]
  | append_singleton rows row ih =>
      obtain ⟨k', r'⟩ := row
      rw [collect_concat]
      by_cases hk : k = k'
      · subst hk
        simp
      · rw [Finmap.lookup_insert_of_ne _ hk]
        refine ⟨fun r hr ↦ List.mem_append_left _ (ih.1 r hr), fun hnone r hr ↦ ?_⟩
        rcases List.mem_append.mp hr with hold | hnew
        · exact ih.2 hnone r hold
        · exact hk (congrArg Prod.fst (List.mem_singleton.mp hnew))

section Texts

variable {db : Database} {ipApp : Table IpNetwork IpApp}

theorem mem_appRows_iff {text app : String} {category : Option String} :
    (text, app, category) ∈ appRows db ipApp ↔
      ∃ ip row, ipApp.lookup ip = some row ∧ row.app = some app ∧ row.category = category ∧
        db.host ip = text := by
  rw [appRows, List.mem_filterMap]
  constructor
  · rintro ⟨e, he, hrow⟩
    obtain ⟨app', happ, heq⟩ := Option.map_eq_some_iff.mp hrow
    obtain ⟨rfl, rfl, rfl⟩ : db.host e.1 = text ∧ app' = app ∧ e.2.category = category := by
      simpa using heq
    exact ⟨e.1, e.2, AList.mem_lookup_iff.mpr he, happ, rfl, rfl⟩
  · rintro ⟨ip, row, hrow, happ, rfl, rfl⟩
    exact ⟨⟨ip, row⟩, AList.mem_lookup_iff.mp hrow, by rw [happ]; rfl⟩

/-- A text that no other key has names the application of its key. -/
theorem textApp_eq_keyApp {ip : IpNetwork}
    (hown : ∀ ip' ∈ ipApp, db.host ip' = db.host ip → ip' = ip) :
    textApp db ipApp ip = keyApp ipApp ip := by
  obtain ⟨hfound, hmissing⟩ := lookup_collect (appRows db ipApp) (db.host ip)
  change ((collect (appRows db ipApp)).lookup (db.host ip)).map Prod.fst = keyApp ipApp ip
  cases hlookup : (collect (appRows db ipApp)).lookup (db.host ip) with
  | some entry =>
      obtain ⟨ip', row, hrow, happ, -, htext⟩ := mem_appRows_iff.mp (hfound entry hlookup)
      have hmem : ip' ∈ ipApp := AList.lookup_isSome.mp (Option.isSome_of_eq_some hrow)
      rw [← hown ip' hmem htext, keyApp, hrow]
      exact happ.symm
  | none =>
      cases hkey : keyApp ipApp ip with
      | none => rfl
      | some app =>
          obtain ⟨row, hrow, happ⟩ := Option.bind_eq_some_iff.mp hkey
          have hmem : (db.host ip, app, row.category) ∈ appRows db ipApp :=
            mem_appRows_iff.mpr ⟨ip, row, hrow, happ, rfl, rfl⟩
          exact absurd hmem (hmissing hlookup _)

end Texts

/-! ## Sums -/

/-- A missing count adds nothing to `sum(octets)`. -/
def octetsOf (f : FlowRow) : ℤ := (f.octets.map Int64.toInt).getD 0

theorem sumOctets_cons (f : FlowRow) (fs : List FlowRow) :
    sumOctets (f :: fs) = octetsOf f + sumOctets fs := by
  cases hoctets : f.octets with
  | none => simp [sumOctets, octetsOf, hoctets]
  | some n => simp [sumOctets, octetsOf, hoctets]

theorem sumOctets_split (p q : FlowRow → Prop) [DecidablePred p] [DecidablePred q]
    (fs : List FlowRow) : sumOctets (fs.filter p) =
      sumOctets (fs.filter fun f ↦ p f ∧ q f) + sumOctets (fs.filter fun f ↦ p f ∧ ¬ q f) := by
  induction fs with
  | nil => rfl
  | cons f fs ih =>
      by_cases hp : p f
      · by_cases hq : q f
        · simp only [List.filter_cons, hp, hq, and_self, not_true_eq_false, and_false,
            decide_true, decide_false, if_true, Bool.false_eq_true, if_false, sumOctets_cons, ih]
          ring
        · simp only [List.filter_cons, hp, hq, and_false, not_false_eq_true, and_self,
            decide_true, decide_false, if_true, Bool.false_eq_true, if_false, sumOctets_cons, ih]
          ring
      · simp only [List.filter_cons, hp, false_and, decide_false, Bool.false_eq_true, if_false, ih]

/-- Two selections have one sum if what only one of them selects has. -/
theorem sumOctets_filter_eq_iff (p q : FlowRow → Prop) [DecidablePred p] [DecidablePred q]
    (fs : List FlowRow) : sumOctets (fs.filter p) = sumOctets (fs.filter q) ↔
      sumOctets (fs.filter fun f ↦ p f ∧ ¬ q f) = sumOctets (fs.filter fun f ↦ q f ∧ ¬ p f) := by
  rw [sumOctets_split p q, sumOctets_split q p]
  simp only [and_comm (a := q _) (b := p _)]
  exact add_left_cancel_iff

theorem map_flow_joined (ipApp : Table IpNetwork IpApp) (app : String) (fs : List FlowRow) :
    ((joined ipApp fs).filter fun j ↦ j.app = app).map Joined.flow =
      fs.filter fun f ↦ keyApp ipApp f.dstAddr = some app := by
  induction fs with
  | nil => rfl
  | cons f fs ih =>
      rw [joined, List.filterMap_cons, ← joined, List.filter_cons, keyApp]
      cases hrow : ipApp.lookup f.dstAddr with
      | none => simpa using ih
      | some row =>
          cases happ : row.app with
          | none => simpa [happ] using ih
          | some app' =>
              by_cases heq : app' = app
              · simpa [happ, heq] using ih
              · simpa [happ, heq] using ih

theorem sumOctets_nonneg {fs : List FlowRow}
    (hnonneg : ∀ f ∈ fs, 0 ≤ octetsOf f) : 0 ≤ sumOctets fs := by
  induction fs with
  | nil => exact le_rfl
  | cons f fs ih =>
      obtain ⟨hf, hfs⟩ := List.forall_mem_cons.mp hnonneg
      rw [sumOctets_cons]
      exact add_nonneg hf (ih hfs)

theorem sumOctets_eq_zero_iff {fs : List FlowRow}
    (hnonneg : ∀ f ∈ fs, 0 ≤ octetsOf f) :
    sumOctets fs = 0 ↔ ∀ f ∈ fs, octetsOf f = 0 := by
  induction fs with
  | nil => exact iff_of_true rfl fun f hf ↦ absurd hf List.not_mem_nil
  | cons f fs ih =>
      obtain ⟨hf, hfs⟩ := List.forall_mem_cons.mp hnonneg
      rw [sumOctets_cons, List.forall_mem_cons, ← ih hfs]
      exact add_eq_zero_iff_of_nonneg hf (sumOctets_nonneg hfs)

/-- The octets of the flows whose destination has the application. -/
def countedBytes (ipApp : Table IpNetwork IpApp) (flows : List FlowRow) (app : String) : ℤ :=
  sumOctets (flows.filter fun f ↦ keyApp ipApp f.dstAddr = some app)

section Panel

variable (m : Mode String) {db : Database} {ipApp : Table IpNetwork IpApp} {fs : List FlowRow}

theorem bytes_appTotals (app : String) :
    (((appTotals m ipApp fs).lookup app).map AppTotal.bytes).getD 0 =
      countedBytes ipApp fs app := by
  rw [appTotals, Table.lookup_select, Table.lookup_groupBy, countedBytes, ← map_flow_joined]
  by_cases hmem : app ∈ (joined ipApp fs).map Joined.app
  · rw [if_pos hmem]
    rfl
  · have hnil : ((joined ipApp fs).filter fun j ↦ j.app = app) = [] := by
      rw [List.filter_eq_nil_iff]
      intro j hj happ
      exact hmem (List.mem_map.mpr ⟨j, hj, of_decide_eq_true happ⟩)
    rw [if_neg hmem, hnil]
    rfl

theorem inBigint_appTotals_iff :
    (∀ e ∈ (appTotals m ipApp fs).entries, InBigint e.2.bytes) ↔
      ∀ app, InBigint (countedBytes ipApp fs app) := by
  constructor
  · intro hentries app
    rw [← bytes_appTotals m]
    cases hlookup : (appTotals m ipApp fs).lookup app with
    | none => decide
    | some t => exact hentries ⟨app, t⟩ (AList.mem_lookup_iff.mp hlookup)
  · intro hcounted e he
    have hbytes : (((appTotals m ipApp fs).lookup e.1).map AppTotal.bytes).getD 0 =
        countedBytes ipApp fs e.1 := bytes_appTotals m e.1
    rw [AList.mem_lookup_iff.mpr he] at hbytes
    rw [show e.2.bytes = _ from hbytes]
    exact hcounted e.1

theorem panelBytes_of_fits (hfits : ∀ app, InBigint (countedBytes ipApp fs app)) (app : String) :
    panelBytes m ipApp fs app = countedBytes ipApp fs app := by
  rw [panelBytes, appGroups, if_pos ((inBigint_appTotals_iff m).mpr hfits)]
  exact bytes_appTotals m app

theorem panelBytes_of_not_fits (hfits : ¬ ∀ app, InBigint (countedBytes ipApp fs app))
    (app : String) : panelBytes m ipApp fs app = 0 := by
  rw [panelBytes, appGroups, if_neg ((inBigint_appTotals_iff m).not.mpr hfits)]

theorem appGroups_eq_ok {totals : Table String AppTotal}
    (h : appGroups m ipApp fs = .ok totals) : totals = appTotals m ipApp fs := by
  rw [appGroups] at h
  split at h
  · exact (Except.ok.inj h).symm
  · cases h

theorem app_of_lookup {app : String} {t : AppTotal}
    (h : (appTotals m ipApp fs).lookup app = some t) : t.app = app := by
  rw [appTotals, Table.lookup_select] at h
  obtain ⟨js, -, h⟩ := Option.bind_eq_some_iff.mp h
  obtain rfl := Option.some.inj h
  rfl

theorem panelBytes_of_ok {totals : Table String AppTotal} (h : appGroups m ipApp fs = .ok totals)
    (app : String) :
    panelBytes m ipApp fs app = ((totals.lookup app).map AppTotal.bytes).getD 0 := by
  rw [panelBytes, h]

theorem shows_take (order : TotalOrder) {totals : Table String AppTotal}
    (h : appGroups m ipApp fs = .ok totals) :
    Shows m ipApp fs ((order.mostFirst (totals.entries.map Sigma.snd)).take 15) := by
  set ts := totals.entries.map Sigma.snd
  have hmem : ∀ t, t ∈ order.mostFirst ts ↔ totals.lookup t.app = some t := by
    intro t
    rw [(order.perm ts).mem_iff, List.mem_map]
    constructor
    · rintro ⟨e, he, rfl⟩
      have hlookup : totals.lookup e.1 = some e.2 := AList.mem_lookup_iff.mpr he
      rwa [app_of_lookup m (appGroups_eq_ok m h ▸ hlookup)]
    · intro hlookup
      exact ⟨⟨t.app, t⟩, AList.mem_lookup_iff.mp hlookup, rfl⟩
  have hsplit := order.sorted ts
  rw [← List.take_append_drop 15 (order.mostFirst ts)] at hsplit
  obtain ⟨hfirst, -, hcut⟩ := List.pairwise_append.mp hsplit
  constructor
  · exact List.length_take_le _ _
  · exact hfirst
  · intro t ht
    rw [panelBytes_of_ok m h, (hmem t).mp (List.mem_of_mem_take ht)]
    rfl
  · intro app happ
    rw [panelBytes_of_ok m h] at happ ⊢
    cases hlookup : totals.lookup app with
    | none => simp [hlookup] at happ
    | some t =>
        have happ : t.app = app := app_of_lookup m (appGroups_eq_ok m h ▸ hlookup)
        have ht : t ∈ order.mostFirst ts := (hmem t).mpr (happ ▸ hlookup)
        rw [← List.take_append_drop 15 (order.mostFirst ts)] at ht
        rcases List.mem_append.mp ht with htake | hdrop
        · exact Or.inl ⟨t, htake, happ⟩
        · refine Or.inr ⟨?_, fun t' ht' ↦ hcut t' ht' t hdrop⟩
          have hlong := List.length_pos_of_mem hdrop
          rw [List.length_drop] at hlong
          rw [List.length_take]
          omega

/-- What the handler replies. -/
theorem exists_shows (order : TotalOrder) : ∃ shown,
    appsHandler (some (appsQuery m order ipApp fs)) =
        .object [("apps", .array (shown.map totalJson))] ∧
      Shows m ipApp fs shown := by
  cases h : appGroups m ipApp fs with
  | ok totals =>
      refine ⟨_, ?_, shows_take m order h⟩
      rw [appsQuery, h]
      rfl
  | error e =>
      have hzero : ∀ app, panelBytes m ipApp fs app = 0 := by
        intro app
        rw [panelBytes, h]
      refine ⟨[], ?_, ⟨Nat.zero_le _, List.Pairwise.nil, fun t ht ↦ absurd ht List.not_mem_nil,
        fun app happ ↦ absurd (hzero app) happ⟩⟩
      rw [appsQuery, h]
      rfl

end Panel

/-! ## When they agree -/

def Fits (ipApp : Table IpNetwork IpApp) (flows : List FlowRow) : Prop :=
  ∀ app, InBigint (countedBytes ipApp flows app)

/-- No address of a flow has the text of a key that is not the address itself. -/
def TextsDistinct (db : Database) (ipApp : Table IpNetwork IpApp) (flows : List FlowRow) : Prop :=
  ∀ f ∈ flows, ∀ ip ∈ ipApp, (db.host ip = db.host f.dstAddr → ip = f.dstAddr) ∧
    (db.host ip = db.host f.srcAddr → ip = f.srcAddr)

/-- The application that the texts of the ends give, the destination's first. -/
def endsApp (db : Database) (ipApp : Table IpNetwork IpApp) (f : FlowRow) : Option String :=
  (textApp db ipApp f.dstAddr).or (textApp db ipApp f.srcAddr)

section Agree

variable (m : Mode String) {db : Database} {ipApp : Table IpNetwork IpApp} {fs : List FlowRow}

theorem labelledBytes_eq (app : String) : labelledBytes db ipApp fs app =
    sumOctets (fs.filter fun f ↦ endsApp db ipApp f = some app) := by
  simp only [labelledBytes, flowLabel_eq]
  rfl

theorem panelAgrees_iff_sums : PanelAgrees m db ipApp fs ↔
    Fits ipApp fs ∧ (∀ app,
      sumOctets (fs.filter fun f ↦
          endsApp db ipApp f = some app ∧ ¬ keyApp ipApp f.dstAddr = some app) =
        sumOctets (fs.filter fun f ↦
          keyApp ipApp f.dstAddr = some app ∧ ¬ endsApp db ipApp f = some app)) ∨
    ¬ Fits ipApp fs ∧ ∀ app, sumOctets (fs.filter fun f ↦ endsApp db ipApp f = some app) = 0 := by
  by_cases hfits : Fits ipApp fs
  · simp only [hfits, true_and, not_true_eq_false, false_and, or_false]
    apply forall_congr'
    intro app
    rw [panelBytes_of_fits m hfits, labelledBytes_eq, countedBytes, eq_comm]
    exact sumOctets_filter_eq_iff _ _ fs
  · simp only [hfits, false_and, false_or, not_false_eq_true, true_and]
    apply forall_congr'
    intro app
    rw [panelBytes_of_not_fits m hfits, labelledBytes_eq, eq_comm]

theorem endsApp_of_textsDistinct (hdistinct : TextsDistinct db ipApp fs) {f : FlowRow}
    (hf : f ∈ fs) :
    endsApp db ipApp f = (keyApp ipApp f.dstAddr).or (keyApp ipApp f.srcAddr) := by
  rw [endsApp, textApp_eq_keyApp fun ip hip ↦ (hdistinct f hf ip hip).1,
    textApp_eq_keyApp fun ip hip ↦ (hdistinct f hf ip hip).2]

/-- With one text for each key, what only the labels count is named by the
source alone. -/
theorem labelledBytes_of_textsDistinct (hdistinct : TextsDistinct db ipApp fs) (app : String) :
    labelledBytes db ipApp fs app = countedBytes ipApp fs app +
      sumOctets (fs.filter fun f ↦
        keyApp ipApp f.dstAddr = none ∧ keyApp ipApp f.srcAddr = some app) := by
  rw [labelledBytes_eq, sumOctets_split _ fun f ↦ keyApp ipApp f.dstAddr = some app, countedBytes]
  congr 2
  · apply List.filter_congr
    intro f hf
    rw [endsApp_of_textsDistinct hdistinct hf]
    cases keyApp ipApp f.dstAddr with
    | none => simp
    | some app' => simp
  · apply List.filter_congr
    intro f hf
    rw [endsApp_of_textsDistinct hdistinct hf]
    cases keyApp ipApp f.dstAddr with
    | none => simp
    | some app' => simp

theorem panelAgrees_iff_of_textsDistinct (hdistinct : TextsDistinct db ipApp fs)
    (hnonneg : ∀ f ∈ fs, 0 ≤ octetsOf f) :
    PanelAgrees m db ipApp fs ↔ Fits ipApp fs ∧ ∀ f ∈ fs, keyApp ipApp f.dstAddr = none →
      (keyApp ipApp f.srcAddr).isSome → octetsOf f = 0 := by
  have hsource : ∀ app, 0 ≤ sumOctets (fs.filter fun f ↦
      keyApp ipApp f.dstAddr = none ∧ keyApp ipApp f.srcAddr = some app) :=
    fun app ↦ sumOctets_nonneg fun f hf ↦ hnonneg f (List.mem_of_mem_filter hf)
  by_cases hfits : Fits ipApp fs
  · rw [and_iff_right hfits]
    have hzero : ∀ app, panelBytes m ipApp fs app = labelledBytes db ipApp fs app ↔
        ∀ f ∈ fs, keyApp ipApp f.dstAddr = none → keyApp ipApp f.srcAddr = some app →
          octetsOf f = 0 := by
      intro app
      rw [panelBytes_of_fits m hfits, labelledBytes_of_textsDistinct hdistinct, left_eq_add,
        sumOctets_eq_zero_iff fun f hf ↦ hnonneg f (List.mem_of_mem_filter hf)]
      simp only [List.mem_filter, decide_eq_true_eq, and_imp]
    rw [PanelAgrees, forall_congr' hzero]
    constructor
    · intro hall f hf hdst hsrc
      obtain ⟨app, happ⟩ := Option.isSome_iff_exists.mp hsrc
      exact hall app f hf hdst happ
    · intro hall app f hf hdst hsrc
      exact hall f hf hdst (Option.isSome_of_eq_some hsrc)
  · refine iff_of_false ?_ fun h ↦ hfits h.1
    intro hagrees
    obtain ⟨app, happ⟩ := not_forall.mp hfits
    have hcounted : 0 ≤ countedBytes ipApp fs app :=
      sumOctets_nonneg fun f hf ↦ hnonneg f (List.mem_of_mem_filter hf)
    have hzero := hagrees app
    rw [panelBytes_of_not_fits m hfits, labelledBytes_of_textsDistinct hdistinct] at hzero
    have hnone : countedBytes ipApp fs app = 0 :=
      le_antisymm (by linarith [hsource app]) hcounted
    rw [hnone] at happ
    exact happ (by decide)

end Agree

/-- The bytes of the panel before its cut, and the reply that shows the largest of them. -/
theorem panelAgrees_iff (m : Mode String) (db : Database) (ipApp : Table IpNetwork IpApp)
    (window : Option ℚ) (now : ℚ) (flows : List FlowRow) :
    let fs := appsWindow window now flows
    (PanelAgrees m db ipApp fs ↔
      Fits ipApp fs ∧ (∀ app,
        sumOctets (fs.filter fun f ↦
            endsApp db ipApp f = some app ∧ ¬ keyApp ipApp f.dstAddr = some app) =
          sumOctets (fs.filter fun f ↦
            keyApp ipApp f.dstAddr = some app ∧ ¬ endsApp db ipApp f = some app)) ∨
      ¬ Fits ipApp fs ∧
        ∀ app, sumOctets (fs.filter fun f ↦ endsApp db ipApp f = some app) = 0) ∧
    (TextsDistinct db ipApp fs → (∀ f ∈ fs, 0 ≤ octetsOf f) →
      (PanelAgrees m db ipApp fs ↔ Fits ipApp fs ∧ ∀ f ∈ fs, keyApp ipApp f.dstAddr = none →
        (keyApp ipApp f.srcAddr).isSome → octetsOf f = 0)) ∧
    ∀ order : TotalOrder, ∃ shown, appsHandler (some (appsQuery m order ipApp fs)) =
        .object [("apps", .array (shown.map totalJson))] ∧ Shows m ipApp fs shown :=
  ⟨panelAgrees_iff_sums m, fun hdistinct ↦ panelAgrees_iff_of_textsDistinct m hdistinct,
    exists_shows m⟩

abbrev google : IpNetwork := .v4Net 8 8 8 8 32

abbrev laptop : IpNetwork := .v4Net 10 0 0 2 32

/-- One address is known. -/
def oneApp : Table IpNetwork IpApp :=
  AList.singleton google {
    app := some "Google", category := none, sni := none, obsCount := 1, distinctSni := 1
    confidence := 1, source := "sni", firstSeen := none, lastSeen := none, updatedAt := ⟨0, 0⟩ }

def exchange (src dst : IpNetwork) : FlowRow where
  json := .null
  recvTime := ⟨0, 0⟩
  srcAddr := src
  dstAddr := dst
  srcPort := none
  dstPort := none
  protocol := none
  tcpFlags := none
  tos := none
  packets := some 1
  octets := some 100
  ifIndexIn := none
  ifIndexOut := none
  gatewayAddr := none
  agentAddr := none
  srcAs := none
  dstAs := none
  netflowVer := none
  flowStart := none
  flowEnd := none
  srcLat := none
  srcLon := none
  dstLat := none
  dstLon := none
  srcCountry := none
  dstCountry := none

section Exchange

variable {src dst : IpNetwork}

theorem fits_oneApp : Fits oneApp [exchange src dst] := by
  intro app
  rw [countedBytes]
  by_cases happ : keyApp oneApp (exchange src dst).dstAddr = some app
  · rw [List.filter_cons_of_pos (by simpa using happ)]
    exact (by decide : InBigint 100)
  · rw [List.filter_cons_of_neg (by simpa using happ)]
    exact (by decide : InBigint 0)

theorem appsWindow_exchange : appsWindow none 0 [exchange src dst] = [exchange src dst] := by
  rw [appsWindow, List.filter_eq_self]
  intro f hf
  obtain rfl := List.mem_singleton.mp hf
  exact decide_eq_true (by norm_num [clamp, epoch, exchange])

theorem textsDistinct_oneApp
    (hdst : plainDatabase.host google = plainDatabase.host dst → google = dst)
    (hsrc : plainDatabase.host google = plainDatabase.host src → google = src) :
    TextsDistinct plainDatabase oneApp [exchange src dst] := by
  intro f hf ip hip
  obtain rfl := List.mem_singleton.mp hf
  obtain rfl := List.mem_singleton.mp hip
  exact ⟨hdst, hsrc⟩

theorem octetsOf_exchange : ∀ f ∈ [exchange src dst], 0 ≤ octetsOf f := by
  intro f hf
  obtain rfl := List.mem_singleton.mp hf
  exact (by decide : (0 : ℤ) ≤ 100)

end Exchange

/-- An upload counts on both sides. -/
theorem panelAgrees_upload :
    PanelAgrees Mode.first plainDatabase oneApp (appsWindow none 0 [exchange laptop google]) := by
  have hagrees := (panelAgrees_iff Mode.first plainDatabase oneApp none 0
    [exchange laptop google]).2.1
  rw [appsWindow_exchange] at hagrees ⊢
  refine (hagrees (textsDistinct_oneApp (fun _ ↦ rfl) (by decide)) octetsOf_exchange).mpr
    ⟨fits_oneApp, ?_⟩
  intro f hf hnone
  obtain rfl := List.mem_singleton.mp hf
  cases hnone

/-- A download has its label and does not count. -/
theorem not_panelAgrees_download :
    ¬ PanelAgrees Mode.first plainDatabase oneApp
      (appsWindow none 0 [exchange google laptop]) := by
  rw [appsWindow_exchange, panelAgrees_iff_of_textsDistinct Mode.first
    (textsDistinct_oneApp (by decide) fun _ ↦ rfl) octetsOf_exchange]
  rintro ⟨-, hzero⟩
  have habsurd := hzero _ (List.mem_singleton_self _) (by decide) (by decide)
  exact absurd habsurd (by decide)

end TrafficMap.Api
