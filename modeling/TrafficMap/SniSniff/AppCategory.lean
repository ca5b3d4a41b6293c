import TrafficMap.SniSniff.Apps

/-!
# The category beside the application

`IP_APP_SQL` takes the most logged application of an address and its most logged
category, each by itself.  They belong together unless the applications that lose
outweigh the category of the one that wins.
-/

namespace TrafficMap.SniSniff

open Ingestor Sql

/-- Each application is always logged with one category. -/
def OneCategory (log : List SniLog) : Prop :=
  ∀ r ∈ log, ∀ r' ∈ log, r.app ≠ none → r.app = r'.app → r.category = r'.category

section Category

variable (e : AppEngine) (now : DateTime) (db : AppDb)

/-- The log has rows for the address, and its row is no manual one. -/
def AppWritten (ip : IpNetwork) : Prop :=
  ip ∈ appComputed e now db.sniLog ∧ ∀ p, db.ipApp.lookup ip = some p → p.source ≠ "manual"

/-- Every row written with an application has the category that is logged with it. -/
def CategoriesBelong : Prop := ∀ ip p, AppWritten e now db ip →
  (ipAppSql e now db).ipApp.lookup ip = some p →
    ∀ r ∈ db.sniLog, p.app ≠ none → r.app = p.app → r.category = p.category

/-- Each most logged category of some rows is that of each of their most logged
applications.  Applications and categories that are the same texts in the same order
have the same one chosen. -/
def CategoriesMeet (log rows : List SniLog) : Prop := ∀ app category,
  MostFrequent (rows.filterMap SniLog.app) app →
    MostFrequent (rows.filterMap SniLog.category) category →
      (rows.filterMap SniLog.app = rows.filterMap SniLog.category → app = category) →
        ∀ r ∈ log, r.app = some app → r.category = some category

end Category

variable {e : AppEngine} {now : DateTime} {db : AppDb} {ip : IpNetwork}

theorem app_of_written {p : IpApp} (hw : AppWritten e now db ip)
    (hp : (ipAppSql e now db).ipApp.lookup ip = some p) :
    p.app = e.mode.run ((logged (recent now db.sniLog) ip).filterMap SniLog.app) ∧
      p.category = e.mode.run ((logged (recent now db.sniLog) ip).filterMap SniLog.category) := by
  obtain ⟨c, hc⟩ := Option.isSome_iff_exists.mp (AList.lookup_isSome.mpr hw.1)
  have hgroup := (lookup_appComputed db.sniLog ip).symm.trans hc
  obtain ⟨-, hgroup⟩ := Option.ite_none_left_eq_some.mp hgroup
  obtain rfl := Option.some.inj hgroup
  rw [ipAppSql, Table.lookup_upsert, hc] at hp
  cases hold : db.ipApp.lookup ip with
  | none =>
      rw [hold] at hp
      obtain rfl := Option.some.inj hp
      exact ⟨rfl, rfl⟩
  | some p₀ =>
      have hsource := hw.2 p₀ hold
      rw [hold] at hp
      simp only [Table.merged, onConflictApp, if_neg hsource] at hp
      obtain rfl := Option.some.inj hp
      exact ⟨rfl, rfl⟩

theorem exists_appWritten (e : AppEngine) (now : DateTime) (db : AppDb)
    (hmanual : ∀ p, db.ipApp.lookup ip = some p → p.source ≠ "manual")
    (hrows : logged (recent now db.sniLog) ip ≠ []) :
    AppWritten e now db ip ∧ ∃ p, (ipAppSql e now db).ipApp.lookup ip = some p := by
  refine ⟨⟨?_, hmanual⟩, ?_⟩
  · rw [← AList.lookup_isSome, lookup_appComputed, if_neg hrows]
    rfl
  · exact Option.isSome_iff_exists.mp
      (AList.lookup_isSome.mpr (mem_ipAppSql_iff.mpr (Or.inr hrows)))

/-- Whichever of the most logged texts are chosen, application and category belong
together exactly if those of each address meet. -/
theorem categoriesBelong_iff (e : AppEngine) (now : DateTime) (db : AppDb)
    (hone : OneCategory db.sniLog) :
    (∀ m : Mode String, CategoriesBelong { e with mode := m } now db) ↔
      ∀ ip, (∀ p, db.ipApp.lookup ip = some p → p.source ≠ "manual") →
        CategoriesMeet db.sniLog (logged (recent now db.sniLog) ip) := by
  constructor
  · intro h ip hmanual app category happ hcategory hsame r hr hrapp
    obtain ⟨m, hrunapp, hruncategory⟩ := Mode.exists_run_eq happ hcategory hsame
    have hrows : logged (recent now db.sniLog) ip ≠ [] := by
      intro hnil
      rw [hnil] at happ
      exact List.not_mem_nil happ.mem
    obtain ⟨hw, p, hp⟩ := exists_appWritten { e with mode := m } now db hmanual hrows
    obtain ⟨hpapp, hpcategory⟩ := app_of_written hw hp
    rw [hrunapp] at hpapp
    rw [hruncategory] at hpcategory
    have hbelong := h m ip p hw hp r hr
    rw [hpapp, hpcategory] at hbelong
    exact hbelong (Option.some_ne_none _) hrapp
  · intro h m ip p hw hp r hr hsome hrapp
    obtain ⟨hpapp, hpcategory⟩ := app_of_written hw hp
    obtain ⟨app, happ⟩ := Option.ne_none_iff_exists'.mp hsome
    have hrunapp := hpapp.symm.trans happ
    obtain ⟨r₀, hr₀, hr₀app⟩ := List.mem_filterMap.mp (m.mem_of_run hrunapp)
    have hlog : r₀ ∈ db.sniLog := List.mem_of_mem_filter (List.mem_of_mem_filter hr₀)
    have hsame : r.category = r₀.category := by
      apply hone r hr r₀ hlog
      · rwa [hrapp]
      · rw [hrapp, happ, hr₀app]
    cases hrun : m.run ((logged (recent now db.sniLog) ip).filterMap SniLog.category) with
    | none =>
        -- No row of the address has a category, that of the application has none either.
        have hnil := (m.run_eq_none _).mp hrun
        rw [hsame, hpcategory, hrun]
        exact List.filterMap_eq_nil_iff.mp hnil r₀ hr₀
    | some category =>
        rw [hpcategory, hrun]
        refine h ip hw.2 app category (m.mostFrequent_of_run hrunapp) (m.mostFrequent_of_run hrun)
          ?_ r hr (hrapp.trans happ)
        intro hlists
        rw [hlists] at hrunapp
        exact Option.some.inj (hrunapp.symm.trans hrun)

/-! ## Categories of few rows -/

/-- A host of the same address. -/
def hostLog (app category : String) : SniLog :=
  { googleLog with app := some app, category := some category }

/-- A second address. -/
def mailLog : SniLog :=
  { hostLog "Mail" "mail" with dstAddr := toNet (.v4 ⟨0x01010101⟩) }

/-- Three applications at one address, one of them the most logged, and another
at a second address. -/
def mixedLog : List SniLog :=
  [hostLog "Drive" "files", hostLog "Maps" "places", mailLog, hostLog "Drive" "files",
    { googleLog with app := none, category := none }, hostLog "Earth" "places",
    hostLog "Drive" "files"]

theorem oneCategory_mixed : OneCategory mixedLog := by
  have hlook : ∀ r ∈ mixedLog, r.app ≠ none → r.category =
      if r.app = some "Drive" then some "files"
      else if r.app = some "Mail" then some "mail" else some "places" := by decide
  intro r hr r' hr' hsome happ
  rw [hlook r hr hsome, hlook r' hr' (happ ▸ hsome), happ]

theorem categoriesMeet_mixed (ip : IpNetwork) :
    CategoriesMeet mixedLog (logged (recent ⟨200, 0⟩ mixedLog) ip) := by
  intro app category happ hcategory _
  have hip : ip = googleIp ∨ ip = mailLog.dstAddr := by
    obtain ⟨r, hr, -⟩ := List.mem_filterMap.mp happ.mem
    obtain ⟨hrecent, hdst⟩ := List.mem_filter.mp hr
    have hends : ∀ r ∈ mixedLog, r.dstAddr = googleIp ∨ r.dstAddr = mailLog.dstAddr := by decide
    rw [← of_decide_eq_true hdst]
    exact hends r (List.mem_of_mem_filter hrecent)
  rcases hip with rfl | rfl
  · have hdrive : app = "Drive" := happ.eq_of_only (by decide +kernel)
    have hfiles : category = "files" := hcategory.eq_of_only (by decide +kernel)
    rw [hdrive, hfiles]
    decide
  · have hmail : app = "Mail" := happ.eq_of_only (by decide +kernel)
    have hmail' : category = "mail" := hcategory.eq_of_only (by decide +kernel)
    rw [hmail, hmail']
    decide

theorem categoriesBelong_mixed :
    CategoriesBelong ⟨.first, id⟩ ⟨200, 0⟩ ⟨mixedLog, ∅, []⟩ :=
  (categoriesBelong_iff ⟨.first, id⟩ ⟨200, 0⟩ ⟨mixedLog, ∅, []⟩ oneCategory_mixed).mpr
    (fun ip _ ↦ categoriesMeet_mixed ip) .first

/-- Three applications, two of them of one category. -/
def sharedLog : List SniLog :=
  [hostLog "Drive" "files", hostLog "Drive" "files", hostLog "Drive" "files",
    hostLog "Maps" "places", hostLog "Maps" "places", hostLog "Earth" "places",
    hostLog "Earth" "places"]

/-- The application logged most often gets the category of the two others. -/
theorem not_categoriesBelong_shared : OneCategory sharedLog ∧
    ¬ CategoriesBelong ⟨.first, id⟩ ⟨200, 0⟩ ⟨sharedLog, ∅, []⟩ := by
  have hrows : logged (recent ⟨200, 0⟩ sharedLog) googleIp ≠ [] := by
    intro hnil
    exact absurd (congrArg List.length hnil) (by decide +kernel)
  constructor
  · have hlook : ∀ r ∈ sharedLog, r.category =
        if r.app = some "Drive" then some "files" else some "places" := by decide
    intro r hr r' hr' _ happ
    rw [hlook r hr, hlook r' hr', happ]
  · intro h
    obtain ⟨hw, p, hp⟩ := exists_appWritten ⟨.first, id⟩ ⟨200, 0⟩ ⟨sharedLog, ∅, []⟩
      (fun p hp ↦ by cases hp) hrows
    obtain ⟨happ, hcategory⟩ := app_of_written hw hp
    have hdrive : p.app = some "Drive" := happ.trans (by decide +kernel)
    have hplaces : p.category = some "places" := hcategory.trans (by decide +kernel)
    have hbelong := h googleIp p hw hp (hostLog "Drive" "files") (List.mem_cons_self ..)
    rw [hdrive, hplaces] at hbelong
    exact absurd (hbelong (Option.some_ne_none _) rfl) (by decide)

end TrafficMap.SniSniff
