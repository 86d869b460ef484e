import SqlGatekeeper.Api.Concurrency
import SqlGatekeeper.Bootstrap.EnabledRules
import SqlGatekeeper.Tools.Reimport

/-!
# The life of a store

A store is created empty and seeded.  From then on requests are served, imports replace one
another, and every restart seeds again.

* `createMetadataSchema`: the empty store.
* `Gateway.Step.db_cases`: what one step does to the store.
* `SeededPart`: what no import made, row by row; `SeededPart.of_seeding` and its preservation by
  every step.
* `lastImport`: the bundle of the last import; `storeIs_of_run`: at any time the store, and what
  every session reads, is the seed and the whole last import.
* `seedReferenceData_of_run`: a restart with the settings of the last one changes nothing.
-/

namespace SqlGatekeeper

open Py Store Runs

/-! ## One step -/

/-- `create_metadata_schema`, on an empty database. -/
def createMetadataSchema : Metadata where
  datasources := ⟨[], 1⟩
  logicalTables := ⟨[], 1⟩
  routeFactors := ⟨[], 1⟩
  routeRules := ⟨[], 1⟩
  physicalRoutes := ⟨[], 1⟩
  policies := ⟨[], 1⟩
  statsSnapshots := ⟨[], 1⟩
  auditLogs := ⟨[], 1⟩

theorem createMetadataSchema_constraints : createMetadataSchema.Constraints := by
  constructor
  case datasourceIds | logicalTableIds | routeFactorIds | routeRuleIds | physicalRouteIds |
      policyIds | statsSnapshotIds | auditLogIds =>
    exact ⟨by simp [createMetadataSchema], List.nodup_nil⟩
  all_goals simp [createMetadataSchema, Store.Unique]

section Step

variable {env : Deployment} {g g' : Gateway env} {event : GatewayEvent env}

/-- A step changes the audit log only, or commits a seeding or an import. -/
theorem Gateway.Step.db_cases (h : Gateway.Step g event g') :
    (¬ event.Writes ∧ ∃ logs, g'.db = { g.db with auditLogs := logs }) ∨
      (∃ settings, event = .seeded settings ∧ seedReferenceData settings g.db = .ok g'.db) ∨
      ∃ rows target bundle, event = .imported rows target ∧
        buildSyncBundle env.rt rows target = .ok bundle ∧
        syncBundleToLocal g.db bundle = .ok g'.db := by
  cases h with
  | opened request => exact Or.inl ⟨fun h => h, g.db.auditLogs, rfl⟩
  | inserted hs honce hserve => exact Or.inl ⟨fun h => h, _, rfl⟩
  | answered hs hserve hid => exact Or.inl ⟨fun h => h, _, rfl⟩
  | failed hs hserve => exact Or.inl ⟨fun h => h, g.db.auditLogs, rfl⟩
  | dropped hs => exact Or.inl ⟨fun h => h, g.db.auditLogs, rfl⟩
  | seeded hseed => exact Or.inr (Or.inl ⟨_, rfl, hseed⟩)
  | imported hbundle hsync => exact Or.inr (Or.inr ⟨_, _, _, rfl, hbundle, hsync⟩)

/-- A seeding that commits is taken apart. -/
theorem seeding_of_ok {rt : Runtime} {settings : SeedSettings rt} {db db' : Metadata}
    (hdb : db.UniqueConstraints) (h : seedReferenceData settings db = .ok db') :
    Nonempty (Seeding settings db db') := by
  obtain ⟨db'', hok, hs⟩ := exists_seeding settings hdb
  obtain rfl := Except.ok.inj (h.symm.trans hok)
  exact hs

/-- The store keeps the declared constraints, and the audit rows have ids of their own. -/
structure Gateway.Sound (g : Gateway env) : Prop where
  constraints : g.db.Constraints
  ownIds : g.OwnIds

theorem Gateway.sound_idle {db : Metadata} (hdb : db.Constraints) : (Gateway.idle env db).Sound :=
  ⟨hdb, Gateway.ownIds_idle hdb.auditLogIds⟩

/-- Every step keeps them. -/
theorem Gateway.Sound.step (hg : g.Sound) (h : Gateway.Step g event g') : g'.Sound := by
  have hids := hg.ownIds.step h
  have hdb := hg.constraints
  refine ⟨?_, hids⟩
  rcases h.db_cases with ⟨-, logs, heq⟩ | ⟨settings, -, hseed⟩ | ⟨_, _, _, -, -, hsync⟩
  · have hfresh := hids.fresh
    rw [heq] at hfresh ⊢
    exact { hdb with auditLogIds := hfresh }
  · obtain ⟨hs⟩ := seeding_of_ok hdb.uniqueConstraints hseed
    exact hs.constraints hdb
  · exact (synced_of_ok hsync).constraints hdb

end Step

/-! ## The seeded part -/

/-- The seeded logical table `user`. -/
def userTable : LogicalTable :=
  logicalTableRow "user" "Logical user table" "sql_or_physical_table" "user_\x7bsuffix\x7d" 1

/-- The seeded logical table `order`. -/
def orderTable : LogicalTable :=
  logicalTableRow "order" "Logical order table" "route_context_or_sql" "order_\x7bbiz_date\x7d" 2

/-- The seeded routes, to two datasources. -/
def seededRoutes (userDs orderDs : Nat) : List PhysicalTableRoute :=
  [physicalRouteRow 1 "0" "user_0" userDs 1, physicalRouteRow 1 "1" "user_1" userDs 2,
    physicalRouteRow 2 "2025_06" "order_2025_06" orderDs 3,
    physicalRouteRow 2 "2025_07" "order_2025_07" orderDs 4]

/-- The seeded factors. -/
def seededFactors : List RouteFactorDef :=
  [routeFactorRow 1 "uid" "sql_predicate" "uid" 1,
    routeFactorRow 2 "biz_date" "route_context" "biz_date" 2]

/-- The seeded rules. -/
def seededRules : List RouteRule :=
  [routeRuleRow 1 "user_mod_2" "mod" "int(uid) % 2" "\x7bvalue\x7d" 1,
    routeRuleRow 2 "order_month" "format" "biz_date.replace('-', '_')" "\x7bvalue\x7d" 2]

/-- A datasource that is switched on and no import made. -/
def SeededDatasource (db : Metadata) (id : Nat) (code : Str) : Prop :=
  ∃ d ∈ db.datasources.rows, d.id = id ∧ d.datasourceCode = code ∧ d.enabled = true ∧
    isImported d.extra = false

/-- What no import made is what the first seeding of an empty store made. -/
structure SeededPart (userDs orderDs : Nat) (db : Metadata) : Prop where
  policies : db.policies.rows = [policyRow 1]
  logicalTables : db.logicalTables.rows.filter (fun t => !isImported t.extra) =
    [userTable, orderTable]
  routeFactors : db.routeFactors.rows.filter (fun f => db.isOwn f.logicalTableId) = seededFactors
  routeRules : db.routeRules.rows.filter (fun r => db.isOwn r.logicalTableId) = seededRules
  physicalRoutes : db.physicalRoutes.rows.filter (fun r => db.isOwn r.logicalTableId) =
    seededRoutes userDs orderDs
  statsSnapshots : db.statsSnapshots.rows = []
  userDatasource : SeededDatasource db userDs "biz_user_db"
  orderDatasource : SeededDatasource db orderDs "biz_order_db"

section Got

variable {ρ κ : Type} {key : ρ → κ} {k : κ} {mk : Nat → ρ} {t t' : Table ρ} {r s : ρ}

/-- A key that a row has is not inserted. -/
theorem Got.eq_of_mem (h : Table.Got key k mk t r t') (hs : s ∈ t.rows) (hk : key s = k) :
    t' = t := by
  rcases h.eq_or_insert with heq | ⟨hnew, -⟩
  · exact heq
  · exact absurd hk (hnew s hs)

/-- A key that no row has is inserted. -/
theorem Got.eq_insert (h : Table.Got key k mk t r t') (hk : k ∉ t.rows.map key) :
    t' = t.insert mk ∧ r = mk t.nextId := by
  have hnew : ∀ s ∈ t.rows, key s ≠ k := fun s hs heq => hk (heq ▸ List.mem_map_of_mem hs)
  rcases h.eq_or_insert with rfl | ⟨-, rfl⟩
  · exact absurd h.key_eq (hnew r h.mem)
  · refine ⟨rfl, ?_⟩
    rcases List.mem_append.1 h.mem with hr | hr
    · exact absurd h.key_eq (hnew r hr)
    · exact List.mem_singleton.1 hr

end Got

section Seeded

variable {rt : Runtime} {settings : SeedSettings rt} {db db' : Metadata}

/-- The seeded datasources are written, the later ones over the earlier ones. -/
def writeDatasources (settings : SeedSettings rt) (databaseName : Str) (d : DatasourceInstance) :
    DatasourceInstance :=
  (redisDatasource settings databaseName).put
    ((orderDatasource settings).put ((userDatasource settings).put d))

theorem Seeding.written (hs : Seeding settings db db') :
    ∀ d ∈ db'.datasources.rows, writeDatasources settings hs.databaseName d = d := by
  have hfixed₁ := hs.userPut.fixed (f := id) (fun _ => rfl) (fun _ => rfl) fun _ _ => rfl
  have hfixed₂ := hs.orderPut.fixed (fun d => by simp) (fun d => by simp) hfixed₁
  exact hs.redisPut.fixed (fun d => by simp) (fun d => by simp) hfixed₂

/-- What a seeding wrote is switched on and carries no import's mark. -/
theorem writeDatasources_eq {name : Str} {d : DatasourceInstance}
    (hcode : d.datasourceCode ∈ seededDatasourceCodes settings)
    (hwritten : writeDatasources settings name d = d) :
    d.enabled = true ∧ isImported d.extra = false := by
  have hput : ∀ (seed : DatasourceSeed) (e : DatasourceInstance),
      isImported (.dict seed.extra) = false →
      (e.datasourceCode = seed.datasourceCode ∨ e.enabled = true ∧
        isImported e.extra = false) →
      (seed.put e).enabled = true ∧ isImported (seed.put e).extra = false := by
    intro seed e hextra he
    unfold DatasourceSeed.put
    split
    · exact ⟨rfl, hextra⟩
    · rename_i hne
      exact he.resolve_left hne
  rw [← hwritten]
  refine hput _ _ rfl ?_
  simp only [DatasourceSeed.put_datasourceCode]
  by_cases hredis : d.datasourceCode = settings.redisDatasourceCode
  · exact Or.inl hredis
  refine Or.inr (hput _ _ rfl ?_)
  simp only [DatasourceSeed.put_datasourceCode]
  by_cases horder : d.datasourceCode = "biz_order_db"
  · exact Or.inl horder
  refine Or.inr (hput _ _ rfl (Or.inl ?_))
  simp only [seededDatasourceCodes, List.mem_cons, List.not_mem_nil, or_false] at hcode
  rcases hcode with h | h | h
  · exact h
  · exact absurd h horder
  · exact absurd h hredis

theorem Seeding.seededDatasource (hs : Seeding settings db db') {id : Nat} {code : Str}
    (hcode : code ∈ seededDatasourceCodes settings)
    (h : ∃ d ∈ db'.datasources.rows, d.id = id ∧ d.datasourceCode = code) :
    SeededDatasource db' id code := by
  obtain ⟨d, hd, hid, rfl⟩ := h
  obtain ⟨henabled, hmark⟩ := writeDatasources_eq hcode (hs.written d hd)
  exact ⟨d, hd, hid, rfl, henabled, hmark⟩

/-- The first seeding of an empty store. -/
theorem SeededPart.of_first (hs : Seeding settings createMetadataSchema db') :
    SeededPart hs.userDsId hs.orderDsId db' := by
  obtain ⟨p, hpolicy⟩ := hs.policy
  obtain ⟨f₁, hfactor₁⟩ := hs.userFactor
  obtain ⟨f₂, hfactor₂⟩ := hs.orderFactor
  obtain ⟨r₁, hrule₁⟩ := hs.userRule
  obtain ⟨r₂, hrule₂⟩ := hs.orderRule
  obtain ⟨q₁, hroute₁⟩ := hs.userRoute₀
  obtain ⟨q₂, hroute₂⟩ := hs.userRoute₁
  obtain ⟨q₃, hroute₃⟩ := hs.orderRoute₀
  obtain ⟨q₄, hroute₄⟩ := hs.orderRoute₁
  obtain ⟨hpolicies, -⟩ := Got.eq_insert hpolicy List.not_mem_nil
  obtain ⟨htables₁, huser⟩ := Got.eq_insert hs.userTable List.not_mem_nil
  obtain ⟨htables₂, horder⟩ := Got.eq_insert hs.orderTable (by rw [htables₁]; decide)
  rw [htables₁] at htables₂ horder
  have huserId : hs.user.id = 1 := by rw [huser]; rfl
  have horderId : hs.order.id = 2 := by rw [horder]; rfl
  rw [huserId] at hfactor₁ hrule₁ hroute₁ hroute₂
  rw [horderId] at hfactor₂ hrule₂ hroute₃ hroute₄
  obtain ⟨hfactors₁, -⟩ := Got.eq_insert hfactor₁ List.not_mem_nil
  obtain ⟨hfactors₂, -⟩ := Got.eq_insert hfactor₂ (by rw [hfactors₁]; decide)
  obtain ⟨hrules₁, -⟩ := Got.eq_insert hrule₁ List.not_mem_nil
  obtain ⟨hrules₂, -⟩ := Got.eq_insert hrule₂ (by rw [hrules₁]; decide)
  obtain ⟨hroutes₁, -⟩ := Got.eq_insert hroute₁ List.not_mem_nil
  obtain ⟨hroutes₂, -⟩ := Got.eq_insert hroute₂ (by
    rw [hroutes₁]
    show ((1, "1") : Nat × Str) ∉ [((1, "0") : Nat × Str)]
    decide)
  obtain ⟨hroutes₃, -⟩ := Got.eq_insert hroute₃ (by
    rw [hroutes₂, hroutes₁]
    show ((2, "2025_06") : Nat × Str) ∉ [((1, "0") : Nat × Str), (1, "1")]
    decide)
  obtain ⟨hroutes₄, -⟩ := Got.eq_insert hroute₄ (by
    rw [hroutes₃, hroutes₂, hroutes₁]
    show ((2, "2025_07") : Nat × Str) ∉ [((1, "0") : Nat × Str), (1, "1"), (2, "2025_06")]
    decide)
  rw [hfactors₁] at hfactors₂
  rw [hrules₁] at hrules₂
  rw [hroutes₃, hroutes₂, hroutes₁] at hroutes₄
  have htables : db'.logicalTables.rows = [userTable, orderTable] := by
    rw [htables₂]
    rfl
  have hown : ∀ id, db'.isOwn id = true := by
    intro id
    unfold Metadata.isOwn Metadata.importedLogicalIds
    rw [htables]
    exact decide_eq_true (show id ∉ ([] : List Nat) from List.not_mem_nil)
  constructor
  case policies =>
    rw [hpolicies]
    rfl
  case logicalTables =>
    rw [htables]
    rfl
  case routeFactors =>
    rw [List.filter_eq_self.2 fun f _ => hown _, hfactors₂]
    rfl
  case routeRules =>
    rw [List.filter_eq_self.2 fun r _ => hown _, hrules₂]
    rfl
  case physicalRoutes =>
    rw [List.filter_eq_self.2 fun r _ => hown _, hroutes₄]
    rfl
  case statsSnapshots => rw [hs.statsSnapshots]; rfl
  case userDatasource =>
    exact hs.seededDatasource List.mem_cons_self hs.exists_userDatasource
  case orderDatasource =>
    exact hs.seededDatasource (List.mem_cons_of_mem _ List.mem_cons_self) hs.exists_orderDatasource

variable {userDs orderDs : Nat}

theorem SeededPart.userTable_mem (h : SeededPart userDs orderDs db) :
    userTable ∈ db.logicalTables.rows :=
  List.mem_of_mem_filter (h.logicalTables ▸ List.mem_cons_self)

theorem SeededPart.orderTable_mem (h : SeededPart userDs orderDs db) :
    orderTable ∈ db.logicalTables.rows :=
  List.mem_of_mem_filter (h.logicalTables ▸ List.mem_cons_of_mem _ List.mem_cons_self)

theorem SeededPart.mem_routeFactors (h : SeededPart userDs orderDs db) {f : RouteFactorDef}
    (hf : f ∈ seededFactors) : f ∈ db.routeFactors.rows :=
  List.mem_of_mem_filter (h.routeFactors ▸ hf)

theorem SeededPart.mem_routeRules (h : SeededPart userDs orderDs db) {r : RouteRule}
    (hr : r ∈ seededRules) : r ∈ db.routeRules.rows :=
  List.mem_of_mem_filter (h.routeRules ▸ hr)

theorem SeededPart.mem_physicalRoutes (h : SeededPart userDs orderDs db) {r : PhysicalTableRoute}
    (hr : r ∈ seededRoutes userDs orderDs) : r ∈ db.physicalRoutes.rows :=
  List.mem_of_mem_filter (h.physicalRoutes ▸ hr)

/-- The rows that a seeding looks for, apart from the datasources, are there. -/
theorem SeededPart.eq_of_seeding (h : SeededPart userDs orderDs db) (hdb : db.Constraints)
    (hs : Seeding settings db db') : db' = { db with datasources := db'.datasources } := by
  obtain ⟨p, hpolicy⟩ := hs.policy
  obtain ⟨f₁, hfactor₁⟩ := hs.userFactor
  obtain ⟨f₂, hfactor₂⟩ := hs.orderFactor
  obtain ⟨r₁, hrule₁⟩ := hs.userRule
  obtain ⟨r₂, hrule₂⟩ := hs.orderRule
  obtain ⟨q₁, hroute₁⟩ := hs.userRoute₀
  obtain ⟨q₂, hroute₂⟩ := hs.userRoute₁
  obtain ⟨q₃, hroute₃⟩ := hs.orderRoute₀
  obtain ⟨q₄, hroute₄⟩ := hs.orderRoute₁
  have hpolicies := Got.eq_of_mem hpolicy (h.policies ▸ List.mem_singleton_self _) rfl
  have htables₁ := Got.eq_of_mem hs.userTable h.userTable_mem rfl
  have huser : hs.user.id = 1 := by
    have hmem := hs.userTable.mem
    rw [htables₁] at hmem
    rw [hdb.tableName.eq_of_mem hmem h.userTable_mem hs.userTable.key_eq]
    rfl
  have horderGot := hs.orderTable
  rw [htables₁] at horderGot
  have htables₂ := Got.eq_of_mem horderGot h.orderTable_mem rfl
  have horder : hs.order.id = 2 := by
    have hmem := horderGot.mem
    rw [htables₂] at hmem
    rw [hdb.tableName.eq_of_mem hmem h.orderTable_mem horderGot.key_eq]
    rfl
  rw [huser] at hfactor₁ hrule₁ hroute₁ hroute₂
  rw [horder] at hfactor₂ hrule₂ hroute₃ hroute₄
  have hfactors₁ := Got.eq_of_mem hfactor₁ (h.mem_routeFactors List.mem_cons_self) rfl
  rw [hfactors₁] at hfactor₂
  have hfactors₂ := Got.eq_of_mem hfactor₂
    (h.mem_routeFactors (List.mem_cons_of_mem _ List.mem_cons_self)) rfl
  have hrules₁ := Got.eq_of_mem hrule₁ (h.mem_routeRules List.mem_cons_self) rfl
  rw [hrules₁] at hrule₂
  have hrules₂ := Got.eq_of_mem hrule₂
    (h.mem_routeRules (List.mem_cons_of_mem _ List.mem_cons_self)) rfl
  have hroutes₁ := Got.eq_of_mem hroute₁ (h.mem_physicalRoutes List.mem_cons_self) rfl
  rw [hroutes₁] at hroute₂
  have hroutes₂ := Got.eq_of_mem hroute₂
    (h.mem_physicalRoutes (List.mem_cons_of_mem _ List.mem_cons_self)) rfl
  rw [hroutes₂] at hroute₃
  have hroutes₃ := Got.eq_of_mem hroute₃ (h.mem_physicalRoutes
    (List.mem_cons_of_mem _ (List.mem_cons_of_mem _ List.mem_cons_self))) rfl
  rw [hroutes₃] at hroute₄
  have hroutes₄ := Got.eq_of_mem hroute₄ (h.mem_physicalRoutes
    (List.mem_cons_of_mem _ (List.mem_cons_of_mem _ (List.mem_cons_of_mem _ List.mem_cons_self))))
      rfl
  calc db' = ⟨db'.datasources, db'.logicalTables, db'.routeFactors, db'.routeRules,
        db'.physicalRoutes, db'.policies, db'.statsSnapshots, db'.auditLogs⟩ := rfl
    _ = { db with datasources := db'.datasources } := by
      rw [htables₂, hfactors₂, hrules₂, hroutes₄, hpolicies, hs.statsSnapshots,
        hs.auditLogs]

/-- A seeding keeps the seeded part. -/
theorem SeededPart.seeding (h : SeededPart userDs orderDs db) (hdb : db.Constraints)
    (hs : Seeding settings db db') : SeededPart userDs orderDs db' := by
  have heq := h.eq_of_seeding hdb hs
  have hdatasource : ∀ {id : Nat} {code : Str}, code ∈ seededDatasourceCodes settings →
      SeededDatasource db id code → SeededDatasource db' id code := by
    rintro id code hcode ⟨d, hd, rfl, rfl, -⟩
    obtain ⟨d₁, hd₁, hid₁, hcode₁⟩ := hs.userPut.kept d hd
    obtain ⟨d', hd', hid', hcode'⟩ := hs.exists_datasource hd₁
    exact hs.seededDatasource hcode ⟨d', hd', hid'.trans hid₁, hcode'.trans hcode₁⟩
  have huser := hdatasource List.mem_cons_self h.userDatasource
  have horder := hdatasource (List.mem_cons_of_mem _ List.mem_cons_self) h.orderDatasource
  rw [heq] at huser horder ⊢
  exact { h with userDatasource := huser, orderDatasource := horder }

/-- So does an import. -/
theorem SeededPart.synced (h : SeededPart userDs orderDs db) (hdb : db.Constraints)
    {rows : List TableConfigRow} {target : ImportedDatasourceTarget} {bundle : SyncBundle}
    (hbundle : buildSyncBundle rt rows target = .ok bundle)
    (hsync : syncBundleToLocal db bundle = .ok db') : SeededPart userDs orderDs db' := by
  have hs := synced_of_ok hsync
  have hframe := hs.frame hdb (marked_of_ok hbundle) (exists_policies_of_ok hsync)
  have hdatasource : ∀ {id : Nat} {code : Str},
      SeededDatasource db id code → SeededDatasource db' id code := by
    rintro id code ⟨d, hd, rfl, rfl, henabled, hmark⟩
    refine ⟨d, hs.mem_datasources hd ?_, rfl, rfl, henabled, hmark⟩
    rw [hdb.mem_importedDatasourceIds_iff hd, hmark]
    exact Bool.false_ne_true
  have hpolicies : ensureDefaultPolicy db = .ok db := by
    unfold ensureDefaultPolicy
    rw [h.policies]
    rfl
  have hsame := (policies_of_ok hsync).symm.trans hpolicies
  constructor
  case policies =>
    rw [← h.policies, ← congrArg Metadata.policies (Except.ok.inj hsame)]
  case logicalTables => rw [hframe.logicalTables, h.logicalTables]
  case routeFactors => rw [hframe.routeFactors, h.routeFactors]
  case routeRules => rw [hframe.routeRules, h.routeRules]
  case physicalRoutes => rw [hframe.physicalRoutes, h.physicalRoutes]
  case statsSnapshots => rw [hframe.statsSnapshots, h.statsSnapshots]
  case userDatasource => exact hdatasource h.userDatasource
  case orderDatasource => exact hdatasource h.orderDatasource

/-- The seeded rules fit, so the seeding adds none beside an enabled one. -/
theorem SeededPart.seedRulesFit (h : SeededPart userDs orderDs db) (hdb : db.Constraints) :
    db.SeedRulesFit := by
  intro t ht
  refine ⟨fun hname _ => ?_, fun hname _ => ?_⟩
  · rw [hdb.tableName.eq_of_mem ht h.userTable_mem hname]
    exact ⟨_, h.mem_routeRules List.mem_cons_self, rfl, rfl⟩
  · rw [hdb.tableName.eq_of_mem ht h.orderTable_mem hname]
    exact ⟨_, h.mem_routeRules (List.mem_cons_of_mem _ List.mem_cons_self), rfl, rfl⟩

end Seeded

/-! ## The imported part -/

/-- Nothing was imported. -/
def emptyBundle : SyncBundle := ⟨[], [], [], [], [], 0⟩

/-- The import behind an event: a new one, or that before it. -/
def GatewayEvent.importAfter {env : Deployment} (last : SyncBundle) :
    GatewayEvent env → SyncBundle
  | .imported rows target => (buildSyncBundle env.rt rows target).toOption.getD last
  | _ => last

/-- The bundle of the last import of a run. -/
def lastImport {env : Deployment} (events : List (GatewayEvent env)) : SyncBundle :=
  events.foldl GatewayEvent.importAfter emptyBundle

/-- The codes that imports give their datasources. -/
def importedCodePrefix : Str := "spy_src_"

theorem makeStableIdentifier_prefix (U : UnicodeData) (raw pre : Str) (maxLength : Nat) :
    pre <+: makeStableIdentifier U raw pre maxLength := by
  unfold makeStableIdentifier
  simp only
  split
  · exact List.prefix_append _ _
  · rw [List.append_assoc]
    exact List.prefix_append _ _

theorem datasourceCode_prefix {rt : Runtime} {rows : List TableConfigRow}
    {target : ImportedDatasourceTarget} {bundle : SyncBundle}
    (h : buildSyncBundle rt rows target = .ok bundle) :
    ∀ q ∈ bundle.datasources, importedCodePrefix <+: q.datasourceCode := by
  intro q hq
  obtain ⟨records, -, hbundle⟩ := bind_eq_ok.1 h
  injection hbundle with hbundle
  subst hbundle
  obtain ⟨e, he, rfl⟩ := List.mem_map.1 ((List.perm_insertionSort _ _).mem_iff.1 hq)
  obtain ⟨source, hsource⟩ := exists_source_of_mem (by simp) e he
  rw [hsource]
  exact makeStableIdentifier_prefix _ _ _ _

section Imported

variable {rt : Runtime} {settings : SeedSettings rt} {db db' : Metadata} {bundle : SyncBundle}

theorem Corresponds.imp {σ ρ : Type} {R R' : ρ → σ → Prop} {rows : List ρ}
    {records : List σ} (h : Corresponds R rows records)
    (himp : ∀ r ∈ rows, ∀ q, R r q → R' r q) :
    Corresponds R' rows records := by
  obtain ⟨order, hperm, hall⟩ := h
  have hboth := (List.forall₂_and_left rows order).2 ⟨fun r hr => hr, hall⟩
  exact ⟨order, hperm, hboth.imp fun r q hrq => himp r hrq.1 q hrq.2⟩

/-- A marked row has a code that imports give. -/
theorem ImportIs.prefix_of_marked (h : ImportIs db bundle)
    (hcodes : ∀ q ∈ bundle.datasources, importedCodePrefix <+: q.datasourceCode)
    {d : DatasourceInstance} (hd : d ∈ db.datasources.rows) (hmark : isImported d.extra = true) :
    importedCodePrefix <+: d.datasourceCode := by
  obtain ⟨q, hq, hstored⟩ := h.datasources.exists_record (List.mem_filter.2 ⟨hd, hmark⟩)
  rw [hstored.datasourceCode]
  exact hcodes q hq

/-- A seeding whose Redis server has no code of an import leaves what imports made. -/
theorem ImportIs.seeding (h : ImportIs db bundle) (hdb : db.Constraints)
    (hcodes : ∀ q ∈ bundle.datasources, importedCodePrefix <+: q.datasourceCode)
    (hredis : ¬ importedCodePrefix <+: settings.redisDatasourceCode)
    (hs : Seeding settings db db') (heq : db' = { db with datasources := db'.datasources }) :
    ImportIs db' bundle := by
  have hdb' := hs.constraints hdb
  have hother : ∀ d : DatasourceInstance, importedCodePrefix <+: d.datasourceCode →
      d.datasourceCode ∉ seededDatasourceCodes settings := by
    intro d hprefix hmem
    simp only [seededDatasourceCodes, List.mem_cons, List.not_mem_nil, or_false] at hmem
    rcases hmem with hcode | hcode | hcode <;> rw [hcode] at hprefix
    · exact absurd hprefix (by decide)
    · exact absurd hprefix (by decide)
    · exact hredis hprefix
  have hmarked : ∀ {t : Table DatasourceInstance},
      (∀ d ∈ t.rows, isImported d.extra = true →
        d.datasourceCode ∉ seededDatasourceCodes settings) →
      t.rows.filter (fun d => isImported d.extra) =
        (t.rows.filter fun d => d.datasourceCode ∉ seededDatasourceCodes settings).filter
          fun d => isImported d.extra := by
    intro t ht
    rw [List.filter_filter]
    refine List.filter_congr fun d hd => ?_
    cases hmark : isImported d.extra with
    | false => rfl
    | true => simp [ht d hd hmark]
  have hdatasources : db'.datasources.rows.filter (fun d => isImported d.extra) =
      db.datasources.rows.filter fun d => isImported d.extra := by
    rw [hmarked fun d hd hmark => ?_, hs.frame.datasources, ← hmarked fun d hd hmark =>
      hother d (h.prefix_of_marked hcodes hd hmark)]
    intro hcode
    rw [(writeDatasources_eq hcode (hs.written d hd)).2] at hmark
    exact Bool.false_ne_true hmark
  have hcodeOf : ∀ r ∈ db.physicalRoutes.rows,
      db'.datasourceCodeOf r.datasourceId = db.datasourceCodeOf r.datasourceId := by
    intro r hr
    obtain ⟨d, hd, hid⟩ := hdb.routeDatasource r hr
    obtain ⟨d₁, hd₁, hid₁, hcode₁⟩ := hs.userPut.kept d hd
    obtain ⟨d', hd', hid', hcode'⟩ := hs.exists_datasource hd₁
    have hsame : d'.id = d.id := hid'.trans hid₁
    unfold Metadata.datasourceCodeOf
    rw [← hid, hdb.datasourceById_eq hd, ← hsame, hdb'.datasourceById_eq hd']
    simp [hcode'.trans hcode₁]
  rw [heq] at hdatasources hcodeOf ⊢
  exact { h with
    datasources := by rw [hdatasources]; exact h.datasources
    physicalRoutes := Corresponds.imp h.physicalRoutes fun r hr q hq =>
      ⟨hq.1, hq.2.1, (hcodeOf r (List.mem_of_mem_filter hr)).trans hq.2.2⟩ }

/-- The first seeding of an empty store makes nothing that looks imported. -/
theorem importIs_of_first (hs : Seeding settings createMetadataSchema db') :
    ImportIs db' emptyBundle := by
  have hdb' := hs.constraints createMetadataSchema_constraints
  have hpart := SeededPart.of_first hs
  have hdatasources : db'.datasources.rows.filter (fun d => isImported d.extra) = [] := by
    rw [List.filter_eq_nil_iff]
    intro d hd hmark
    have hcode : d.datasourceCode ∈ seededDatasourceCodes settings := by
      by_contra hcode
      have hmem : d ∈ db'.datasources.rows.filter
          fun d => d.datasourceCode ∉ seededDatasourceCodes settings :=
        List.mem_filter.2 ⟨hd, decide_eq_true hcode⟩
      rw [hs.frame.datasources] at hmem
      exact absurd hmem List.not_mem_nil
    rw [(writeDatasources_eq hcode (hs.written d hd)).2] at hmark
    exact Bool.false_ne_true hmark
  have htables : db'.logicalTables.rows.filter (fun t => isImported t.extra) = [] := by
    rw [List.filter_eq_nil_iff]
    intro t ht hmark
    obtain ⟨added, hrows, hadded⟩ := hs.frame.logicalTables
    have hname : t.tableName ∈ seededTableNames := hadded t (by rw [hrows] at ht; exact ht)
    simp only [seededTableNames, List.mem_cons, List.not_mem_nil, or_false] at hname
    rcases hname with hname | hname
    · rw [hdb'.tableName.eq_of_mem ht hpart.userTable_mem hname] at hmark
      exact absurd hmark (by decide)
    · rw [hdb'.tableName.eq_of_mem ht hpart.orderTable_mem hname] at hmark
      exact absurd hmark (by decide)
  have hown : ∀ id, db'.isOwn id = true := by
    intro id
    unfold Metadata.isOwn Metadata.importedLogicalIds
    rw [htables]
    exact decide_eq_true List.not_mem_nil
  constructor
  case datasources => exact ⟨[], .nil, by rw [hdatasources]; exact .nil⟩
  case logicalTables => exact ⟨[], .nil, by rw [htables]; exact .nil⟩
  all_goals
    refine ⟨[], .nil, ?_⟩
    rw [List.filter_eq_nil_iff.2 fun r _ => by simp [hown]]
    exact .nil

end Imported

/-! ## Whole runs -/

section Runs

variable {env : Deployment} {g g' : Gateway env} {events : List (GatewayEvent env)}
  {userDs orderDs : Nat}

/-- A store is the seed and one import. -/
structure StoreIs (userDs orderDs : Nat) (db : Metadata) (bundle : SyncBundle) : Prop where
  constraints : db.Constraints
  rulesResolve : db.RulesResolve
  seeded : SeededPart userDs orderDs db
  imported : ImportIs db bundle

/-- A seeding gives Redis no code with the prefix of the imports' codes, `spy_src_`. -/
def GatewayEvent.KeepsImport : GatewayEvent env → Prop
  | .seeded settings => ¬ importedCodePrefix <+: settings.redisDatasourceCode
  | _ => True

theorem lastImport_append (event : GatewayEvent env) :
    lastImport (events ++ [event]) = event.importAfter (lastImport events) := by
  unfold lastImport
  rw [List.foldl_append]
  rfl

theorem GatewayEvent.importAfter_of_not_writes {event : GatewayEvent env} (h : ¬ event.Writes)
    (last : SyncBundle) : event.importAfter last = last := by
  cases event with
  | imported rows target => exact absurd trivial h
  | _ => rfl

theorem lastImport_marked (events : List (GatewayEvent env)) :
    ∀ q ∈ (lastImport events).datasources, importedCodePrefix <+: q.datasourceCode := by
  induction events using List.reverseRecOn with
  | nil =>
    intro q hq
    exact absurd hq List.not_mem_nil
  | append_singleton events event ih =>
    rw [lastImport_append]
    by_cases hwrites : event.Writes
    · cases event with
      | imported rows target =>
        show ∀ q ∈ ((buildSyncBundle env.rt rows target).toOption.getD
          (lastImport events)).datasources, importedCodePrefix <+: q.datasourceCode
        cases hbundle : buildSyncBundle env.rt rows target with
        | ok bundle => exact datasourceCode_prefix hbundle
        | error e => exact ih
      | seeded settings => exact ih
      | _ => exact hwrites.elim
    · rw [GatewayEvent.importAfter_of_not_writes hwrites]
      exact ih

/-- Every step keeps the seeded part. -/
theorem SeededPart.step {event : GatewayEvent env} (h : SeededPart userDs orderDs g.db)
    (hdb : g.db.Constraints) (hstep : Gateway.Step g event g') :
    SeededPart userDs orderDs g'.db := by
  rcases hstep.db_cases with ⟨-, logs, heq⟩ | ⟨settings, -, hseed⟩ |
    ⟨rows, target, bundle, -, hbundle, hsync⟩
  · rw [heq]
    exact { h with }
  · obtain ⟨hs⟩ := seeding_of_ok hdb.uniqueConstraints hseed
    exact h.seeding hdb hs
  · exact h.synced hdb hbundle hsync

theorem StoreIs.step {event : GatewayEvent env}
    (h : StoreIs userDs orderDs g.db (lastImport events)) (hids : g.OwnIds)
    (hkeeps : event.KeepsImport) (hstep : Gateway.Step g event g') :
    StoreIs userDs orderDs g'.db (lastImport (events ++ [event])) := by
  have hdb' := (Gateway.Sound.step ⟨h.constraints, hids⟩ hstep).constraints
  have hpart := h.seeded.step h.constraints hstep
  rw [lastImport_append]
  rcases hstep.db_cases with ⟨hwrites, logs, heq⟩ | ⟨settings, rfl, hseed⟩ |
    ⟨rows, target, bundle, rfl, hbundle, hsync⟩
  · rw [GatewayEvent.importAfter_of_not_writes hwrites]
    rw [heq] at hdb' hpart ⊢
    exact ⟨hdb', h.rulesResolve, hpart, { h.imported with }⟩
  · obtain ⟨hs⟩ := seeding_of_ok h.constraints.uniqueConstraints hseed
    have heq := h.seeded.eq_of_seeding h.constraints hs
    have hone := (hs.oneEnabledRule_iff h.constraints h.rulesResolve.1).2
      (h.seeded.seedRulesFit h.constraints)
    exact ⟨hdb', hone.rulesResolve hdb', hpart,
      h.imported.seeding h.constraints (lastImport_marked events) hkeeps hs heq⟩
  · have hs := synced_of_ok hsync
    have hone := hs.oneEnabledRule hbundle h.constraints h.rulesResolve.1
    simp only [GatewayEvent.importAfter, hbundle, Except.toOption, Option.getD_some]
    exact ⟨hdb', hone.rulesResolve hdb', hpart,
      hs.importIs h.constraints (marked_of_ok hbundle)⟩

/-- The store after the first seeding. -/
theorem storeIs_of_first {settings : SeedSettings env.rt} {seeded : Metadata}
    (hseed : seedReferenceData settings createMetadataSchema = .ok seeded) :
    ∃ userDs orderDs, StoreIs userDs orderDs seeded emptyBundle := by
  have hdb := createMetadataSchema_constraints
  obtain ⟨hs⟩ := seeding_of_ok hdb.uniqueConstraints hseed
  have hnone : createMetadataSchema.OneEnabledRule := fun t ht => absurd ht List.not_mem_nil
  have hfit : createMetadataSchema.SeedRulesFit := fun t ht => absurd ht List.not_mem_nil
  exact ⟨_, _, hs.constraints hdb, ((hs.oneEnabledRule_iff hdb hnone).2 hfit).rulesResolve
    (hs.constraints hdb), SeededPart.of_first hs, importIs_of_first hs⟩

theorem storeIs_of_steps {seeded : Metadata} (hseeded : StoreIs userDs orderDs seeded emptyBundle)
    (h : Run Gateway.Step (Gateway.idle env seeded) events g)
    (hkeeps : ∀ event ∈ events, event.KeepsImport) :
    StoreIs userDs orderDs g.db (lastImport events) := by
  refine (h.invariant_of_good (P := fun events g =>
    g.OwnIds ∧ StoreIs userDs orderDs g.db (lastImport events)) ?_ ?_ hkeeps).2
  · exact ⟨Gateway.ownIds_idle hseeded.constraints.auditLogIds, hseeded⟩
  · rintro events m event g' ⟨hids, hstore⟩ hgood hstep
    exact ⟨hids.step hstep, hstore.step hids hgood hstep⟩

/-- A session reads the store of the moment it began. -/
theorem storeIs_of_session {seeded : Metadata} (hseeded : StoreIs userDs orderDs seeded emptyBundle)
    (h : Run Gateway.Step (Gateway.idle env seeded) events g)
    (hkeeps : ∀ event ∈ events, event.KeepsImport) {s : ApiSession env}
    (hs : s ∈ g.sessions.rows) :
    ∃ first rest, events = first ++ .opened s.number s.request :: rest ∧
      StoreIs userDs orderDs s.snapshot (lastImport first) := by
  obtain ⟨first, rest, m, rfl, hfirst, hsnapshot⟩ := Gateway.opened_of_run h s hs
  refine ⟨first, rest, rfl, ?_⟩
  rw [hsnapshot]
  exact storeIs_of_steps hseeded hfirst fun e he => hkeeps e (List.mem_append_left _ he)

/-- From the first seeding on, whatever is served, seeded and imported in whatever order, the store
is the seed and the whole of the last import; and so is what every request reads, for the import
that was the last before it arrived. -/
theorem storeIs_of_run {settings : SeedSettings env.rt} {seeded : Metadata}
    (hseed : seedReferenceData settings createMetadataSchema = .ok seeded) :
    ∃ userDs orderDs, ∀ (events : List (GatewayEvent env)) (g : Gateway env),
      Run Gateway.Step (Gateway.idle env seeded) events g →
      (∀ event ∈ events, event.KeepsImport) →
      StoreIs userDs orderDs g.db (lastImport events) ∧
        ∀ s ∈ g.sessions.rows, ∃ first rest, events = first ++ .opened s.number s.request ::
          rest ∧ StoreIs userDs orderDs s.snapshot (lastImport first) := by
  obtain ⟨userDs, orderDs, hseeded⟩ := storeIs_of_first hseed
  refine ⟨userDs, orderDs, fun events g hrun hkeeps =>
    ⟨storeIs_of_steps hseeded hrun hkeeps, ?_⟩⟩
  intro s hs
  exact storeIs_of_session hseeded hrun hkeeps hs

/-! ## A restart -/

/-- The datasources are those that a seeding writes. -/
structure Written {rt : Runtime} (settings : SeedSettings rt) (db : Metadata) : Prop where
  written : ∀ d ∈ db.datasources.rows, writeDatasources settings
    (intText settings.redisDb) d = d
  exists_row : ∀ code ∈ seededDatasourceCodes settings, ∃ d ∈ db.datasources.rows,
    d.datasourceCode = code

section Written

variable {rt : Runtime} {settings : SeedSettings rt} {db db' : Metadata}

theorem strInt_redisDb (settings : SeedSettings rt) :
    rt.strInt settings.redisDb = .ok (intText settings.redisDb) := by
  rw [Runtime.strInt, if_pos settings.redisDb_fits]

theorem Seeding.written_settings (hs : Seeding settings db db') : Written settings db' where
  written := by
    have hname := Except.ok.inj (hs.redisDb.symm.trans (strInt_redisDb settings))
    exact hname ▸ hs.written
  exists_row := by
    intro code hcode
    simp only [seededDatasourceCodes, List.mem_cons, List.not_mem_nil, or_false] at hcode
    rcases hcode with rfl | rfl | rfl
    · obtain ⟨d, hd, -, hcode⟩ := hs.exists_userDatasource
      exact ⟨d, hd, hcode⟩
    · obtain ⟨d, hd, -, hcode⟩ := hs.exists_orderDatasource
      exact ⟨d, hd, hcode⟩
    · obtain ⟨d, hd, -, hcode⟩ := hs.redisPut.exists_row
      exact ⟨d, hd, hcode⟩

theorem writeDatasources_of_notMem {name : Str} {d : DatasourceInstance}
    (h : d.datasourceCode ∉ seededDatasourceCodes settings) :
    writeDatasources settings name d = d := by
  simp only [seededDatasourceCodes, List.mem_cons, List.not_mem_nil, or_false, not_or] at h
  have huser : (userDatasource settings).put d = d := DatasourceSeed.put_of_ne h.1
  have horder : (orderDatasource settings).put d = d := DatasourceSeed.put_of_ne h.2.1
  unfold writeDatasources
  rw [huser, horder]
  exact DatasourceSeed.put_of_ne h.2.2

/-- An import deletes no datasource that a seeding wrote. -/
theorem Written.synced {bundle : SyncBundle} (h : Written settings db) (hdb : db.Constraints)
    (hs : Synced db bundle db') : Written settings db' := by
  have hkept : ∀ code ∈ seededDatasourceCodes settings, ∃ d ∈ db.datasources.rows,
      d ∈ db'.datasources.rows ∧ d.datasourceCode = code := by
    intro code hcode
    obtain ⟨d, hd, rfl⟩ := h.exists_row code hcode
    refine ⟨d, hd, hs.mem_datasources hd ?_, rfl⟩
    rw [hdb.mem_importedDatasourceIds_iff hd, (writeDatasources_eq hcode (h.written d hd)).2]
    exact Bool.false_ne_true
  refine ⟨fun d hd => ?_, fun code hcode => ?_⟩
  · by_cases hcode : d.datasourceCode ∈ seededDatasourceCodes settings
    · obtain ⟨e, he, he', hecode⟩ := hkept _ hcode
      rw [(hs.constraints hdb).datasourceCode.eq_of_mem hd he' hecode.symm]
      exact h.written e he
    · exact writeDatasources_of_notMem hcode
  · obtain ⟨d, -, hd, hdcode⟩ := hkept code hcode
    exact ⟨d, hd, hdcode⟩

/-- Writing the datasources again, one after the other, ends where it began. -/
theorem Written.upserts (h : Written settings db) (hdb : db.Constraints) :
    ∃ i₁ i₂ i₃ t₁ t₂,
      upsertDatasource (userDatasource settings) db =
        .ok (i₁, { db with datasources := t₁ }) ∧
      upsertDatasource (orderDatasource settings) { db with datasources := t₁ } =
        .ok (i₂, { db with datasources := t₂ }) ∧
      upsertDatasource (redisDatasource settings (intText settings.redisDb))
        { db with datasources := t₂ } = .ok (i₃, db) := by
  obtain ⟨d₁, hd₁, hcode₁⟩ := h.exists_row _ List.mem_cons_self
  obtain ⟨d₂, hd₂, hcode₂⟩ := h.exists_row _ (List.mem_cons_of_mem _ List.mem_cons_self)
  obtain ⟨d₃, hd₃, hcode₃⟩ := h.exists_row _
    (List.mem_cons_of_mem _ (List.mem_cons_of_mem _ List.mem_cons_self))
  have hput₁ : Put (userDatasource settings) db.datasources d₁.id _ :=
    put_of_mem hdb.datasourceIds hdb.datasourceCode hd₁ hcode₁
  obtain ⟨e₂, he₂, -, hecode₂⟩ := hput₁.kept d₂ hd₂
  have hput₂ : Put (orderDatasource settings) _ e₂.id _ :=
    put_of_mem hput₁.fresh hput₁.unique he₂ (hecode₂.trans hcode₂)
  obtain ⟨e₃, he₃, -, hecode₃⟩ := hput₁.kept d₃ hd₃
  obtain ⟨u₃, hu₃, -, hucode₃⟩ := hput₂.kept e₃ he₃
  have hrows : ((db.datasources.rows.map (userDatasource settings).put).map
      (orderDatasource settings).put).map
        (redisDatasource settings (intText settings.redisDb)).put = db.datasources.rows := by
    rw [List.map_map, List.map_map]
    exact (List.map_congr_left h.written).trans (List.map_id _)
  refine ⟨d₁.id, e₂.id, u₃.id, _, _,
    upsertDatasource_of_mem hdb.datasourceIds hdb.datasourceCode hd₁ hcode₁,
    upsertDatasource_of_mem hput₁.fresh hput₁.unique he₂ (hecode₂.trans hcode₂),
    (upsertDatasource_of_mem hput₂.fresh hput₂.unique hu₃
      (hucode₃.trans (hecode₃.trans hcode₃))).trans ?_⟩
  simp only [hrows]

/-- Where everything is as a seeding leaves it, a seeding changes nothing. -/
theorem SeededPart.seedReferenceData_eq (h : SeededPart userDs orderDs db) (hdb : db.Constraints)
    (hwritten : Written settings db) : seedReferenceData settings db = .ok db := by
  have htail : ∀ {α : Type} {a b : α} {l : List α}, a ∈ l → a ∈ b :: l :=
    fun ha => List.mem_cons_of_mem _ ha
  obtain ⟨i₁, i₂, i₃, t₁, t₂, hds₁, hds₂, hds₃⟩ := hwritten.upserts hdb
  have hpolicy : upsertPolicy db = .ok db :=
    upsertPolicy_of_mem hdb.policyCode (h.policies ▸ List.mem_singleton_self _) rfl
  have huser : ∀ a b c, upsertLogicalTable "user" a b c db = .ok (1, db) :=
    upsertLogicalTable_of_mem hdb.tableName h.userTable_mem rfl
  have horder : ∀ a b c, upsertLogicalTable "order" a b c db = .ok (2, db) :=
    upsertLogicalTable_of_mem hdb.tableName h.orderTable_mem rfl
  have huid : ∀ a b, upsertRouteFactor 1 "uid" a b db = .ok db :=
    upsertRouteFactor_of_mem hdb.uqRouteFactorTableName (h.mem_routeFactors List.mem_cons_self) rfl
  have hdate : ∀ a b, upsertRouteFactor 2 "biz_date" a b db = .ok db :=
    upsertRouteFactor_of_mem hdb.uqRouteFactorTableName
      (h.mem_routeFactors (htail List.mem_cons_self)) rfl
  have hmod : ∀ a b c, upsertRouteRule 1 "user_mod_2" a b c db = .ok db :=
    upsertRouteRule_of_mem hdb.uqRouteRuleTableName (h.mem_routeRules List.mem_cons_self) rfl
  have hmonth : ∀ a b c, upsertRouteRule 2 "order_month" a b c db = .ok db :=
    upsertRouteRule_of_mem hdb.uqRouteRuleTableName
      (h.mem_routeRules (htail List.mem_cons_self)) rfl
  have hroute₀ : ∀ a b, upsertPhysicalRoute 1 "0" a b db = .ok db :=
    upsertPhysicalRoute_of_mem hdb.uqTableRouteValue (h.mem_physicalRoutes List.mem_cons_self) rfl
  have hroute₁ : ∀ a b, upsertPhysicalRoute 1 "1" a b db = .ok db :=
    upsertPhysicalRoute_of_mem hdb.uqTableRouteValue
      (h.mem_physicalRoutes (htail List.mem_cons_self)) rfl
  have hroute₂ : ∀ a b, upsertPhysicalRoute 2 "2025_06" a b db = .ok db :=
    upsertPhysicalRoute_of_mem hdb.uqTableRouteValue
      (h.mem_physicalRoutes (htail (htail List.mem_cons_self))) rfl
  have hroute₃ : ∀ a b, upsertPhysicalRoute 2 "2025_07" a b db = .ok db :=
    upsertPhysicalRoute_of_mem hdb.uqTableRouteValue
      (h.mem_physicalRoutes (htail (htail (htail List.mem_cons_self)))) rfl
  simp only [seedReferenceData, strInt_redisDb, bind, Except.bind, hpolicy, hds₁, hds₂, hds₃,
    huser, horder, huid, hdate, hmod, hmonth, hroute₀, hroute₁, hroute₂, hroute₃]

end Written

/-- The settings of the last seeding of a run. -/
def lastSettings (settings : SeedSettings env.rt) (events : List (GatewayEvent env)) :
    SeedSettings env.rt :=
  events.foldl (fun last event => match event with
    | .seeded settings => settings
    | _ => last) settings

theorem Written.step {settings : SeedSettings env.rt} {event : GatewayEvent env}
    (h : Written (lastSettings settings events) g.db) (hdb : g.db.Constraints)
    (hstep : Gateway.Step g event g') : Written
    (lastSettings settings (events ++ [event])) g'.db := by
  have hlast : ¬ event.Writes →
      lastSettings settings (events ++ [event]) = lastSettings settings events := by
    intro hwrites
    unfold lastSettings
    rw [List.foldl_append]
    cases event with
    | seeded s => exact absurd trivial hwrites
    | _ => rfl
  rcases hstep.db_cases with ⟨hwrites, logs, heq⟩ | ⟨s, rfl, hseed⟩ |
    ⟨rows, target, bundle, rfl, hbundle, hsync⟩
  · rw [hlast hwrites, heq]
    exact ⟨h.written, h.exists_row⟩
  · obtain ⟨hs⟩ := seeding_of_ok hdb.uniqueConstraints hseed
    unfold lastSettings
    rw [List.foldl_append]
    exact hs.written_settings
  · have hsame := h.synced hdb (synced_of_ok hsync)
    unfold lastSettings at hsame ⊢
    rw [List.foldl_append]
    exact hsame

/-- At any time the datasources are those of the last seeding. -/
theorem written_of_run {settings : SeedSettings env.rt} {seeded : Metadata}
    (hseed : seedReferenceData settings createMetadataSchema = .ok seeded)
    (h : Run Gateway.Step (Gateway.idle env seeded) events g) :
    ∃ userDs orderDs, g.db.Constraints ∧ SeededPart userDs orderDs g.db ∧
      Written (lastSettings settings events) g.db := by
  obtain ⟨hs⟩ := seeding_of_ok createMetadataSchema_constraints.uniqueConstraints hseed
  have hinvariant : g.Sound ∧ SeededPart hs.userDsId hs.orderDsId g.db ∧
      Written (lastSettings settings events) g.db := by
    refine h.invariant (P := fun events g => g.Sound ∧
      SeededPart hs.userDsId hs.orderDsId g.db ∧
        Written (lastSettings settings events) g.db) ?_ ?_
    · exact ⟨Gateway.sound_idle (hs.constraints createMetadataSchema_constraints),
        SeededPart.of_first hs, hs.written_settings⟩
    · intro events m event g' hm hstep
      obtain ⟨hsound, hpart, hwritten⟩ := hm
      exact ⟨hsound.step hstep, hpart.step hsound.constraints hstep,
        hwritten.step hsound.constraints hstep⟩
  exact ⟨hs.userDsId, hs.orderDsId, hinvariant.1.constraints, hinvariant.2⟩

/-- A restart seeds again: with the settings of the last seeding this changes nothing, whatever was
served and imported since. -/
theorem seedReferenceData_of_run {settings : SeedSettings env.rt} {seeded : Metadata}
    (hseed : seedReferenceData settings createMetadataSchema = .ok seeded)
    (h : Run Gateway.Step (Gateway.idle env seeded) events g) :
    seedReferenceData (lastSettings settings events) g.db = .ok g.db := by
  obtain ⟨userDs, orderDs, hdb, hpart, hwritten⟩ := written_of_run hseed h
  exact hpart.seedReferenceData_eq hdb hwritten

end Runs

/-! ## A store in use -/

/-- A container starts on an empty database, shards are imported, and it starts again. -/
theorem exists_restartedRun : ∃ seeded bundle g,
    seedReferenceData defaultSeedSettings createMetadataSchema = .ok seeded ∧
      buildSyncBundle asciiRuntime twoShards exampleTarget = .ok bundle ∧
      Run Gateway.Step (Gateway.idle exampleDeployment seeded)
        [.imported twoShards exampleTarget, .seeded defaultSeedSettings] g := by
  have hrun : ((seedReferenceData defaultSeedSettings createMetadataSchema).bind fun seeded =>
      (buildSyncBundle asciiRuntime twoShards exampleTarget).bind fun bundle =>
        (syncBundleToLocal seeded bundle).bind fun synced =>
          (seedReferenceData defaultSeedSettings synced).map fun _ => ()) = .ok () := by
    decide +kernel
  obtain ⟨seeded, hseed, hrun⟩ := bind_eq_ok.1 hrun
  obtain ⟨bundle, hbundle, hrun⟩ := bind_eq_ok.1 hrun
  obtain ⟨synced, hsync, hrun⟩ := bind_eq_ok.1 hrun
  obtain ⟨again, hagain, -⟩ := map_eq_ok.1 hrun
  have hfirst : Run Gateway.Step (Gateway.idle exampleDeployment seeded)
      ([] ++ [.imported twoShards exampleTarget]) _ := Run.nil.snoc (.imported hbundle hsync)
  exact ⟨seeded, bundle, _, hseed, hbundle, hfirst.snoc (.seeded hagain)⟩

/-- Its store is the seed and the imported shards. -/
theorem storeIs_restartedRun : ∃ bundle userDs orderDs db,
    buildSyncBundle asciiRuntime twoShards exampleTarget = .ok bundle ∧
      StoreIs userDs orderDs db bundle := by
  obtain ⟨seeded, bundle, g, hseed, hbundle, hrun⟩ := exists_restartedRun
  obtain ⟨userDs, orderDs, hstore⟩ := @storeIs_of_run exampleDeployment _ _ hseed
  have hkeeps : ∀ event ∈ ([.imported twoShards exampleTarget, .seeded defaultSeedSettings] :
      List (GatewayEvent exampleDeployment)), event.KeepsImport := by
    simp only [List.forall_mem_cons]
    refine ⟨trivial, ?_, List.forall_mem_nil _⟩
    show ¬ importedCodePrefix <+: defaultSeedSettings.redisDatasourceCode
    decide
  have hlast : @lastImport exampleDeployment
      [.imported twoShards exampleTarget, .seeded defaultSeedSettings] = bundle := by
    show (buildSyncBundle asciiRuntime twoShards exampleTarget).toOption.getD emptyBundle = bundle
    rw [hbundle]
    rfl
  exact ⟨bundle, userDs, orderDs, g.db, hbundle, hlast ▸ (hstore _ g hrun hkeeps).1⟩

/-- And it would start once more. -/
theorem seedReferenceData_restartedRun : ∃ db, seedReferenceData defaultSeedSettings db =
    .ok db := by
  obtain ⟨seeded, bundle, g, hseed, -, hrun⟩ := exists_restartedRun
  have hlast : @lastSettings exampleDeployment defaultSeedSettings
      [.imported twoShards exampleTarget, .seeded defaultSeedSettings] = defaultSeedSettings := rfl
  have hagain := @seedReferenceData_of_run exampleDeployment _ _ _ _ hseed hrun
  rw [hlast] at hagain
  exact ⟨g.db, hagain⟩

end SqlGatekeeper
