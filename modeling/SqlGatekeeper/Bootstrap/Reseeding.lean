import SqlGatekeeper.Bootstrap.Seeding

/-!
# Seeding again

* `SeededOnce`: every seeded key exists exactly once.
* `SeededFrame`: no policy, logical table, factor, rule or route is changed, and the new ones have
  seeded keys; datasources under other codes stay as they are.
* `Seeding.again`: a second seeding changes nothing.
* `seedReferenceData_idempotent`: all of it, for every metadata.
-/

namespace SqlGatekeeper

open Py Store

/-! ## The seeded keys -/

def seededPolicyCodes : List Str := ["default_select_guard"]

def seededDatasourceCodes {rt : Runtime} (settings : SeedSettings rt) : List Str :=
  ["biz_user_db", "biz_order_db", settings.redisDatasourceCode]

def seededTableNames : List Str := ["user", "order"]

/-- The factors of the two seeded logical tables, by their ids. -/
def seededFactorKeys (user order : Nat) : List (Nat × Str) := [(user, "uid"), (order, "biz_date")]

def seededRuleKeys (user order : Nat) : List (Nat × Str) :=
  [(user, "user_mod_2"), (order, "order_month")]

def seededRouteKeys (user order : Nat) : List (Nat × Str) :=
  [(user, "0"), (user, "1"), (order, "2025_06"), (order, "2025_07")]

section Seeded

variable {rt : Runtime}

/-- Every seeded key exists exactly once. -/
structure SeededOnce (settings : SeedSettings rt) (db : Metadata) (user order : LogicalTable) :
    Prop where
  user_mem : user ∈ db.logicalTables.rows
  user_name : user.tableName = "user"
  order_mem : order ∈ db.logicalTables.rows
  order_name : order.tableName = "order"
  policies : ∀ k ∈ seededPolicyCodes, Once (·.policyCode) k db.policies.rows
  datasources : ∀ k ∈ seededDatasourceCodes settings,
    Once (·.datasourceCode) k db.datasources.rows
  logicalTables : ∀ k ∈ seededTableNames, Once (·.tableName) k db.logicalTables.rows
  routeFactors : ∀ k ∈ seededFactorKeys user.id order.id,
    Once (fun r => (r.logicalTableId, r.factorName)) k db.routeFactors.rows
  routeRules : ∀ k ∈ seededRuleKeys user.id order.id,
    Once (fun r => (r.logicalTableId, r.ruleName)) k db.routeRules.rows
  physicalRoutes : ∀ k ∈ seededRouteKeys user.id order.id,
    Once (fun r => (r.logicalTableId, r.routeValue)) k db.physicalRoutes.rows

/-- What a seeding leaves alone. -/
structure SeededFrame (settings : SeedSettings rt) (db db' : Metadata)
    (user order : LogicalTable) : Prop where
  policies : Grown (·.policyCode) seededPolicyCodes db.policies db'.policies
  datasources :
    db'.datasources.rows.filter (fun d => d.datasourceCode ∉ seededDatasourceCodes settings) =
      db.datasources.rows.filter fun d => d.datasourceCode ∉ seededDatasourceCodes settings
  logicalTables : Grown (·.tableName) seededTableNames db.logicalTables db'.logicalTables
  routeFactors : Grown (fun r => (r.logicalTableId, r.factorName))
    (seededFactorKeys user.id order.id) db.routeFactors db'.routeFactors
  routeRules : Grown (fun r => (r.logicalTableId, r.ruleName))
    (seededRuleKeys user.id order.id) db.routeRules db'.routeRules
  physicalRoutes : Grown (fun r => (r.logicalTableId, r.routeValue))
    (seededRouteKeys user.id order.id) db.physicalRoutes db'.physicalRoutes
  statsSnapshots : db'.statsSnapshots = db.statsSnapshots
  auditLogs : db'.auditLogs = db.auditLogs

variable {settings : SeedSettings rt} {db db' : Metadata}

namespace Seeding

theorem seededOnce (hs : Seeding settings db db') (hdb : db.UniqueConstraints) :
    SeededOnce settings db' hs.user hs.order := by
  have hdb' := hs.uniqueConstraints hdb
  obtain ⟨p, hpolicy⟩ := hs.policy
  obtain ⟨f₁, hfactor₁⟩ := hs.userFactor
  obtain ⟨f₂, hfactor₂⟩ := hs.orderFactor
  obtain ⟨r₁, hrule₁⟩ := hs.userRule
  obtain ⟨r₂, hrule₂⟩ := hs.orderRule
  obtain ⟨q₁, hroute₁⟩ := hs.userRoute₀
  obtain ⟨q₂, hroute₂⟩ := hs.userRoute₁
  obtain ⟨q₃, hroute₃⟩ := hs.orderRoute₀
  obtain ⟨q₄, hroute₄⟩ := hs.orderRoute₁
  obtain ⟨userDs, huserDs, -, huserCode⟩ := hs.exists_userDatasource
  obtain ⟨orderDs, horderDs, -, horderCode⟩ := hs.exists_orderDatasource
  obtain ⟨redisDs, hredisDs, -, hcode⟩ := hs.redisPut.exists_row
  have hredisCode : redisDs.datasourceCode = settings.redisDatasourceCode := hcode
  refine ⟨hs.user_mem, hs.userTable.key_eq, hs.orderTable.mem, hs.orderTable.key_eq, ?_, ?_, ?_,
    ?_, ?_, ?_⟩
  · simp only [seededPolicyCodes, List.forall_mem_singleton]
    exact hpolicy.key_eq ▸ hdb'.policyCode.once hpolicy.mem
  · simp only [seededDatasourceCodes, List.forall_mem_cons]
    exact ⟨huserCode ▸ hdb'.datasourceCode.once huserDs,
      horderCode ▸ hdb'.datasourceCode.once horderDs,
      hredisCode ▸ hdb'.datasourceCode.once hredisDs, List.forall_mem_nil _⟩
  · simp only [seededTableNames, List.forall_mem_cons]
    exact ⟨hs.userTable.key_eq ▸ hdb'.tableName.once hs.user_mem,
      hs.orderTable.key_eq ▸ hdb'.tableName.once hs.orderTable.mem,
      List.forall_mem_nil _⟩
  · simp only [seededFactorKeys, List.forall_mem_cons]
    exact ⟨hfactor₁.key_eq ▸ hdb'.uqRouteFactorTableName.once
      (hfactor₂.grown.mem hfactor₁.mem), hfactor₂.key_eq ▸ hdb'.uqRouteFactorTableName.once
        hfactor₂.mem,
      List.forall_mem_nil _⟩
  · simp only [seededRuleKeys, List.forall_mem_cons]
    exact ⟨hrule₁.key_eq ▸ hdb'.uqRouteRuleTableName.once (hrule₂.grown.mem hrule₁.mem),
      hrule₂.key_eq ▸ hdb'.uqRouteRuleTableName.once hrule₂.mem,
      List.forall_mem_nil _⟩
  · simp only [seededRouteKeys, List.forall_mem_cons]
    exact ⟨hroute₁.key_eq ▸ hdb'.uqTableRouteValue.once
        (hroute₄.grown.mem (hroute₃.grown.mem (hroute₂.grown.mem hroute₁.mem))),
      hroute₂.key_eq ▸ hdb'.uqTableRouteValue.once
        (hroute₄.grown.mem (hroute₃.grown.mem hroute₂.mem)),
      hroute₃.key_eq ▸ hdb'.uqTableRouteValue.once (hroute₄.grown.mem hroute₃.mem),
      hroute₄.key_eq ▸ hdb'.uqTableRouteValue.once hroute₄.mem,
      List.forall_mem_nil _⟩

theorem frame (hs : Seeding settings db db') :
    SeededFrame settings db db' hs.user hs.order := by
  obtain ⟨p, hpolicy⟩ := hs.policy
  obtain ⟨f₁, hfactor₁⟩ := hs.userFactor
  obtain ⟨f₂, hfactor₂⟩ := hs.orderFactor
  obtain ⟨r₁, hrule₁⟩ := hs.userRule
  obtain ⟨r₂, hrule₂⟩ := hs.orderRule
  obtain ⟨q₁, hroute₁⟩ := hs.userRoute₀
  obtain ⟨q₂, hroute₂⟩ := hs.userRoute₁
  obtain ⟨q₃, hroute₃⟩ := hs.orderRoute₀
  obtain ⟨q₄, hroute₄⟩ := hs.orderRoute₁
  constructor
  case policies => exact hpolicy.grown
  case datasources =>
    have huser : (userDatasource settings).datasourceCode ∈ seededDatasourceCodes settings :=
      List.mem_cons_self
    have horder : (orderDatasource settings).datasourceCode ∈ seededDatasourceCodes settings :=
      List.mem_cons_of_mem _ List.mem_cons_self
    have hredis : (redisDatasource settings hs.databaseName).datasourceCode ∈
        seededDatasourceCodes settings :=
      List.mem_cons_of_mem _ (List.mem_cons_of_mem _ List.mem_cons_self)
    rw [hs.redisPut.filter_notMem hredis,
      hs.orderPut.filter_notMem horder,
      hs.userPut.filter_notMem huser]
  case logicalTables =>
    exact (hs.userTable.grown.mono (by simp [seededTableNames])).trans
      (hs.orderTable.grown.mono (by simp [seededTableNames]))
  case routeFactors =>
    exact (hfactor₁.grown.mono (by simp [seededFactorKeys])).trans
      (hfactor₂.grown.mono (by simp [seededFactorKeys]))
  case routeRules =>
    exact (hrule₁.grown.mono (by simp [seededRuleKeys])).trans
      (hrule₂.grown.mono (by simp [seededRuleKeys]))
  case physicalRoutes =>
    exact (((hroute₁.grown.mono (by simp [seededRouteKeys])).trans
      (hroute₂.grown.mono (by simp [seededRouteKeys]))).trans
      (hroute₃.grown.mono (by simp [seededRouteKeys]))).trans
      (hroute₄.grown.mono (by simp [seededRouteKeys]))
  case statsSnapshots => exact hs.statsSnapshots
  case auditLogs => exact hs.auditLogs

/-- Overwriting the datasources again, one after the other, ends where it began. -/
theorem datasources_again (hs : Seeding settings db db') :
    ∃ i₁ i₂ i₃ t₁ t₂,
      upsertDatasource (userDatasource settings) db' =
        .ok (i₁, { db' with datasources := t₁ }) ∧
      upsertDatasource (orderDatasource settings) { db' with datasources := t₁ } =
        .ok (i₂, { db' with datasources := t₂ }) ∧
      upsertDatasource (redisDatasource settings hs.databaseName)
        { db' with datasources := t₂ } = .ok (i₃, db') := by
  obtain ⟨d₁, hd₁, -, hcode₁⟩ := hs.exists_userDatasource
  obtain ⟨d₂, hd₂, -, hcode₂⟩ := hs.exists_orderDatasource
  obtain ⟨d₃, hd₃, -, hcode₃⟩ := hs.redisPut.exists_row
  have hput₁ : Put (userDatasource settings) db'.datasources d₁.id _ :=
    put_of_mem hs.redisPut.fresh hs.redisPut.unique hd₁ hcode₁
  obtain ⟨e₂, he₂, -, hecode₂⟩ := hput₁.kept d₂ hd₂
  have hput₂ : Put (orderDatasource settings) _ e₂.id _ :=
    put_of_mem hput₁.fresh hput₁.unique he₂ (hecode₂.trans hcode₂)
  obtain ⟨e₃, he₃, -, hecode₃⟩ := hput₁.kept d₃ hd₃
  obtain ⟨u₃, hu₃, -, hucode₃⟩ := hput₂.kept e₃ he₃
  refine ⟨d₁.id, e₂.id, u₃.id, _, _, upsertDatasource_of_mem hs.redisPut.fresh
      hs.redisPut.unique hd₁ hcode₁,
    upsertDatasource_of_mem hput₁.fresh hput₁.unique he₂ (hecode₂.trans hcode₂),
    (upsertDatasource_of_mem hput₂.fresh hput₂.unique hu₃
      (hucode₃.trans (hecode₃.trans hcode₃))).trans ?_⟩
  have hfixed₁ := hs.userPut.fixed (f := id) (fun _ => rfl) (fun _ => rfl) fun _ _ => rfl
  have hfixed₂ := hs.orderPut.fixed (fun d => by simp) (fun d => by simp) hfixed₁
  have hfixed₃ := hs.redisPut.fixed (fun d => by simp) (fun d => by simp) hfixed₂
  have hrows : ((db'.datasources.rows.map (userDatasource settings).put).map
      (orderDatasource settings).put).map (redisDatasource settings hs.databaseName).put =
      db'.datasources.rows := by
    rw [List.map_map, List.map_map]
    exact (List.map_congr_left hfixed₃).trans (List.map_id _)
  simp only [hrows]

/-- A second seeding changes nothing. -/
theorem again (hs : Seeding settings db db') (hdb : db.UniqueConstraints) :
    seedReferenceData settings db' = .ok db' := by
  have hdb' := hs.uniqueConstraints hdb
  obtain ⟨p, hpolicy⟩ := hs.policy
  obtain ⟨f₁, hfactor₁⟩ := hs.userFactor
  obtain ⟨f₂, hfactor₂⟩ := hs.orderFactor
  obtain ⟨r₁, hrule₁⟩ := hs.userRule
  obtain ⟨r₂, hrule₂⟩ := hs.orderRule
  obtain ⟨q₁, hroute₁⟩ := hs.userRoute₀
  obtain ⟨q₂, hroute₂⟩ := hs.userRoute₁
  obtain ⟨q₃, hroute₃⟩ := hs.orderRoute₀
  obtain ⟨q₄, hroute₄⟩ := hs.orderRoute₁
  obtain ⟨i₁, i₂, i₃, t₁, t₂, hds₁, hds₂, hds₃⟩ := hs.datasources_again
  have hq₂ := hroute₄.grown.mem (hroute₃.grown.mem hroute₂.mem)
  have hq₁ := hroute₄.grown.mem (hroute₃.grown.mem (hroute₂.grown.mem hroute₁.mem))
  simp only [seedReferenceData, hs.redisDb, bind, Except.bind, hds₁, hds₂, hds₃,
    upsertPolicy_of_mem hdb'.policyCode hpolicy.mem hpolicy.key_eq,
    upsertLogicalTable_of_mem hdb'.tableName hs.user_mem hs.userTable.key_eq,
    upsertLogicalTable_of_mem hdb'.tableName hs.orderTable.mem hs.orderTable.key_eq,
    upsertRouteFactor_of_mem hdb'.uqRouteFactorTableName (hfactor₂.grown.mem hfactor₁.mem)
      hfactor₁.key_eq,
    upsertRouteFactor_of_mem hdb'.uqRouteFactorTableName hfactor₂.mem hfactor₂.key_eq,
    upsertRouteRule_of_mem hdb'.uqRouteRuleTableName (hrule₂.grown.mem hrule₁.mem)
      hrule₁.key_eq,
    upsertRouteRule_of_mem hdb'.uqRouteRuleTableName hrule₂.mem hrule₂.key_eq,
    upsertPhysicalRoute_of_mem hdb'.uqTableRouteValue hq₁ hroute₁.key_eq,
    upsertPhysicalRoute_of_mem hdb'.uqTableRouteValue hq₂ hroute₂.key_eq,
    upsertPhysicalRoute_of_mem hdb'.uqTableRouteValue (hroute₄.grown.mem hroute₃.mem)
      hroute₃.key_eq,
    upsertPhysicalRoute_of_mem hdb'.uqTableRouteValue hroute₄.mem hroute₄.key_eq]

end Seeding

/-- A seeding commits on every metadata with the unique constraints and keeps them; seeding again
changes nothing; the seeded keys exist once and everything else is as it was. -/
theorem seedReferenceData_idempotent (settings : SeedSettings rt) {db : Metadata}
    (hdb : db.UniqueConstraints) :
    ∃ db', seedReferenceData settings db = .ok db' ∧ seedReferenceData settings db' =
      .ok db' ∧ db'.UniqueConstraints ∧ (db.Constraints → db'.Constraints) ∧
      ∃ user order, SeededOnce settings db' user order ∧
        SeededFrame settings db db' user order := by
  obtain ⟨db', hok, ⟨hs⟩⟩ := exists_seeding settings hdb
  exact ⟨db', hok, hs.again hdb, hs.uniqueConstraints hdb, hs.constraints, hs.user, hs.order,
    hs.seededOnce hdb, hs.frame⟩

end Seeded

/-- The default settings. -/
def defaultSeedSettings : SeedSettings asciiRuntime where
  demoUserDbHost := "127.0.0.1"
  demoUserDbPort := 33062
  demoUserDbName := "biz_user"
  demoUserDbUser := "readonly"
  demoUserDbPassword := "readonly"
  demoOrderDbHost := "127.0.0.1"
  demoOrderDbPort := 33063
  demoOrderDbName := "biz_order"
  demoOrderDbUser := "readonly"
  demoOrderDbPassword := "readonly"
  redisHost := "127.0.0.1"
  redisPort := 6379
  redisDb := 0
  redisPassword := []
  redisDatasourceCode := "demo_redis"
  redisDb_fits := by decide

/-- The example's table `user` and its policy stay, beside what is seeded. -/
theorem seedReferenceData_example :
    ∃ db', seedReferenceData defaultSeedSettings exampleMetadata = .ok db' ∧
      seedReferenceData defaultSeedSettings db' = .ok db' ∧
      db'.UniqueConstraints ∧ (exampleMetadata.Constraints → db'.Constraints) ∧
      ∃ user order, SeededOnce defaultSeedSettings db' user order ∧
        SeededFrame defaultSeedSettings exampleMetadata db' user order :=
  seedReferenceData_idempotent defaultSeedSettings exampleMetadata_constraints.uniqueConstraints

end SqlGatekeeper
