import SqlGatekeeper.Db.Repositories
import SqlGatekeeper.Store.Upsert

/-!
# The seeding of the metadata

`bootstrap.meta` runs at every start of the container and writes the reference data.

* `SeedSettings`: the settings that the seeding reads.
* `upsertDatasource`: overwrites a datasource that exists; `upsertPolicy`, `upsertLogicalTable`,
  `upsertRouteFactor`, `upsertRouteRule`, `upsertPhysicalRoute`: leave what exists.
* `seedReferenceData`: all of them, in one transaction.
-/

namespace SqlGatekeeper

open Py Store

/-- The settings that the seeding reads. -/
structure SeedSettings (rt : Runtime) where
  demoUserDbHost : Str
  demoUserDbPort : Int
  demoUserDbName : Str
  demoUserDbUser : Str
  demoUserDbPassword : Str
  demoOrderDbHost : Str
  demoOrderDbPort : Int
  demoOrderDbName : Str
  demoOrderDbUser : Str
  demoOrderDbPassword : Str
  redisHost : Str
  redisPort : Int
  redisDb : Int
  redisPassword : Str
  redisDatasourceCode : Str
  /-- An integer that was read from the environment can be written again. -/
  redisDb_fits : rt.digitsFit (natText redisDb.natAbs).length = true

/-! ## Datasources -/

/-- The arguments of `_upsert_datasource`. -/
structure DatasourceSeed where
  datasourceCode : Str
  displayName : Str
  host : Str
  port : Int
  databaseName : Str
  username : Str
  passwordSecretRef : Str
  dbType : Str := "mysql"
  extra : JsonDict := []

/-- The assignments to a datasource that exists. -/
def DatasourceSeed.overwrite (seed : DatasourceSeed) (existing : DatasourceInstance) :
    DatasourceInstance :=
  { existing with
    displayName := seed.displayName
    dbType := seed.dbType
    host := seed.host
    port := seed.port
    databaseName := seed.databaseName
    username := seed.username
    passwordSecretRef := seed.passwordSecretRef
    readOnly := true
    enabled := true
    extra := .dict seed.extra }

/-- `DatasourceInstance(…)`, under a generated id. -/
def DatasourceSeed.row (seed : DatasourceSeed) (id : Nat) : DatasourceInstance where
  id
  datasourceCode := seed.datasourceCode
  displayName := seed.displayName
  dbType := seed.dbType
  host := seed.host
  port := seed.port
  databaseName := seed.databaseName
  username := seed.username
  passwordSecretRef := seed.passwordSecretRef
  readOnly := true
  enabled := true
  extra := .dict seed.extra

/-- `_upsert_datasource`. -/
def upsertDatasource (seed : DatasourceSeed) (db : Metadata) : Except PyError
    (Nat × Metadata) := do
  match ← oneOrNone PyError.multipleResultsFound
      (db.datasources.rows.filter fun r => r.datasourceCode = seed.datasourceCode) with
  | none =>
      let datasources ← db.datasources.add PyError.integrityError (·.datasourceCode) seed.row
      pure (db.datasources.nextId, { db with datasources })
  | some existing =>
      pure (existing.id, { db with
        datasources := db.datasources.update (fun r => r.id = existing.id) seed.overwrite })

/-! ## Rows that are left as they are -/

/-- The row that `_upsert_policy` inserts. -/
def policyRow (id : Nat) : PolicySet where
  id
  policyCode := "default_select_guard"
  allowSqlTypes := [.str "select"]
  requireLimit := true
  maxLimit := 1000
  largeTableRowThreshold := 100000
  maxScanRows := 10000
  rejectFullScanOnLargeTable := true
  rejectUsingTemporary := true
  rejectUsingFilesort := true
  enabled := true

/-- `_upsert_policy`. -/
def upsertPolicy (db : Metadata) : Except PyError Metadata := do
  let (_, policies) ← db.policies.getOrAdd PyError.multipleResultsFound PyError.integrityError
    (·.policyCode) ("default_select_guard" : Str) policyRow
  pure { db with policies }

/-- The row that `_upsert_logical_table` inserts. -/
def logicalTableRow (tableName description routeSource physicalNameTemplate : Str) (id : Nat) :
    LogicalTable where
  id
  tableName
  description
  routeSource
  physicalNameTemplate
  defaultPolicyCode := "default_select_guard"
  enabled := true
  extra := .dict []

/-- `_upsert_logical_table`. -/
def upsertLogicalTable (tableName description routeSource physicalNameTemplate : Str)
    (db : Metadata) : Except PyError (Nat × Metadata) := do
  let (existing, logicalTables) ← db.logicalTables.getOrAdd PyError.multipleResultsFound
    PyError.integrityError (·.tableName) tableName
    (logicalTableRow tableName description routeSource physicalNameTemplate)
  pure (existing.id, { db with logicalTables })

/-- The row that `_upsert_route_factor` inserts. -/
def routeFactorRow (logicalTableId : Nat) (factorName sourceType sourceKey : Str) (id : Nat) :
    RouteFactorDef where
  id
  logicalTableId
  factorName
  sourceType
  sourceKey
  required := true
  extractorConfig := .dict []
  enabled := true

/-- `_upsert_route_factor`. -/
def upsertRouteFactor (logicalTableId : Nat) (factorName sourceType sourceKey : Str)
    (db : Metadata) : Except PyError Metadata := do
  let (_, routeFactors) ← db.routeFactors.getOrAdd PyError.multipleResultsFound
    PyError.integrityError (fun r => (r.logicalTableId, r.factorName)) (logicalTableId, factorName)
    (routeFactorRow logicalTableId factorName sourceType sourceKey)
  pure { db with routeFactors }

/-- The row that `_upsert_route_rule` inserts. -/
def routeRuleRow (logicalTableId : Nat) (ruleName ruleType expression outputFormat : Str)
    (id : Nat) : RouteRule where
  id
  logicalTableId
  ruleName
  ruleType
  expression
  outputFormat
  enabled := true

/-- `_upsert_route_rule`. -/
def upsertRouteRule (logicalTableId : Nat) (ruleName ruleType expression outputFormat : Str)
    (db : Metadata) : Except PyError Metadata := do
  let (_, routeRules) ← db.routeRules.getOrAdd PyError.multipleResultsFound
    PyError.integrityError (fun r => (r.logicalTableId, r.ruleName)) (logicalTableId, ruleName)
    (routeRuleRow logicalTableId ruleName ruleType expression outputFormat)
  pure { db with routeRules }

/-- The row that `_upsert_physical_route` inserts. -/
def physicalRouteRow (logicalTableId : Nat) (routeValue physicalTableName : Str)
    (datasourceId id : Nat) : PhysicalTableRoute where
  id
  logicalTableId
  routeValue
  physicalTableName
  datasourceId
  enabled := true
  extra := .dict []

/-- `_upsert_physical_route`. -/
def upsertPhysicalRoute (logicalTableId : Nat) (routeValue physicalTableName : Str)
    (datasourceId : Nat) (db : Metadata) : Except PyError Metadata := do
  let (_, physicalRoutes) ← db.physicalRoutes.getOrAdd PyError.multipleResultsFound
    PyError.integrityError (fun r => (r.logicalTableId, r.routeValue)) (logicalTableId, routeValue)
    (physicalRouteRow logicalTableId routeValue physicalTableName datasourceId)
  pure { db with physicalRoutes }

/-! ## The seeding -/

section Seeding

variable {rt : Runtime} (settings : SeedSettings rt)

/-- The datasource of the demo users. -/
def userDatasource : DatasourceSeed where
  datasourceCode := "biz_user_db"
  displayName := "Business User DB"
  host := settings.demoUserDbHost
  port := settings.demoUserDbPort
  databaseName := settings.demoUserDbName
  username := settings.demoUserDbUser
  passwordSecretRef := "local:" ++ settings.demoUserDbPassword

/-- The datasource of the demo orders. -/
def orderDatasource : DatasourceSeed where
  datasourceCode := "biz_order_db"
  displayName := "Business Order DB"
  host := settings.demoOrderDbHost
  port := settings.demoOrderDbPort
  databaseName := settings.demoOrderDbName
  username := settings.demoOrderDbUser
  passwordSecretRef := "local:" ++ settings.demoOrderDbPassword

/-- The datasource of the demo Redis server; its code is a setting. -/
def redisDatasource (databaseName : Str) : DatasourceSeed where
  datasourceCode := settings.redisDatasourceCode
  displayName := "Demo Redis"
  dbType := "redis"
  host := settings.redisHost
  port := settings.redisPort
  databaseName
  username := []
  passwordSecretRef :=
    if settings.redisPassword = [] then [] else "local:" ++ settings.redisPassword
  extra := [
    ("catlog_name", .str "demo"),
    ("redis_catalog", .str "demo"),
    ("allowed_key_prefixes", .list [.str "demo:", .str "user:", .str "order:"])]

/-- `seed_reference_data`, from the metadata before it to the committed one. -/
def seedReferenceData (db : Metadata) : Except PyError Metadata := do
  let db ← upsertPolicy db
  let (userDsId, db) ← upsertDatasource (userDatasource settings) db
  let (orderDsId, db) ← upsertDatasource (orderDatasource settings) db
  let databaseName ← rt.strInt settings.redisDb
  let (_, db) ← upsertDatasource (redisDatasource settings databaseName) db
  let (userTableId, db) ← upsertLogicalTable "user" "Logical user table" "sql_or_physical_table"
    "user_\x7bsuffix\x7d" db
  let (orderTableId, db) ← upsertLogicalTable "order" "Logical order table" "route_context_or_sql"
    "order_\x7bbiz_date\x7d" db
  let db ← upsertRouteFactor userTableId "uid" "sql_predicate" "uid" db
  let db ← upsertRouteFactor orderTableId "biz_date" "route_context" "biz_date" db
  let db ← upsertRouteRule userTableId "user_mod_2" "mod" "int(uid) % 2" "\x7bvalue\x7d" db
  let db ← upsertRouteRule orderTableId "order_month" "format" "biz_date.replace('-', '_')"
    "\x7bvalue\x7d" db
  let db ← upsertPhysicalRoute userTableId "0" "user_0" userDsId db
  let db ← upsertPhysicalRoute userTableId "1" "user_1" userDsId db
  let db ← upsertPhysicalRoute orderTableId "2025_06" "order_2025_06" orderDsId db
  upsertPhysicalRoute orderTableId "2025_07" "order_2025_07" orderDsId db

end Seeding

end SqlGatekeeper
