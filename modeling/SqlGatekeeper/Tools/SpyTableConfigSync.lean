import SqlGatekeeper.Db.Repositories
import SqlGatekeeper.Python.Sha1
import SqlGatekeeper.Store.Grouping

/-!
# The import of shard metadata

`spy_table_config_sync` turns the rows of `table_config` into datasources, logical tables, rules
and routes.

* `TableConfigRow`: a row; `SyncBundle`: the records made of all rows.
* `makeStableIdentifier`, `makeDatasourceCode`, `makeLogicalTableName`: names out of names.
* `collectRow`: the first loop, which groups the rows by logical table.
* `buildGroup`: the records of one logical table; `addRoute`: how a route joins those before it.
* `buildSyncBundle`: the bundle; it raises when two rows claim one route value.
* `syncBundleToLocal`: the bundle replaces the import before it in the metadata.
-/

namespace SqlGatekeeper

open Py Store

/-! ## Records -/

/-- A row of `table_config`; its update time is not read. -/
structure TableConfigRow where
  sourceName : Str
  catlogName : Str
  tableName : Str
  beginIndex : Int
  endIndex : Int
  shardCount : Int
  deriving DecidableEq, Repr

/-- Where the imported datasources connect to. -/
structure ImportedDatasourceTarget where
  host : Str
  port : Int
  databaseName : Str
  username : Str
  passwordSecretRef : Str

/-- The fields of a datasource to be created. -/
structure DatasourceRecord where
  datasourceCode : Str
  displayName : Str
  dbType : Str
  host : Str
  port : Int
  databaseName : Str
  username : Str
  passwordSecretRef : Str
  readOnly : Bool
  enabled : Bool
  extra : JsonDict

/-- The fields of a logical table to be created. -/
structure LogicalTableRecord where
  tableName : Str
  description : Str
  routeSource : Str
  physicalNameTemplate : Str
  defaultPolicyCode : Str
  enabled : Bool
  extra : JsonDict

/-- The fields of a factor to be created. -/
structure RouteFactorRecord where
  logicalTableName : Str
  factorName : Str
  sourceType : Str
  sourceKey : Str
  required : Bool
  extractorConfig : JsonDict
  enabled : Bool

/-- The fields of a rule to be created. -/
structure RouteRuleRecord where
  logicalTableName : Str
  ruleName : Str
  ruleType : Str
  expression : Str
  outputFormat : Str
  enabled : Bool

/-- The fields of a route to be created. -/
structure PhysicalRouteRecord where
  logicalTableName : Str
  routeValue : Str
  physicalTableName : Str
  datasourceCode : Str
  enabled : Bool
  extra : JsonDict

/-- All records of an import. -/
structure SyncBundle where
  datasources : List DatasourceRecord
  logicalTables : List LogicalTableRecord
  routeFactors : List RouteFactorRecord
  routeRules : List RouteRuleRecord
  physicalRoutes : List PhysicalRouteRecord
  skippedRows : Nat

/-- `SYNC_ORIGIN`. -/
def syncOrigin : Str := "spy.table_config"

/-- `DEFAULT_POLICY_CODE`. -/
def SpyTableConfigSync.defaultPolicyCode : Str := "default_select_guard"

/-- `DEFAULT_ROUTE_FACTOR`. -/
def defaultRouteFactor : Str := "route_suffix"

/-- `BUSINESS_SHARD_FACTOR`. -/
def businessShardFactor : Str := "shard_value"

/-- `BUSINESS_SHARD_COLUMN_CONTEXT`. -/
def businessShardColumnContext : Str := "shard_column"

/-- `SOURCE_ROUTE_FACTOR`. -/
def sourceRouteFactor : Str := "source_name"

/-! ## Names -/

/-- `s or default`. -/
def orText (s default : Str) : Str := if s = [] then default else s

/-- `s.strip(chars)` for a single character. -/
def stripChar (d : Char) (s : Str) : Str := rstripChar d (s.dropWhile (· == d))

section Names

variable (U : UnicodeData)

/-- `make_stable_identifier`. -/
def makeStableIdentifier (raw pre : Str) (maxLength : Nat) : Str :=
  let mapped := raw.flatMap fun ch => if U.isAlnum ch then lower U [ch] else ['_']
  let base := orText (stripChar '_' mapped) "unknown"
  let candidate := pre ++ base
  if candidate.length ≤ maxLength then candidate
  else
    let digest := (sha1Hex raw).take 8
    let available : Int := maxLength - pre.length - digest.length - 1
    pre ++ rstripChar '_' (base.take (max 1 available).toNat) ++ '_' :: digest

/-- `make_datasource_code`. -/
def makeDatasourceCode (sourceName : Str) : Str :=
  makeStableIdentifier U (orText sourceName "unknown_source") "spy_src_" 64

/-- `make_logical_table_name`. -/
def makeLogicalTableName (catlogName tableName : Str) : Str :=
  makeStableIdentifier U (orText catlogName "unknown_catalog" ++ "__" ++ tableName) [] 128

end Names

/-! ## The first loop -/

/-- What the loop over the rows collects. -/
structure RowGroups where
  datasourceMap : List (Str × DatasourceRecord)
  logicalGroups : List (Str × List TableConfigRow)
  skippedRows : Nat

/-- `d.setdefault(key, value)`. -/
def setDefault {α : Type} (key : Str) (value : α) (d : List (Str × α)) : List (Str × α) :=
  if (d.lookup key).isSome then d else d ++ [(key, value)]

/-- The datasource of a source. -/
def datasourceRecord (U : UnicodeData) (target : ImportedDatasourceTarget) (sourceName : Str) :
    DatasourceRecord where
  datasourceCode := makeDatasourceCode U sourceName
  displayName := orText sourceName "unknown_source"
  dbType := "mysql"
  host := target.host
  port := target.port
  databaseName := target.databaseName
  username := target.username
  passwordSecretRef := target.passwordSecretRef
  readOnly := true
  enabled := true
  extra := [("sync_origin", .str syncOrigin), ("original_source_name", .str sourceName),
    ("connection_origin", .str "db_skill_env")]

/-- The body of the loop over the rows. -/
def collectRow (U : UnicodeData) (target : ImportedDatasourceTarget) (groups : RowGroups)
    (row : TableConfigRow) : RowGroups :=
  let normalizedTableName := strip row.tableName
  if normalizedTableName = [] then { groups with skippedRows := groups.skippedRows + 1 }
  else
    let sourceName := strip row.sourceName
    let catlogName := strip row.catlogName
    { groups with
      datasourceMap := setDefault (makeDatasourceCode U sourceName)
        (datasourceRecord U target sourceName) groups.datasourceMap
      logicalGroups := groupAdd (makeLogicalTableName U catlogName normalizedTableName)
        { row with sourceName, catlogName, tableName := normalizedTableName } groups.logicalGroups }

/-! ## One logical table -/

/-- `range(start, stop)`. -/
def intRange (start stop : Int) : List Int :=
  (List.range (stop - start).toNat).map fun i : Nat => start + (i : Int)

/-- The key that repeated rows share. -/
def segmentKey (row : TableConfigRow) : Str × Int × Int × Int :=
  (row.sourceName, row.beginIndex, row.endIndex, row.shardCount)

section Group

variable (groupRows : List TableConfigRow)

/-- `deduped_rows`: the last row of each segment. -/
def dedupedRows : List TableConfigRow := lastByKey segmentKey groupRows

/-- `is_sharded`. -/
def isSharded : Bool := (dedupedRows groupRows).any fun row => 0 < row.shardCount

/-- `row.source_name or "unknown_source"`. -/
def effectiveSource (row : TableConfigRow) : Str := orText row.sourceName "unknown_source"

/-- `distinct_source_names`. -/
def distinctSourceNames : List Str :=
  sortStrings ((dedupedRows groupRows).map effectiveSource).dedup

/-- `requires_source_routing`. -/
def requiresSourceRouting : Bool :=
  !isSharded groupRows && decide (1 < (distinctSourceNames groupRows).length)

/-- The indexes of a row. -/
def suffixes (row : TableConfigRow) : List Int := intRange row.beginIndex (row.endIndex + 1)

/-- `shard_suffixes`. -/
def shardSuffixes : List Int :=
  ((dedupedRows groupRows).filter fun row => 0 < row.shardCount).flatMap suffixes

/-- `max(values, default=0)`. -/
def maxInt : List Int → Int
  | [] => 0
  | k :: ks => ks.foldl max k

/-- `shard_modulus`. -/
def shardModulus : Int := maxInt ((dedupedRows groupRows).map (·.shardCount))

/-- `supports_business_factor_routing`. -/
def supportsBusinessFactorRouting : Bool :=
  isSharded groupRows && decide (0 < shardModulus groupRows) &&
    ((shardSuffixes groupRows).all (· ∈ intRange 0 (shardModulus groupRows)) &&
      (intRange 0 (shardModulus groupRows)).all (· ∈ shardSuffixes groupRows))

/-- The logical table of a group whose first row is known. -/
def logicalTableRecord (logicalName : Str) (sample : TableConfigRow) : LogicalTableRecord where
  tableName := logicalName
  description := "Imported from " ++ syncOrigin ++ ": " ++ sample.catlogName ++ "." ++
    sample.tableName
  routeSource :=
    if supportsBusinessFactorRouting groupRows then "sql_and_route_context"
    else if isSharded groupRows || requiresSourceRouting groupRows then "route_context_or_sql"
    else "sql_or_physical_table"
  physicalNameTemplate :=
    if !isSharded groupRows then sample.tableName
    else sample.tableName ++ "_\x7broute_suffix\x7d"
  defaultPolicyCode := SpyTableConfigSync.defaultPolicyCode
  enabled := true
  extra := [
    ("sync_origin", .str syncOrigin),
    ("original_catlog_name", .str sample.catlogName),
    ("original_table_name", .str sample.tableName),
    ("source_names",
      .list ((sortStrings ((dedupedRows groupRows).map (·.sourceName)).dedup).map .str)),
    ("row_count_in_table_config", .int groupRows.length),
    ("deduped_segment_count", .int (dedupedRows groupRows).length),
    ("shard_count_values",
      .list (((((dedupedRows groupRows).map (·.shardCount)).dedup).insertionSort
      (· ≤ ·)).map .int)),
    ("shard_modulus",
      if supportsBusinessFactorRouting groupRows then .int (shardModulus groupRows) else .null),
    ("business_factor_routing", .bool (supportsBusinessFactorRouting groupRows))]

/-- The factor of a group, if it has one. -/
def routeFactorRecord (logicalName : Str) : Option RouteFactorRecord :=
  if supportsBusinessFactorRouting groupRows then
    some ⟨logicalName, businessShardFactor, "sql_predicate_from_context",
      businessShardColumnContext, true,
      [("hint",
        .str ("Provide the mapper/DAO shard column name in route_context.shard_column and " ++
        "include its value as an SQL equality predicate"))], true⟩
  else if isSharded groupRows then
    some ⟨logicalName, defaultRouteFactor, "route_context", defaultRouteFactor, true,
      [("hint", .str "Provide the concrete table suffix from route_context.route_suffix")], true⟩
  else if requiresSourceRouting groupRows then
    some ⟨logicalName, sourceRouteFactor, "route_context", sourceRouteFactor, true,
      [("hint", .str "Provide the source_name from route_context.source_name"),
        ("allowed_values", .list ((distinctSourceNames groupRows).map .str))], true⟩
  else none

/-- The rule of a group; the modulus is written into its expression. -/
def routeRuleRecord (rt : Runtime) (logicalName : Str) : Except PyError RouteRuleRecord :=
  if supportsBusinessFactorRouting groupRows then do
    let modulus ← rt.strInt (shardModulus groupRows)
    pure ⟨logicalName, "imported_business_shard_mod", "mod",
      "str(int(" ++ businessShardFactor ++ ") % " ++ modulus ++ ")", "\x7bvalue\x7d", true⟩
  else if isSharded groupRows then
    pure ⟨logicalName, "imported_route_suffix_passthrough", "route_context_passthrough",
      "str(int(route_suffix))", "\x7bvalue\x7d", true⟩
  else if requiresSourceRouting groupRows then
    pure ⟨logicalName, "imported_source_name_passthrough", "route_context_passthrough",
      "str(source_name)", "\x7bvalue\x7d", true⟩
  else
    pure ⟨logicalName, "imported_constant_single_table", "constant", "'0'",
      "\x7bvalue\x7d", true⟩

/-! ## Routes -/

/-- The route of a row under a value. -/
def physicalRouteRecord (U : UnicodeData) (logicalName routeValue physicalName : Str)
    (row : TableConfigRow) : PhysicalRouteRecord where
  logicalTableName := logicalName
  routeValue := routeValue
  physicalTableName := physicalName
  datasourceCode := makeDatasourceCode U row.sourceName
  enabled := true
  extra := [
    ("sync_origin", .str syncOrigin),
    ("original_source_name", .str row.sourceName),
    ("original_catlog_name", .str row.catlogName),
    ("begin_index", .int row.beginIndex),
    ("end_index", .int row.endIndex),
    ("shard_count", .int row.shardCount)]

/-- The loop's state: `seen_route_values`, and the routes appended so far. -/
structure Expansion where
  seenRouteValues : List (Str × (Str × Str))
  routes : List PhysicalRouteRecord

/-- A route joins those before it: another table or datasource under its value is an error.  Only
the branch of sharded tables skips a repeated route. -/
def addRoute (skipRepeated : Bool) (route : PhysicalRouteRecord) (e : Expansion) :
    Except PyError Expansion :=
  let conflict := e.seenRouteValues.lookup route.routeValue
  let entry := (route.physicalTableName, route.datasourceCode)
  if conflict.any (· ≠ entry) then .error .valueError
  else if skipRepeated && conflict.isSome then .ok e
  else .ok ⟨dictSet route.routeValue entry e.seenRouteValues, e.routes ++ [route]⟩

/-- The loop over the indexes of a row. -/
def expandSuffixes (rt : Runtime) (logicalName : Str) (row : TableConfigRow) :
    List Int → Expansion → Except PyError Expansion
  | [], e => .ok e
  | suffix :: rest, e => do
      let routeValue ← rt.strInt suffix
      let e ← addRoute true (physicalRouteRecord rt.toUnicodeData logicalName routeValue
        (row.tableName ++ '_' :: routeValue) row) e
      expandSuffixes rt logicalName row rest e

/-- The body of the loop over the sorted rows. -/
def expandRow (rt : Runtime) (logicalName : Str) (row : TableConfigRow) (e : Expansion) :
    Except PyError Expansion :=
  if requiresSourceRouting groupRows then
    addRoute false (physicalRouteRecord rt.toUnicodeData logicalName (effectiveSource row)
      row.tableName row) e
  else if !isSharded groupRows then
    addRoute false (physicalRouteRecord rt.toUnicodeData logicalName ['0'] row.tableName row) e
  else expandSuffixes rt logicalName row (suffixes row) e

/-- The loop over the sorted rows. -/
def expandRows (rt : Runtime) (logicalName : Str) :
    List TableConfigRow → Expansion → Except PyError Expansion
  | [], e => .ok e
  | row :: rest, e => do
      let e ← expandRow groupRows rt logicalName row e
      expandRows rt logicalName rest e

/-- The order of the rows: by begin index, end index and source. -/
def rowLe (a b : TableConfigRow) : Bool :=
  if a.beginIndex = b.beginIndex then
    if a.endIndex = b.endIndex then strLe a.sourceName b.sourceName
    else decide (a.endIndex < b.endIndex)
  else decide (a.beginIndex < b.beginIndex)

/-- `sorted(deduped_rows, key=…)`. -/
def sortedRows : List TableConfigRow :=
  (dedupedRows groupRows).insertionSort fun a b => rowLe a b = true

end Group

/-! ## The bundle -/

/-- The records of one logical table. -/
structure GroupRecords where
  logicalTable : LogicalTableRecord
  routeFactor : Option RouteFactorRecord
  routeRule : RouteRuleRecord
  physicalRoutes : List PhysicalRouteRecord

/-- The body of the loop over the groups. -/
def buildGroup (rt : Runtime) : Str × List TableConfigRow → Except PyError GroupRecords
  | (_, []) => .error .indexError
  | (logicalName, sample :: more) => do
      let groupRows := sample :: more
      let routeRule ← routeRuleRecord groupRows rt logicalName
      let expansion ← expandRows groupRows rt logicalName (sortedRows groupRows) ⟨[], []⟩
      pure {
        logicalTable := logicalTableRecord groupRows logicalName sample
        routeFactor := routeFactorRecord groupRows logicalName
        routeRule
        physicalRoutes := expansion.routes }

/-- The loop over the groups. -/
def buildGroups (rt : Runtime) : List (Str × List TableConfigRow) → Except PyError
    (List GroupRecords)
  | [] => .ok []
  | group :: rest => do
      let records ← buildGroup rt group
      let more ← buildGroups rt rest
      pure (records :: more)

/-- `build_sync_bundle`. -/
def buildSyncBundle (rt : Runtime) (rows : List TableConfigRow)
    (importedTarget : ImportedDatasourceTarget) : Except PyError SyncBundle := do
  let groups := rows.foldl (collectRow rt.toUnicodeData importedTarget) ⟨[], [], 0⟩
  let records ← buildGroups rt
    (groups.logicalGroups.insertionSort fun a b => strLe a.1 b.1 = true)
  pure {
    datasources := (groups.datasourceMap.map Prod.snd).insertionSort
      fun a b => strLe a.datasourceCode b.datasourceCode = true
    logicalTables := records.map (·.logicalTable)
    routeFactors := records.filterMap (·.routeFactor)
    routeRules := records.map (·.routeRule)
    physicalRoutes := records.flatMap (·.physicalRoutes)
    skippedRows := groups.skippedRows }

/-! ## Rows -/

/-- `DatasourceInstance(**record)`, under a generated id. -/
def DatasourceRecord.row (record : DatasourceRecord) (id : Nat) : DatasourceInstance where
  id
  datasourceCode := record.datasourceCode
  displayName := record.displayName
  dbType := record.dbType
  host := record.host
  port := record.port
  databaseName := record.databaseName
  username := record.username
  passwordSecretRef := record.passwordSecretRef
  readOnly := record.readOnly
  enabled := record.enabled
  extra := .dict record.extra

/-- `LogicalTable(**record)`. -/
def LogicalTableRecord.row (record : LogicalTableRecord) (id : Nat) : LogicalTable where
  id
  tableName := record.tableName
  description := record.description
  routeSource := record.routeSource
  physicalNameTemplate := record.physicalNameTemplate
  defaultPolicyCode := record.defaultPolicyCode
  enabled := record.enabled
  extra := .dict record.extra

/-- `RouteFactorDef(…)` for a logical table. -/
def RouteFactorRecord.row (record : RouteFactorRecord) (logicalTableId id : Nat) :
    RouteFactorDef where
  id
  logicalTableId
  factorName := record.factorName
  sourceType := record.sourceType
  sourceKey := record.sourceKey
  required := record.required
  extractorConfig := .dict record.extractorConfig
  enabled := record.enabled

/-- `RouteRule(…)` for a logical table. -/
def RouteRuleRecord.row (record : RouteRuleRecord) (logicalTableId id : Nat) : RouteRule where
  id
  logicalTableId
  ruleName := record.ruleName
  ruleType := record.ruleType
  expression := record.expression
  outputFormat := record.outputFormat
  enabled := record.enabled

/-- `PhysicalTableRoute(…)` for a logical table and a datasource. -/
def PhysicalRouteRecord.row (record : PhysicalRouteRecord) (logicalTableId datasourceId id : Nat) :
    PhysicalTableRoute where
  id
  logicalTableId
  routeValue := record.routeValue
  physicalTableName := record.physicalTableName
  datasourceId
  enabled := record.enabled
  extra := .dict record.extra

/-! ## Writing the bundle -/

/-- `extra["sync_origin"].as_string() == SYNC_ORIGIN`. -/
def isImported (extra : Json) : Bool :=
  match extra with
  | .dict items =>
      match JsonDict.get items "sync_origin" with
      | .str origin => origin == syncOrigin
      | _ => false
  | _ => false

/-- `ensure_default_policy`. -/
def ensureDefaultPolicy (db : Metadata) : Except PyError Metadata := do
  match ← oneOrNone PyError.multipleResultsFound
      (db.policies.rows.filter fun r => r.policyCode = SpyTableConfigSync.defaultPolicyCode) with
  | some _ => pure db
  | none => pure { db with
      policies := db.policies.insert fun id => {
        id
        policyCode := SpyTableConfigSync.defaultPolicyCode
        allowSqlTypes := [.str "select"]
        requireLimit := true
        maxLimit := 1000
        largeTableRowThreshold := 100000
        maxScanRows := 10000
        rejectFullScanOnLargeTable := true
        rejectUsingTemporary := true
        rejectUsingFilesort := true
        enabled := true } }

/-- `imported_logical_ids`. -/
def Metadata.importedLogicalIds (db : Metadata) : List Nat :=
  (db.logicalTables.rows.filter fun r => isImported r.extra).map (·.id)

/-- `imported_datasource_ids`. -/
def Metadata.importedDatasourceIds (db : Metadata) : List Nat :=
  (db.datasources.rows.filter fun r => isImported r.extra).map (·.id)

/-- `delete_previous_import`.  A datasource that a route or a snapshot still refers to cannot be
deleted. -/
def deletePreviousImport (db : Metadata) : Except PyError Metadata :=
  let physicalRoutes := db.physicalRoutes.delete fun r => r.logicalTableId ∈ db.importedLogicalIds
  if (physicalRoutes.rows.any fun r => r.datasourceId ∈ db.importedDatasourceIds) ||
      (db.statsSnapshots.rows.any fun r => r.datasourceId ∈ db.importedDatasourceIds) then
    .error .integrityError
  else .ok { db with
    physicalRoutes
    routeFactors := db.routeFactors.delete fun r => r.logicalTableId ∈ db.importedLogicalIds
    routeRules := db.routeRules.delete fun r => r.logicalTableId ∈ db.importedLogicalIds
    logicalTables := db.logicalTables.delete fun r => r.id ∈ db.importedLogicalIds
    datasources := db.datasources.delete fun r => r.id ∈ db.importedDatasourceIds }

/-- `session.add` and its flush: the rows of the records in order, each under a new id; a second
row with a unique key is refused. -/
def insertAll {σ ρ κ : Type} [DecidableEq κ] (key : ρ → κ)
    (make : σ → Except PyError (Nat → ρ)) :
    List σ → Table ρ → Except PyError (Table ρ)
  | [], table => .ok table
  | record :: records, table => do
      let row ← make record
      if table.rows.any fun r => key r = key (row table.nextId) then .error .integrityError
      else insertAll key make records (table.insert row)

/-- The ids that the objects of a list of records were given, by name. -/
def objectIds {σ : Type} (name : σ → Str) : List σ → Nat → List (Str × Nat) → List
    (Str × Nat)
  | [], _, objects => objects
  | record :: records, id, objects => objectIds name records (id + 1)
      (dictSet (name record) id objects)

/-- `objects[name].id` -/
def objectId (objects : List (Str × Nat)) (name : Str) : Except PyError Nat :=
  match objects.lookup name with
  | some id => .ok id
  | none => .error .keyError

/-- `sync_bundle_to_local`, up to the counts that it returns. -/
def syncBundleToLocal (db : Metadata) (bundle : SyncBundle) : Except PyError Metadata := do
  let db ← ensureDefaultPolicy db
  let db ← deletePreviousImport db
  let datasources ← insertAll (·.datasourceCode) (fun record => .ok record.row)
    bundle.datasources
    db.datasources
  let datasourceObjects := objectIds (·.datasourceCode) bundle.datasources db.datasources.nextId []
  let logicalTables ← insertAll (·.tableName) (fun record => .ok record.row) bundle.logicalTables
    db.logicalTables
  let logicalObjects := objectIds (·.tableName) bundle.logicalTables db.logicalTables.nextId []
  let routeFactors ← insertAll (fun r => (r.logicalTableId, r.factorName))
    (fun record => (objectId logicalObjects record.logicalTableName).map record.row)
    bundle.routeFactors db.routeFactors
  let routeRules ← insertAll (fun r => (r.logicalTableId, r.ruleName))
    (fun record => (objectId logicalObjects record.logicalTableName).map record.row)
    bundle.routeRules db.routeRules
  let physicalRoutes ← insertAll (fun r => (r.logicalTableId, r.routeValue))
    (fun record => do
      let logicalTableId ← objectId logicalObjects record.logicalTableName
      let datasourceId ← objectId datasourceObjects record.datasourceCode
      pure (record.row logicalTableId datasourceId))
    bundle.physicalRoutes db.physicalRoutes
  pure { db with datasources, logicalTables, routeFactors, routeRules, physicalRoutes }

end SqlGatekeeper
