import SqlGatekeeper.Python.Value
import SqlGatekeeper.Store.Table

/-!
# The metadata database

The records of the metadata database and its state.

* `DatasourceInstance`, `LogicalTable`, `RouteFactorDef`, `RouteRule`,
  `PhysicalTableRoute`, `PolicySet`, `TableStatsSnapshot`, `RequestAuditLog`: one
  structure a table; timestamps are left out.
* `Metadata`: the state, one table each.
* `Metadata.Constraints`: the declared keys and foreign keys.
-/

namespace SqlGatekeeper

open Py Store

/-! ## Records -/

/-- A database or Redis server. -/
structure DatasourceInstance where
  id : Nat
  datasourceCode : Str
  displayName : Str
  dbType : Str
  host : Str
  port : Int
  databaseName : Str
  username : Str
  passwordSecretRef : Str
  readOnly : Bool
  enabled : Bool
  extra : Json

/-- A logical table. -/
structure LogicalTable where
  id : Nat
  tableName : Str
  description : Str
  routeSource : Str
  physicalNameTemplate : Str
  defaultPolicyCode : Str
  enabled : Bool
  extra : Json

/-- A value the route rule of a logical table needs, and where it comes from. -/
structure RouteFactorDef where
  id : Nat
  logicalTableId : Nat
  factorName : Str
  sourceType : Str
  sourceKey : Str
  required : Bool
  extractorConfig : Json
  enabled : Bool

/-- The expression that computes a route value. -/
structure RouteRule where
  id : Nat
  logicalTableId : Nat
  ruleName : Str
  ruleType : Str
  expression : Str
  outputFormat : Str
  enabled : Bool

/-- The physical table behind a route value of a logical table. -/
structure PhysicalTableRoute where
  id : Nat
  logicalTableId : Nat
  routeValue : Str
  physicalTableName : Str
  datasourceId : Nat
  enabled : Bool
  extra : Json

/-- The limits a request is checked against. -/
structure PolicySet where
  id : Nat
  policyCode : Str
  allowSqlTypes : List Json
  requireLimit : Bool
  maxLimit : Int
  largeTableRowThreshold : Int
  maxScanRows : Int
  rejectFullScanOnLargeTable : Bool
  rejectUsingTemporary : Bool
  rejectUsingFilesort : Bool
  enabled : Bool

/-- Statistics of a physical table; only its keys matter here. -/
structure TableStatsSnapshot where
  id : Nat
  datasourceId : Nat
  physicalTableName : Str

/-- An audit row. -/
structure RequestAuditLog where
  id : Nat
  requestId : Str
  operator : Str
  scene : Str
  originalSql : Str
  rewrittenSql : Str
  logicalTables : List Str
  physicalTables : List Str
  datasourceCodes : List Str
  decision : Str
  reasonCode : Str
  reasonDetail : Str
  executionMs : Int
  explainSummary : Json

/-! ## The state -/

/-- The metadata database. -/
structure Metadata where
  datasources : Table DatasourceInstance
  logicalTables : Table LogicalTable
  routeFactors : Table RouteFactorDef
  routeRules : Table RouteRule
  physicalRoutes : Table PhysicalTableRoute
  policies : Table PolicySet
  statsSnapshots : Table TableStatsSnapshot
  auditLogs : Table RequestAuditLog

/-- The declared constraints: generated ids, unique keys and foreign keys. -/
structure Metadata.Constraints (db : Metadata) : Prop where
  datasourceIds : db.datasources.Fresh (·.id)
  logicalTableIds : db.logicalTables.Fresh (·.id)
  routeFactorIds : db.routeFactors.Fresh (·.id)
  routeRuleIds : db.routeRules.Fresh (·.id)
  physicalRouteIds : db.physicalRoutes.Fresh (·.id)
  policyIds : db.policies.Fresh (·.id)
  statsSnapshotIds : db.statsSnapshots.Fresh (·.id)
  auditLogIds : db.auditLogs.Fresh (·.id)
  datasourceCode : Unique (·.datasourceCode) db.datasources.rows
  tableName : Unique (·.tableName) db.logicalTables.rows
  uqRouteFactorTableName :
    Unique (fun r => (r.logicalTableId, r.factorName)) db.routeFactors.rows
  uqRouteRuleTableName : Unique (fun r => (r.logicalTableId, r.ruleName)) db.routeRules.rows
  uqTableRouteValue : Unique (fun r => (r.logicalTableId, r.routeValue)) db.physicalRoutes.rows
  policyCode : Unique (·.policyCode) db.policies.rows
  uqStatsTable :
    Unique (fun r => (r.datasourceId, r.physicalTableName)) db.statsSnapshots.rows
  factorTable : ∀ f ∈ db.routeFactors.rows, ∃ t ∈ db.logicalTables.rows,
    t.id = f.logicalTableId
  ruleTable : ∀ r ∈ db.routeRules.rows, ∃ t ∈ db.logicalTables.rows, t.id = r.logicalTableId
  routeTable : ∀ r ∈ db.physicalRoutes.rows, ∃ t ∈ db.logicalTables.rows,
    t.id = r.logicalTableId
  routeDatasource : ∀ r ∈ db.physicalRoutes.rows, ∃ d ∈ db.datasources.rows,
    d.id = r.datasourceId
  statsDatasource : ∀ r ∈ db.statsSnapshots.rows, ∃ d ∈ db.datasources.rows,
    d.id = r.datasourceId

end SqlGatekeeper
