import SqlGatekeeper.Services.Resolution
import SqlGatekeeper.Tools.SpyTableConfigSync

/-!
# Metadata that holds a bundle

* `TableStored`, `FactorStored`, `RuleStored`, `RouteStored`, `DatasourceStored`: a row has the
  fields of a record.
* `Metadata.HoldsBundle`: the metadata has the datasources and the logical tables of a bundle,
  with exactly the bundle's factors, rules and routes.
-/

namespace SqlGatekeeper

open Py Store

/-- A datasource with the fields of a record. -/
structure DatasourceStored (d : DatasourceInstance) (q : DatasourceRecord) : Prop where
  datasourceCode : d.datasourceCode = q.datasourceCode
  displayName : d.displayName = q.displayName
  dbType : d.dbType = q.dbType
  host : d.host = q.host
  port : d.port = q.port
  databaseName : d.databaseName = q.databaseName
  username : d.username = q.username
  passwordSecretRef : d.passwordSecretRef = q.passwordSecretRef
  readOnly : d.readOnly = q.readOnly
  enabled : d.enabled = q.enabled
  extra : d.extra = .dict q.extra

/-- A logical table with the fields of a record. -/
structure TableStored (t : LogicalTable) (q : LogicalTableRecord) : Prop where
  tableName : t.tableName = q.tableName
  description : t.description = q.description
  routeSource : t.routeSource = q.routeSource
  physicalNameTemplate : t.physicalNameTemplate = q.physicalNameTemplate
  defaultPolicyCode : t.defaultPolicyCode = q.defaultPolicyCode
  enabled : t.enabled = q.enabled
  extra : t.extra = .dict q.extra

/-- A factor with the fields of a record. -/
structure FactorStored (f : RouteFactorDef) (q : RouteFactorRecord) : Prop where
  factorName : f.factorName = q.factorName
  sourceType : f.sourceType = q.sourceType
  sourceKey : f.sourceKey = q.sourceKey
  required : f.required = q.required
  extractorConfig : f.extractorConfig = .dict q.extractorConfig
  enabled : f.enabled = q.enabled

/-- A rule with the fields of a record. -/
structure RuleStored (r : RouteRule) (q : RouteRuleRecord) : Prop where
  ruleName : r.ruleName = q.ruleName
  ruleType : r.ruleType = q.ruleType
  expression : r.expression = q.expression
  outputFormat : r.outputFormat = q.outputFormat
  enabled : r.enabled = q.enabled

/-- A route with the fields of a record. -/
structure RouteStored (r : PhysicalTableRoute) (q : PhysicalRouteRecord) : Prop where
  routeValue : r.routeValue = q.routeValue
  physicalTableName : r.physicalTableName = q.physicalTableName
  enabled : r.enabled = q.enabled
  extra : r.extra = .dict q.extra

/-- A logical table of the metadata that belongs to a record of a bundle. -/
structure TableHeld (db : Metadata) (bundle : SyncBundle) (t : LogicalTable)
    (q : LogicalTableRecord) : Prop where
  mem : t ∈ db.logicalTables.rows
  stored : TableStored t q
  routeFactors : Corresponds FactorStored
    (db.routeFactors.rows.filter fun f => decide (f.logicalTableId = t.id))
    (bundle.routeFactors.filter fun f => decide (f.logicalTableName = q.tableName))
  routeRules : Corresponds RuleStored
    (db.routeRules.rows.filter fun r => decide (r.logicalTableId = t.id))
    (bundle.routeRules.filter fun r => decide (r.logicalTableName = q.tableName))
  physicalRoutes : Corresponds
    (fun r q => RouteStored r q ∧ datasourceCodeFromId db r.datasourceId = q.datasourceCode)
    (db.physicalRoutes.rows.filter fun r => decide (r.logicalTableId = t.id))
    (bundle.physicalRoutes.filter fun r => decide (r.logicalTableName = q.tableName))

/-- The metadata holds the records of a bundle. -/
structure Metadata.HoldsBundle (db : Metadata) (bundle : SyncBundle) : Prop where
  datasources : ∀ q ∈ bundle.datasources, ∃ d ∈ db.datasources.rows, DatasourceStored d q
  logicalTables : ∀ q ∈ bundle.logicalTables, ∃ t, TableHeld db bundle t q

end SqlGatekeeper
