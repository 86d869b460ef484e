import SqlGatekeeper.Python.Eval
import SqlGatekeeper.Db.Repositories
import SqlGatekeeper.Services.SqlRewrite

/-!
# Route resolution

`RouteDecisionService` finds, for each table of a statement, the physical table and the
datasource it is read from: a registered physical table is taken as it is, a logical
table goes through its factors, its rule and its routes.

* `extractFactorValue`, `deriveLegacyRouteSuffix`: where a factor's value comes from.
* `extractFactors`: all factors of a logical table, and those that are missing.
* `evaluateRouteRule`: the route value.
* `resolveTable`: one table; `resolve`: the tables in order, up to the first failure.
-/

namespace SqlGatekeeper

open Py Store

/-! ## Decisions -/

/-- A table reference and what it is read from. -/
structure RouteTarget where
  originalTableName : Str
  logicalTableName : Str
  physicalTableName : Str
  datasourceCode : Str
  requiresRewrite : Bool
  rewritePlan : Option TableRewritePlan
  routeValue : Str
  deriving DecidableEq, Repr

/-- What is reported about a factor. -/
structure RouteFactorDiagnostic where
  factorName : Str
  sourceType : Str
  sourceKey : Str
  required : Bool
  providedValue : Option Str
  extractorConfig : Json

/-- What is reported about a rule. -/
structure RouteRuleDiagnostic where
  ruleName : Str
  ruleType : Str
  expression : Str
  outputFormat : Str
  deriving DecidableEq, Repr

/-- What is reported about the resolution of a logical table. -/
structure RouteDiagnostic where
  originalTableName : Str
  logicalTableName : Str
  routeSource : Str
  requiredFactors : List RouteFactorDiagnostic
  missingFactors : List Str
  extractedValues : Env
  routeRule : Option RouteRuleDiagnostic
  evaluatedRouteValue : Option Str
  availableRouteValuesSample : List Str
  availableRouteCount : Nat

/-- The outcome of a resolution. -/
structure RouteDecision where
  allowed : Bool
  reasonCode : Str
  message : Str
  targets : List RouteTarget
  diagnostics : List RouteDiagnostic

/-! ## Factors -/

/-- `a or b` for optional strings: the empty string counts as missing. -/
def orElse (a b : Option Str) : Option Str :=
  match a with
  | some (c :: cs) => some (c :: cs)
  | _ => b

/-- The value of a column: the predicate under the table's alias, or else any. -/
def columnValue (U : UnicodeData) (parsed : ParsedSql) (table : ParsedTable) (column : Str) :
    Option Str :=
  orElse (parsed.predicateValue U column table.aliasName) (parsed.predicateValue U column none)

/-- A column name the caller gives in the context: a string that is not empty. -/
def contextColumn (routeContext : JsonDict) (key : Str) : Option Str :=
  match routeContext.get key with
  | .str (c :: cs) => some (c :: cs)
  | _ => none

/-- `_extract_factor_value`. -/
def extractFactorValue (rt : Runtime) (factor : RouteFactorDef) (parsed : ParsedSql)
    (table : ParsedTable) (routeContext : JsonDict) : Except PyError (Option Str) :=
  let U := rt.toUnicodeData
  let sourceType := lower U factor.sourceType
  if sourceType = "sql_predicate" then .ok (columnValue U parsed table factor.sourceKey)
  else if sourceType = "sql_predicate_from_context" then
    .ok ((contextColumn routeContext factor.sourceKey).bind (columnValue U parsed table))
  else if sourceType = "route_context" then
    match routeContext.get factor.sourceKey with
    | .null => .ok none
    | value => (rt.strJson value).map some
  else if sourceType = "physical_table_name" then .ok (some table.tableName)
  else .ok none

/-- `_derive_legacy_route_suffix`: the modulus is the number of enabled routes. -/
def deriveLegacyRouteSuffix (rt : Runtime) (db : Metadata) (logicalTable : LogicalTable)
    (parsed : ParsedSql) (table : ParsedTable) (routeContext : JsonDict) : Option Str := do
  let column ← contextColumn routeContext "shard_column"
  let value ← columnValue rt.toUnicodeData parsed table column
  let routeCount := db.countEnabledByLogicalTable logicalTable.id
  if routeCount = 0 then none
  else ((rt.int value).bind fun k => rt.strInt (k.fmod routeCount)).toOption

/-- The value of a factor, with the legacy derivation behind `route_suffix`. -/
def factorValue (rt : Runtime) (db : Metadata) (logicalTable : LogicalTable) (parsed : ParsedSql)
    (table : ParsedTable) (routeContext : JsonDict) (factor : RouteFactorDef) :
    Except PyError (Option Str) := do
  let value ← extractFactorValue rt factor parsed table routeContext
  if value = none ∧ factor.sourceKey = "route_suffix" then
    pure (deriveLegacyRouteSuffix rt db logicalTable parsed table routeContext)
  else pure value

/-- The factor loop: extracted values and missing factors, given the value of each. -/
def extractFactors (value : RouteFactorDef → Except PyError (Option Str)) :
    List RouteFactorDef → Env → List Str → Except PyError (Env × List Str)
  | [], extracted, missing => .ok (extracted, missing)
  | factor :: factors, extracted, missing => do
      match ← value factor with
      | none => extractFactors value factors extracted (missing ++ [factor.factorName])
      | some v => extractFactors value factors (dictSet factor.factorName v extracted) missing

/-- `_evaluate_route_rule`. -/
def evaluateRouteRule (rt : Runtime) (routeRule : RouteRule) (extractedValues : Env) :
    Except PyError Str := do
  let routeValue ← rt.eval routeRule.expression extractedValues
  rt.format routeRule.outputFormat routeValue extractedValues

/-! ## Tables -/

/-- `_build_route_diagnostic`. -/
def buildRouteDiagnostic (table : ParsedTable) (logicalTable : LogicalTable)
    (factors : List RouteFactorDef) (extractedValues : Env) (missingFactors : List Str)
    (routeRule : Option RouteRule) (evaluatedRouteValue : Option Str)
    (availableRouteValuesSample : List Str) (availableRouteCount : Nat) : RouteDiagnostic where
  originalTableName := table.tableName
  logicalTableName := logicalTable.tableName
  routeSource := logicalTable.routeSource
  requiredFactors := factors.map fun factor =>
    ⟨factor.factorName, factor.sourceType, factor.sourceKey, factor.required,
      extractedValues.lookup factor.factorName, factor.extractorConfig⟩
  missingFactors := missingFactors
  extractedValues := extractedValues
  routeRule := routeRule.map fun rule =>
    ⟨rule.ruleName, rule.ruleType, rule.expression, rule.outputFormat⟩
  evaluatedRouteValue := evaluatedRouteValue
  availableRouteValuesSample := availableRouteValuesSample
  availableRouteCount := availableRouteCount

/-- `_datasource_code_from_id`. -/
def datasourceCodeFromId (db : Metadata) (datasourceId : Nat) : Str :=
  match db.datasourceById datasourceId with
  | some datasource => datasource.datasourceCode
  | none => []

/-- `_build_physical_target`. -/
def buildPhysicalTarget (db : Metadata) (table : ParsedTable) (physicalRoute : PhysicalTableRoute) :
    Except PyError (Option RouteTarget) := do
  match ← db.getEnabledByCode (datasourceCodeFromId db physicalRoute.datasourceId) with
  | none => pure none
  | some datasource =>
      let logicalTableName :=
        match db.logicalTableById physicalRoute.logicalTableId with
        | some logicalTable => logicalTable.tableName
        | none => table.tableName
      pure (some {
        originalTableName := table.tableName
        logicalTableName
        physicalTableName := physicalRoute.physicalTableName
        datasourceCode := datasource.datasourceCode
        requiresRewrite := false
        rewritePlan := none
        routeValue := physicalRoute.routeValue })

/-- `_match_invalid_physical_table`: the first enabled logical table whose physical
names start like this name. -/
def matchInvalidPhysicalTable (db : Metadata) (tableName : Str) : Option LogicalTable :=
  db.listEnabled.find? fun logicalTable =>
    let stem := logicalTable.physicalNameTemplate.takeWhile (· ≠ '\x7b')
    !stem.isEmpty && startsWith tableName stem

/-- What the loop body does with a table. -/
inductive TableOutcome where
  /-- A target, and the diagnostic that is appended. -/
  | target (target : RouteTarget) (diagnostic : Option RouteDiagnostic)
  /-- The resolution ends here. -/
  | reject (reasonCode message : Str) (diagnostic : Option RouteDiagnostic)

section Resolve

variable (rt : Runtime) (db : Metadata) (parsed : ParsedSql) (routeContext : JsonDict)

/-- The part of the loop body for a logical table whose rule and factors are known. -/
def resolveRoute (table : ParsedTable) (logicalTable : LogicalTable)
    (factors : List RouteFactorDef) (routeRule : RouteRule) (extractedValues : Env) :
    Except PyError TableOutcome := do
  let routeValue ← evaluateRouteRule rt routeRule extractedValues
  let diagnostic := buildRouteDiagnostic table logicalTable factors extractedValues []
    (some routeRule) (some routeValue) (db.listEnabledRouteValuesByLogicalTable logicalTable.id 20)
    (db.countEnabledByLogicalTable logicalTable.id)
  match ← db.getEnabledByLogicalTableAndRouteValue logicalTable.id routeValue with
  | none => pure (.reject "PHYSICAL_ROUTE_NOT_FOUND"
      ("No physical route found for '" ++ table.tableName ++ "' with route value '" ++ routeValue ++
        "'") (some diagnostic))
  | some physicalRoute =>
      match ← db.getEnabledByCode (datasourceCodeFromId db physicalRoute.datasourceId) with
      | none => pure (.reject "DATASOURCE_NOT_FOUND" "Datasource for route target was not found"
          (some diagnostic))
      | some datasource => pure (.target {
          originalTableName := table.tableName
          logicalTableName := logicalTable.tableName
          physicalTableName := physicalRoute.physicalTableName
          datasourceCode := datasource.datasourceCode
          requiresRewrite := true
          rewritePlan := some {
            originalTableName := table.tableName
            physicalTableName := physicalRoute.physicalTableName
            tokenStart := table.tokenStart
            tokenEnd := table.tokenEnd }
          routeValue } (some diagnostic))

/-- The part of the loop body for a logical table. -/
def resolveLogicalTable (table : ParsedTable) (logicalTable : LogicalTable) :
    Except PyError TableOutcome := do
  let factors := db.listRequiredEnabledByLogicalTable logicalTable.id
  let diagnostic := fun values missing rule =>
    buildRouteDiagnostic table logicalTable factors values missing rule none
      (db.listEnabledRouteValuesByLogicalTable logicalTable.id 20)
      (db.countEnabledByLogicalTable logicalTable.id)
  match ← db.getEnabledByLogicalTable logicalTable.id with
  | none => pure (.reject "ROUTE_RULE_NOT_FOUND" ("No route rule for '" ++ table.tableName ++ "'")
      (some (diagnostic [] [] none)))
  | some routeRule => do
      let (extracted, missing) ←
        extractFactors (factorValue rt db logicalTable parsed table routeContext) factors [] []
      if missing ≠ [] then
        pure (.reject "MISSING_ROUTE_FACTOR"
          ("Missing route factors for '" ++ table.tableName ++ "': " ++ join ", " missing)
          (some (diagnostic extracted missing (some routeRule))))
      else resolveRoute rt db table logicalTable factors routeRule extracted

/-- The loop body of `resolve`. -/
def resolveTable (table : ParsedTable) : Except PyError TableOutcome := do
  match ← db.getEnabledByPhysicalTableName table.tableName with
  | some physicalMatch => do
      match ← buildPhysicalTarget db table physicalMatch with
      | none => pure (.reject "DATASOURCE_NOT_FOUND" "Datasource for physical table was not found"
          none)
      | some target => pure (.target target none)
  | none => do
      match ← db.getEnabledByName table.tableName with
      | none =>
          match matchInvalidPhysicalTable db table.tableName with
          | some logicalTable => pure (.reject "INVALID_PHYSICAL_TABLE"
              ("Physical table '" ++ table.tableName ++ "' is not registered for logical table '" ++
                logicalTable.tableName ++ "'") none)
          | none => pure (.reject "LOGICAL_TABLE_NOT_FOUND"
              ("Logical table '" ++ table.tableName ++ "' was not found") none)
      | some logicalTable => resolveLogicalTable rt db parsed routeContext table logicalTable

/-- The loop of `resolve`, with the targets and the diagnostics so far. -/
def resolveTables : List ParsedTable → List RouteTarget → List RouteDiagnostic →
    Except PyError RouteDecision
  | [], targets, diagnostics =>
      .ok ⟨true, "ALLOW", "Route resolution succeeded", targets, diagnostics⟩
  | table :: tables, targets, diagnostics => do
      match ← resolveTable rt db parsed routeContext table with
      | .target target diagnostic =>
          resolveTables tables (targets ++ [target]) (diagnostics ++ diagnostic.toList)
      | .reject reasonCode message diagnostic =>
          pure ⟨false, reasonCode, message, [], diagnostics ++ diagnostic.toList⟩

/-- `RouteDecisionService.resolve`. -/
def resolve : Except PyError RouteDecision :=
  if parsed.tables = [] then .ok ⟨false, "TABLE_NOT_FOUND", "No SQL table was found", [], []⟩
  else resolveTables rt db parsed routeContext parsed.tables [] []

end Resolve

end SqlGatekeeper
