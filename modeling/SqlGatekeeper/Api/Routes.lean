import SqlGatekeeper.Services.Audit

/-!
# The endpoints

The four endpoints that check and execute.  A handler works in one session: it returns a
response and the committed metadata, or raises and commits nothing.

* `SqlRequest`, `RedisRequest`: the request bodies, within the bounds of their schemas.
* `checkSql`, `executeSql`, `checkRedis`, `executeRedis`: the handlers.
* `serve`: a request to any of the four.
-/

namespace SqlGatekeeper

open Py Store

/-- What the handlers run on: the interpreter, the settings, the servers, and what the clock
says about an execution. -/
structure Deployment where
  rt : Runtime
  settings : Settings
  backend : Backend
  redis : RedisServer
  executionMs : Int

/-! ## Requests and responses -/

/-- A string of a schema: `Field(min_length=…, max_length=…)`. -/
abbrev BoundedStr (minLength maxLength : Nat) :=
  { s : Str // minLength ≤ s.length ∧ s.length ≤ maxLength }

/-- A JSON object of a request body, as `json.loads` returns it; like every `Str` the strings in it
have no lone surrogate, on which a lookup or the response would fail for its encoding. -/
abbrev DecodedDict (rt : Runtime) :=
  { d : JsonDict // Json.intsFitDict rt.digitsFit d = true }

/-- The body of an SQL request. -/
structure SqlRequest (rt : Runtime) where
  requestId : BoundedStr 1 64
  operator : BoundedStr 1 128
  scene : BoundedStr 0 64
  sql : { s : Str // 1 ≤ s.length }
  routeContext : DecodedDict rt

/-- The answer to an SQL request. -/
structure SqlDecisionResponse where
  requestId : Str
  allowed : Bool
  reasonCode : Str
  message : Str
  rewrittenSql : Str
  logicalTables : List Str
  physicalTables : List Str
  datasourceCodes : List Str
  explainSummaries : List ExplainPlanSummary
  routeDiagnostics : List RouteDiagnostic
  executionMs : Int
  rowCount : Nat
  rows : List JsonDict

/-- The body of a Redis request. -/
structure RedisRequest (rt : Runtime) where
  requestId : BoundedStr 1 64
  operator : BoundedStr 1 128
  scene : BoundedStr 0 64
  command : BoundedStr 1 32
  args : { l : List Str // l.length ≤ 100 }
  redisContext : DecodedDict rt

/-- The answer to a Redis request. -/
structure RedisDecisionResponse where
  requestId : Str
  allowed : Bool
  reasonCode : Str
  message : Str
  command : Str
  args : List Str
  datasourceCode : Str
  diagnostics : List Json
  executionMs : Int
  rowCount : Nat
  rows : List JsonDict

/-! ## SQL -/

section Sql

variable (env : Deployment) (db : Metadata) (request : SqlRequest env.rt)

/-- The audit request of an SQL request. -/
def sqlAuditRequest : AuditRequest where
  requestId := request.requestId.1
  operator := request.operator.1
  scene := request.scene.1
  sql := request.sql.1
  routeContext := request.routeContext.1

/-- The response to a request that is not executed. -/
def checkResponse (decision : CheckResult) : SqlDecisionResponse where
  requestId := request.requestId.1
  allowed := decision.allowed
  reasonCode := decision.reasonCode
  message := decision.message
  rewrittenSql := decision.rewrittenSql
  logicalTables := decision.logicalTables
  physicalTables := decision.physicalTables
  datasourceCodes := decision.datasourceCodes
  explainSummaries := decision.explainSummaries
  routeDiagnostics := decision.routeDiagnostics
  executionMs := 0
  rowCount := 0
  rows := []

/-- The response to a request that is executed. -/
def executeResponse (decision : CheckResult) (executeResult : ExecuteResult) :
    SqlDecisionResponse where
  requestId := request.requestId.1
  allowed := executeResult.allowed
  reasonCode := executeResult.reasonCode
  message := executeResult.message
  rewrittenSql := decision.rewrittenSql
  logicalTables := decision.logicalTables
  physicalTables := decision.physicalTables
  datasourceCodes := decision.datasourceCodes
  explainSummaries := decision.explainSummaries
  routeDiagnostics := decision.routeDiagnostics
  executionMs := executeResult.executionMs
  rowCount := executeResult.rowCount
  rows := executeResult.rows

/-- The check both handlers begin with. -/
def runCheck : Except PyError CheckResult :=
  SqlCheckService.check env.rt db
    (ExplainRiskEvaluator.evaluate env.rt.toUnicodeData env.backend) request.sql.1
    request.routeContext.1

/-- `check_sql`. -/
def checkSql : Except PyError (SqlDecisionResponse × Metadata) := do
  let decision ← runCheck env db request
  pure (checkResponse env request decision,
    AuditLogService.logCheck db (sqlAuditRequest env request) decision)

/-- `execute_sql`. -/
def executeSql : Except PyError (SqlDecisionResponse × Metadata) := do
  let decision ← runCheck env db request
  if decision.allowed then do
    let executeResult ←
      (SqlExecutionService.execute db env.backend env.executionMs decision).result
    pure (executeResponse env request decision executeResult,
      AuditLogService.logExecute db (sqlAuditRequest env request) decision executeResult)
  else
    pure (checkResponse env request decision,
      AuditLogService.logCheck db (sqlAuditRequest env request) decision)

end Sql

/-! ## Redis -/

section Redis

variable (env : Deployment) (db : Metadata) (request : RedisRequest env.rt)

/-- `_redis_audit_request`. -/
def redisAuditRequest : AuditRequest where
  requestId := request.requestId.1
  operator := request.operator.1
  scene := request.scene.1
  sql := "redis:" ++ request.command.1 ++ " " ++ join " " request.args.1
  routeContext := request.redisContext.1

/-- The response to a command that is not executed. -/
def redisCheckResponse (decision : RedisDecision) : RedisDecisionResponse where
  requestId := request.requestId.1
  allowed := decision.allowed
  reasonCode := decision.reasonCode
  message := decision.message
  command := decision.command
  args := decision.args
  datasourceCode := decision.datasourceCode
  diagnostics := decision.diagnostics
  executionMs := 0
  rowCount := 0
  rows := []

/-- The response to a command that is executed. -/
def redisExecuteResponse (decision : RedisDecision) (executeResult : RedisExecuteResult) :
    RedisDecisionResponse where
  requestId := request.requestId.1
  allowed := executeResult.allowed
  reasonCode := executeResult.reasonCode
  message := executeResult.message
  command := decision.command
  args := decision.args
  datasourceCode := decision.datasourceCode
  diagnostics := decision.diagnostics
  executionMs := executeResult.executionMs
  rowCount := executeResult.rowCount
  rows := executeResult.rows

/-- The check both handlers begin with. -/
def runRedisCheck : Except PyError RedisDecision :=
  RedisGatekeeperService.check env.rt env.settings (some db) request.command.1 request.args.1
    request.redisContext.1

/-- `check_redis`. -/
def checkRedis : Except PyError (RedisDecisionResponse × Metadata) := do
  let decision ← runRedisCheck env db request
  pure (redisCheckResponse env request decision,
    AuditLogService.logRedisCheck db (redisAuditRequest env request) decision)

/-- `execute_redis`. -/
def executeRedis : Except PyError (RedisDecisionResponse × Metadata) := do
  let decision ← runRedisCheck env db request
  if decision.allowed then do
    let executeResult ← (RedisGatekeeperService.execute env.rt env.settings (some db) env.redis
      env.executionMs decision).result
    pure (redisExecuteResponse env request decision executeResult,
      AuditLogService.logRedisExecute db (redisAuditRequest env request) decision executeResult)
  else
    pure (redisCheckResponse env request decision,
      AuditLogService.logRedisCheck db (redisAuditRequest env request) decision)

end Redis

/-! ## The router -/

/-- A request to one of the endpoints. -/
inductive ApiRequest (rt : Runtime) where
  | checkSql (request : SqlRequest rt)
  | executeSql (request : SqlRequest rt)
  | checkRedis (request : RedisRequest rt)
  | executeRedis (request : RedisRequest rt)

/-- A response of one of the endpoints. -/
inductive ApiResponse where
  | sql (response : SqlDecisionResponse)
  | redis (response : RedisDecisionResponse)

/-- Serve a request. -/
def serve (env : Deployment) (db : Metadata) :
    ApiRequest env.rt → Except PyError (ApiResponse × Metadata)
  | .checkSql request => (checkSql env db request).map (Prod.map .sql id)
  | .executeSql request => (executeSql env db request).map (Prod.map .sql id)
  | .checkRedis request => (checkRedis env db request).map (Prod.map .redis id)
  | .executeRedis request => (executeRedis env db request).map (Prod.map .redis id)

/-- What a request is audited as. -/
def ApiRequest.auditRequest (env : Deployment) : ApiRequest env.rt → AuditRequest
  | .checkSql request => sqlAuditRequest env request
  | .executeSql request => sqlAuditRequest env request
  | .checkRedis request => redisAuditRequest env request
  | .executeRedis request => redisAuditRequest env request

/-- What a response says; a Redis response has one datasource and no rewritten statement. -/
def ApiResponse.outcome : ApiResponse → Outcome
  | .sql response => ⟨response.allowed, response.reasonCode, response.message,
      response.rewrittenSql, response.datasourceCodes⟩
  | .redis response => ⟨response.allowed, response.reasonCode, response.message, [],
      [response.datasourceCode]⟩

end SqlGatekeeper
