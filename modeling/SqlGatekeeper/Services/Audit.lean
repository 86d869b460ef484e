import SqlGatekeeper.Services.Executor
import SqlGatekeeper.Services.RedisGatekeeper

/-!
# The audit log

`AuditLogService` writes one row for each request that has an outcome.

* `AuditRequest`: who asks, and what.
* `logCheck`, `logExecute`, `logRedisCheck`, `logRedisExecute`: the metadata with the new row.
* `Audited`: one row was appended, and it says what was answered; `logCheck_audited`, …: all
  four do that.
-/

namespace SqlGatekeeper

open Py Store

/-- Who asks, and what. -/
structure AuditRequest where
  requestId : Str
  operator : Str
  scene : Str
  sql : Str
  routeContext : JsonDict

/-- What an answer says about its request. -/
structure Outcome where
  allowed : Bool
  reasonCode : Str
  message : Str
  rewrittenSql : Str
  datasourceCodes : List Str

/-- A summary's `__dict__`. -/
def ExplainPlanSummary.toJson (summary : ExplainPlanSummary) : Json :=
  .dict [
    ("access_type", .str summary.accessType),
    ("key", match summary.key with
      | some key => .str key
      | none => .null),
    ("rows_examined", .int summary.rowsExamined),
    ("extra", .str summary.extra),
    ("table_name", .str summary.tableName),
    ("estimated_table_rows", .int summary.estimatedTableRows)]

namespace AuditLogService

variable (db : Metadata) (request : AuditRequest)

/-- The row of a check. -/
def logCheck (checkResult : CheckResult) : Metadata :=
  db.addAuditLog {
    id := 0
    requestId := request.requestId
    operator := request.operator
    scene := request.scene
    originalSql := request.sql
    rewrittenSql := checkResult.rewrittenSql
    logicalTables := checkResult.logicalTables
    physicalTables := checkResult.physicalTables
    datasourceCodes := checkResult.datasourceCodes
    decision := if checkResult.allowed then "ALLOW" else "REJECT"
    reasonCode := checkResult.reasonCode
    reasonDetail := checkResult.message
    executionMs := 0
    explainSummary := .dict [("plans", .list (checkResult.explainSummaries.map (·.toJson)))] }

/-- The row of a check and its execution. -/
def logExecute (checkResult : CheckResult) (executeResult : ExecuteResult) : Metadata :=
  db.addAuditLog {
    id := 0
    requestId := request.requestId
    operator := request.operator
    scene := request.scene
    originalSql := request.sql
    rewrittenSql := checkResult.rewrittenSql
    logicalTables := checkResult.logicalTables
    physicalTables := checkResult.physicalTables
    datasourceCodes := checkResult.datasourceCodes
    decision := if executeResult.allowed then "EXECUTED" else "REJECT"
    reasonCode := executeResult.reasonCode
    reasonDetail := executeResult.message
    executionMs := executeResult.executionMs
    explainSummary := .dict [("plans", .list (checkResult.explainSummaries.map (·.toJson)))] }

/-- The row of a Redis check. -/
def logRedisCheck (decision : RedisDecision) : Metadata :=
  db.addAuditLog {
    id := 0
    requestId := request.requestId
    operator := request.operator
    scene := request.scene
    originalSql := request.sql
    rewrittenSql := []
    logicalTables := []
    physicalTables := []
    datasourceCodes := [decision.datasourceCode]
    decision := if decision.allowed then "ALLOW" else "REJECT"
    reasonCode := decision.reasonCode
    reasonDetail := decision.message
    executionMs := 0
    explainSummary := .dict [("redis_diagnostics", .list decision.diagnostics)] }

/-- The row of a Redis check and its execution. -/
def logRedisExecute (decision : RedisDecision) (executeResult : RedisExecuteResult) : Metadata :=
  db.addAuditLog {
    id := 0
    requestId := request.requestId
    operator := request.operator
    scene := request.scene
    originalSql := request.sql
    rewrittenSql := []
    logicalTables := []
    physicalTables := []
    datasourceCodes := [decision.datasourceCode]
    decision := if executeResult.allowed then "EXECUTED" else "REJECT"
    reasonCode := executeResult.reasonCode
    reasonDetail := executeResult.message
    executionMs := executeResult.executionMs
    explainSummary := .dict [("redis_diagnostics", .list decision.diagnostics)] }

end AuditLogService

/-! ## One row -/

/-- A row says what was answered. -/
structure RequestAuditLog.Records (row : RequestAuditLog) (request : AuditRequest)
    (outcome : Outcome) : Prop where
  requestId : row.requestId = request.requestId
  originalSql : row.originalSql = request.sql
  decision : row.decision = "REJECT" ↔ outcome.allowed = false
  reasonCode : row.reasonCode = outcome.reasonCode
  reasonDetail : row.reasonDetail = outcome.message
  rewrittenSql : row.rewrittenSql = outcome.rewrittenSql
  datasourceCodes : row.datasourceCodes = outcome.datasourceCodes

/-- One row was appended to the audit log, under a new id, and it says what was answered; nothing
else has changed. -/
def Audited (db db' : Metadata) (request : AuditRequest) (outcome : Outcome) : Prop :=
  ∃ row : RequestAuditLog, row.id = db.auditLogs.nextId ∧ row.Records request outcome ∧
    db' = { db with auditLogs := ⟨db.auditLogs.rows ++ [row], db.auditLogs.nextId + 1⟩ }

/-- A row whose decision is one of two words records the outcome it is made of. -/
theorem decision_eq_reject_iff {allowed : Bool} {word : Str} (hword : word ≠ "REJECT") :
    (if allowed then word else "REJECT") = "REJECT" ↔ allowed = false := by
  cases allowed
  · exact ⟨fun _ => rfl, fun _ => rfl⟩
  · exact ⟨fun h => absurd h hword, fun h => absurd h (by decide)⟩

namespace AuditLogService

variable (db : Metadata) (request : AuditRequest)

theorem logCheck_audited (checkResult : CheckResult) :
    Audited db (logCheck db request checkResult) request ⟨checkResult.allowed,
      checkResult.reasonCode, checkResult.message, checkResult.rewrittenSql,
      checkResult.datasourceCodes⟩ :=
  ⟨_, rfl, ⟨rfl, rfl, decision_eq_reject_iff (by decide), rfl, rfl, rfl, rfl⟩, rfl⟩

theorem logExecute_audited (checkResult : CheckResult) (executeResult : ExecuteResult) :
    Audited db (logExecute db request checkResult executeResult) request ⟨executeResult.allowed,
      executeResult.reasonCode, executeResult.message, checkResult.rewrittenSql,
      checkResult.datasourceCodes⟩ :=
  ⟨_, rfl, ⟨rfl, rfl, decision_eq_reject_iff (by decide), rfl, rfl, rfl, rfl⟩, rfl⟩

theorem logRedisCheck_audited (decision : RedisDecision) :
    Audited db (logRedisCheck db request decision) request ⟨decision.allowed,
      decision.reasonCode, decision.message, [], [decision.datasourceCode]⟩ :=
  ⟨_, rfl, ⟨rfl, rfl, decision_eq_reject_iff (by decide), rfl, rfl, rfl, rfl⟩, rfl⟩

theorem logRedisExecute_audited (decision : RedisDecision) (executeResult : RedisExecuteResult) :
    Audited db (logRedisExecute db request decision executeResult) request ⟨executeResult.allowed,
      executeResult.reasonCode, executeResult.message, [], [decision.datasourceCode]⟩ :=
  ⟨_, rfl, ⟨rfl, rfl, decision_eq_reject_iff (by decide), rfl, rfl, rfl, rfl⟩, rfl⟩

end AuditLogService

end SqlGatekeeper
