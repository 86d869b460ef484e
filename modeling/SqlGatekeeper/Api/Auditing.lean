import SqlGatekeeper.Api.Routes
import SqlGatekeeper.Services.RedisReturns
import SqlGatekeeper.Services.Returns

/-!
# One audit row for every request

The row is written behind check and execution, so a request is audited exactly when neither of
them raises.

* `AuditedOnce`: a request gets a response, and one row that says the same.
* `Answerable`: what a request needs to be answered.
* `auditedOnce_iff`: the first holds exactly under the second.
* `auditedOnce_not_always`: a statement whose shard value is no number is not audited.
-/

namespace SqlGatekeeper

open Py Store

variable {env : Deployment} {db : Metadata}

/-- A request gets a response and commits one new audit row that says what the response says. -/
def AuditedOnce (env : Deployment) (db : Metadata) (request : ApiRequest env.rt) : Prop :=
  ∃ response db', serve env db request = .ok (response, db') ∧
    Audited db db' (request.auditRequest env) response.outcome

/-- A response that comes is always audited. -/
theorem auditedOnce_iff_returns {request : ApiRequest env.rt} :
    AuditedOnce env db request ↔ Returns (serve env db request) := by
  refine ⟨fun ⟨response, db', h, _⟩ => ⟨_, h⟩, fun ⟨⟨response, db'⟩, h⟩ =>
    ⟨response, db', h, ?_⟩⟩
  cases request with
  | checkSql request =>
    obtain ⟨⟨r, db1⟩, h, heq⟩ := map_eq_ok.1 h
    obtain ⟨decision, -, h⟩ := bind_eq_ok.1 h
    cases h
    cases heq
    exact AuditLogService.logCheck_audited db _ decision
  | executeSql request =>
    obtain ⟨⟨r, db1⟩, h, heq⟩ := map_eq_ok.1 h
    obtain ⟨decision, -, h⟩ := bind_eq_ok.1 h
    split at h
    · obtain ⟨executeResult, -, h⟩ := bind_eq_ok.1 h
      cases h
      cases heq
      exact AuditLogService.logExecute_audited db _ decision executeResult
    · cases h
      cases heq
      exact AuditLogService.logCheck_audited db _ decision
  | checkRedis request =>
    obtain ⟨⟨r, db1⟩, h, heq⟩ := map_eq_ok.1 h
    obtain ⟨decision, -, h⟩ := bind_eq_ok.1 h
    cases h
    cases heq
    exact AuditLogService.logRedisCheck_audited db _ decision
  | executeRedis request =>
    obtain ⟨⟨r, db1⟩, h, heq⟩ := map_eq_ok.1 h
    obtain ⟨decision, -, h⟩ := bind_eq_ok.1 h
    split at h
    · obtain ⟨executeResult, -, h⟩ := bind_eq_ok.1 h
      cases h
      cases heq
      exact AuditLogService.logRedisExecute_audited db _ decision executeResult
    · cases h
      cases heq
      exact AuditLogService.logRedisCheck_audited db _ decision

/-! ## Answerable requests -/

/-- Every call an allowed command makes is answered. -/
def RedisAnswers (env : Deployment) (db : Metadata) (request : RedisRequest env.rt) : Prop :=
  ∀ decision, runRedisCheck env db request = .ok decision → decision.allowed = true →
    ∀ call ∈ (RedisGatekeeperService.execute env.rt env.settings (some db) env.redis
      env.executionMs decision).trace, env.redis.Answers call

/-- What a request needs to be answered. -/
def Answerable (env : Deployment) (db : Metadata) : ApiRequest env.rt → Prop
  | .checkSql request =>
      CheckAnswers env.rt db env.backend request.sql.1 request.routeContext.1
  | .executeSql request =>
      ExecuteAnswers env.rt db env.backend request.sql.1 request.routeContext.1
  | .checkRedis _ => True
  | .executeRedis request => RedisAnswers env db request

theorem checkSql_returns_iff (hdb : db.Constraints) (request : SqlRequest env.rt) :
    Returns (checkSql env db request) ↔
      CheckAnswers env.rt db env.backend request.sql.1 request.routeContext.1 := by
  rw [← check_returns_iff hdb request.routeContext.2, checkSql, returns_bind]
  exact and_iff_left fun _ _ => returns_ok _

theorem executeSql_returns_iff (hdb : db.Constraints) (request : SqlRequest env.rt) :
    Returns (executeSql env db request) ↔
      ExecuteAnswers env.rt db env.backend request.sql.1 request.routeContext.1 := by
  rw [← execute_returns_iff hdb request.routeContext.2 env.executionMs]
  constructor
  · intro h
    obtain ⟨⟨decision, hcheck⟩, h⟩ := returns_bind.1 h
    refine ⟨decision, hcheck, fun ha => ?_⟩
    have hrest := h decision hcheck
    rw [if_pos ha] at hrest
    exact (returns_bind.1 hrest).1
  · rintro ⟨decision, hcheck, hexec⟩
    refine (returns_bind_of_eq hcheck).2 ?_
    split
    · rename_i ha
      exact (hexec ha).bind fun _ _ => returns_ok _
    · exact returns_ok _

section Redis

variable (hdb : db.Constraints) (hjson : db.Decoded env.rt) (request : RedisRequest env.rt)

include hdb hjson

theorem checkRedis_returns : Returns (checkRedis env db request) :=
  (RedisGatekeeperService.check_returns hdb.datasourceCode hjson request.redisContext.2 _ _).bind
    fun _ _ => returns_ok _

theorem executeRedis_returns_iff :
    Returns (executeRedis env db request) ↔ RedisAnswers env db request := by
  obtain ⟨decision, hcheck⟩ : Returns (runRedisCheck env db request) :=
    RedisGatekeeperService.check_returns hdb.datasourceCode hjson request.redisContext.2 _ _
  have hanswers : RedisAnswers env db request ↔ (decision.allowed = true →
      ∀ call ∈ (RedisGatekeeperService.execute env.rt env.settings (some db) env.redis
        env.executionMs decision).trace, env.redis.Answers call) := by
    refine ⟨fun h ha => h decision hcheck ha, fun h other hother ha => ?_⟩
    obtain rfl := Except.ok.inj (hcheck.symm.trans hother)
    exact h ha
  rw [hanswers, executeRedis, returns_bind_of_eq hcheck]
  by_cases ha : decision.allowed = true
  · rw [if_pos ha, returns_bind, ← RedisGatekeeperService.execute_returns_iff hdb.datasourceCode
      hcheck ha]
    exact ⟨fun h _ => h.1, fun h => ⟨h ha, fun _ _ => returns_ok _⟩⟩
  · rw [if_neg ha]
    exact ⟨fun _ h => absurd h ha, fun _ => returns_ok _⟩

end Redis

/-- A request is audited exactly once, with the outcome it is answered with, exactly when it is
answerable: a Redis check always; a Redis command when its calls are answered; a statement when
its limit is read, the tables it comes to are looked up and routed, and its plans, and its result,
are read without an exception. -/
theorem auditedOnce_iff (env : Deployment) (db : Metadata) (hdb : db.Constraints)
    (hjson : db.Decoded env.rt) (request : ApiRequest env.rt) :
    AuditedOnce env db request ↔ Answerable env db request := by
  rw [auditedOnce_iff_returns]
  cases request with
  | checkSql request => exact returns_map.trans (checkSql_returns_iff hdb request)
  | executeSql request => exact returns_map.trans (executeSql_returns_iff hdb request)
  | checkRedis request =>
    exact returns_map.trans (iff_true_intro (checkRedis_returns hdb hjson request))
  | executeRedis request => exact returns_map.trans (executeRedis_returns_iff hdb hjson request)

/-! ## A request that is lost -/

/-- The servers answer every statement and every call. -/
structure Deployment.Healthy (env : Deployment) : Prop where
  tableRows : ∀ d name, Returns (env.backend.tableRows d name)
  countRows : ∀ d sql, Returns (env.backend.countRows d sql)
  explain : ∀ d sql, Returns (env.backend.explain d sql)
  query : ∀ d sql, Returns (env.backend.query d sql)
  redis : ∀ call, env.redis.Answers call

/-- A deployment on the example's servers. -/
def exampleDeployment : Deployment :=
  ⟨asciiRuntime, RedisGatekeeperService.exampleSettings, exampleBackend,
    RedisGatekeeperService.exampleServer, 0⟩

theorem exampleDeployment_healthy : exampleDeployment.Healthy where
  tableRows _ _ := returns_ok _
  countRows _ _ := returns_ok _
  explain _ _ := returns_ok _
  query _ _ := returns_ok _
  redis call := by
    rw [RedisServer.Answers]
    split <;> exact returns_ok _

theorem exampleMetadata_decoded : exampleMetadata.Decoded asciiRuntime :=
  List.forall_mem_singleton.2 rfl

/-- A request for the example's statement. -/
def exampleRequest : SqlRequest asciiRuntime :=
  ⟨⟨"r1", by decide⟩, ⟨"alice", by decide⟩, ⟨[], by decide⟩,
    ⟨SqlCheckService.exampleSql, by decide⟩, ⟨[], rfl⟩⟩

/-- A request for a shard whose key is no number. -/
def lostRequest : SqlRequest asciiRuntime :=
  { exampleRequest with sql := ⟨"select * from user where uid = 'abc' limit 1", by decide⟩ }

/-- The example's statement is executed and audited, so it is answerable. -/
theorem auditedOnce_iff_example : Answerable exampleDeployment exampleMetadata
    (.executeSql exampleRequest) := by
  refine (auditedOnce_iff exampleDeployment exampleMetadata exampleMetadata_constraints
    exampleMetadata_decoded _).1 (auditedOnce_iff_returns.2 ?_)
  obtain ⟨answer, h, -⟩ := map_eq_ok.1 (by decide +kernel :
    (serve exampleDeployment exampleMetadata (.executeSql exampleRequest)).map (fun _ => ()) =
      .ok ())
  exact ⟨answer, h⟩

/-- `uid` is a shard key, and `'abc'` is no number: `int` raises in the rule of the table, on
servers without a fault, and the request is not audited. -/
theorem auditedOnce_not_always : exampleDeployment.Healthy ∧ exampleMetadata.Constraints ∧
    exampleMetadata.Decoded exampleDeployment.rt ∧
    ¬ AuditedOnce exampleDeployment exampleMetadata (.checkSql lostRequest) := by
  refine ⟨exampleDeployment_healthy, exampleMetadata_constraints, exampleMetadata_decoded,
    fun h => ?_⟩
  have herror := map_eq_error.1 (by decide +kernel :
    (serve exampleDeployment exampleMetadata (.checkSql lostRequest)).map (fun _ => ()) =
      .error .valueError)
  exact (auditedOnce_iff_returns.1 h).ne_error _ herror

end SqlGatekeeper
