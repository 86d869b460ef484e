import SqlGatekeeper.Services.Precheck
import SqlGatekeeper.Services.FilterChain

/-!
# The SQL check

`SqlCheckService.check` puts the stages together: guard, parser, route resolution, rewriter
and filter chain.

* `check`: the check, for any evaluator of plans.
* `check_allowed_iff`: the run behind an allowed check.
* `AllowConditions`: the eight conditions of an allowed check, in terms of the statement
  and the metadata; `check_exact`: a check allows exactly under these, guard and parser
  agree, and nothing between the stages fails.
-/

namespace SqlGatekeeper

open Py Store Pipeline

/-- The outcome of a check. -/
structure CheckResult where
  allowed : Bool
  reasonCode : Str
  message : Str
  parsedSql : Option ParsedSql
  rewrittenSql : Str
  logicalTables : List Str
  physicalTables : List Str
  datasourceCodes : List Str
  explainSummaries : List ExplainPlanSummary
  routeDiagnostics : List RouteDiagnostic

/-- The rewrite plans of a decision's targets. -/
def RouteDecision.rewritePlans (decision : RouteDecision) : List TableRewritePlan :=
  decision.targets.filterMap (·.rewritePlan)

/-- The context the filters start with. -/
def freshContext (sql : Str) (routeContext : JsonDict) (parsed : ParsedSql)
    (decision : RouteDecision) : FilterContext where
  sql
  routeContext
  parsedSql := parsed
  rewrittenSql := rewrite parsed decision.rewritePlans
  routeDecision := decision
  policy := none
  datasources := []
  explainSummaries := []

/-- The result of a check that has reached the filters. -/
def filteredResult (allowed : Bool) (reasonCode message : Str) (parsed : ParsedSql)
    (decision : RouteDecision) (explainSummaries : List ExplainPlanSummary) : CheckResult where
  allowed
  reasonCode
  message
  parsedSql := some parsed
  rewrittenSql := rewrite parsed decision.rewritePlans
  logicalTables := decision.targets.map (·.logicalTableName)
  physicalTables := decision.targets.map (·.physicalTableName)
  datasourceCodes := decision.targets.map (·.datasourceCode)
  explainSummaries
  routeDiagnostics := decision.diagnostics

namespace SqlCheckService

section Check

variable (rt : Runtime) (db : Metadata) (evaluate : Evaluator) (sql : Str)
  (routeContext : JsonDict)

/-- `SqlCheckService.check`, for the evaluator of the last filter. -/
def check : Except PyError CheckResult :=
  let guardDecision := BasicSqlGuard.evaluate rt.toUnicodeData sql
  if guardDecision.allowed = false then
    .ok {
      allowed := false
      reasonCode := guardDecision.reasonCode
      message := guardDecision.message
      parsedSql := none
      rewrittenSql := []
      logicalTables := []
      physicalTables := []
      datasourceCodes := []
      explainSummaries := []
      routeDiagnostics := [] }
  else do
    let parsed ← parse rt sql
    let routeDecision ← resolve rt db parsed routeContext
    if routeDecision.allowed = false then
      pure {
        allowed := false
        reasonCode := routeDecision.reasonCode
        message := routeDecision.message
        parsedSql := some parsed
        rewrittenSql := []
        logicalTables := routeDecision.diagnostics.map (·.logicalTableName)
        physicalTables := []
        datasourceCodes := []
        explainSummaries := []
        routeDiagnostics := routeDecision.diagnostics }
    else do
      let (filterDecision, context) ← FilterChain.run (filters db evaluate)
        (freshContext sql routeContext parsed routeDecision)
      if filterDecision.allowed = false then
        pure (filteredResult false filterDecision.reasonCode filterDecision.message parsed
          routeDecision context.explainSummaries)
      else
        pure (filteredResult true "ALLOW" "SQL passed parsing, routing, rewrite, and filter checks"
          parsed routeDecision context.explainSummaries)

/-- The run behind an allowed check. -/
structure AllowedRun (parsed : ParsedSql) (decision : RouteDecision) (context : FilterContext) :
    Prop where
  guarded : (BasicSqlGuard.evaluate rt.toUnicodeData sql).allowed = true
  read : parse rt sql = .ok parsed
  resolved : resolve rt db parsed routeContext = .ok decision
  routed : decision.allowed = true
  filtered : SqlFilter.Allows (FilterChain.run (filters db evaluate))
    (freshContext sql routeContext parsed decision) context

end Check

variable {rt : Runtime} {db : Metadata} {evaluate : Evaluator} {sql : Str}
  {routeContext : JsonDict}

/-- The result of an allowed run. -/
def allowResult (parsed : ParsedSql) (decision : RouteDecision) (context : FilterContext) :
    CheckResult :=
  filteredResult true "ALLOW" "SQL passed parsing, routing, rewrite, and filter checks" parsed
    decision context.explainSummaries

/-- An allowed run has read and resolved what the parser and the router return. -/
theorem AllowedRun.eq_of_ok {parsed parsed' : ParsedSql} {decision decision' : RouteDecision}
    {context : FilterContext}
    (hrun : AllowedRun rt db evaluate sql routeContext parsed decision context)
    (hparsed : parse rt sql = .ok parsed')
    (hdecision : resolve rt db parsed' routeContext = .ok decision') :
    parsed' = parsed ∧ decision' = decision := by
  obtain rfl : parsed = parsed' := Except.ok.inj (hrun.read.symm.trans hparsed)
  exact ⟨rfl, Except.ok.inj (hdecision.symm.trans hrun.resolved)⟩

/-- A check allows exactly when it has gone through all stages. -/
theorem check_allowed_iff {result : CheckResult} :
    check rt db evaluate sql routeContext = .ok result ∧ result.allowed = true ↔
      ∃ parsed decision context, AllowedRun rt db evaluate sql routeContext parsed decision
        context ∧ result = allowResult parsed decision context := by
  constructor
  · rintro ⟨h, ha⟩
    rw [check] at h
    split at h
    · injection h with h
      subst h
      exact absurd ha (by simp)
    rename_i hguard
    obtain ⟨parsed, hparsed, h⟩ := bind_eq_ok.1 h
    obtain ⟨decision, hdecision, h⟩ := bind_eq_ok.1 h
    split at h
    · injection h with h
      subst h
      exact absurd ha (by simp)
    rename_i hrouted
    obtain ⟨⟨verdict, context⟩, hrun, h⟩ := bind_eq_ok.1 h
    simp only at h
    split at h
    · injection h with h
      subst h
      exact absurd ha (by simp [filteredResult])
    rename_i hverdict
    injection h with h
    exact ⟨parsed, decision, context, ⟨by simpa using hguard, hparsed, hdecision,
      by simpa using hrouted, verdict, hrun, by simpa using hverdict⟩, h.symm⟩
  · rintro ⟨parsed, decision, context, h, rfl⟩
    obtain ⟨verdict, hrun, hverdict⟩ := h.filtered
    refine ⟨?_, rfl⟩
    rw [check, if_neg (by simp [h.guarded])]
    refine bind_eq_ok.2 ⟨parsed, h.read, bind_eq_ok.2 ⟨decision, h.resolved, ?_⟩⟩
    rw [if_neg (by simp [h.routed])]
    refine bind_eq_ok.2 ⟨(verdict, context), hrun, ?_⟩
    simp only at hverdict ⊢
    rw [if_neg (by simp [hverdict])]
    rfl

/-- An allowed run has come to an acceptable context. -/
theorem AllowedRun.acceptable {parsed : ParsedSql} {decision : RouteDecision}
    {context : FilterContext}
    (h : AllowedRun rt db evaluate sql routeContext parsed decision context) :
    ∃ policy, (freshContext sql routeContext parsed decision).Acceptable db evaluate policy :=
  (FilterChain.run_allows_iff rfl).1 ⟨context, h.filtered⟩

/-! ## Exceptions -/

/-- The chain raises only what the evaluator raises: the targets, the policy and the
datasources that a filter reads are there. -/
theorem run_eq_error (hdb : db.Unambiguous) {parsed : ParsedSql} {decision : RouteDecision}
    (hne : decision.targets ≠ []) {e : PyError}
    (h : FilterChain.run (filters db evaluate) (freshContext sql routeContext parsed decision) =
      .error e) : ∃ d q t p, evaluate d q t p = .error e := by
  have hfresh : PhysicalTableValidateFilter.Loaded db
      (freshContext sql routeContext parsed decision).datasources := by
    intro code d h
    exact absurd h (by simp [freshContext])
  rcases runChain_cons_eq_error h with he | ⟨c1, h1, r1⟩
  · exact absurd he ((PolicyLoadFilter.returns (hdb.policy _) hne).ne_error e)
  obtain ⟨-, p, -, rfl⟩ := PolicyLoadFilter.allows_iff.1 h1
  rcases runChain_cons_eq_error r1 with he | ⟨c2, h2, r2⟩
  · exact absurd he ((PhysicalTableValidateFilter.applyTo_returns hdb.datasource _ _).ne_error e)
  obtain ⟨-, heq, -, hsome⟩ := PhysicalTableValidateFilter.applyTo_allows (c :=
    { freshContext sql routeContext parsed decision with policy := some p }) hfresh h2
  have hpol : c2.policy = some p := by rw [heq]
  have hdec : c2.routeDecision = decision := by rw [heq]; rfl
  rcases runChain_cons_eq_error r2 with he | ⟨c3, h3, r3⟩
  · exact absurd he ((SqlTypeFilter.returns hpol).ne_error e)
  obtain ⟨-, rfl⟩ := (SqlTypeFilter.allows_iff hpol).1 h3
  rcases runChain_cons_eq_error r3 with he | ⟨c4, h4, r4⟩
  · exact absurd he (CrossDatasourceFilter.returns.ne_error e)
  obtain ⟨-, rfl⟩ := CrossDatasourceFilter.allows_iff.1 h4
  rcases runChain_cons_eq_error r4 with he | ⟨c5, h5, r5⟩
  · exact absurd he ((LimitFilter.returns hpol).ne_error e)
  obtain ⟨-, -, rfl⟩ := (LimitFilter.allows_iff hpol).1 h5
  rcases runChain_cons_eq_error r5 with he | ⟨c6, -, r6⟩
  · rw [ExplainRiskFilter.apply, hpol] at he
    obtain ⟨t, -, d, he⟩ := ExplainRiskFilter.applyTo_eq_error (by rw [hdec]; exact hsome) he
    exact ⟨d, _, _, _, he⟩
  · exact absurd r6 runChain_nil_ne_error

/-- A check raises what the parser, the resolution or the evaluator raises. -/
theorem check_eq_error (hdb : db.Unambiguous) {e : PyError}
    (h : check rt db evaluate sql routeContext = .error e) :
    parse rt sql = .error e ∨
      (∃ parsed, parse rt sql = .ok parsed ∧ resolve rt db parsed routeContext = .error e) ∨
      ∃ d q t p, evaluate d q t p = .error e := by
  rw [check] at h
  split at h
  · exact absurd h (by simp)
  rcases bind_eq_error.1 h with h | ⟨parsed, hparsed, h⟩
  · exact Or.inl h
  rcases bind_eq_error.1 h with h | ⟨decision, hdecision, h⟩
  · exact Or.inr (Or.inl ⟨parsed, hparsed, h⟩)
  split at h
  · exact absurd h (by simp [pure, Except.pure])
  rename_i hrouted
  rcases bind_eq_error.1 h with h | ⟨⟨verdict, context⟩, -, h⟩
  · exact Or.inr (Or.inr (run_eq_error hdb
      (resolve_targets_ne_nil hdecision (by simpa using hrouted)) h))
  · simp only at h
    split at h <;> exact absurd h (by simp [pure, Except.pure])

theorem intOf_eq_error {U : UnicodeData} {limit : Nat} {s : Str} {e : PyError}
    (h : intOf U limit s = .error e) : e = .valueError := by
  rw [intOf] at h
  split at h
  · injection h with h
    exact h.symm
  · split at h
    · exact absurd h (by simp)
    · injection h with h
      exact h.symm

/-- The parser raises only on a limit with too many digits. -/
theorem parse_eq_error {e : PyError} (h : parse rt sql = .error e) : e = .valueError := by
  rcases bind_eq_error.1 h with h | ⟨v, -, h⟩
  · rw [parseLimitValue] at h
    split at h
    · exact absurd h (by simp)
    · split at h <;> exact intOf_eq_error (map_eq_error.1 h)
  · exact absurd h (by simp [pure, Except.pure])

/-! ## The gate -/

/-- The conditions under which a check comes to the plans. -/
structure PlanConditions (rt : Runtime) (db : Metadata) (sql : Str) (routeContext : JsonDict)
    (parsed : ParsedSql) (decision : RouteDecision) (policy : PolicySet) : Prop where
  guarded : (BasicSqlGuard.evaluate rt.toUnicodeData sql).allowed = true
  read : parse rt sql = .ok parsed
  resolved : resolve rt db parsed routeContext = .ok decision
  routed : decision.allowed = true
  policyEnabled : policy ∈ db.policies.rows ∧ policy.policyCode = "default_select_guard" ∧
    policy.enabled = true
  datasources : ∀ t ∈ decision.targets, ∃ d ∈ db.datasources.rows,
    d.datasourceCode = t.datasourceCode ∧ d.enabled = true
  sqlType : policy.allowsSqlType parsed.sqlType = true
  oneDatasource : ∀ t ∈ decision.targets, ∀ u ∈ decision.targets,
    t.datasourceCode = u.datasourceCode
  limitPresent : policy.requireLimit = true → parsed.hasLimit = true
  limitValue : ∀ n, parsed.limitValue = some n → n ≤ policy.maxLimit

/-- The conditions of an allowed check. -/
structure AllowConditions (rt : Runtime) (db : Metadata) (evaluate : Evaluator) (sql : Str)
    (routeContext : JsonDict) (parsed : ParsedSql) (decision : RouteDecision)
    (policy : PolicySet) : Prop extends
    PlanConditions rt db sql routeContext parsed decision policy where
  explain : ∀ t ∈ decision.targets, ∀ d ∈ db.datasources.rows,
    d.datasourceCode = t.datasourceCode → d.enabled = true →
    ∃ e, evaluate d (rewrite parsed decision.rewritePlans) t.physicalTableName policy = .ok e ∧
      e.allowed = true

theorem allowConditions_of_run (hdatasource : ∀ code, Returns (db.getEnabledByCode code))
    {parsed : ParsedSql} {decision : RouteDecision} {context : FilterContext}
    (h : AllowedRun rt db evaluate sql routeContext parsed decision context) :
    ∃ policy, AllowConditions rt db evaluate sql routeContext parsed decision policy := by
  obtain ⟨policy, ha⟩ := h.acceptable
  refine ⟨policy, ⟨h.guarded, h.read, h.resolved, h.routed,
    Metadata.getEnabledPolicyByCode_eq_some ha.policyEnabled, fun t ht => ?_, ha.sqlType,
    ha.oneDatasource, ha.limitPresent, ha.limitValue⟩, fun t ht d hd hcode henabled => ?_⟩
  · obtain ⟨d, hd⟩ := ha.datasources t ht
    exact ⟨d, Metadata.getEnabledByCode_eq_some hd⟩
  · exact ha.explain t ht d (hcode ▸ Metadata.getEnabledByCode_of_mem hdatasource hd henabled)

/-- A check that comes to the plans has an explainable context. -/
theorem PlanConditions.explainable (hpolicy : ∀ code, Returns (db.getEnabledPolicyByCode code))
    (hdatasource : ∀ code, Returns (db.getEnabledByCode code)) {parsed : ParsedSql}
    {decision : RouteDecision} {policy : PolicySet}
    (h : PlanConditions rt db sql routeContext parsed decision policy) :
    (freshContext sql routeContext parsed decision).Explainable db policy := by
  obtain ⟨hp, hcode, henabled⟩ := h.policyEnabled
  have hpolicy := Metadata.getEnabledPolicyByCode_of_mem hpolicy hp henabled
  rw [hcode] at hpolicy
  refine ⟨resolve_targets_ne_nil h.resolved h.routed, hpolicy, fun t ht => ?_, h.sqlType,
    h.oneDatasource, h.limitPresent, h.limitValue⟩
  obtain ⟨d, hd, hdc, hde⟩ := h.datasources t ht
  exact ⟨d, hdc ▸ Metadata.getEnabledByCode_of_mem hdatasource hd hde⟩

theorem AllowConditions.run (hpolicy : ∀ code, Returns (db.getEnabledPolicyByCode code))
    (hdatasource : ∀ code, Returns (db.getEnabledByCode code)) {parsed : ParsedSql}
    {decision : RouteDecision} {policy : PolicySet}
    (h : AllowConditions rt db evaluate sql routeContext parsed decision policy) :
    ∃ context, AllowedRun rt db evaluate sql routeContext parsed decision context := by
  have hacc : (freshContext sql routeContext parsed decision).Acceptable db evaluate policy := by
    refine ⟨h.explainable hpolicy hdatasource, fun t ht d hd => ?_⟩
    obtain ⟨hmem, hdc, hde⟩ := Metadata.getEnabledByCode_eq_some hd
    exact h.explain t ht d hmem hdc hde
  obtain ⟨context, hrun⟩ := (FilterChain.run_allows_iff rfl).2 ⟨policy, hacc⟩
  exact ⟨context, h.guarded, h.read, h.resolved, h.routed, hrun⟩

/-- The gate is fail-closed and exact: a check allows exactly under the conditions above;
guard and parser agree on what the guard allows; and a check that raises has met a number
that `int` or `str` refuses, or passes on what the evaluator raised: the accesses between the
stages (the first target, the policy, the datasources) never fail. -/
theorem check_exact (rt : Runtime) (db : Metadata) (evaluate : Evaluator) (sql : Str)
    (routeContext : JsonDict) (hdb : db.Unambiguous)
    (hrules : ∀ parsed, parse rt sql = .ok parsed → RulesEvaluate rt db parsed routeContext) :
    ((∃ result, check rt db evaluate sql routeContext = .ok result ∧ result.allowed = true) ↔
      ∃ parsed decision policy,
        AllowConditions rt db evaluate sql routeContext parsed decision policy) ∧
    (∀ parsed, (BasicSqlGuard.evaluate rt.toUnicodeData sql).allowed = true →
      parse rt sql = .ok parsed → parsed.sqlType = "select" ∧
        parsed.isMultiStatement = false) ∧
    (∀ e, check rt db evaluate sql routeContext = .error e →
      e = .valueError ∨ ∃ d q t p, evaluate d q t p = .error e) := by
  refine ⟨⟨?_, ?_⟩, fun parsed => BasicSqlGuard.parse_of_evaluate_allowed, fun e he => ?_⟩
  · rintro ⟨result, hresult⟩
    obtain ⟨parsed, decision, context, hrun, -⟩ := check_allowed_iff.1 hresult
    obtain ⟨policy, h⟩ := allowConditions_of_run hdb.datasource hrun
    exact ⟨parsed, decision, policy, h⟩
  · rintro ⟨parsed, decision, policy, h⟩
    obtain ⟨context, hrun⟩ := h.run hdb.policy hdb.datasource
    exact ⟨_, check_allowed_iff.2 ⟨parsed, decision, context, hrun, rfl⟩⟩
  · rcases check_eq_error hdb he with h | ⟨parsed, hparsed, h⟩ | h
    · exact Or.inl (parse_eq_error h)
    · exact Or.inl (resolve_eq_error hdb (hrules parsed hparsed) h)
    · exact Or.inr h

/-- An evaluator that accepts every plan. -/
def acceptPlans : Evaluator := fun _ _ _ _ => .ok ⟨true, "ALLOW", "Explain plan passed", none⟩

/-- A statement on the example's logical table. -/
def exampleSql : Str := "select * from user where uid = 3 limit 10"

/-- What the parser reads in it. -/
def exampleParsed : ParsedSql :=
  ⟨exampleSql, "select", [⟨"user", some "where", 14, 18⟩], [⟨none, "uid", "3"⟩], true,
    some 10, false⟩

theorem parse_exampleSql : parse asciiRuntime exampleSql = .ok exampleParsed := by decide +kernel

theorem rulesEvaluate_example :
    RulesEvaluate asciiRuntime exampleMetadata exampleParsed [] := by
  intro table ht logicalTable routeRule values htable hrule hvalues
  rw [show table = ⟨"user", some "where", 14, 18⟩ from by simpa [exampleParsed] using ht]
    at htable hvalues
  have h1 : exampleMetadata.getEnabledByName "user" = .ok (some exampleTable) := rfl
  obtain rfl : exampleTable = logicalTable := by simpa using h1.symm.trans htable
  have h2 : exampleMetadata.getEnabledByLogicalTable exampleTable.id = .ok (some exampleRule) := rfl
  obtain rfl : exampleRule = routeRule := by simpa using h2.symm.trans hrule
  have h3 : extractFactors (factorValue asciiRuntime exampleMetadata exampleTable exampleParsed
      ⟨"user", some "where", 14, 18⟩ [])
      (exampleMetadata.listRequiredEnabledByLogicalTable exampleTable.id) [] [] =
        .ok ([("uid", "3")], []) := by decide +kernel
  obtain rfl : [("uid".toList, "3".toList)] = values := by
    simpa using h3.symm.trans hvalues
  exact ⟨"1", by decide +kernel⟩

/-- The statement passes the gate, so the conditions hold of it. -/
theorem check_exact_example : ∃ parsed decision policy,
    AllowConditions asciiRuntime exampleMetadata acceptPlans exampleSql [] parsed decision
      policy := by
  have hallowed : (check asciiRuntime exampleMetadata acceptPlans exampleSql []).map (·.allowed) =
      .ok true := by decide +kernel
  obtain ⟨result, hresult, ha⟩ := map_eq_ok.1 hallowed
  refine (check_exact asciiRuntime exampleMetadata acceptPlans exampleSql []
    exampleMetadata_unambiguous fun parsed hparsed => ?_).1.1 ⟨result, hresult, ha⟩
  obtain rfl : exampleParsed = parsed := by simpa using parse_exampleSql.symm.trans hparsed
  exact rulesEvaluate_example

end SqlCheckService

end SqlGatekeeper
