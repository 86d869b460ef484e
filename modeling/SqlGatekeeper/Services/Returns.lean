import SqlGatekeeper.Services.Executor

/-!
# When a check returns

The services do not catch exceptions: a check that meets one has no result.

* `TableAnswers`: what a table needs for its lookups and its rule not to raise;
  `resolve_returns_iff`: a resolution returns when every table it comes to does.
* `PlanAnswers`: what a target needs for its plan to be read; `run_returns_iff`: the filters
  return when every target they come to does.
* `CheckAnswers`, `ExecuteAnswers`: both together, in terms of statement, metadata and
  servers; `check_returns_iff`, `execute_returns_iff`.
-/

namespace SqlGatekeeper

open Py Store Pipeline

/-! ## Tables -/

section Tables

variable {rt : Runtime} {db : Metadata} {parsed : ParsedSql} {routeContext : JsonDict}

/-- The lookups of a table and the rule of its logical table do not raise: no two enabled routes
have its name; and if none has, its logical table has at most one enabled rule, and the rule
evaluates on the extracted values when no factor is missing. -/
structure TableAnswers (rt : Runtime) (db : Metadata) (parsed : ParsedSql)
    (routeContext : JsonDict) (table : ParsedTable) : Prop where
  route : Returns (db.getEnabledByPhysicalTableName table.tableName)
  rule : ∀ logicalTable, db.getEnabledByPhysicalTableName table.tableName = .ok none →
    db.getEnabledByName table.tableName = .ok (some logicalTable) →
    Returns (db.getEnabledByLogicalTable logicalTable.id)
  value : ∀ logicalTable routeRule values,
    db.getEnabledByPhysicalTableName table.tableName = .ok none →
    db.getEnabledByName table.tableName = .ok (some logicalTable) →
    db.getEnabledByLogicalTable logicalTable.id = .ok (some routeRule) →
    extractFactors (factorValue rt db logicalTable parsed table routeContext)
      (db.listRequiredEnabledByLogicalTable logicalTable.id) [] [] = .ok (values, []) →
    Returns (evaluateRouteRule rt routeRule values)

/-- The resolution finds a target for a table, and goes on. -/
def HasTarget (rt : Runtime) (db : Metadata) (parsed : ParsedSql) (routeContext : JsonDict)
    (table : ParsedTable) : Prop :=
  ∃ target diagnostic,
    resolveTable rt db parsed routeContext table = .ok (.target target diagnostic)

theorem extractFactorValue_returns (hctx : Json.intsFitDict rt.digitsFit routeContext = true)
    (factor : RouteFactorDef) (table : ParsedTable) :
    Returns (extractFactorValue rt factor parsed table routeContext) := by
  simp only [extractFactorValue]
  split_ifs
  · exact returns_ok _
  · exact returns_ok _
  · split
    · exact returns_ok _
    · exact returns_map.2 (rt.strJson_returns (Json.intsFit_get hctx _))
  · exact returns_ok _
  · exact returns_ok _

theorem factorValue_returns (hctx : Json.intsFitDict rt.digitsFit routeContext = true)
    (logicalTable : LogicalTable) (table : ParsedTable) (factor : RouteFactorDef) :
    Returns (factorValue rt db logicalTable parsed table routeContext factor) := by
  refine (extractFactorValue_returns hctx factor table).bind fun v _ => ?_
  split <;> exact returns_ok _

theorem extractFactors_returns {value : RouteFactorDef → Except PyError (Option Str)}
    {factors : List RouteFactorDef} (h : ∀ factor ∈ factors, Returns (value factor))
    (extracted : Env) (missing : List Str) :
    Returns (extractFactors value factors extracted missing) := by
  rcases ok_or_error (extractFactors value factors extracted missing) with hok | ⟨e, he⟩
  · exact hok
  · obtain ⟨factor, hmem, hf⟩ := extractFactors_eq_error he
    exact absurd hf ((h factor hmem).ne_error e)

section Codes

variable (hdb : db.Constraints)

include hdb

theorem buildPhysicalTarget_returns (table : ParsedTable) (physicalRoute : PhysicalTableRoute) :
    Returns (buildPhysicalTarget db table physicalRoute) := by
  refine (Metadata.getEnabledByCode_ok hdb.datasourceCode _).bind fun d _ => ?_
  cases d <;> exact returns_ok _

/-- Behind the rule nothing raises. -/
theorem resolveRoute_returns_iff {table : ParsedTable} {logicalTable : LogicalTable}
    {factors : List RouteFactorDef} {routeRule : RouteRule} {values : Env} :
    Returns (resolveRoute rt db table logicalTable factors routeRule values) ↔
      Returns (evaluateRouteRule rt routeRule values) := by
  rw [resolveRoute, returns_bind]
  refine and_iff_left_of_imp fun _ value _ => ?_
  refine (hdb.getEnabledByLogicalTableAndRouteValue_ok logicalTable.id value).bind
    fun route _ => ?_
  cases route with
  | none => exact returns_ok _
  | some route =>
    refine (Metadata.getEnabledByCode_ok hdb.datasourceCode _).bind fun d _ => ?_
    cases d <;> exact returns_ok _

/-- The loop body of a resolution returns exactly when the table answers. -/
theorem resolveTable_returns_iff (hctx : Json.intsFitDict rt.digitsFit routeContext = true)
    {table : ParsedTable} : Returns (resolveTable rt db parsed routeContext table) ↔
      TableAnswers rt db parsed routeContext table := by
  constructor
  · intro h
    obtain ⟨hroute, h⟩ := returns_bind.1 h
    have hlogical : ∀ logicalTable,
        db.getEnabledByPhysicalTableName table.tableName = .ok none →
        db.getEnabledByName table.tableName = .ok (some logicalTable) →
        Returns (resolveLogicalTable rt db parsed routeContext table logicalTable) :=
      fun logicalTable hnone hname => (returns_bind.1 (h none hnone)).2 _ hname
    refine ⟨hroute, fun logicalTable hnone hname => ?_,
      fun logicalTable routeRule values hnone hname hrule hvalues => ?_⟩
    · exact (returns_bind.1 (hlogical logicalTable hnone hname)).1
    · have hrest := (returns_bind.1 (hlogical logicalTable hnone hname)).2 _ hrule
      have hroute := (returns_bind.1 hrest).2 _ hvalues
      exact (resolveRoute_returns_iff hdb).1 hroute
  · intro h
    refine h.route.bind fun route hroute => ?_
    cases route with
    | some route =>
      refine (buildPhysicalTarget_returns hdb table route).bind fun t _ => ?_
      cases t <;> exact returns_ok _
    | none =>
      refine (hdb.getEnabledByName_ok _).bind fun logical hname => ?_
      cases logical with
      | none =>
        simp only
        split <;> exact returns_ok _
      | some logical =>
        refine (h.rule logical hroute hname).bind fun rule hrule => ?_
        cases rule with
        | none => exact returns_ok _
        | some rule =>
          refine (extractFactors_returns (fun factor _ =>
            factorValue_returns hctx logical table factor) [] []).bind fun ⟨values,
              missing⟩ hv => ?_
          simp only
          split
          · exact returns_ok _
          · rename_i hmissing
            obtain rfl := not_not.1 hmissing
            exact (resolveRoute_returns_iff hdb).2
              (h.value logical rule values hroute hname hrule hv)

/-- A resolution returns when every table it comes to answers. -/
theorem resolve_returns_iff (hctx : Json.intsFitDict rt.digitsFit routeContext = true) :
    Returns (resolve rt db parsed routeContext) ↔
      EachReached (HasTarget rt db parsed routeContext) (TableAnswers rt db parsed routeContext)
        parsed.tables := by
  have hloop : ∀ tables targets diagnostics,
      Returns (resolveTables rt db parsed routeContext tables targets diagnostics) ↔
        EachReached (HasTarget rt db parsed routeContext)
          (TableAnswers rt db parsed routeContext) tables := by
    intro tables
    induction tables with
    | nil => exact fun _ _ => ⟨fun _ => eachReached_nil, fun _ => returns_ok _⟩
    | cons table tables ih =>
      intro targets diagnostics
      rw [eachReached_cons, ← resolveTable_returns_iff hdb hctx, resolveTables, returns_bind]
      refine and_congr_right fun _ => ⟨?_, fun h outcome hout => ?_⟩
      · rintro h ⟨target, diagnostic, htarget⟩
        exact (ih _ _).1 (h _ htarget)
      · cases outcome with
        | target target diagnostic => exact (ih _ _).2 (h ⟨target, diagnostic, hout⟩)
        | reject => exact returns_ok _
  rw [resolve]
  split
  · rename_i hnil
    rw [hnil]
    exact ⟨fun _ => eachReached_nil, fun _ => returns_ok _⟩
  · exact hloop _ _ _

end Codes

end Tables

/-! ## Plans -/

section Plans

variable {db : Metadata} {evaluate : Evaluator} {c : FilterContext} {policy : PolicySet}

namespace ExplainRiskFilter

/-- The evaluator returns for a target of a context. -/
def Evaluates (evaluate : Evaluator) (policy : PolicySet) (c : FilterContext) (t : RouteTarget) :
    Prop :=
  ∀ d, c.datasources.lookup t.datasourceCode = some d →
    Returns (evaluate d c.rewrittenSql t.physicalTableName policy)

/-- The loop over the targets returns when the evaluator does for every target it comes to. -/
theorem applyTo_returns_iff {targets : List RouteTarget}
    (hc : ∀ t ∈ targets, (c.datasources.lookup t.datasourceCode).isSome = true) :
    Returns (applyTo evaluate policy targets c) ↔
      EachReached (Accepts evaluate policy c) (Evaluates evaluate policy c) targets := by
  induction targets generalizing c with
  | nil => exact ⟨fun _ => eachReached_nil, fun _ => returns_ok _⟩
  | cons t ts ih =>
    obtain ⟨d, hd⟩ := Option.isSome_iff_exists.1 (hc t List.mem_cons_self)
    have hts := fun u hu => hc u (List.mem_cons_of_mem t hu)
    have hhead : Evaluates evaluate policy c t ↔
        Returns (evaluate d c.rewrittenSql t.physicalTableName policy) := by
      refine ⟨fun h => h d hd, fun h d' hd' => ?_⟩
      obtain rfl : d = d' := Option.some.inj (hd.symm.trans hd')
      exact h
    rw [eachReached_cons, hhead, applyTo, hd]
    simp only
    rw [returns_bind]
    refine and_congr_right fun _ => ⟨?_, fun h e he => ?_⟩
    · rintro h ⟨d', e, hd', he, hallowed⟩
      obtain rfl : d = d' := Option.some.inj (hd.symm.trans hd')
      have hrest := h e he
      simp only [hallowed, if_true] at hrest
      exact (ih (c := { c with
        explainSummaries := c.explainSummaries ++ e.summary.toList }) hts).1 hrest
    · split
      · rename_i hallowed
        exact (ih (c := { c with explainSummaries := c.explainSummaries ++ e.summary.toList })
          hts).2 (h ⟨d, e, hd, he, hallowed⟩)
      · exact returns_ok _

end ExplainRiskFilter

/-- The evaluator accepts a target, on the datasource the metadata has for it. -/
def RouteTarget.Accepted (db : Metadata) (evaluate : Evaluator) (policy : PolicySet)
    (rewrittenSql : Str) (t : RouteTarget) : Prop :=
  ∃ d e, db.getEnabledByCode t.datasourceCode = .ok (some d) ∧
    evaluate d rewrittenSql t.physicalTableName policy = .ok e ∧ e.allowed = true

/-- The evaluator returns for a target, on the datasource the metadata has for it. -/
def RouteTarget.Evaluated (db : Metadata) (evaluate : Evaluator) (policy : PolicySet)
    (rewrittenSql : Str) (t : RouteTarget) : Prop :=
  ∀ d, db.getEnabledByCode t.datasourceCode = .ok (some d) →
    Returns (evaluate d rewrittenSql t.physicalTableName policy)

/-- The chain returns on a fresh context when the evaluator does for every target that the last
filter comes to. -/
theorem FilterChain.run_returns_iff (hdb : db.Constraints) (hfresh : c.datasources = [])
    (hne : c.routeDecision.targets ≠ []) :
    Returns (run (filters db evaluate) c) ↔ ∀ policy, c.Explainable db policy →
      EachReached (RouteTarget.Accepted db evaluate policy c.rewrittenSql)
        (RouteTarget.Evaluated db evaluate policy c.rewrittenSql) c.routeDecision.targets := by
  have hcodes := Metadata.getEnabledByCode_ok hdb.datasourceCode
  have hloaded : PhysicalTableValidateFilter.Loaded db c.datasources := by
    rw [hfresh]
    intro code d h
    exact absurd h (by simp)
  -- The last filter, in a context the others have left, asks what the metadata asks.
  have hlast : ∀ p c5, c5.policy = some p → c5.routeDecision = c.routeDecision →
      c5.rewrittenSql = c.rewrittenSql → PhysicalTableValidateFilter.Loaded db c5.datasources →
      (∀ t ∈ c.routeDecision.targets,
        (c5.datasources.lookup t.datasourceCode).isSome = true) →
      (Returns (ExplainRiskFilter.apply evaluate c5) ↔
        EachReached (RouteTarget.Accepted db evaluate p c.rewrittenSql)
          (RouteTarget.Evaluated db evaluate p c.rewrittenSql) c.routeDecision.targets) := by
    intro p c5 hpol hdec hsql hl hsome
    have hlook : ∀ t ∈ c.routeDecision.targets, ∀ d,
        c5.datasources.lookup t.datasourceCode = some d ↔
          db.getEnabledByCode t.datasourceCode = .ok (some d) := by
      intro t ht d
      refine ⟨hl _ _, fun hd => ?_⟩
      obtain ⟨d', hd'⟩ := Option.isSome_iff_exists.1 (hsome t ht)
      have hdd : d' = d := by simpa using (hl _ _ hd').symm.trans hd
      rw [hd', hdd]
    rw [ExplainRiskFilter.apply, hpol, hdec]
    simp only
    rw [ExplainRiskFilter.applyTo_returns_iff hsome]
    refine EachReached.congr (fun t ht => ?_) (fun t ht => ?_)
    · simp only [ExplainRiskFilter.Accepts, RouteTarget.Accepted, hlook t ht, hsql]
    · simp only [ExplainRiskFilter.Evaluates, RouteTarget.Evaluated, hlook t ht, hsql]
  simp only [run, filters, runChain_cons_returns_iff, runChain_nil_returns, implies_true, and_true]
  constructor
  · rintro ⟨-, h1⟩ p hp
    have h2 := (h1 _ (PolicyLoadFilter.allows_iff.2 ⟨hne, p, hp.policyEnabled, rfl⟩)).2
    obtain ⟨c2, ha2⟩ := PhysicalTableValidateFilter.applyTo_allows_of
      { c with policy := some p } hp.datasources
    obtain ⟨hl, heq, -, hsome⟩ := PhysicalTableValidateFilter.applyTo_allows
      (c := { c with policy := some p }) hloaded ha2
    have hpol : c2.policy = some p := by rw [heq]
    have hdec : c2.routeDecision = c.routeDecision := by rw [heq]
    have hparsed : c2.parsedSql = c.parsedSql := by rw [heq]
    have h3 := (h2 c2 ha2).2 c2
      ((SqlTypeFilter.allows_iff hpol).2 ⟨by rw [hparsed]; exact hp.sqlType, rfl⟩)
    have h4 := h3.2 c2 (CrossDatasourceFilter.allows_iff.2
      ⟨by rw [hdec]; exact hp.oneDatasource, rfl⟩)
    have h5 := h4.2 c2 ((LimitFilter.allows_iff hpol).2
      ⟨by rw [hparsed]; exact hp.limitPresent, by rw [hparsed]; exact hp.limitValue, rfl⟩)
    exact (hlast p c2 hpol hdec (by rw [heq]) hl hsome).1 h5
  · intro h
    refine ⟨PolicyLoadFilter.returns (hdb.getEnabledPolicyByCode_ok _) hne, fun c1 h1 =>
      ⟨PhysicalTableValidateFilter.applyTo_returns hcodes _ _, fun c2 h2 => ?_⟩⟩
    obtain ⟨-, p, hp, rfl⟩ := PolicyLoadFilter.allows_iff.1 h1
    obtain ⟨hl, heq, -, hsome⟩ := PhysicalTableValidateFilter.applyTo_allows
      (c := { c with policy := some p }) hloaded h2
    have hpol : c2.policy = some p := by rw [heq]
    have hdec : c2.routeDecision = c.routeDecision := by rw [heq]
    have hparsed : c2.parsedSql = c.parsedSql := by rw [heq]
    refine ⟨SqlTypeFilter.returns hpol, fun c3 h3 => ?_⟩
    obtain ⟨htype, rfl⟩ := (SqlTypeFilter.allows_iff hpol).1 h3
    refine ⟨CrossDatasourceFilter.returns, fun c4 h4 => ?_⟩
    obtain ⟨hone, rfl⟩ := CrossDatasourceFilter.allows_iff.1 h4
    refine ⟨LimitFilter.returns hpol, fun c5 h5 => ?_⟩
    obtain ⟨hlp, hlv, rfl⟩ := (LimitFilter.allows_iff hpol).1 h5
    rw [hparsed] at htype hlp hlv
    rw [hdec] at hone
    refine (hlast p c5 hpol hdec (by rw [heq]) hl hsome).2 (h p ⟨hne, hp, fun t ht => ?_, htype,
      hone, hlp, hlv⟩)
    obtain ⟨d, hd⟩ := Option.isSome_iff_exists.1 (hsome t ht)
    exact ⟨d, hl _ _ hd⟩

end Plans

/-! ## The check -/

section Check

open SqlCheckService SqlExecutionService

variable {rt : Runtime} {db : Metadata} {backend : Backend} {sql : Str} {routeContext : JsonDict}

/-- The plan of a statement can be read for a table of a datasource: the connection URL parses,
the size of the table is there or can be counted, and the client library accepts the statements
and reads the replies. -/
structure PlanAnswers (backend : Backend) (d : DatasourceInstance) (rewrittenSql name : Str) :
    Prop where
  engine : backend.engineError d = none
  size : Returns (backend.tableRows d name)
  count : ∀ n, backend.tableRows d name = .ok n → n.getD 0 ≤ 0 →
    backend.textError ("select count(*) from " ++ name) = none ∧
      Returns (backend.countRows d ("select count(*) from " ++ name))
  text : backend.textError ("EXPLAIN " ++ rewrittenSql) = none
  plan : Returns (backend.explain d ("EXPLAIN " ++ rewrittenSql))

theorem returns_proceed {o : Option PyError} : Returns (proceed o) ↔ o = none := by
  cases o <;> simp [Returns, proceed]

theorem evaluate_returns_iff {d : DatasourceInstance} {rewrittenSql name : Str}
    {policy : PolicySet} :
    Returns (ExplainRiskEvaluator.evaluate rt.toUnicodeData backend d rewrittenSql name policy) ↔
      PlanAnswers backend d rewrittenSql name := by
  have hsize : Returns (ExplainRiskEvaluator.tableRowCount backend d name) ↔
      Returns (backend.tableRows d name) ∧
        ∀ n, backend.tableRows d name = .ok n → n.getD 0 ≤ 0 →
          backend.textError ("select count(*) from " ++ name) = none ∧
            Returns (backend.countRows d ("select count(*) from " ++ name)) := by
    rw [ExplainRiskEvaluator.tableRowCount, returns_bind, returns_map]
    refine and_congr_right fun _ => ⟨fun h n hn hle => ?_, fun h rowCount hrows => ?_⟩
    · have hcount := h (n.getD 0) (map_eq_ok.2 ⟨n, hn, rfl⟩)
      rw [if_pos hle] at hcount
      obtain ⟨htext, hcount⟩ := returns_bind.1 hcount
      have htext := returns_proceed.1 htext
      exact ⟨htext, hcount () (proceed_eq_ok.2 htext)⟩
    · obtain ⟨n, hn, rfl⟩ := map_eq_ok.1 hrows
      split
      · rename_i hle
        obtain ⟨htext, hcount⟩ := h n hn hle
        exact Returns.bind (returns_proceed.2 htext) fun _ _ => hcount
      · exact returns_ok _
  constructor
  · rintro ⟨decision, h⟩
    obtain ⟨hengine, htext, rowCount, plan, hcount, hplan, -⟩ :=
      ExplainRiskEvaluator.evaluate_eq_ok.1 h
    obtain ⟨hrows, hcount⟩ := hsize.1 ⟨rowCount, hcount⟩
    exact ⟨hengine, hrows, hcount, htext, plan, hplan⟩
  · intro h
    obtain ⟨rowCount, hcount⟩ := hsize.2 ⟨h.size, h.count⟩
    obtain ⟨plan, hplan⟩ := h.plan
    exact ⟨_, ExplainRiskEvaluator.evaluate_eq_ok.2
      ⟨h.engine, h.text, rowCount, plan, hcount, hplan, rfl⟩⟩

/-- What a check needs to return: the number of its limit can be read, every table it comes to
answers, and so does every target it comes to when everything but the plans is in order. -/
structure CheckAnswers (rt : Runtime) (db : Metadata) (backend : Backend) (sql : Str)
    (routeContext : JsonDict) : Prop where
  limit : (BasicSqlGuard.evaluate rt.toUnicodeData sql).allowed = true →
    Returns (parseLimitValue rt sql)
  tables : ∀ parsed, (BasicSqlGuard.evaluate rt.toUnicodeData sql).allowed = true →
    parse rt sql = .ok parsed → EachReached (HasTarget rt db parsed routeContext)
      (TableAnswers rt db parsed routeContext) parsed.tables
  plans : ∀ parsed decision policy,
    PlanConditions rt db sql routeContext parsed decision policy →
    EachReached
      (RouteTarget.Accepted db (ExplainRiskEvaluator.evaluate rt.toUnicodeData backend) policy
        (rewrite parsed decision.rewritePlans))
      (fun t => ∀ d, db.getEnabledByCode t.datasourceCode = .ok (some d) →
        PlanAnswers backend d (rewrite parsed decision.rewritePlans) t.physicalTableName)
      decision.targets

/-- The conditions of the filters, seen from the check. -/
theorem planConditions_iff (hdb : db.Constraints) {parsed : ParsedSql} {decision : RouteDecision}
    {policy : PolicySet} : PlanConditions rt db sql routeContext parsed decision policy ↔
      (BasicSqlGuard.evaluate rt.toUnicodeData sql).allowed = true ∧ parse rt sql = .ok parsed ∧
      resolve rt db parsed routeContext = .ok decision ∧ decision.allowed = true ∧
      (freshContext sql routeContext parsed decision).Explainable db policy := by
  constructor
  · intro h
    exact ⟨h.guarded, h.read, h.resolved, h.routed,
      h.explainable hdb.getEnabledPolicyByCode_ok
        (Metadata.getEnabledByCode_ok hdb.datasourceCode)⟩
  · rintro ⟨hguard, hread, hresolved, hrouted, h⟩
    refine ⟨hguard, hread, hresolved, hrouted,
      Metadata.getEnabledPolicyByCode_eq_some h.policyEnabled, fun t ht => ?_, h.sqlType,
      h.oneDatasource, h.limitPresent, h.limitValue⟩
    obtain ⟨d, hd⟩ := h.datasources t ht
    exact ⟨d, Metadata.getEnabledByCode_eq_some hd⟩

/-- A check returns exactly when it is answered. -/
theorem check_returns_iff (hdb : db.Constraints)
    (hctx : Json.intsFitDict rt.digitsFit routeContext = true) :
    Returns (SqlCheckService.check rt db
        (ExplainRiskEvaluator.evaluate rt.toUnicodeData backend) sql routeContext) ↔
      CheckAnswers rt db backend sql routeContext := by
  by_cases hguard : (BasicSqlGuard.evaluate rt.toUnicodeData sql).allowed = true
  swap
  · rw [SqlCheckService.check, if_pos (by simpa using hguard)]
    refine ⟨fun _ => ⟨fun h => absurd h hguard, fun _ h => absurd h hguard,
      fun _ _ _ h => absurd h.guarded hguard⟩, fun _ => returns_ok _⟩
  have hparse : Returns (parse rt sql) ↔ Returns (parseLimitValue rt sql) := by
    rw [parse, returns_bind]
    exact and_iff_left fun _ _ => returns_ok _
  have hrun : ∀ parsed decision, resolve rt db parsed routeContext = .ok decision →
      decision.allowed = true →
      (Returns (FilterChain.run
          (filters db (ExplainRiskEvaluator.evaluate rt.toUnicodeData backend))
          (freshContext sql routeContext parsed decision)) ↔
        ∀ policy, (freshContext sql routeContext parsed decision).Explainable db policy →
          EachReached
            (RouteTarget.Accepted db (ExplainRiskEvaluator.evaluate rt.toUnicodeData backend)
              policy (rewrite parsed decision.rewritePlans))
            (fun t => ∀ d, db.getEnabledByCode t.datasourceCode = .ok (some d) →
              PlanAnswers backend d (rewrite parsed decision.rewritePlans) t.physicalTableName)
            decision.targets) := by
    intro parsed decision hresolved hrouted
    rw [FilterChain.run_returns_iff hdb rfl (resolve_targets_ne_nil hresolved hrouted)]
    refine forall_congr' fun policy => imp_congr_right fun _ =>
      EachReached.congr (fun _ _ => Iff.rfl) fun t _ => ?_
    exact forall_congr' fun d => imp_congr_right fun _ => evaluate_returns_iff
  rw [SqlCheckService.check, if_neg (by simp [hguard]), returns_bind, hparse]
  constructor
  · rintro ⟨hlimit, h⟩
    refine ⟨fun _ => hlimit, fun parsed _ hread => ?_, fun parsed decision policy hp => ?_⟩
    · exact (resolve_returns_iff hdb hctx).1 (returns_bind.1 (h parsed hread)).1
    · obtain ⟨-, hread, hresolved, hrouted, hexp⟩ := (planConditions_iff hdb).1 hp
      have hrest := (returns_bind.1 (h parsed hread)).2 decision hresolved
      rw [if_neg (by simp [hrouted])] at hrest
      exact (hrun parsed decision hresolved hrouted).1 (returns_bind.1 hrest).1 policy hexp
  · intro h
    refine ⟨h.limit hguard, fun parsed hread => Returns.bind
      ((resolve_returns_iff hdb hctx).2 (h.tables parsed hguard hread)) fun decision hresolved =>
        ?_⟩
    split
    · exact returns_ok _
    · rename_i hrouted
      rw [Bool.not_eq_false] at hrouted
      refine Returns.bind ((hrun parsed decision hresolved hrouted).2 fun policy hexp =>
        h.plans parsed decision policy ((planConditions_iff hdb).2
          ⟨hguard, hread, hresolved, hrouted, hexp⟩)) fun result _ => ?_
      obtain ⟨verdict, context⟩ := result
      simp only
      split <;> exact returns_ok _

/-- What a check and its execution need to return: an executed statement is also accepted by the
client library and its result can be read. -/
structure ExecuteAnswers (rt : Runtime) (db : Metadata) (backend : Backend) (sql : Str)
    (routeContext : JsonDict) : Prop extends CheckAnswers rt db backend sql routeContext where
  statement : ∀ parsed decision policy,
    AllowConditions rt db (ExplainRiskEvaluator.evaluate rt.toUnicodeData backend) sql routeContext
      parsed decision policy →
    ∀ t ∈ decision.targets, ∀ d, db.getEnabledByCode t.datasourceCode = .ok (some d) →
      backend.textError (guardedSql (rewrite parsed decision.rewritePlans)) =
        none ∧
      Returns (backend.query d
        (guardedSql (rewrite parsed decision.rewritePlans)))

/-- An allowed check has executed its statement on the datasource of each target. -/
theorem SqlExecutionService.Reaches.eq_datasource {result : CheckResult} {d : DatasourceInstance}
    {policy : PolicySet} (hr : Reaches db result d policy) {code : Str}
    (hcode : code ∈ result.datasourceCodes) : db.getEnabledByCode code = .ok (some d) := by
  rw [(sortStrings_dedup_eq_singleton.1 hr.code).2 code hcode]
  exact hr.datasource

/-- A check, and the execution of what it allows, return exactly when they are answered. -/
theorem execute_returns_iff (hdb : db.Constraints)
    (hctx : Json.intsFitDict rt.digitsFit routeContext = true) (executionMs : Int) :
    (∃ result, SqlCheckService.check rt db
        (ExplainRiskEvaluator.evaluate rt.toUnicodeData backend) sql routeContext = .ok result ∧
      (result.allowed = true →
        Returns (SqlExecutionService.execute db backend executionMs result).result)) ↔
      ExecuteAnswers rt db backend sql routeContext := by
  have hpolicies := hdb.getEnabledPolicyByCode_ok
  have hcodes := Metadata.getEnabledByCode_ok hdb.datasourceCode
  constructor
  · rintro ⟨result, hcheck, hexec⟩
    refine ⟨(check_returns_iff hdb hctx).1 ⟨result, hcheck⟩,
      fun parsed decision policy hallow t ht d hd => ?_⟩
    obtain ⟨context, hrun⟩ := hallow.run hpolicies hcodes
    obtain ⟨hcheck', ha⟩ := check_allowed_iff.2 ⟨parsed, decision, context, hrun, rfl⟩
    obtain rfl := Except.ok.inj (hcheck.symm.trans hcheck')
    obtain ⟨⟨d', p, hr⟩, -⟩ := check_allowed_facts hcheck ha
    obtain ⟨x, hx⟩ := hexec ha
    obtain ⟨hsend, all, hall, -⟩ := hr.result_eq_ok.1 hx
    have hsame : d' = d := by
      simpa using (hr.eq_datasource (List.mem_map_of_mem ht)).symm.trans hd
    exact ⟨hsend.2, all, hsame ▸ hall⟩
  · intro h
    obtain ⟨result, hcheck⟩ := (check_returns_iff hdb hctx).2 h.toCheckAnswers
    refine ⟨result, hcheck, fun ha => ?_⟩
    obtain ⟨parsed, decision, context, hrun, rfl⟩ :=
      check_allowed_iff.1 ⟨hcheck, ha⟩
    obtain ⟨policy, hallow⟩ := allowConditions_of_run hcodes hrun
    obtain ⟨⟨d, p, hr⟩, -⟩ := check_allowed_facts hcheck ha
    obtain ⟨t, ts, hts⟩ := List.exists_cons_of_ne_nil
      (resolve_targets_ne_nil hallow.resolved hallow.routed)
    have ht : t ∈ decision.targets := by
      rw [hts]
      exact List.mem_cons_self
    have hd := hr.eq_datasource (List.mem_map_of_mem ht)
    obtain ⟨hmem, hdc, hde⟩ := Metadata.getEnabledByCode_eq_some hd
    obtain ⟨e, he, -⟩ := hallow.explain t ht d hmem hdc hde
    obtain ⟨htext, all, hall⟩ := h.statement parsed decision policy hallow t ht d hd
    have hengine := (ExplainRiskEvaluator.evaluate_eq_ok.1 he).1
    exact ⟨_, hr.result_eq_ok.2 ⟨⟨hengine, htext⟩, all, hall, rfl⟩⟩

end Check

end SqlGatekeeper
