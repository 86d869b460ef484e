import SqlGatekeeper.Services.Executor

/-!
# Looser policies

* `PolicySet.LoosenedBy`: a policy that asks for no more than another one.
* `evaluate_loosened`: a plan that is accepted is accepted under a looser policy, with the same
  summary.
* `run_loosened`: the filters behind the policy follow each other.
* `check_loosened`: so an allowed check stays allowed, with the same result.
* `execute_loosened`: and returns the same rows.
-/

namespace SqlGatekeeper

open Py Store Pipeline ExplainRiskEvaluator SqlCheckService SqlExecutionService

/-- A looser policy, of limits that are not negative. -/
structure PolicySet.LoosenedBy (policy looser : PolicySet) : Prop where
  limitNonneg : 0 ≤ policy.maxLimit
  scanRowsNonneg : 0 ≤ policy.maxScanRows
  thresholdNonneg : 0 ≤ policy.largeTableRowThreshold
  sqlTypes : ∀ sqlType, policy.allowsSqlType sqlType = true →
    looser.allowsSqlType sqlType = true
  requireLimit : looser.requireLimit = true → policy.requireLimit = true
  maxLimit : policy.maxLimit ≤ looser.maxLimit
  maxScanRows : policy.maxScanRows ≤ looser.maxScanRows
  threshold : policy.largeTableRowThreshold ≤ looser.largeTableRowThreshold
  fullScan : looser.rejectFullScanOnLargeTable = true → policy.rejectFullScanOnLargeTable = true
  temporary : looser.rejectUsingTemporary = true → policy.rejectUsingTemporary = true
  filesort : looser.rejectUsingFilesort = true → policy.rejectUsingFilesort = true

/-- Two states of the metadata that differ in their policies only, and the policies that apply. -/
structure Metadata.LoosenedBy (db looserDb : Metadata) (policy looser : PolicySet) : Prop where
  same : ∃ policies, looserDb = { db with policies }
  applies : db.getEnabledPolicyByCode defaultPolicyCode = .ok (some policy)
  looserApplies : looserDb.getEnabledPolicyByCode defaultPolicyCode = .ok (some looser)
  loosened : policy.LoosenedBy looser

/-! ## Plans -/

section Plans

variable {U : UnicodeData} {backend : Backend} {policy looser : PolicySet}

theorem Within.loosened (h : policy.LoosenedBy looser) {row : PlanRow} {rowCount : Int}
    (hw : Within U policy row (policy.largeTableRowThreshold ≤ rowCount)) :
    Within U looser row (looser.largeTableRowThreshold ≤ rowCount) where
  scanRows := hw.scanRows.trans h.maxScanRows
  fullScan hreject hall hlarge := hw.fullScan (h.fullScan hreject) hall (h.threshold.trans hlarge)
  temporary hreject := hw.temporary (h.temporary hreject)
  filesort hreject := hw.filesort (h.filesort hreject)

/-- A plan row that is accepted is judged the same by every policy that accepts it. -/
theorem judge_eq_of_allowed {row : PlanRow} {name : Str} {rowCount : Int}
    (h : (judge U row name rowCount policy).allowed = true) :
    judge U row name rowCount policy =
      ⟨true, "ALLOW", "Explain plan passed", some (summarize row name rowCount)⟩ := by
  simp only [judge] at h ⊢
  split_ifs at h ⊢
  rfl

/-- A plan that is accepted is accepted under a looser policy, with the same summary. -/
theorem evaluate_loosened (h : policy.LoosenedBy looser) {d : DatasourceInstance} {sql name : Str}
    {e : ExplainRiskDecision} (he : evaluate U backend d sql name policy = .ok e)
    (ha : e.allowed = true) : evaluate U backend d sql name looser = .ok e := by
  obtain ⟨hengine, htext, rowCount, plan, hcount, hplan, rfl⟩ := evaluate_eq_ok.1 he
  refine evaluate_eq_ok.2 ⟨hengine, htext, rowCount, plan, hcount, hplan, ?_⟩
  cases plan with
  | nil => exact absurd ha Bool.false_ne_true
  | cons row rest =>
    have hloose : (judge U row name rowCount looser).allowed = true :=
      (judge_allowed_iff name).2 (Within.loosened h ((judge_allowed_iff name).1 ha))
    exact (judge_eq_of_allowed ha).trans (judge_eq_of_allowed hloose).symm

end Plans

/-! ## Filters -/

/-- The same context under a looser policy. -/
def UnderLooser (policy looser : PolicySet) (c c' : FilterContext) : Prop :=
  c.policy = some policy ∧ c' = { c with policy := some looser }

section Filters

variable {db looserDb : Metadata} {evaluate : Evaluator} {policy looser : PolicySet}

theorem applyTo_underLooser
    (hsame : ∀ code, looserDb.getEnabledByCode code = db.getEnabledByCode code)
    {targets : List RouteTarget} {c c' : FilterContext}
    (hp : c.policy = some policy)
    (h : SqlFilter.Allows (PhysicalTableValidateFilter.applyTo db targets) c c') :
    c'.policy = some policy ∧
      SqlFilter.Allows (PhysicalTableValidateFilter.applyTo looserDb targets)
        { c with policy := some looser } { c' with policy := some looser } := by
  induction targets generalizing c with
  | nil =>
    obtain ⟨v, h, ha⟩ := h
    injection h with h
    injection h with hv hc
    subst hv hc
    exact ⟨hp, _, rfl, ha⟩
  | cons t ts ih =>
    obtain ⟨v, h, ha⟩ := h
    obtain ⟨d, hd, h⟩ := bind_eq_ok.1 h
    cases d with
    | none =>
      injection h with h
      injection h with h _
      subst h
      exact absurd ha (by simp)
    | some d =>
      obtain ⟨hp', v', hrun, ha'⟩ := ih
        (c := { c with datasources := dictSet t.datasourceCode d c.datasources }) hp ⟨v, h, ha⟩
      exact ⟨hp', v', bind_eq_ok.2 ⟨some d, (hsame _).trans hd, hrun⟩, ha'⟩

theorem validate_follows
    (hsame : ∀ code, looserDb.getEnabledByCode code = db.getEnabledByCode code) :
    Follows (·.allowed) (UnderLooser policy looser) (PhysicalTableValidateFilter.apply db)
      (PhysicalTableValidateFilter.apply looserDb) := by
  rintro c c' t ⟨hp, rfl⟩ h
  obtain ⟨ht, hloose⟩ := applyTo_underLooser hsame hp h
  exact ⟨_, hloose, ht, rfl⟩

theorem sqlType_follows (h : policy.LoosenedBy looser) :
    Follows (·.allowed) (UnderLooser policy looser) SqlTypeFilter.apply SqlTypeFilter.apply := by
  rintro c c' t ⟨hp, rfl⟩ hallows
  obtain ⟨htype, rfl⟩ := (SqlTypeFilter.allows_iff hp).1 hallows
  exact ⟨_, (SqlTypeFilter.allows_iff rfl).2 ⟨h.sqlTypes _ htype, rfl⟩, hp, rfl⟩

theorem crossDatasource_follows :
    Follows (·.allowed) (UnderLooser policy looser) CrossDatasourceFilter.apply
      CrossDatasourceFilter.apply := by
  rintro c c' t ⟨hp, rfl⟩ hallows
  obtain ⟨hone, rfl⟩ := CrossDatasourceFilter.allows_iff.1 hallows
  exact ⟨_, CrossDatasourceFilter.allows_iff.2 ⟨hone, rfl⟩, hp, rfl⟩

theorem limit_follows (h : policy.LoosenedBy looser) :
    Follows (·.allowed) (UnderLooser policy looser) LimitFilter.apply LimitFilter.apply := by
  rintro c c' t ⟨hp, rfl⟩ hallows
  obtain ⟨hpresent, hvalue, rfl⟩ := (LimitFilter.allows_iff hp).1 hallows
  exact ⟨_, (LimitFilter.allows_iff rfl).2 ⟨fun hrequire => hpresent (h.requireLimit hrequire),
    fun n hn => (hvalue n hn).trans h.maxLimit, rfl⟩, hp, rfl⟩

theorem explainTo_underLooser
    (hevaluate : ∀ d sql name e, evaluate d sql name policy = .ok e → e.allowed = true →
      evaluate d sql name looser = .ok e) {targets : List RouteTarget} {c c' : FilterContext}
    (hp : c.policy = some policy)
    (h : SqlFilter.Allows (ExplainRiskFilter.applyTo evaluate policy targets) c c') :
    c'.policy = some policy ∧
      SqlFilter.Allows (ExplainRiskFilter.applyTo evaluate looser targets)
        { c with policy := some looser } { c' with policy := some looser } := by
  induction targets generalizing c with
  | nil =>
    obtain ⟨v, h, ha⟩ := h
    injection h with h
    injection h with hv hc
    subst hv hc
    exact ⟨hp, _, rfl, ha⟩
  | cons t ts ih =>
    obtain ⟨v, h, ha⟩ := h
    rw [ExplainRiskFilter.applyTo] at h
    cases hd : c.datasources.lookup t.datasourceCode with
    | none =>
      rw [hd] at h
      exact absurd h (by simp)
    | some d =>
      rw [hd] at h
      obtain ⟨e, he, h⟩ := bind_eq_ok.1 h
      simp only at h
      by_cases hallowed : e.allowed = true
      · rw [if_pos hallowed] at h
        obtain ⟨hp', v', hrun, ha'⟩ := ih (c := { c with
          explainSummaries := c.explainSummaries ++ e.summary.toList }) hp ⟨v, h, ha⟩
        refine ⟨hp', v', ?_, ha'⟩
        rw [ExplainRiskFilter.applyTo, hd]
        refine bind_eq_ok.2 ⟨e, hevaluate _ _ _ _ he hallowed, ?_⟩
        simp only
        rw [if_pos hallowed]
        exact hrun
      · rw [if_neg hallowed] at h
        injection h with h
        injection h with h _
        subst h
        exact absurd ha Bool.false_ne_true

theorem explain_follows
    (hevaluate : ∀ d sql name e, evaluate d sql name policy = .ok e → e.allowed = true →
      evaluate d sql name looser = .ok e) :
    Follows (·.allowed) (UnderLooser policy looser) (ExplainRiskFilter.apply evaluate)
      (ExplainRiskFilter.apply evaluate) := by
  rintro c c' t ⟨hp, rfl⟩ ⟨v, h, ha⟩
  rw [ExplainRiskFilter.apply, hp] at h
  obtain ⟨ht, hloose⟩ := explainTo_underLooser hevaluate hp ⟨v, h, ha⟩
  exact ⟨_, hloose, ht, rfl⟩

/-- The chain under a looser policy leaves the same context, but for the policy. -/
theorem run_loosened (h : db.LoosenedBy looserDb policy looser)
    (hevaluate : ∀ d sql name e, evaluate d sql name policy = .ok e → e.allowed = true →
      evaluate d sql name looser = .ok e) {c t : FilterContext}
    (hrun : SqlFilter.Allows (FilterChain.run (filters db evaluate)) c t) :
    SqlFilter.Allows (FilterChain.run (filters looserDb evaluate)) c
      { t with policy := some looser } := by
  obtain ⟨policies, rfl⟩ := h.same
  rw [SqlFilter.Allows, FilterChain.run, runChain_allowed_iff rfl] at hrun ⊢
  obtain ⟨u, hload, hrest⟩ := passes_cons.1 hrun
  obtain ⟨hne, p, hp, rfl⟩ := PolicyLoadFilter.allows_iff.1 hload
  obtain rfl : p = policy := by simpa using hp.symm.trans h.applies
  have hfollow : List.Forall₂ (Follows (·.allowed) (UnderLooser p looser))
      (filters db evaluate).tail (filters { db with policies } evaluate).tail :=
    .cons (validate_follows fun _ => rfl) (.cons (sqlType_follows h.loosened)
      (.cons crossDatasource_follows (.cons (limit_follows h.loosened)
        (.cons (explain_follows hevaluate) .nil))))
  have hload' : SqlFilter.Allows (PolicyLoadFilter.apply { db with policies }) c
      { c with policy := some looser } :=
    PolicyLoadFilter.allows_iff.2 ⟨hne, looser, h.looserApplies, rfl⟩
  obtain ⟨t', hpasses, -, rfl⟩ := hrest.follow hfollow ⟨rfl, rfl⟩
  exact .cons hload' hpasses

end Filters

/-! ## Check and execution -/

section Service

variable {rt : Runtime} {db looserDb : Metadata} {evaluate : Evaluator} {backend : Backend}
  {sql : Str} {routeContext : JsonDict} {policy looser : PolicySet} {result : CheckResult}

/-- The resolution does not look at policies. -/
theorem resolve_loosened (h : db.LoosenedBy looserDb policy looser) (parsed : ParsedSql) :
    resolve rt looserDb parsed routeContext = resolve rt db parsed routeContext := by
  obtain ⟨policies, rfl⟩ := h.same
  exact resolve_congr fun table _ => rfl

/-- A statement that is allowed stays allowed under a looser policy, with the same result. -/
theorem check_allowed_loosened (h : db.LoosenedBy looserDb policy looser)
    (hevaluate : ∀ d sql name e, evaluate d sql name policy = .ok e → e.allowed = true →
      evaluate d sql name looser = .ok e)
    (hcheck : check rt db evaluate sql routeContext = .ok result) (ha : result.allowed = true) :
    check rt looserDb evaluate sql routeContext = .ok result := by
  obtain ⟨parsed, decision, context, hrun, rfl⟩ := check_allowed_iff.1 ⟨hcheck, ha⟩
  have hloose : AllowedRun rt looserDb evaluate sql routeContext parsed decision
      { context with policy := some looser } :=
    ⟨hrun.guarded, hrun.read, (resolve_loosened h parsed).trans hrun.resolved, hrun.routed,
      run_loosened h hevaluate hrun.filtered⟩
  exact (check_allowed_iff.2 ⟨parsed, decision, _, hloose, rfl⟩).1

/-- An execution that returns rows returns the same ones under a looser policy. -/
theorem execute_loosened (h : db.LoosenedBy looserDb policy looser) {executionMs executionMs' : Int}
    {x : ExecuteResult} (hx : (execute db backend executionMs result).result = .ok x)
    (ha : x.allowed = true) :
    ∃ x', (execute looserDb backend executionMs' result).result = .ok x' ∧ x'.allowed = true ∧
      x'.rows = x.rows := by
  have hcases := @execute_cases db backend executionMs result
  rcases hcases with ⟨d, p, hr, -⟩ | ⟨-, hnone⟩
  · obtain rfl : p = policy := by simpa using hr.policy.symm.trans h.applies
    obtain ⟨hsend, all, hall, rfl⟩ := hr.result_eq_ok.1 hx
    have hlooser : Reaches looserDb result d looser := by
      obtain ⟨policies, rfl⟩ := h.same
      exact ⟨hr.allowed, hr.code, hr.datasource, h.looserApplies⟩
    have hcap := capped_take all h.loosened.limitNonneg executionMs
    split at hcap
    · rename_i hle
      have hcap' := capped_take all (h.loosened.limitNonneg.trans h.loosened.maxLimit) executionMs'
      rw [if_pos (hle.trans h.loosened.maxLimit)] at hcap'
      refine ⟨_, hlooser.result_eq_ok.2 ⟨hsend, all, hall, rfl⟩, ?_⟩
      rw [hcap', hcap]
      exact ⟨rfl, rfl⟩
    · exact absurd (hcap.1.symm.trans ha) (by decide)
  · exact absurd ((hnone x hx).1.symm.trans ha) (by decide)

/-- A looser policy rejects no more: an allowed check stays allowed with the same result, whatever
the plans and the sizes of the tables are, and an execution that returns rows returns the same. -/
theorem check_loosened (rt : Runtime) (db looserDb : Metadata) (policy looser : PolicySet)
    (backend : Backend) (sql : Str) (routeContext : JsonDict) (result : CheckResult)
    (h : db.LoosenedBy looserDb policy looser)
    (hcheck : check rt db (ExplainRiskEvaluator.evaluate rt.toUnicodeData backend) sql
      routeContext = .ok result)
    (ha : result.allowed = true) :
    check rt looserDb (ExplainRiskEvaluator.evaluate rt.toUnicodeData backend) sql routeContext =
      .ok result ∧
    ∀ executionMs executionMs' x, (execute db backend executionMs result).result = .ok x →
      x.allowed = true → ∃ x', (execute looserDb backend executionMs' result).result =
        .ok x' ∧ x'.allowed = true ∧ x'.rows = x.rows :=
  ⟨check_allowed_loosened h (fun _ _ _ _ => evaluate_loosened h.loosened) hcheck ha,
    fun _ _ _ => execute_loosened h⟩

end Service

/-- The example's policy with a higher limit and no objection to sorting. -/
def looserPolicy : PolicySet :=
  { examplePolicy with requireLimit := false, maxLimit := 5000, rejectUsingFilesort := false }

/-- The example under that policy. -/
def looserMetadata : Metadata := { exampleMetadata with policies := ⟨[looserPolicy], 2⟩ }

theorem exampleMetadata_loosened :
    exampleMetadata.LoosenedBy looserMetadata examplePolicy looserPolicy where
  same := ⟨⟨[looserPolicy], 2⟩, rfl⟩
  applies := rfl
  looserApplies := rfl
  loosened :=
    { limitNonneg := by decide
      scanRowsNonneg := by decide
      thresholdNonneg := by decide
      sqlTypes := fun _ h => h
      requireLimit := fun h => absurd h Bool.false_ne_true
      maxLimit := by decide
      maxScanRows := by decide
      threshold := by decide
      fullScan := fun h => h
      temporary := fun h => h
      filesort := fun h => absurd h Bool.false_ne_true }

/-- The example's statement stays allowed. -/
theorem check_loosened_example : ∃ result, result.allowed = true ∧
    check asciiRuntime looserMetadata (ExplainRiskEvaluator.evaluate asciiData exampleBackend)
      exampleSql [] = .ok result := by
  have hallowed : (check asciiRuntime exampleMetadata
      (ExplainRiskEvaluator.evaluate asciiData exampleBackend) exampleSql []).map (·.allowed) =
        .ok true := by decide +kernel
  obtain ⟨result, hcheck, ha⟩ := map_eq_ok.1 hallowed
  exact ⟨result, ha, (check_loosened asciiRuntime exampleMetadata looserMetadata examplePolicy
    looserPolicy exampleBackend exampleSql [] result exampleMetadata_loosened hcheck ha).1⟩

end SqlGatekeeper
