import SqlGatekeeper.Pipeline.Chain
import SqlGatekeeper.Services.Explain
import SqlGatekeeper.Services.Resolution

/-!
# The filter chain

The six filters behind routing share a context that they fill as they go: the policy
first, then the datasources, then the summaries of the plans.

* `FilterContext`: the context.
* `PolicyLoadFilter.apply`, …, `ExplainRiskFilter.apply`: the filters; an access that
  could fail raises as in Python.
* `filters`: the chain of the checker; `FilterChain.run` runs it.
* `PolicyLoadFilter.allows_iff`, …: when each filter allows, and what it leaves.
-/

namespace SqlGatekeeper

open Py Store Pipeline

/-- What the filters see and fill. -/
structure FilterContext where
  sql : Str
  routeContext : JsonDict
  parsedSql : ParsedSql
  rewrittenSql : Str
  routeDecision : RouteDecision
  policy : Option PolicySet
  datasources : List (Str × DatasourceInstance)
  explainSummaries : List ExplainPlanSummary

/-- A filter's decision. -/
structure FilterDecision where
  allowed : Bool
  reasonCode : Str
  message : Str
  deriving DecidableEq, Repr

/-- A filter: its decision, and the context it leaves. -/
abbrev SqlFilter := Check FilterContext PyError FilterDecision

/-- A filter allows a context and leaves another one. -/
abbrev SqlFilter.Allows (f : SqlFilter) (context context' : FilterContext) : Prop :=
  Pipeline.Allows (·.allowed) f context context'

/-! ## The policy -/

/-- The code of the one policy that is applied. -/
def defaultPolicyCode : Str := "default_select_guard"

/-- `PolicyLoadFilter.apply`: `targets[0]` is read although nothing is done with it. -/
def PolicyLoadFilter.apply (db : Metadata) : SqlFilter := fun context =>
  match context.routeDecision.targets with
  | [] => .error .indexError
  | _ :: _ => do
      match ← db.getEnabledPolicyByCode defaultPolicyCode with
      | none => pure (⟨false, "POLICY_NOT_FOUND", "No enabled policy set was found"⟩, context)
      | some policy =>
          pure (⟨true, "ALLOW", "Policy loaded"⟩, { context with policy := some policy })

theorem PolicyLoadFilter.allows_iff {db : Metadata} {c c' : FilterContext} :
    SqlFilter.Allows (apply db) c c' ↔ c.routeDecision.targets ≠ [] ∧
      ∃ p, db.getEnabledPolicyByCode defaultPolicyCode = .ok (some p) ∧
        c' = { c with policy := some p } := by
  unfold SqlFilter.Allows Allows apply
  rcases c.routeDecision.targets with _ | ⟨t, ts⟩
  · simp
  · constructor
    · rintro ⟨v, h, ha⟩
      obtain ⟨p, hp, h⟩ := bind_eq_ok.1 h
      cases p with
      | none =>
        injection h with h
        injection h with h _
        subst h
        exact absurd ha (by simp)
      | some p =>
        injection h with h
        injection h with _ h
        exact ⟨by simp, p, hp, h.symm⟩
    · rintro ⟨-, p, hp, rfl⟩
      exact ⟨_, bind_eq_ok.2 ⟨some p, hp, rfl⟩, rfl⟩

theorem PolicyLoadFilter.returns {db : Metadata}
    (hpolicy : Returns (db.getEnabledPolicyByCode defaultPolicyCode)) {c : FilterContext}
    (hc : c.routeDecision.targets ≠ []) : Returns (apply db c) := by
  obtain ⟨t, ts, hts⟩ := List.exists_cons_of_ne_nil hc
  rw [apply, hts]
  refine hpolicy.bind fun p _ => ?_
  cases p <;> exact returns_ok _

/-! ## The datasources -/

namespace PhysicalTableValidateFilter

/-- The loop over the targets. -/
def applyTo (db : Metadata) : List RouteTarget → SqlFilter
  | [], context => .ok (⟨true, "ALLOW", "Physical tables and datasources validated"⟩, context)
  | target :: targets, context => do
      match ← db.getEnabledByCode target.datasourceCode with
      | none => pure (⟨false, "DATASOURCE_NOT_FOUND",
          "Datasource '" ++ target.datasourceCode ++ "' was not found"⟩, context)
      | some datasource => applyTo db targets { context with
          datasources := dictSet target.datasourceCode datasource context.datasources }

/-- `PhysicalTableValidateFilter.apply`. -/
def apply (db : Metadata) : SqlFilter := fun context =>
  applyTo db context.routeDecision.targets context

/-- Every entry of the dictionary is what the metadata has under its code. -/
def Loaded (db : Metadata) (datasources : List (Str × DatasourceInstance)) : Prop :=
  ∀ code d, datasources.lookup code = some d → db.getEnabledByCode code = .ok (some d)

theorem Loaded.dictSet {db : Metadata} {datasources : List (Str × DatasourceInstance)}
    (h : Loaded db datasources) {code : Str} {d : DatasourceInstance}
    (hd : db.getEnabledByCode code = .ok (some d)) : Loaded db (dictSet code d datasources) := by
  intro code' d' hl
  by_cases hc : code' = code
  · subst hc
    rw [lookup_dictSet_self] at hl
    rw [hd, hl]
  · rw [lookup_dictSet_ne hc] at hl
    exact h code' d' hl

/-- What the loop leaves: only the dictionary changes, entries stay, and every target has one. -/
theorem applyTo_allows {db : Metadata} {targets : List RouteTarget} {c c' : FilterContext}
    (hc : Loaded db c.datasources) (h : SqlFilter.Allows (applyTo db targets) c c') :
    Loaded db c'.datasources ∧ c' = { c with datasources := c'.datasources } ∧
      (∀ code, (c.datasources.lookup code).isSome = true →
        (c'.datasources.lookup code).isSome = true) ∧
      ∀ t ∈ targets, (c'.datasources.lookup t.datasourceCode).isSome = true := by
  induction targets generalizing c with
  | nil =>
    obtain ⟨v, h, -⟩ := h
    injection h with h
    injection h with _ h
    subst h
    exact ⟨hc, rfl, fun _ h => h, by simp⟩
  | cons t ts ih =>
    obtain ⟨v, h, ha⟩ := h
    obtain ⟨d, hd, h⟩ := bind_eq_ok.1 h
    cases d with
    | none =>
      injection h with h
      injection h with h _
      subst h
      exact absurd ha (by simp)
    | some d =>
      obtain ⟨hl, heq, hkeep, hall⟩ := ih (hc.dictSet hd) ⟨v, h, ha⟩
      have hself : (c'.datasources.lookup t.datasourceCode).isSome = true :=
        hkeep _ (by simp)
      refine ⟨hl, heq, fun code hcode => ?_, fun u hu => ?_⟩
      · by_cases hc : code = t.datasourceCode
        · rw [hc]
          exact hself
        · exact hkeep code (by rwa [lookup_dictSet_ne hc])
      · rcases List.mem_cons.1 hu with rfl | hu
        · exact hself
        · exact hall u hu

/-- What it leaves behind a loaded policy. -/
theorem applyTo_allows_policy {db : Metadata} {targets : List RouteTarget} {policy : PolicySet}
    {c c' : FilterContext} (hc : Loaded db c.datasources)
    (h : SqlFilter.Allows (applyTo db targets) { c with policy := some policy } c') :
    Loaded db c'.datasources ∧
      (∀ t ∈ targets, (c'.datasources.lookup t.datasourceCode).isSome = true) ∧
      c'.policy = some policy ∧ c'.routeDecision = c.routeDecision ∧
        c'.parsedSql = c.parsedSql ∧
      c'.rewrittenSql = c.rewrittenSql := by
  have hloaded : Loaded db ({ c with policy := some policy } : FilterContext).datasources := hc
  obtain ⟨hl, heq, -, hsome⟩ := applyTo_allows hloaded h
  rw [heq]
  exact ⟨hl, hsome, rfl, rfl, rfl, rfl⟩

/-- The loop allows when every target's datasource is there. -/
theorem applyTo_allows_of {db : Metadata} {targets : List RouteTarget} (c : FilterContext)
    (h : ∀ t ∈ targets, ∃ d, db.getEnabledByCode t.datasourceCode = .ok (some d)) :
    ∃ c', SqlFilter.Allows (applyTo db targets) c c' := by
  induction targets generalizing c with
  | nil => exact ⟨c, _, rfl, rfl⟩
  | cons t ts ih =>
    obtain ⟨d, hd⟩ := h t List.mem_cons_self
    obtain ⟨c', v, hrun, ha⟩ := ih
      { c with datasources := dictSet t.datasourceCode d c.datasources }
      (fun u hu => h u (List.mem_cons_of_mem _ hu))
    exact ⟨c', v, bind_eq_ok.2 ⟨some d, hd, hrun⟩, ha⟩

theorem applyTo_returns {db : Metadata} (hdb : ∀ code, Returns (db.getEnabledByCode code))
    (targets : List RouteTarget) (c : FilterContext) : Returns (applyTo db targets c) := by
  induction targets generalizing c with
  | nil => exact returns_ok _
  | cons t ts ih =>
    refine (hdb t.datasourceCode).bind fun d _ => ?_
    cases d with
    | none => exact returns_ok _
    | some d => exact ih _

end PhysicalTableValidateFilter

/-! ## Statement type, datasource scope and limit -/

/-- Is a statement type in the policy's list? -/
def PolicySet.allowsSqlType (policy : PolicySet) (sqlType : Str) : Bool :=
  policy.allowSqlTypes.any fun
    | .str s => s == sqlType
    | _ => false

/-- `SqlTypeFilter.apply`. -/
def SqlTypeFilter.apply : SqlFilter := fun context =>
  match context.policy with
  | none => .error .assertionError
  | some policy =>
      if policy.allowsSqlType context.parsedSql.sqlType then
        .ok (⟨true, "ALLOW", "SQL type allowed by policy"⟩, context)
      else .ok (⟨false, "SQL_TYPE_DENIED",
        "SQL type '" ++ context.parsedSql.sqlType ++ "' is not allowed by policy"⟩, context)

theorem SqlTypeFilter.allows_iff {c c' : FilterContext} {p : PolicySet} (hp : c.policy = some p) :
    SqlFilter.Allows apply c c' ↔ p.allowsSqlType c.parsedSql.sqlType = true ∧ c' = c := by
  exact allows_of_ite (by rw [apply, hp]) rfl rfl

theorem SqlTypeFilter.returns {c : FilterContext} {p : PolicySet} (hp : c.policy = some p) :
    Returns (apply c) := by
  rw [apply, hp]
  simp only
  split <;> exact returns_ok _

/-- `CrossDatasourceFilter.apply`. -/
def CrossDatasourceFilter.apply : SqlFilter := fun context =>
  let datasourceCodes := (context.routeDecision.targets.map (·.datasourceCode)).dedup
  if datasourceCodes.length > 1 then
    .ok (⟨false, "CROSS_DATASOURCE_JOIN",
      "A single SQL request cannot span multiple datasources"⟩,
      context)
  else .ok (⟨true, "ALLOW", "Datasource scope check passed"⟩, context)

/-- A list has at most one distinct element when all its elements are equal. -/
theorem length_dedup_le_one_iff {α : Type} [DecidableEq α] {l : List α} :
    l.dedup.length ≤ 1 ↔ ∀ a ∈ l, ∀ b ∈ l, a = b := by
  constructor
  · intro h a ha b hb
    rw [← List.mem_dedup] at ha hb
    rcases hl : l.dedup with _ | ⟨x, _ | ⟨y, rest⟩⟩
    · rw [hl] at ha
      exact absurd ha (by simp)
    · rw [hl, List.mem_singleton] at ha hb
      rw [ha, hb]
    · rw [hl] at h
      simp at h
  · intro h
    rcases hl : l.dedup with _ | ⟨x, _ | ⟨y, rest⟩⟩
    · simp
    · simp
    · have hnodup := List.nodup_dedup l
      have hx : x ∈ l.dedup := by rw [hl]; exact List.mem_cons_self
      have hy : y ∈ l.dedup := by rw [hl]; exact List.mem_cons_of_mem _ List.mem_cons_self
      have hxy : x = y := h x (List.mem_dedup.1 hx) y (List.mem_dedup.1 hy)
      rw [hl, hxy] at hnodup
      simp at hnodup

theorem CrossDatasourceFilter.allows_iff {c c' : FilterContext} :
    SqlFilter.Allows apply c c' ↔
      (∀ t ∈ c.routeDecision.targets, ∀ u ∈ c.routeDecision.targets,
        t.datasourceCode = u.datasourceCode) ∧ c' = c := by
  have hiff : ((c.routeDecision.targets.map (·.datasourceCode)).dedup).length ≤ 1 ↔
      ∀ t ∈ c.routeDecision.targets, ∀ u ∈ c.routeDecision.targets,
        t.datasourceCode = u.datasourceCode := by
    rw [length_dedup_le_one_iff]
    simp
  rw [← hiff, ← not_lt]
  exact allows_of_ite_not rfl rfl rfl

theorem CrossDatasourceFilter.returns {c : FilterContext} : Returns (apply c) := by
  simp only [apply]
  split <;> exact returns_ok _

/-- `LimitFilter.apply`. -/
def LimitFilter.apply : SqlFilter := fun context =>
  match context.policy with
  | none => .error .assertionError
  | some policy =>
      if policy.requireLimit ∧ ¬ context.parsedSql.hasLimit then
        .ok (⟨false, "LIMIT_REQUIRED", "A LIMIT clause is required by policy"⟩, context)
      else
        match context.parsedSql.limitValue with
        | none => .ok (⟨true, "ALLOW", "Limit check passed"⟩, context)
        | some limitValue =>
            if limitValue > policy.maxLimit then
              .ok (⟨false, "LIMIT_EXCEEDED", "LIMIT " ++ intText limitValue ++
                " exceeded policy max " ++ intText policy.maxLimit⟩, context)
            else .ok (⟨true, "ALLOW", "Limit check passed"⟩, context)

theorem LimitFilter.allows_iff {c c' : FilterContext} {p : PolicySet} (hp : c.policy = some p) :
    SqlFilter.Allows apply c c' ↔ (p.requireLimit = true → c.parsedSql.hasLimit = true) ∧
      (∀ n, c.parsedSql.limitValue = some n → n ≤ p.maxLimit) ∧ c' = c := by
  by_cases hlimit : p.requireLimit = true ∧ ¬ c.parsedSql.hasLimit = true
  · rw [SqlFilter.Allows, allows_of_eq (by rw [apply, hp]; exact if_pos hlimit)]
    exact ⟨fun h => absurd h.1 Bool.false_ne_true, fun h => absurd (h.1 hlimit.1) hlimit.2⟩
  have hpresent : p.requireLimit = true → c.parsedSql.hasLimit = true := fun h =>
    by_contra fun hl => hlimit ⟨h, hl⟩
  have hrest : SqlFilter.Allows apply c c' ↔
      (∀ n, c.parsedSql.limitValue = some n → n ≤ p.maxLimit) ∧ c' = c := by
    cases hv : c.parsedSql.limitValue with
    | none =>
      rw [SqlFilter.Allows, allows_of_eq (by rw [apply, hp]; simp only; rw [if_neg hlimit, hv])]
      exact and_congr_left fun _ => ⟨fun _ n hn => absurd hn (by simp), fun _ => rfl⟩
    | some n =>
      rw [SqlFilter.Allows,
        allows_of_ite_not (by rw [apply, hp]; simp only; rw [if_neg hlimit, hv]) rfl rfl]
      exact and_congr_left fun _ =>
        ⟨fun hn m hm => Option.some.inj hm ▸ not_lt.1 hn, fun h => not_lt.2 (h n rfl)⟩
  rw [hrest]
  exact ⟨fun h => ⟨hpresent, h⟩, fun h => h.2⟩

theorem LimitFilter.returns {c : FilterContext} {p : PolicySet} (hp : c.policy = some p) :
    Returns (apply c) := by
  rw [apply, hp]
  simp only
  split
  · exact returns_ok _
  · split
    · exact returns_ok _
    · split <;> exact returns_ok _

/-! ## The plans -/

namespace ExplainRiskFilter

/-- The loop over the targets. -/
def applyTo (evaluate : Evaluator) (policy : PolicySet) : List RouteTarget → SqlFilter
  | [], context => .ok (⟨true, "ALLOW", "Explain checks passed"⟩, context)
  | target :: targets, context =>
      match context.datasources.lookup target.datasourceCode with
      | none => .error .keyError
      | some datasource => do
          let explainDecision ←
            evaluate datasource context.rewrittenSql target.physicalTableName policy
          let context := { context with
            explainSummaries := context.explainSummaries ++ explainDecision.summary.toList }
          if explainDecision.allowed then applyTo evaluate policy targets context
          else pure (⟨false, explainDecision.reasonCode, explainDecision.message⟩, context)

/-- `ExplainRiskFilter.apply`. -/
def apply (evaluate : Evaluator) : SqlFilter := fun context =>
  match context.policy with
  | none => .error .assertionError
  | some policy => applyTo evaluate policy context.routeDecision.targets context

/-- The evaluator accepts a target of a context. -/
def Accepts (evaluate : Evaluator) (policy : PolicySet) (c : FilterContext) (t : RouteTarget) :
    Prop :=
  ∃ d e, c.datasources.lookup t.datasourceCode = some d ∧
    evaluate d c.rewrittenSql t.physicalTableName policy = .ok e ∧ e.allowed = true

theorem applyTo_allows_iff {evaluate : Evaluator} {policy : PolicySet} {targets : List RouteTarget}
    {c : FilterContext} : (∃ c', SqlFilter.Allows (applyTo evaluate policy targets) c c') ↔
      ∀ t ∈ targets, Accepts evaluate policy c t := by
  induction targets generalizing c with
  | nil => simpa using ⟨c, ⟨_, rfl, rfl⟩⟩
  | cons t ts ih =>
    rw [List.forall_mem_cons]
    constructor
    · rintro ⟨c', v, h, ha⟩
      rw [applyTo] at h
      split at h
      · exact absurd h (by simp)
      · rename_i d hd
        obtain ⟨e, he, h⟩ := bind_eq_ok.1 h
        simp only at h
        split at h
        · rename_i hallowed
          have hrest := (ih (c := { c with
            explainSummaries := c.explainSummaries ++ e.summary.toList })).1 ⟨c', v, h, ha⟩
          exact ⟨⟨d, e, hd, he, hallowed⟩, hrest⟩
        · injection h with h
          injection h with h _
          subst h
          exact absurd ha (by simp)
    · rintro ⟨⟨d, e, hd, he, hallowed⟩, hrest⟩
      obtain ⟨c', v, h, ha⟩ := (ih (c := { c with
        explainSummaries := c.explainSummaries ++ e.summary.toList })).2 hrest
      refine ⟨c', v, ?_, ha⟩
      rw [applyTo, hd]
      refine bind_eq_ok.2 ⟨e, he, ?_⟩
      simp only [hallowed, if_true]
      exact h

/-- The loop raises what the evaluator raises, if every target's datasource is there. -/
theorem applyTo_eq_error {evaluate : Evaluator} {policy : PolicySet} {targets : List RouteTarget}
    {c : FilterContext}
    (hc : ∀ t ∈ targets, (c.datasources.lookup t.datasourceCode).isSome = true) {e : PyError}
    (h : applyTo evaluate policy targets c = .error e) :
    ∃ t ∈ targets, ∃ d, evaluate d c.rewrittenSql t.physicalTableName policy = .error e := by
  induction targets generalizing c with
  | nil => exact absurd h (by simp [applyTo])
  | cons t ts ih =>
    obtain ⟨d, hd⟩ := Option.isSome_iff_exists.1 (hc t List.mem_cons_self)
    rw [applyTo, hd] at h
    rcases bind_eq_error.1 h with h | ⟨dec, -, h⟩
    · exact ⟨t, List.mem_cons_self, d, h⟩
    · simp only at h
      split at h
      · obtain ⟨u, hu, d', he⟩ := ih
          (c := { c with explainSummaries := c.explainSummaries ++ dec.summary.toList })
          (fun u hu => hc u (List.mem_cons_of_mem _ hu)) h
        exact ⟨u, List.mem_cons_of_mem _ hu, d', he⟩
      · exact absurd h (by simp [pure, Except.pure])

end ExplainRiskFilter

/-! ## The chain -/

/-- The filters of the checker, in order. -/
def filters (db : Metadata) (evaluate : Evaluator) : List SqlFilter :=
  [PolicyLoadFilter.apply db, PhysicalTableValidateFilter.apply db, SqlTypeFilter.apply,
    CrossDatasourceFilter.apply, LimitFilter.apply, ExplainRiskFilter.apply evaluate]

/-- `FilterChain.run`. -/
def FilterChain.run (fs : List SqlFilter) : SqlFilter :=
  runChain (·.allowed) ⟨true, "ALLOW", "All filters passed"⟩ fs

/-- The conditions under which the chain of the checker comes to the plans. -/
structure FilterContext.Explainable (db : Metadata) (c : FilterContext) (policy : PolicySet) :
    Prop where
  targets : c.routeDecision.targets ≠ []
  policyEnabled : db.getEnabledPolicyByCode defaultPolicyCode = .ok (some policy)
  datasources : ∀ t ∈ c.routeDecision.targets,
    ∃ d, db.getEnabledByCode t.datasourceCode = .ok (some d)
  sqlType : policy.allowsSqlType c.parsedSql.sqlType = true
  oneDatasource : ∀ t ∈ c.routeDecision.targets, ∀ u ∈ c.routeDecision.targets,
    t.datasourceCode = u.datasourceCode
  limitPresent : policy.requireLimit = true → c.parsedSql.hasLimit = true
  limitValue : ∀ n, c.parsedSql.limitValue = some n → n ≤ policy.maxLimit

/-- The conditions under which the chain of the checker allows. -/
structure FilterContext.Acceptable (db : Metadata) (evaluate : Evaluator) (c : FilterContext)
    (policy : PolicySet) : Prop extends c.Explainable db policy where
  explain : ∀ t ∈ c.routeDecision.targets, ∀ d, db.getEnabledByCode t.datasourceCode =
    .ok (some d) → ∃ e, evaluate d c.rewrittenSql t.physicalTableName policy = .ok e ∧
      e.allowed = true

variable {db : Metadata} {evaluate : Evaluator} {c c' : FilterContext}

/-- The chain allows a fresh context exactly under these conditions. -/
theorem FilterChain.run_allows_iff (hfresh : c.datasources = []) :
    (∃ c', SqlFilter.Allows (run (filters db evaluate)) c c') ↔
      ∃ policy, c.Acceptable db evaluate policy := by
  have hloaded : PhysicalTableValidateFilter.Loaded db c.datasources := by
    rw [hfresh]
    intro code d h
    exact absurd h (by simp)
  simp only [SqlFilter.Allows, run, runChain_allowed_iff, filters, passes_cons, passes_nil]
  constructor
  · rintro ⟨-, c1, h1, c2, h2, c3, h3, c4, h4, c5, h5, c6, h6, -⟩
    obtain ⟨hne, p, hp, rfl⟩ := PolicyLoadFilter.allows_iff.1 h1
    obtain ⟨hl, hsome, hpol, hdec, hparsed, hsql⟩ :=
      PhysicalTableValidateFilter.applyTo_allows_policy hloaded h2
    obtain ⟨htype, rfl⟩ := (SqlTypeFilter.allows_iff hpol).1 h3
    obtain ⟨hone, rfl⟩ := CrossDatasourceFilter.allows_iff.1 h4
    obtain ⟨hlp, hlv, rfl⟩ := (LimitFilter.allows_iff hpol).1 h5
    have hexp : ∀ t ∈ c.routeDecision.targets, ExplainRiskFilter.Accepts evaluate p c5 t := by
      obtain ⟨v, h6, ha⟩ := h6
      rw [ExplainRiskFilter.apply, hpol, hdec] at h6
      exact ExplainRiskFilter.applyTo_allows_iff.1 ⟨c6, v, h6, ha⟩
    rw [hparsed] at htype hlp hlv
    rw [hdec] at hone
    refine ⟨p, ⟨hne, hp, fun t ht => ?_, htype, hone, hlp, hlv⟩, fun t ht d hd => ?_⟩
    · obtain ⟨d, hd⟩ := Option.isSome_iff_exists.1 (hsome t ht)
      exact ⟨d, hl _ _ hd⟩
    · obtain ⟨d', e, hlook, he, hallowed⟩ := hexp t ht
      have hdd : d' = d := by
        have := (hl _ _ hlook).symm.trans hd
        simpa using this
      subst hdd
      rw [hsql] at he
      exact ⟨e, he, hallowed⟩
  · rintro ⟨p, h⟩
    obtain ⟨c2, h2⟩ := PhysicalTableValidateFilter.applyTo_allows_of
      { c with policy := some p } h.datasources
    obtain ⟨hl, hsome, hpol, hdec, hparsed, hsql⟩ :=
      PhysicalTableValidateFilter.applyTo_allows_policy hloaded h2
    obtain ⟨c6, v, h6, ha⟩ : ∃ c6, SqlFilter.Allows
        (ExplainRiskFilter.applyTo evaluate p c.routeDecision.targets) c2 c6 := by
      refine ExplainRiskFilter.applyTo_allows_iff.2 fun t ht => ?_
      obtain ⟨d, hd⟩ := Option.isSome_iff_exists.1 (hsome t ht)
      obtain ⟨e, he, hallowed⟩ := h.explain t ht d (hl _ _ hd)
      exact ⟨d, e, hd, by rw [hsql]; exact he, hallowed⟩
    refine ⟨c6, _, PolicyLoadFilter.allows_iff.2 ⟨h.targets, p, h.policyEnabled, rfl⟩, c2, h2,
      c2, (SqlTypeFilter.allows_iff hpol).2 ⟨by rw [hparsed]; exact h.sqlType, rfl⟩, c2,
      CrossDatasourceFilter.allows_iff.2 ⟨by rw [hdec]; exact h.oneDatasource, rfl⟩, c2,
      (LimitFilter.allows_iff hpol).2
        ⟨by rw [hparsed]; exact h.limitPresent, by rw [hparsed]; exact h.limitValue, rfl⟩, c6,
      ⟨v, ?_, ha⟩, rfl⟩
    rw [ExplainRiskFilter.apply, hpol, hdec]
    exact h6

end SqlGatekeeper
