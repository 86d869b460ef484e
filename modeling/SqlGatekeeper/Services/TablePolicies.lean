import SqlGatekeeper.Services.SwitchedOff

/-!
# The policies of the tables

A logical table names its policy in `default_policy_code`.  The check loads one policy for
the whole request, the one with the code `default_select_guard`.

* `RouteTarget.OwnPolicy`: an enabled policy that the logical table of a target names.
* `GuardedByOwnPolicies`: an allowed check is accepted by the own policy of every target.
* `PolicySet.NoStricter`: a policy that asks of a `select` no more than the loaded one;
  `Metadata.OwnPoliciesNoStricter`: the condition on the metadata.
* `guardedByOwnPolicies_exact`: it is enough, and no shard that can be read under its name may have
  a stricter policy.
-/

namespace SqlGatekeeper

open Py Store ExplainRiskEvaluator SqlCheckService

/-! ## Policies and targets -/

/-- An enabled policy that is the default policy of the target's logical table. -/
structure RouteTarget.OwnPolicy (db : Metadata) (target : RouteTarget) (policy : PolicySet) :
    Prop where
  registered : policy ∈ db.policies.rows
  enabled : policy.enabled = true
  named : ∃ t ∈ db.logicalTables.rows,
    t.tableName = target.logicalTableName ∧ t.defaultPolicyCode = policy.policyCode

/-- A policy accepts a request: its type, its limit, and the evaluation of a target under it. -/
structure PolicySet.AcceptsTarget (db : Metadata) (evaluate : Evaluator) (parsed : ParsedSql)
    (rewrittenSql : Str) (target : RouteTarget) (policy : PolicySet) : Prop where
  sqlType : policy.allowsSqlType parsed.sqlType = true
  limitPresent : policy.requireLimit = true → parsed.hasLimit = true
  limitValue : ∀ n, parsed.limitValue = some n → n ≤ policy.maxLimit
  plan : ∀ d, db.getEnabledByCode target.datasourceCode = .ok (some d) →
    ∃ e, evaluate d rewrittenSql target.physicalTableName policy = .ok e ∧ e.allowed = true

/-- Every target of an allowed check is accepted by the policy of its own logical table. -/
def GuardedByOwnPolicies (rt : Runtime) (db : Metadata) (evaluate : Evaluator) (sql : Str)
    (routeContext : JsonDict) : Prop :=
  ∀ result parsed decision,
    check rt db evaluate sql routeContext = .ok result → result.allowed = true →
    parse rt sql = .ok parsed → resolve rt db parsed routeContext = .ok decision →
    ∀ target ∈ decision.targets, ∀ policy, target.OwnPolicy db policy →
      policy.AcceptsTarget db evaluate parsed (rewrite parsed decision.rewritePlans) target

/-- A policy that asks of a `select` no more than the loaded one. -/
structure PolicySet.NoStricter (policy loaded : PolicySet) : Prop where
  selects : policy.allowsSqlType "select" = true
  limitPresent : policy.requireLimit = true → loaded.requireLimit = true
  maxLimit : loaded.maxLimit ≤ policy.maxLimit
  maxScanRows : loaded.maxScanRows ≤ policy.maxScanRows
  fullScan : policy.rejectFullScanOnLargeTable = true → loaded.rejectFullScanOnLargeTable =
    true ∧ loaded.largeTableRowThreshold ≤ policy.largeTableRowThreshold
  temporary : policy.rejectUsingTemporary = true → loaded.rejectUsingTemporary = true
  filesort : policy.rejectUsingFilesort = true → loaded.rejectUsingFilesort = true

/-- The policy of the logical table of an enabled route on an enabled datasource. -/
structure PolicySet.Guards (db : Metadata) (policy : PolicySet) (route : PhysicalTableRoute) :
    Prop where
  routed : route ∈ db.physicalRoutes.rows ∧ route.enabled = true
  placed : ∃ datasource ∈ db.datasources.rows, datasource.id = route.datasourceId ∧
    datasource.enabled = true
  registered : policy ∈ db.policies.rows ∧ policy.enabled = true
  named : ∃ owner ∈ db.logicalTables.rows,
    owner.id = route.logicalTableId ∧ owner.defaultPolicyCode = policy.policyCode

/-- If the check loads a policy that takes a `select`, then no policy that guards a route is
stricter. -/
def Metadata.OwnPoliciesNoStricter (db : Metadata) : Prop :=
  ∀ loaded, db.getEnabledPolicyByCode defaultPolicyCode = .ok (some loaded) →
    loaded.allowsSqlType "select" = true →
    ∀ (policy : PolicySet) (route : PhysicalTableRoute),
      policy.Guards db route → policy.NoStricter loaded

/-! ## The law and its condition -/

section Guarded

variable {rt : Runtime} {db : Metadata} {backend : Backend} {sql : Str} {routeContext : JsonDict}
  {parsed : ParsedSql} {decision : RouteDecision} {context : FilterContext} {target : RouteTarget}
  {policy loaded : PolicySet}

theorem Within.noStricter {U : UnicodeData} (h : policy.NoStricter loaded) {row : PlanRow}
    {rowCount : Int} (hw : Within U loaded row (loaded.largeTableRowThreshold ≤ rowCount)) :
    Within U policy row (policy.largeTableRowThreshold ≤ rowCount) where
  scanRows := hw.scanRows.trans h.maxScanRows
  fullScan hreject hall hlarge :=
    hw.fullScan (h.fullScan hreject).1 hall ((h.fullScan hreject).2.trans hlarge)
  temporary hreject := hw.temporary (h.temporary hreject)
  filesort hreject := hw.filesort (h.filesort hreject)

/-- The loaded policy accepts every target of an allowed run. -/
theorem loaded_acceptsTarget {evaluate : Evaluator}
    (hacc : (freshContext sql routeContext parsed decision).Acceptable db evaluate loaded)
    (htarget : target ∈ decision.targets) :
    loaded.AcceptsTarget db evaluate parsed (rewrite parsed decision.rewritePlans) target :=
  ⟨hacc.sqlType, hacc.limitPresent, hacc.limitValue, hacc.explain target htarget⟩

/-- What the loaded policy accepts of a `select`, a policy that is not stricter accepts. -/
theorem PolicySet.AcceptsTarget.noStricter {U : UnicodeData} {rewrittenSql : Str}
    (hselect : parsed.sqlType = "select") (h : policy.NoStricter loaded)
    (hacc : loaded.AcceptsTarget db (evaluate U backend) parsed rewrittenSql target) :
    policy.AcceptsTarget db (evaluate U backend) parsed rewrittenSql target where
  sqlType := hselect ▸ h.selects
  limitPresent hrequire := hacc.limitPresent (h.limitPresent hrequire)
  limitValue n hn := (hacc.limitValue n hn).trans h.maxLimit
  plan d hd := by
    obtain ⟨e, he, ha⟩ := hacc.plan d hd
    obtain ⟨hengine, htext, rowCount, plan, hcount, hplan, rfl⟩ := evaluate_eq_ok.1 he
    refine ⟨_, evaluate_eq_ok.2 ⟨hengine, htext, rowCount, plan, hcount, hplan, rfl⟩, ?_⟩
    cases plan with
    | nil => exact absurd ha Bool.false_ne_true
    | cons row rest =>
      exact (judge_allowed_iff _).2 (Within.noStricter h ((judge_allowed_iff _).1 ha))

/-- Where no table's policy is stricter than the loaded one, every allowed check is guarded by the
policies of its tables. -/
theorem guardedByOwnPolicies_of_noStricter (hdb : db.Constraints) (h : db.OwnPoliciesNoStricter)
    (backend : Backend) (sql : Str) (routeContext : JsonDict) :
    GuardedByOwnPolicies rt db (evaluate rt.toUnicodeData backend) sql routeContext := by
  intro result parsed decision hresult ha hparsed hdecision target htarget policy hown
  obtain ⟨parsed', decision', context, hrun, -⟩ := check_allowed_iff.1 ⟨hresult, ha⟩
  obtain ⟨rfl, rfl⟩ := hrun.eq_of_ok hparsed hdecision
  obtain ⟨loaded, hacc⟩ := hrun.acceptable
  have hselect : parsed.sqlType = "select" :=
    (BasicSqlGuard.parse_of_evaluate_allowed hrun.guarded hrun.read).1
  -- The target goes through a route of the table that names the policy.
  obtain ⟨-, hall⟩ := resolve_allowed hrun.resolved hrun.routed
  obtain ⟨table, -, d, hd⟩ := exists_of_forall₂_right hall htarget
  obtain ⟨route, owner, datasource, through, henabled, hdenabled, -⟩ :=
    (resolveTable_via hd).through hdb
  obtain ⟨t, ht, hname, hcode⟩ := hown.named
  obtain rfl : t = owner :=
    hdb.tableName.eq_of_mem ht through.owns.1 (hname.trans through.named.symm)
  have hguards : policy.Guards db route := ⟨⟨through.registered, henabled⟩,
    ⟨datasource, through.placed.1, through.placed.2, hdenabled⟩,
      ⟨hown.registered, hown.enabled⟩,
    ⟨t, ht, through.owns.2, hcode⟩⟩
  have hloaded := loaded_acceptsTarget hacc htarget
  exact hloaded.noStricter hselect
    (h loaded hacc.policyEnabled (hselect ▸ hloaded.sqlType) policy route hguards)

/-! ## Shards with a stricter policy -/

/-- A backend with one plan and one size for all tables. -/
def planBackend (row : PlanRow) (size : Int) : Backend where
  isWord _ := false
  engineError _ := none
  textError _ := none
  tableRows _ _ := .ok (some size)
  countReply _ _ := .ok size
  explainReply _ _ := .ok [row]
  queryReply _ _ := .ok []

theorem evaluate_planBackend (U : UnicodeData) (row : PlanRow) (size : Int)
    (datasource : DatasourceInstance) (sql name : Str) (policy : PolicySet) :
    evaluate U (planBackend row size) datasource sql name policy =
      .ok (judge U row name size policy) := by
  refine evaluate_eq_ok.2 ⟨rfl, rfl, size, [row], ?_, rfl, rfl⟩
  show (if size ≤ 0 then Except.ok size else Except.ok size) = Except.ok size
  exact ite_self _

/-- A shard that can be read under its name is read with every limit and plan that the loaded
policy accepts; so its own policy accepts them if it guards the reads. -/
theorem accepts_of_guarded (hdb : db.Constraints) {x : Str} {limit : Option Nat}
    {route : PhysicalTableRoute} {datasource : DatasourceInstance}
    (hread : ReadsPlain rt db x limit route datasource loaded) (hguards : policy.Guards db route)
    {row : PlanRow} {size : Int}
    (hrow : Within rt.toUnicodeData loaded row (loaded.largeTableRowThreshold ≤ size))
    (h : GuardedByOwnPolicies rt db (evaluate rt.toUnicodeData (planBackend row size))
      (readSql x limit) []) :
    policy.allowsSqlType "select" = true ∧ (policy.requireLimit = true → limit ≠ none) ∧
      (∀ k ∈ limit, (k : Int) ≤ policy.maxLimit) ∧
      Within rt.toUnicodeData policy row (policy.largeTableRowThreshold ≤ size) := by
  have hplan : ∃ e, evaluate rt.toUnicodeData (planBackend row size) datasource (readSql x limit)
      route.physicalTableName loaded = .ok e ∧ e.allowed = true :=
    ⟨_, evaluate_planBackend .., (judge_allowed_iff _).2 hrow⟩
  obtain ⟨parsed, decision, context, hrun, hhas, hvalue, htargets, -⟩ :=
    hread.allowedRun [] hplan
  obtain ⟨hcheck, ha⟩ := check_allowed_iff.2 ⟨parsed, decision, context, hrun, rfl⟩
  obtain ⟨owner, howner, hid, hcode⟩ := hguards.named
  have hown : (physicalTarget db (selectTable x) route datasource).OwnPolicy db policy := by
    refine ⟨hguards.registered.1, hguards.registered.2, owner, howner, ?_, hcode⟩
    rw [physicalTarget, ← hid, hdb.logicalTableById_eq howner]
    rfl
  have hacc := h _ parsed decision hcheck ha hrun.read hrun.resolved _
    (htargets ▸ List.mem_singleton_self _) policy hown
  have hselect : parsed.sqlType = "select" :=
    (BasicSqlGuard.parse_of_evaluate_allowed hrun.guarded hrun.read).1
  obtain ⟨-, hfound, -⟩ := Metadata.getEnabledByCode_eq_some hread.placed
  have hd : db.getEnabledByCode datasource.datasourceCode = .ok (some datasource) :=
    hfound ▸ hread.placed
  obtain ⟨e, he, hallowed⟩ := hacc.plan datasource hd
  rw [evaluate_planBackend] at he
  obtain rfl := Except.ok.inj he
  refine ⟨hselect ▸ hacc.sqlType, fun hrequire => ?_, fun k hk => hacc.limitValue k ?_,
    (judge_allowed_iff _).1 hallowed⟩
  · exact Option.isSome_iff_ne_none.1 (hhas.symm.trans (hacc.limitPresent hrequire))
  · rw [hvalue, hk]
    rfl

/-- The first row of a plan that scans as many rows as the loaded policy takes. -/
def widestScan (loaded : PolicySet) (type extra : Str) : PlanRow :=
  ⟨none, some type, none, some loaded.maxScanRows, some extra⟩

theorem textOr_some (x : Str) : textOr (some x) [] = x := by
  cases x <;> rfl

theorem upper_all (U : UnicodeData) : upper U "ALL" = "ALL" := by
  have htext : upper U "ALL" = U.upperChar 'A' ++ (U.upperChar 'L' ++ (U.upperChar 'L' ++ [])) :=
    rfl
  rw [htext, U.upperChar_ascii 'A' (by decide), U.upperChar_ascii 'L' (by decide)]
  rfl

theorem within_widestScan {U : UnicodeData} {type extra : Str} {large : Prop}
    (hall : loaded.rejectFullScanOnLargeTable = true → upper U type = "ALL" → ¬ large)
    (htemporary : loaded.rejectUsingTemporary = true → contains extra "Using temporary" = false)
    (hfilesort : loaded.rejectUsingFilesort = true → contains extra "Using filesort" = false) :
    Within U loaded (widestScan loaded type extra) large := by
  refine ⟨le_refl _, ?_, ?_, ?_⟩ <;> rw [widestScan, textOr_some] <;> assumption

/-- A shard whose reads are guarded by its own policy has no stricter policy than the loaded one. -/
theorem noStricter_of_guarded (hdb : db.Constraints) {x : Str} {route : PhysicalTableRoute}
    {datasource : DatasourceInstance}
    (hread : ReadsPlain rt db x (some loaded.maxLimit.toNat) route datasource loaded)
    (hguards : policy.Guards db route)
    (h : ∀ limit row size, GuardedByOwnPolicies rt db
      (evaluate rt.toUnicodeData (planBackend row size)) (readSql x limit) []) :
    policy.NoStricter loaded := by
  have hnotAll : upper rt.toUnicodeData [] ≠ "ALL" := List.cons_ne_nil _ _ |>.symm
  have hplain : Within rt.toUnicodeData loaded (widestScan loaded [] [])
      (loaded.largeTableRowThreshold ≤ 0) :=
    within_widestScan (fun _ hall => absurd hall hnotAll) (fun _ => by decide) fun _ => by decide
  obtain ⟨hselects, -, hlimit, hscan⟩ := accepts_of_guarded hdb hread hguards hplain (h _ _ _)
  refine ⟨hselects, fun hrequire => ?_, ?_, hscan.scanRows, fun hreject => ?_, fun hreject => ?_,
    fun hreject => ?_⟩
  · -- Without a limit.
    by_contra hloaded
    have hread' : ReadsPlain rt db x none route datasource loaded :=
      { hread with
        limitPresent := fun hr => absurd hr hloaded
        limitValue := fun _ hk => absurd hk (by simp)
        limitFits := fun _ hk => absurd hk (by simp) }
    obtain ⟨-, hpresent, -, -⟩ := accepts_of_guarded hdb hread' hguards hplain (h _ _ _)
    exact hpresent hrequire rfl
  · exact (Int.self_le_toNat _).trans (hlimit _ rfl)
  · -- A full scan of a table that is large for the policy.
    by_contra hloaded
    have hrow : Within rt.toUnicodeData loaded (widestScan loaded "ALL" [])
        (loaded.largeTableRowThreshold ≤ policy.largeTableRowThreshold) :=
      within_widestScan (fun hr _ hle => hloaded ⟨hr, hle⟩) (fun _ => by decide)
        fun _ => by decide
    obtain ⟨-, -, -, hwithin⟩ := accepts_of_guarded hdb hread hguards hrow (h _ _ _)
    exact hwithin.fullScan hreject (upper_all _) (le_refl _)
  · by_contra hloaded
    have hrow : Within rt.toUnicodeData loaded (widestScan loaded [] "Using temporary")
        (loaded.largeTableRowThreshold ≤ 0) :=
      within_widestScan (fun _ hall => absurd hall hnotAll) (fun hr => absurd hr hloaded)
        fun _ => by decide
    obtain ⟨-, -, -, hwithin⟩ := accepts_of_guarded hdb hread hguards hrow (h _ _ _)
    have hnone := hwithin.temporary hreject
    rw [widestScan, textOr_some] at hnone
    exact absurd hnone (by decide)
  · by_contra hloaded
    have hrow : Within rt.toUnicodeData loaded (widestScan loaded [] "Using filesort")
        (loaded.largeTableRowThreshold ≤ 0) :=
      within_widestScan (fun _ hall => absurd hall hnotAll) (fun _ => by decide)
        fun hr => absurd hr hloaded
    obtain ⟨-, -, -, hwithin⟩ := accepts_of_guarded hdb hread hguards hrow (h _ _ _)
    have hnone := hwithin.filesort hreject
    rw [widestScan, textOr_some] at hnone
    exact absurd hnone (by decide)

/-- Every allowed check is guarded by the policies of its tables if none of them is stricter than
the loaded one; and where the policy of a shard that can be read under its name is stricter, there
is an allowed check of this shard that its policy does not accept. -/
theorem guardedByOwnPolicies_exact (rt : Runtime) (db : Metadata) (hdb : db.Constraints) :
    (db.OwnPoliciesNoStricter → ∀ backend sql routeContext,
      GuardedByOwnPolicies rt db (evaluate rt.toUnicodeData backend) sql routeContext) ∧
    ∀ x route datasource (loaded : PolicySet),
      ReadsPlain rt db x (some loaded.maxLimit.toNat) route datasource loaded →
      ∀ policy : PolicySet, policy.Guards db route → ¬ policy.NoStricter loaded →
        ∃ backend limit, ¬ GuardedByOwnPolicies rt db (evaluate rt.toUnicodeData backend)
          (readSql x limit) [] := by
  refine ⟨guardedByOwnPolicies_of_noStricter hdb, ?_⟩
  intro x route datasource loaded hread policy hguards hstricter
  by_contra hnone
  refine hstricter (noStricter_of_guarded hdb hread hguards fun limit row size => ?_)
  by_contra hviolated
  exact hnone ⟨planBackend row size, limit, hviolated⟩

end Guarded

/-! ## A stricter policy -/

/-- A policy that asks for at most five rows. -/
def strictPolicy : PolicySet :=
  ⟨2, "strict_guard", [.str "select"], true, 5, 100000, 10000, true, true, true, true⟩

/-- The example's metadata, with the table under the strict policy. -/
def strictMetadata : Metadata where
  datasources := exampleMetadata.datasources
  logicalTables := ⟨[{ exampleTable with defaultPolicyCode := "strict_guard" }], 2⟩
  routeFactors := exampleMetadata.routeFactors
  routeRules := exampleMetadata.routeRules
  physicalRoutes := exampleMetadata.physicalRoutes
  policies := ⟨[examplePolicy, strictPolicy], 3⟩
  statsSnapshots := exampleMetadata.statsSnapshots
  auditLogs := exampleMetadata.auditLogs

/-- A statement with `limit 10` on that table is allowed, though the policy of the table asks for
at most five rows. -/
theorem strictMetadata_unguarded : ¬ GuardedByOwnPolicies asciiRuntime strictMetadata
    (evaluate asciiRuntime.toUnicodeData exampleBackend) exampleSql [] := by
  intro h
  have hallowed : (check asciiRuntime strictMetadata
      (evaluate asciiRuntime.toUnicodeData exampleBackend) exampleSql []).map (·.allowed) =
      .ok true := by decide +kernel
  have hresolved : (resolve asciiRuntime strictMetadata exampleParsed []).map
      (fun decision => decision.targets.map (·.logicalTableName)) = .ok ["user"] := by
    decide +kernel
  obtain ⟨result, hresult, ha⟩ := map_eq_ok.1 hallowed
  obtain ⟨decision, hdecision, hnames⟩ := map_eq_ok.1 hresolved
  obtain ⟨target, htarget, hname⟩ : ∃ target ∈ decision.targets,
      target.logicalTableName = "user" :=
    List.mem_map.1 (hnames ▸ List.mem_singleton_self _)
  have hown : target.OwnPolicy strictMetadata strictPolicy :=
    ⟨List.mem_cons_of_mem _ (List.mem_singleton_self _), rfl, _, List.mem_singleton_self _,
      hname.symm, rfl⟩
  have hlimit : (10 : Int) ≤ 5 := (h result exampleParsed decision hresult ha parse_exampleSql
    hdecision target htarget strictPolicy hown).limitValue 10 rfl
  exact absurd hlimit (by decide)

theorem strictMetadata_constraints : strictMetadata.Constraints where
  datasourceIds := exampleMetadata_constraints.datasourceIds
  logicalTableIds := ⟨by decide, by decide⟩
  routeFactorIds := exampleMetadata_constraints.routeFactorIds
  routeRuleIds := exampleMetadata_constraints.routeRuleIds
  physicalRouteIds := exampleMetadata_constraints.physicalRouteIds
  policyIds := ⟨by decide, by decide⟩
  statsSnapshotIds := exampleMetadata_constraints.statsSnapshotIds
  auditLogIds := exampleMetadata_constraints.auditLogIds
  datasourceCode := exampleMetadata_constraints.datasourceCode
  tableName := by decide
  uqRouteFactorTableName := exampleMetadata_constraints.uqRouteFactorTableName
  uqRouteRuleTableName := exampleMetadata_constraints.uqRouteRuleTableName
  uqTableRouteValue := exampleMetadata_constraints.uqTableRouteValue
  policyCode := by decide
  uqStatsTable := exampleMetadata_constraints.uqStatsTable
  factorTable := by decide
  ruleTable := by decide
  routeTable := by decide
  routeDatasource := exampleMetadata_constraints.routeDatasource
  statsDatasource := exampleMetadata_constraints.statsDatasource

theorem readsPlain_strict : ReadsPlain asciiRuntime strictMetadata "user_1" (some 1000)
    ⟨2, 1, "1", "user_1", 1, true, .dict []⟩ exampleDatasource examplePolicy where
  name := by decide
  registered := rfl
  placed := rfl
  loaded := rfl
  selects := by decide
  limitPresent _ := by simp
  limitValue k hk := by
    cases hk
    decide
  limitFits k hk := by
    cases hk
    exact asciiRuntime.digitsFit_small (by decide)

theorem guards_strict :
    strictPolicy.Guards strictMetadata ⟨2, 1, "1", "user_1", 1, true, .dict []⟩ where
  routed := ⟨List.mem_cons_of_mem _ List.mem_cons_self, rfl⟩
  placed := ⟨exampleDatasource, List.mem_cons_self, rfl, rfl⟩
  registered := ⟨List.mem_cons_of_mem _ List.mem_cons_self, rfl⟩
  named := ⟨_, List.mem_cons_self, rfl, rfl⟩

/-- The example's only policy is the loaded one. -/
theorem exampleMetadata_noStricter : exampleMetadata.OwnPoliciesNoStricter := by
  intro loaded hloaded hselect policy route hguards
  obtain rfl : examplePolicy = loaded := Option.some.inj (Except.ok.inj hloaded)
  rw [List.mem_singleton.1 (show policy ∈ [examplePolicy] from hguards.registered.1)]
  exact ⟨hselect, id, le_refl _, le_refl _, fun h => ⟨h, le_refl _⟩, id, id⟩

/-- The check of the example's statement is guarded; with the strict policy registered, a shard is
read that its policy does not accept. -/
theorem guardedByOwnPolicies_example :
    GuardedByOwnPolicies asciiRuntime exampleMetadata
        (evaluate asciiRuntime.toUnicodeData exampleBackend) exampleSql [] ∧
      ∃ backend limit, ¬ GuardedByOwnPolicies asciiRuntime strictMetadata
        (evaluate asciiRuntime.toUnicodeData backend) (readSql "user_1" limit) [] :=
  ⟨(guardedByOwnPolicies_exact asciiRuntime exampleMetadata exampleMetadata_constraints).1
      exampleMetadata_noStricter exampleBackend exampleSql [],
    (guardedByOwnPolicies_exact asciiRuntime strictMetadata strictMetadata_constraints).2 _ _ _
      examplePolicy readsPlain_strict strictPolicy guards_strict
      fun h => absurd h.maxLimit (by decide)⟩

end SqlGatekeeper
