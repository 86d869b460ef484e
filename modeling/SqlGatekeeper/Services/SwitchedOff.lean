import SqlGatekeeper.Services.PlainReads

/-!
# Switched-off metadata

Routes, logical tables and datasources can be disabled, and a datasource is flagged `read_only`.
A statement reaches a route by a logical name or by the physical name itself.

* `RouteTarget.Through`: the route of a target, the table that owns it and its datasource.
* `RoutedThroughOpen`: every target of an allowed check goes through records that are switched
  on, to a read-only datasource.
* `Metadata.RoutesOpen`: the condition on the metadata; `routedThroughOpen_exact`: it is enough, and
  no shard that can be read under its name may miss it.
-/

namespace SqlGatekeeper

open Py Store SqlCheckService

/-! ## The records behind a target -/

/-- The registered route of a target, its owner and its datasource. -/
structure RouteTarget.Through (db : Metadata) (target : RouteTarget) (route : PhysicalTableRoute)
    (owner : LogicalTable) (datasource : DatasourceInstance) : Prop where
  registered : route ∈ db.physicalRoutes.rows
  physical : route.physicalTableName = target.physicalTableName
  value : route.routeValue = target.routeValue
  owns : owner ∈ db.logicalTables.rows ∧ owner.id = route.logicalTableId
  named : owner.tableName = target.logicalTableName
  placed : datasource ∈ db.datasources.rows ∧ datasource.id = route.datasourceId
  coded : datasource.datasourceCode = target.datasourceCode

/-- Every target of an allowed check goes through an enabled route of an enabled logical table on
an enabled datasource that is read-only. -/
def RoutedThroughOpen (rt : Runtime) (db : Metadata) (evaluate : Evaluator) (sql : Str)
    (routeContext : JsonDict) : Prop :=
  ∀ result parsed decision,
    check rt db evaluate sql routeContext = .ok result → result.allowed = true →
    parse rt sql = .ok parsed → resolve rt db parsed routeContext = .ok decision →
    ∀ target ∈ decision.targets, ∃ route owner datasource,
      target.Through db route owner datasource ∧ route.enabled = true ∧ owner.enabled = true ∧
        datasource.enabled = true ∧ datasource.readOnly = true

/-- Every enabled route that is placed on an enabled datasource belongs to an enabled logical table,
and the datasource is read-only. -/
def Metadata.RoutesOpen (db : Metadata) : Prop :=
  ∀ route ∈ db.physicalRoutes.rows, route.enabled = true →
    ∀ datasource ∈ db.datasources.rows, datasource.id = route.datasourceId →
      datasource.enabled = true → datasource.readOnly = true ∧
        ∀ owner ∈ db.logicalTables.rows, owner.id = route.logicalTableId →
          owner.enabled = true

section Through

variable {db : Metadata} {table : ParsedTable} {target : RouteTarget} {route : PhysicalTableRoute}
  {owner : LogicalTable} {datasource : DatasourceInstance}

/-- The datasource that is found for a route is the one the route is placed on. -/
theorem placed_of_found (hdb : db.Constraints) (hroute : route ∈ db.physicalRoutes.rows)
    (h : db.getEnabledByCode (datasourceCodeFromId db route.datasourceId) =
      .ok (some datasource)) :
    datasource ∈ db.datasources.rows ∧ datasource.id = route.datasourceId ∧
      datasource.enabled = true := by
  obtain ⟨hmem, hcode, henabled⟩ := Metadata.getEnabledByCode_eq_some h
  obtain ⟨d, hd, hid⟩ := hdb.routeDatasource route hroute
  have hfound : datasourceCodeFromId db route.datasourceId = d.datasourceCode := by
    rw [datasourceCodeFromId, ← hid, hdb.datasourceById_eq hd]
  obtain rfl : datasource = d := hdb.datasourceCode.eq_of_mem hmem hd (hcode.trans hfound)
  exact ⟨hmem, hid, henabled⟩

/-- Either way leads through a route; the owner may be disabled only on the physical way. -/
theorem RouteTarget.Via.through (hdb : db.Constraints) (h : target.Via db table) :
    ∃ route owner datasource, target.Through db route owner datasource ∧
      route.enabled = true ∧ datasource.enabled = true ∧
      (owner.enabled = true ∨ route.physicalTableName = table.tableName) := by
  cases h with
  | physical route datasource found placed eq =>
    obtain ⟨hmem, hname, henabled⟩ := Metadata.getEnabledByPhysicalTableName_eq_some found
    obtain ⟨hd, hid, hdenabled⟩ := placed_of_found hdb hmem placed
    obtain ⟨owner, howner, hoid⟩ := hdb.routeTable route hmem
    refine ⟨route, owner, datasource, ⟨hmem, ?_, ?_, ⟨howner, hoid⟩, ?_, ⟨hd, hid⟩,
      ?_⟩, henabled, hdenabled, Or.inr hname⟩
    · rw [eq, physicalTarget]
    · rw [eq, physicalTarget]
    · rw [eq, physicalTarget, ← hoid, hdb.logicalTableById_eq howner]
      rfl
    · rw [eq, physicalTarget]
  | logical owner value route datasource notPhysical named found placed eq =>
    obtain ⟨howner, -, hoenabled⟩ := Metadata.getEnabledByName_eq_some named
    obtain ⟨hmem, hoid, hvalue, henabled⟩ :=
      Metadata.getEnabledByLogicalTableAndRouteValue_eq_some found
    obtain ⟨hd, hid, hdenabled⟩ := placed_of_found hdb hmem placed
    refine ⟨route, owner, datasource, ⟨hmem, ?_, ?_, ⟨howner, hoid.symm⟩, ?_, ⟨hd, hid⟩,
      ?_⟩, henabled, hdenabled, Or.inl hoenabled⟩
    · rw [eq, logicalTarget]
    · rw [eq, logicalTarget, hvalue]
    · rw [eq, logicalTarget]
    · rw [eq, logicalTarget]

/-- An enabled route with the name of a table is the route of its target. -/
theorem RouteTarget.Via.eq_physical (h : target.Via db table)
    (hroute : route ∈ db.physicalRoutes.rows) (henabled : route.enabled = true)
    (hname : route.physicalTableName = table.tableName) :
    ∃ datasource, target = physicalTarget db table route datasource := by
  have hp : decide (route.physicalTableName = table.tableName ∧ route.enabled = true) = true := by
    simpa using ⟨hname, henabled⟩
  cases h with
  | physical found datasource hfound placed eq =>
    have hsame := hfound.symm.trans (oneOrNone_filter_of_mem hfound hroute hp)
    obtain rfl : found = route := by simpa using hsame
    exact ⟨datasource, eq⟩
  | logical owner value found datasource notPhysical named hfound placed eq =>
    have hsame := notPhysical.symm.trans (oneOrNone_filter_of_mem notPhysical hroute hp)
    exact absurd hsame (by simp)

end Through

/-! ## The law and its condition -/

/-- On metadata whose routes are open the targets of every allowed check go through open records. -/
theorem routedThroughOpen_of_routesOpen {rt : Runtime} {db : Metadata} (hdb : db.Constraints)
    (h : db.RoutesOpen) (evaluate : Evaluator) (sql : Str) (routeContext : JsonDict) :
    RoutedThroughOpen rt db evaluate sql routeContext := by
  intro result parsed decision hresult ha hparsed hdecision target htarget
  obtain ⟨parsed', decision', context, hrun, -⟩ := check_allowed_iff.1 ⟨hresult, ha⟩
  obtain ⟨rfl, rfl⟩ := hrun.eq_of_ok hparsed hdecision
  obtain ⟨-, hall⟩ := resolve_allowed hrun.resolved hrun.routed
  obtain ⟨table, -, d, hd⟩ := exists_of_forall₂_right hall htarget
  obtain ⟨route, owner, datasource, through, henabled, hdenabled, -⟩ :=
    (resolveTable_via hd).through hdb
  obtain ⟨hreadOnly, howner⟩ := h route through.registered henabled datasource through.placed.1
    through.placed.2 hdenabled
  exact ⟨route, owner, datasource, through, henabled, howner owner through.owns.1 through.owns.2,
    hdenabled, hreadOnly⟩

/-- A shard that can be read under its name shows its disabled owner, or its writable datasource. -/
theorem not_routedThroughOpen_of_readsPlain {rt : Runtime} {db : Metadata} (hdb : db.Constraints)
    {x : Str} {limit : Option Nat} {route : PhysicalTableRoute} {datasource : DatasourceInstance}
    {policy : PolicySet} (hread : ReadsPlain rt db x limit route datasource policy)
    {evaluate : Evaluator} (hplan : ∃ e, evaluate datasource (readSql x limit)
      route.physicalTableName policy = .ok e ∧ e.allowed = true)
    {owner : LogicalTable} (howner : owner ∈ db.logicalTables.rows ∧ owner.id =
      route.logicalTableId)
    (hshut : ¬ (datasource.readOnly = true ∧ owner.enabled = true)) (routeContext : JsonDict) :
    ¬ RoutedThroughOpen rt db evaluate (readSql x limit) routeContext := by
  intro h
  obtain ⟨parsed, decision, context, hrun, -, -, htargets, -⟩ :=
    hread.allowedRun routeContext hplan
  obtain ⟨hcheck, ha⟩ := check_allowed_iff.2 ⟨parsed, decision, context, hrun, rfl⟩
  obtain ⟨_, owner', d, through, -, hoenabled, -, hreadOnly⟩ :=
    h _ parsed decision hcheck ha hrun.read hrun.resolved _ (htargets ▸ List.mem_singleton_self _)
  have hnamed : owner'.tableName = owner.tableName := by
    rw [through.named, physicalTarget, ← howner.2, hdb.logicalTableById_eq howner.1]
    rfl
  obtain rfl : owner' = owner := hdb.tableName.eq_of_mem through.owns.1 howner.1 hnamed
  obtain ⟨hmem, -, -⟩ := Metadata.getEnabledByCode_eq_some hread.placed
  obtain rfl : d = datasource := hdb.datasourceCode.eq_of_mem through.placed.1 hmem through.coded
  exact hshut ⟨hreadOnly, hoenabled⟩

/-- The targets of every allowed check go through open records if the routes are open; and where a
shard that can be read under its name is not open, there is an allowed check that reads it. -/
theorem routedThroughOpen_exact (rt : Runtime) (db : Metadata) (hdb : db.Constraints) :
    (db.RoutesOpen → ∀ evaluate sql routeContext,
      RoutedThroughOpen rt db evaluate sql routeContext) ∧
    ∀ x limit route datasource policy, ReadsPlain rt db x limit route datasource policy →
      ∀ owner, owner ∈ db.logicalTables.rows ∧ owner.id = route.logicalTableId →
        ¬ (datasource.readOnly = true ∧ owner.enabled = true) →
        ¬ RoutedThroughOpen rt db acceptPlans (readSql x limit) [] :=
  ⟨fun h evaluate sql routeContext => routedThroughOpen_of_routesOpen hdb h evaluate sql
    routeContext, fun _ _ _ _ _ hread _ howner hshut =>
      not_routedThroughOpen_of_readsPlain hdb hread ⟨_, rfl, rfl⟩ howner hshut []⟩

/-- The example's routes are open. -/
theorem exampleMetadata_routesOpen : exampleMetadata.RoutesOpen := by
  refine fun route _ _ datasource hds _ _ => ⟨?_, fun owner howner _ => ?_⟩
  · rw [List.mem_singleton.1 (show datasource ∈ [exampleDatasource] from hds)]
    rfl
  · rw [List.mem_singleton.1 (show owner ∈ [exampleTable] from howner)]
    rfl

/-! ## Access through switched-off records -/

/-- The example's metadata, with the logical table disabled and the datasource writable. -/
def switchedOffMetadata : Metadata where
  datasources := ⟨[{ exampleDatasource with readOnly := false }], 2⟩
  logicalTables := ⟨[{ exampleTable with enabled := false }], 2⟩
  routeFactors := exampleMetadata.routeFactors
  routeRules := exampleMetadata.routeRules
  physicalRoutes := exampleMetadata.physicalRoutes
  policies := exampleMetadata.policies
  statsSnapshots := exampleMetadata.statsSnapshots
  auditLogs := exampleMetadata.auditLogs

/-- A shard of the disabled table. -/
def shardSql : Str := "select * from user_1 limit 10"

/-- The shard of a disabled table is still read under its physical name, on a datasource that is
not read-only. -/
theorem switchedOffMetadata_open :
    ¬ RoutedThroughOpen asciiRuntime switchedOffMetadata acceptPlans shardSql [] := by
  intro h
  have hallowed : (check asciiRuntime switchedOffMetadata acceptPlans shardSql []).map
      (·.allowed) = .ok true := by decide +kernel
  obtain ⟨result, hresult, ha⟩ := map_eq_ok.1 hallowed
  obtain ⟨parsed, decision, context, hrun, -⟩ := check_allowed_iff.1 ⟨hresult, ha⟩
  obtain ⟨target, htarget⟩ :=
    List.exists_mem_of_ne_nil _ (resolve_targets_ne_nil hrun.resolved hrun.routed)
  obtain ⟨_, owner, _, through, -, henabled, -⟩ :=
    h result parsed decision hresult ha hrun.read hrun.resolved target htarget
  rw [List.mem_singleton.1
    (show owner ∈ [{ exampleTable with enabled := false }] from through.owns.1)] at henabled
  exact absurd henabled (by decide)

theorem switchedOffMetadata_constraints : switchedOffMetadata.Constraints where
  datasourceIds := ⟨by decide, by decide⟩
  logicalTableIds := ⟨by decide, by decide⟩
  routeFactorIds := exampleMetadata_constraints.routeFactorIds
  routeRuleIds := exampleMetadata_constraints.routeRuleIds
  physicalRouteIds := exampleMetadata_constraints.physicalRouteIds
  policyIds := exampleMetadata_constraints.policyIds
  statsSnapshotIds := exampleMetadata_constraints.statsSnapshotIds
  auditLogIds := exampleMetadata_constraints.auditLogIds
  datasourceCode := by decide
  tableName := by decide
  uqRouteFactorTableName := exampleMetadata_constraints.uqRouteFactorTableName
  uqRouteRuleTableName := exampleMetadata_constraints.uqRouteRuleTableName
  uqTableRouteValue := exampleMetadata_constraints.uqTableRouteValue
  policyCode := exampleMetadata_constraints.policyCode
  uqStatsTable := exampleMetadata_constraints.uqStatsTable
  factorTable := by decide
  ruleTable := by decide
  routeTable := by decide
  routeDatasource := by decide
  statsDatasource := by decide

theorem readsPlain_switchedOff : ReadsPlain asciiRuntime switchedOffMetadata "user_1" (some 10)
    ⟨2, 1, "1", "user_1", 1, true, .dict []⟩ { exampleDatasource with readOnly := false }
    examplePolicy where
  name := by decide
  registered := rfl
  placed := rfl
  loaded := rfl
  selects := by decide
  limitPresent _ := by simp
  limitValue k hk := by
    cases hk
    decide
  limitFits k hk := by
    cases hk
    exact asciiRuntime.digitsFit_small (by decide)

/-- Every check of the example's statement goes through open records; switched off, a shard of the
example is read through a disabled table. -/
theorem routedThroughOpen_example :
    RoutedThroughOpen asciiRuntime exampleMetadata acceptPlans exampleSql [] ∧
      ¬ RoutedThroughOpen asciiRuntime switchedOffMetadata acceptPlans
        (readSql "user_1" (some 10)) [] :=
  ⟨(routedThroughOpen_exact asciiRuntime exampleMetadata exampleMetadata_constraints).1
      exampleMetadata_routesOpen acceptPlans exampleSql [],
    (routedThroughOpen_exact asciiRuntime switchedOffMetadata switchedOffMetadata_constraints).2 _ _
      _ _ _ readsPlain_switchedOff { exampleTable with enabled := false }
      ⟨List.mem_singleton_self _, rfl⟩ fun h => Bool.false_ne_true h.2⟩

end SqlGatekeeper
