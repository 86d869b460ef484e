import SqlGatekeeper.Services.Routing

/-!
# What a resolution gives

* `RouteTarget.Resolved`: a target goes through a registered route to an enabled
  datasource; `resolveTable_resolved`: every target does.
* `resolve_allowed`: an allowed resolution has one target for each table, in order.
* `resolve_rejected`: a rejected one has none.
* `RulesEvaluate`, `resolve_eq_error`: with unambiguous metadata and rules that
  evaluate, a resolution raises only when `str` refuses a context value.
-/

namespace SqlGatekeeper

open Py Store

variable {rt : Runtime} {db : Metadata} {parsed : ParsedSql} {routeContext : JsonDict}

/-! ## Targets -/

/-- A target of a table: an enabled route, on an enabled datasource, and a plan that
replaces the table's own name unless it is the physical one already. -/
structure RouteTarget.Resolved (db : Metadata) (table : ParsedTable) (target : RouteTarget) :
    Prop where
  original : target.originalTableName = table.tableName
  datasource : ∃ d, db.getEnabledByCode target.datasourceCode = .ok (some d)
  route : ∃ r ∈ db.physicalRoutes.rows, r.enabled = true ∧
    r.physicalTableName = target.physicalTableName ∧ r.routeValue = target.routeValue ∧
    datasourceCodeFromId db r.datasourceId = target.datasourceCode
  plan : target.rewritePlan = (if target.requiresRewrite = true then
      some ⟨table.tableName, target.physicalTableName, table.tokenStart, table.tokenEnd⟩
    else none)
  physical : target.requiresRewrite = false → target.physicalTableName = table.tableName

theorem buildPhysicalTarget_resolved {table : ParsedTable} {physicalRoute : PhysicalTableRoute}
    {target : RouteTarget}
    (hroute : db.getEnabledByPhysicalTableName table.tableName = .ok (some physicalRoute))
    (h : buildPhysicalTarget db table physicalRoute = .ok (some target)) :
    target.Resolved db table := by
  obtain ⟨hmem, hname, henabled⟩ := Metadata.getEnabledByPhysicalTableName_eq_some hroute
  obtain ⟨d, hd, h⟩ := bind_eq_ok.1 h
  cases d with
  | none => exact absurd h (by simp [pure, Except.pure])
  | some d =>
    obtain ⟨-, hcode, -⟩ := Metadata.getEnabledByCode_eq_some hd
    injection h with h
    injection h with h
    subst h
    exact ⟨rfl, ⟨d, by rw [hcode]; exact hd⟩, ⟨physicalRoute, hmem, henabled, rfl, rfl,
      hcode.symm⟩, rfl, fun _ => hname⟩

/-- The route value of a target is that of the rule. -/
theorem resolveRoute_value {table : ParsedTable} {logicalTable : LogicalTable}
    {factors : List RouteFactorDef} {routeRule : RouteRule} {values : Env} {target : RouteTarget}
    {diagnostic : Option RouteDiagnostic}
    (h : resolveRoute rt db table logicalTable factors routeRule values =
      .ok (.target target diagnostic)) :
    evaluateRouteRule rt routeRule values = .ok target.routeValue := by
  obtain ⟨value, hvalue, h⟩ := bind_eq_ok.1 h
  obtain ⟨route, -, h⟩ := bind_eq_ok.1 h
  cases route with
  | none => exact absurd h (by simp [pure, Except.pure])
  | some route =>
    obtain ⟨d, -, h⟩ := bind_eq_ok.1 h
    cases d with
    | none => exact absurd h (by simp [pure, Except.pure])
    | some d =>
      injection h with h
      injection h with h
      subst h
      exact hvalue

/-- A route value whose route and datasource are found is a target. -/
theorem resolveRoute_found (table : ParsedTable) {logicalTable : LogicalTable}
    (factors : List RouteFactorDef) {routeRule : RouteRule} {values : Env} {v : Str}
    {route : PhysicalTableRoute} {ds : DatasourceInstance}
    (hv : evaluateRouteRule rt routeRule values = .ok v)
    (hroute : db.getEnabledByLogicalTableAndRouteValue logicalTable.id v = .ok (some route))
    (hds : db.getEnabledByCode (datasourceCodeFromId db route.datasourceId) = .ok (some ds)) :
    ∃ target d, resolveRoute rt db table logicalTable factors routeRule values =
        .ok (.target target d) ∧ target.routeValue = v ∧
      target.physicalTableName = route.physicalTableName ∧
      target.datasourceCode = ds.datasourceCode :=
  ⟨_, _, bind_eq_ok.2 ⟨v, hv, bind_eq_ok.2 ⟨some route, hroute,
    bind_eq_ok.2 ⟨some ds, hds, rfl⟩⟩⟩,
    rfl, rfl, rfl⟩

/-- A logical table with one required factor, whose value is there. -/
theorem resolveLogicalTable_one {table : ParsedTable} {logicalTable : LogicalTable}
    {factor : RouteFactorDef} {routeRule : RouteRule} {s : Str}
    (hfactors : db.listRequiredEnabledByLogicalTable logicalTable.id = [factor])
    (hrule : db.getEnabledByLogicalTable logicalTable.id = .ok (some routeRule))
    (hvalue : factorValue rt db logicalTable parsed table routeContext factor = .ok (some s)) :
    resolveLogicalTable rt db parsed routeContext table logicalTable =
      resolveRoute rt db table logicalTable [factor] routeRule [(factor.factorName, s)] := by
  simp [resolveLogicalTable, hfactors, hrule, extractFactors, hvalue, bind, Except.bind, dictSet]

/-- A logical table with one required factor, whose value is missing. -/
theorem resolveLogicalTable_missing {table : ParsedTable} {logicalTable : LogicalTable}
    {factor : RouteFactorDef} {routeRule : RouteRule}
    (hfactors : db.listRequiredEnabledByLogicalTable logicalTable.id = [factor])
    (hrule : db.getEnabledByLogicalTable logicalTable.id = .ok (some routeRule))
    (hvalue : factorValue rt db logicalTable parsed table routeContext factor = .ok none) :
    ∃ code message d, resolveLogicalTable rt db parsed routeContext table logicalTable =
      .ok (.reject code message d) := by
  simp [resolveLogicalTable, hfactors, hrule, extractFactors, hvalue, bind, Except.bind, pure,
    Except.pure]

/-! ## The way to a target -/

/-- A registered physical table. -/
def EnabledPhysical (db : Metadata) (name : Str) : Prop :=
  ∃ route ∈ db.physicalRoutes.rows, route.enabled = true ∧ route.physicalTableName = name

/-- The target of a table that is a registered physical table. -/
def physicalTarget (db : Metadata) (table : ParsedTable) (route : PhysicalTableRoute)
    (datasource : DatasourceInstance) : RouteTarget where
  originalTableName := table.tableName
  logicalTableName := ((db.logicalTableById route.logicalTableId).map (·.tableName)).getD
    table.tableName
  physicalTableName := route.physicalTableName
  datasourceCode := datasource.datasourceCode
  requiresRewrite := false
  rewritePlan := none
  routeValue := route.routeValue

/-- The target of a table that is a logical table. -/
def logicalTarget (table : ParsedTable) (logicalTable : LogicalTable) (route : PhysicalTableRoute)
    (datasource : DatasourceInstance) (routeValue : Str) : RouteTarget where
  originalTableName := table.tableName
  logicalTableName := logicalTable.tableName
  physicalTableName := route.physicalTableName
  datasourceCode := datasource.datasourceCode
  requiresRewrite := true
  rewritePlan := some ⟨table.tableName, route.physicalTableName, table.tokenStart,
    table.tokenEnd⟩
  routeValue

/-- The two ways to a target: the name is that of an enabled route, or it is not and is that of an
enabled logical table that has a route for the value. -/
inductive RouteTarget.Via (db : Metadata) (table : ParsedTable) (target : RouteTarget) : Prop
  | physical (route : PhysicalTableRoute) (datasource : DatasourceInstance)
      (found : db.getEnabledByPhysicalTableName table.tableName = .ok (some route))
      (placed : db.getEnabledByCode (datasourceCodeFromId db route.datasourceId) =
        .ok (some datasource))
      (eq : target = physicalTarget db table route datasource)
  | logical (logicalTable : LogicalTable) (routeValue : Str) (route : PhysicalTableRoute)
      (datasource : DatasourceInstance)
      (notPhysical : db.getEnabledByPhysicalTableName table.tableName = .ok none)
      (named : db.getEnabledByName table.tableName = .ok (some logicalTable))
      (found : db.getEnabledByLogicalTableAndRouteValue logicalTable.id routeValue =
        .ok (some route))
      (placed : db.getEnabledByCode (datasourceCodeFromId db route.datasourceId) =
        .ok (some datasource))
      (eq : target = logicalTarget table logicalTable route datasource routeValue)

theorem buildPhysicalTarget_eq_some {table : ParsedTable} {route : PhysicalTableRoute}
    {target : RouteTarget} :
    buildPhysicalTarget db table route = .ok (some target) ↔
      ∃ datasource, db.getEnabledByCode (datasourceCodeFromId db route.datasourceId) =
        .ok (some datasource) ∧ target = physicalTarget db table route datasource := by
  constructor
  · intro h
    obtain ⟨d, hd, h⟩ := bind_eq_ok.1 h
    cases d with
    | none => exact absurd h (by simp [pure, Except.pure])
    | some d =>
      injection h with h
      injection h with h
      refine ⟨d, hd, h.symm.trans ?_⟩
      rw [physicalTarget]
      cases db.logicalTableById route.logicalTableId <;> rfl
  · rintro ⟨d, hd, rfl⟩
    refine bind_eq_ok.2 ⟨some d, hd, ?_⟩
    rw [physicalTarget]
    cases db.logicalTableById route.logicalTableId <;> rfl

/-- Every target has come one of the two ways. -/
theorem resolveTable_via {table : ParsedTable} {target : RouteTarget}
    {diagnostic : Option RouteDiagnostic}
    (h : resolveTable rt db parsed routeContext table = .ok (.target target diagnostic)) :
    target.Via db table := by
  obtain ⟨route, hroute, h⟩ := bind_eq_ok.1 h
  cases route with
  | some route =>
    obtain ⟨t, ht, h⟩ := bind_eq_ok.1 h
    cases t with
    | none => exact absurd h (by simp [pure, Except.pure])
    | some t =>
      injection h with h
      injection h with h
      subst h
      obtain ⟨datasource, hd, heq⟩ := buildPhysicalTarget_eq_some.1 ht
      exact .physical route datasource hroute hd heq
  | none =>
    obtain ⟨logical, hlogical, h⟩ := bind_eq_ok.1 h
    cases logical with
    | none =>
      simp only at h
      split at h <;> exact absurd h (by simp [pure, Except.pure])
    | some logical =>
      obtain ⟨rule, -, h⟩ := bind_eq_ok.1 h
      cases rule with
      | none => exact absurd h (by simp [pure, Except.pure])
      | some rule =>
        obtain ⟨⟨values, missing⟩, -, h⟩ := bind_eq_ok.1 h
        simp only at h
        split at h
        · exact absurd h (by simp [pure, Except.pure])
        obtain ⟨value, -, h⟩ := bind_eq_ok.1 h
        obtain ⟨found, hfound, h⟩ := bind_eq_ok.1 h
        cases found with
        | none => exact absurd h (by simp [pure, Except.pure])
        | some found =>
          obtain ⟨d, hd, h⟩ := bind_eq_ok.1 h
          cases d with
          | none => exact absurd h (by simp [pure, Except.pure])
          | some d =>
            injection h with h
            injection h with h
            exact .logical logical value found d hroute hlogical hfound hd h.symm

/-- Either way leads to a resolved target. -/
theorem RouteTarget.Via.resolved {table : ParsedTable} {target : RouteTarget}
    (h : target.Via db table) : target.Resolved db table := by
  cases h with
  | physical route datasource found placed eq =>
    exact buildPhysicalTarget_resolved found
      (buildPhysicalTarget_eq_some.2 ⟨datasource, placed, eq⟩)
  | logical logicalTable value route datasource notPhysical named found placed eq =>
    obtain ⟨hmem, -, hvalue, henabled⟩ :=
      Metadata.getEnabledByLogicalTableAndRouteValue_eq_some found
    obtain ⟨-, hcode, -⟩ := Metadata.getEnabledByCode_eq_some placed
    subst eq
    exact ⟨rfl, ⟨datasource, by rw [logicalTarget, hcode]; exact placed⟩,
      ⟨route, hmem, henabled, rfl, hvalue, hcode.symm⟩, rfl, fun h =>
        absurd h (by simp [logicalTarget])⟩

/-- Every target of a table is resolved. -/
theorem resolveTable_resolved {table : ParsedTable} {target : RouteTarget}
    {diagnostic : Option RouteDiagnostic}
    (h : resolveTable rt db parsed routeContext table = .ok (.target target diagnostic)) :
    target.Resolved db table := (resolveTable_via h).resolved

/-! ## Runs over the tables -/

/-- A run that allows has turned every table into a target. -/
theorem resolveTables_allowed {tables : List ParsedTable} {targets : List RouteTarget}
    {diagnostics : List RouteDiagnostic} {decision : RouteDecision}
    (h : resolveTables rt db parsed routeContext tables targets diagnostics = .ok decision)
    (ha : decision.allowed = true) :
    ∃ found, decision.targets = targets ++ found ∧
      List.Forall₂ (fun table target =>
        ∃ d, resolveTable rt db parsed routeContext table = .ok (.target target d))
          tables found := by
  induction tables generalizing targets diagnostics with
  | nil =>
    injection h with h
    subst h
    exact ⟨[], by simp, .nil⟩
  | cons table tables ih =>
    obtain ⟨outcome, hout, h⟩ := bind_eq_ok.1 h
    cases outcome with
    | target target d =>
      obtain ⟨found, hfound, hall⟩ := ih h
      exact ⟨target :: found, by rw [hfound]; simp, .cons ⟨d, hout⟩ hall⟩
    | reject code message d =>
      injection h with h
      subst h
      exact absurd ha (by simp)

/-- A run that turns every table into a target allows. -/
theorem resolveTables_of_targets {tables : List ParsedTable} {found : List RouteTarget}
    (h : List.Forall₂ (fun table target =>
      ∃ d, resolveTable rt db parsed routeContext table = .ok (.target target d)) tables found)
    (targets : List RouteTarget) (diagnostics : List RouteDiagnostic) :
    ∃ decision, resolveTables rt db parsed routeContext tables targets diagnostics =
      .ok decision ∧ decision.allowed = true ∧ decision.targets = targets ++ found := by
  induction h generalizing targets diagnostics with
  | nil => exact ⟨_, rfl, rfl, (List.append_nil _).symm⟩
  | @cons table target tables found hout _ ih =>
    obtain ⟨d, hout⟩ := hout
    obtain ⟨decision, hrun, ha, hfound⟩ := ih (targets ++ [target]) (diagnostics ++ d.toList)
    exact ⟨decision, bind_eq_ok.2 ⟨_, hout, hrun⟩, ha, by rw [hfound]; simp⟩

/-- A run that rejects has no targets. -/
theorem resolveTables_rejected {tables : List ParsedTable} {targets : List RouteTarget}
    {diagnostics : List RouteDiagnostic} {decision : RouteDecision}
    (h : resolveTables rt db parsed routeContext tables targets diagnostics = .ok decision)
    (ha : decision.allowed = false) : decision.targets = [] := by
  induction tables generalizing targets diagnostics with
  | nil =>
    injection h with h
    subst h
    exact absurd ha (by simp)
  | cons table tables ih =>
    obtain ⟨outcome, -, h⟩ := bind_eq_ok.1 h
    cases outcome with
    | target target d => exact ih h
    | reject code message d =>
      injection h with h
      subst h
      rfl

/-- A run raises what one of the tables raises. -/
theorem resolveTables_eq_error {tables : List ParsedTable} {targets : List RouteTarget}
    {diagnostics : List RouteDiagnostic} {e : PyError}
    (h : resolveTables rt db parsed routeContext tables targets diagnostics = .error e) :
    ∃ table ∈ tables, resolveTable rt db parsed routeContext table = .error e := by
  induction tables generalizing targets diagnostics with
  | nil => exact absurd h (by simp [resolveTables])
  | cons table tables ih =>
    rcases bind_eq_error.1 h with h | ⟨outcome, -, h⟩
    · exact ⟨table, List.mem_cons_self, h⟩
    · cases outcome with
      | target target d =>
        obtain ⟨t, ht, he⟩ := ih h
        exact ⟨t, List.mem_cons_of_mem _ ht, he⟩
      | reject code message d => exact absurd h (by simp [pure, Except.pure])

/-- An allowed resolution has one resolved target for each table, in order. -/
theorem resolve_allowed {decision : RouteDecision}
    (h : resolve rt db parsed routeContext = .ok decision) (ha : decision.allowed = true) :
    parsed.tables ≠ [] ∧ List.Forall₂ (fun table target =>
      ∃ d, resolveTable rt db parsed routeContext table = .ok (.target target d))
        parsed.tables decision.targets := by
  rw [resolve] at h
  split at h
  · injection h with h
    subst h
    exact absurd ha (by simp)
  · rename_i hne
    obtain ⟨found, hfound, hall⟩ := resolveTables_allowed h ha
    rw [List.nil_append] at hfound
    exact ⟨hne, hfound ▸ hall⟩

/-- A statement whose tables all have a target is allowed with these targets. -/
theorem resolve_of_targets (hne : parsed.tables ≠ []) {found : List RouteTarget}
    (h : List.Forall₂ (fun table target =>
      ∃ d, resolveTable rt db parsed routeContext table = .ok (.target target d))
        parsed.tables found) :
    ∃ decision, resolve rt db parsed routeContext = .ok decision ∧ decision.allowed = true ∧
      decision.targets = found := by
  rw [resolve, if_neg hne]
  exact resolveTables_of_targets h [] []

theorem resolve_targets_ne_nil {decision : RouteDecision}
    (h : resolve rt db parsed routeContext = .ok decision) (ha : decision.allowed = true) :
    decision.targets ≠ [] := by
  obtain ⟨hne, hall⟩ := resolve_allowed h ha
  intro hnil
  rw [hnil, List.forall₂_nil_right_iff] at hall
  exact hne hall

theorem resolve_targets_resolved {decision : RouteDecision}
    (h : resolve rt db parsed routeContext = .ok decision) (ha : decision.allowed = true) :
    ∀ target ∈ decision.targets, ∃ table ∈ parsed.tables, target.Resolved db table := by
  obtain ⟨-, hall⟩ := resolve_allowed h ha
  intro target ht
  obtain ⟨table, htable, d, hd⟩ := exists_of_forall₂_right hall ht
  exact ⟨table, htable, resolveTable_resolved hd⟩

/-- The target of a statement over one table is that table's. -/
theorem resolve_single {table : ParsedTable} (htables : parsed.tables = [table])
    {P : RouteTarget → Prop} :
    (∃ decision target, resolve rt db parsed routeContext = .ok decision ∧
      decision.allowed = true ∧ target ∈ decision.targets ∧ P target) ↔
    ∃ target d, resolveTable rt db parsed routeContext table = .ok (.target target d) ∧
      P target := by
  constructor
  · rintro ⟨decision, target, h, ha, htarget, hP⟩
    obtain ⟨-, hall⟩ := resolve_allowed h ha
    rw [htables] at hall
    obtain ⟨u, us, ⟨d, hu⟩, hus, heq⟩ := List.forall₂_cons_left_iff.1 hall
    rw [List.forall₂_nil_left_iff.1 hus] at heq
    rw [heq, List.mem_singleton] at htarget
    subst htarget
    exact ⟨target, d, hu, hP⟩
  · rintro ⟨target, d, h, hP⟩
    refine ⟨⟨true, "ALLOW", "Route resolution succeeded", [target], d.toList⟩, target, ?_,
      rfl, List.mem_singleton_self _, hP⟩
    rw [resolve, htables, if_neg (List.cons_ne_nil _ _)]
    exact bind_eq_ok.2 ⟨_, h, rfl⟩

/-- The decision for a statement over one table. -/
def TableOutcome.decision : TableOutcome → RouteDecision
  | .target found diagnostic =>
      ⟨true, "ALLOW", "Route resolution succeeded", [found], diagnostic.toList⟩
  | .reject reasonCode message diagnostic => ⟨false, reasonCode, message, [], diagnostic.toList⟩

theorem resolve_singleton {table : ParsedTable} (htables : parsed.tables = [table]) :
    resolve rt db parsed routeContext =
      (resolveTable rt db parsed routeContext table).map TableOutcome.decision := by
  rw [resolve, htables, if_neg (List.cons_ne_nil _ _)]
  simp only [resolveTables, bind, Except.bind, Except.map]
  cases resolveTable rt db parsed routeContext table with
  | error e => rfl
  | ok outcome => cases outcome <;> rfl

/-- Metadata and contexts that resolve every table of a run alike give the same run. -/
theorem resolveTables_congr {db' : Metadata} {routeContext' : JsonDict} {tables : List ParsedTable}
    (h : ∀ table ∈ tables, resolveTable rt db' parsed routeContext' table =
      resolveTable rt db parsed routeContext table) (targets : List RouteTarget)
    (diagnostics : List RouteDiagnostic) :
    resolveTables rt db' parsed routeContext' tables targets diagnostics =
      resolveTables rt db parsed routeContext tables targets diagnostics := by
  induction tables generalizing targets diagnostics with
  | nil => rfl
  | cons table tables ih =>
    rw [resolveTables, resolveTables, h table List.mem_cons_self]
    refine bind_congr fun outcome => ?_
    cases outcome with
    | target target d => exact ih (fun t ht => h t (List.mem_cons_of_mem _ ht)) _ _
    | reject code message d => rfl

theorem resolve_congr {db' : Metadata} {routeContext' : JsonDict}
    (h : ∀ table ∈ parsed.tables, resolveTable rt db' parsed routeContext' table =
      resolveTable rt db parsed routeContext table) :
    resolve rt db' parsed routeContext' = resolve rt db parsed routeContext := by
  rw [resolve, resolve, resolveTables_congr h]

/-- A rejected resolution has no targets. -/
theorem resolve_rejected {decision : RouteDecision}
    (h : resolve rt db parsed routeContext = .ok decision) (ha : decision.allowed = false) :
    decision.targets = [] := by
  rw [resolve] at h
  split at h
  · injection h with h
    subst h
    rfl
  · exact resolveTables_rejected h ha

/-! ## Exceptions -/

/-- The rule of every logical table the statement names evaluates on the values that are
extracted for it. -/
def RulesEvaluate (rt : Runtime) (db : Metadata) (parsed : ParsedSql) (routeContext : JsonDict) :
    Prop :=
  ∀ table ∈ parsed.tables, ∀ logicalTable routeRule values,
    db.getEnabledByName table.tableName = .ok (some logicalTable) →
    db.getEnabledByLogicalTable logicalTable.id = .ok (some routeRule) →
    extractFactors (factorValue rt db logicalTable parsed table routeContext)
      (db.listRequiredEnabledByLogicalTable logicalTable.id) [] [] = .ok (values, []) →
    ∃ v, evaluateRouteRule rt routeRule values = .ok v

theorem strJson_eq_error {x : Json} {e : PyError} (h : rt.strJson x = .error e) :
    e = .valueError := by
  cases x with
  | int k =>
    rw [Runtime.strJson, Runtime.strInt] at h
    split at h
    · exact absurd h (by simp)
    · injection h with h
      exact h.symm
  | _ => exact absurd h (by simp [Runtime.strJson])

theorem extractFactorValue_eq_error {factor : RouteFactorDef} {table : ParsedTable} {e : PyError}
    (h : extractFactorValue rt factor parsed table routeContext = .error e) : e = .valueError := by
  simp only [extractFactorValue] at h
  split_ifs at h
  split at h
  · exact absurd h (by simp)
  · exact strJson_eq_error (map_eq_error.1 h)

theorem factorValue_eq_error {logicalTable : LogicalTable} {factor : RouteFactorDef}
    {table : ParsedTable} {e : PyError}
    (h : factorValue rt db logicalTable parsed table routeContext factor = .error e) :
    e = .valueError := by
  rcases bind_eq_error.1 h with h | ⟨v, -, h⟩
  · exact extractFactorValue_eq_error h
  · split at h <;> exact absurd h (by simp [pure, Except.pure])

theorem extractFactors_eq_error {value : RouteFactorDef → Except PyError (Option Str)}
    {factors : List RouteFactorDef} {extracted : Env} {missing : List Str} {e : PyError}
    (h : extractFactors value factors extracted missing = .error e) :
    ∃ factor ∈ factors, value factor = .error e := by
  induction factors generalizing extracted missing with
  | nil => exact absurd h (by simp [extractFactors])
  | cons factor factors ih =>
    rcases bind_eq_error.1 h with h | ⟨v, -, h⟩
    · exact ⟨factor, List.mem_cons_self, h⟩
    · have hrest : ∃ f ∈ factors, value f = .error e := by
        cases v with
        | none => exact ih h
        | some v => exact ih h
      obtain ⟨f, hf, he⟩ := hrest
      exact ⟨f, List.mem_cons_of_mem _ hf, he⟩

theorem getEnabledByCode_ne_error (hdb : db.Unambiguous) {code : Str} {e : PyError} :
    db.getEnabledByCode code ≠ .error e := by
  obtain ⟨r, hr⟩ := hdb.datasource code
  rw [hr]
  simp

theorem resolveRoute_eq_error (hdb : db.Unambiguous) {table : ParsedTable}
    {logicalTable : LogicalTable} {factors : List RouteFactorDef} {routeRule : RouteRule}
    {values : Env} {e : PyError}
    (h : resolveRoute rt db table logicalTable factors routeRule values = .error e) :
    evaluateRouteRule rt routeRule values = .error e := by
  rcases bind_eq_error.1 h with h | ⟨value, -, h⟩
  · exact h
  rcases bind_eq_error.1 h with h | ⟨route, -, h⟩
  · obtain ⟨r, hr⟩ := hdb.route logicalTable.id value
    exact absurd (hr.symm.trans h) (by simp)
  cases route with
  | none => exact absurd h (by simp [pure, Except.pure])
  | some route =>
    rcases bind_eq_error.1 h with h | ⟨d, -, h⟩
    · exact absurd h (getEnabledByCode_ne_error hdb)
    · cases d <;> exact absurd h (by simp [pure, Except.pure])

theorem buildPhysicalTarget_ne_error (hdb : db.Unambiguous) {table : ParsedTable}
    {physicalRoute : PhysicalTableRoute} {e : PyError} :
    buildPhysicalTarget db table physicalRoute ≠ .error e := by
  intro h
  rcases bind_eq_error.1 h with h | ⟨d, -, h⟩
  · exact getEnabledByCode_ne_error hdb h
  · cases d <;> exact absurd h (by simp [pure, Except.pure])

theorem resolveTable_eq_error (hdb : db.Unambiguous)
    (hrules : RulesEvaluate rt db parsed routeContext) {table : ParsedTable}
    (htable : table ∈ parsed.tables) {e : PyError}
    (h : resolveTable rt db parsed routeContext table = .error e) : e = .valueError := by
  rcases bind_eq_error.1 h with h | ⟨route, -, h⟩
  · obtain ⟨r, hr⟩ := hdb.physicalTable table.tableName
    exact absurd (hr.symm.trans h) (by simp)
  cases route with
  | some route =>
    rcases bind_eq_error.1 h with h | ⟨t, -, h⟩
    · exact absurd h (buildPhysicalTarget_ne_error hdb)
    · cases t <;> exact absurd h (by simp [pure, Except.pure])
  | none =>
    rcases bind_eq_error.1 h with h | ⟨logical, hlogical, h⟩
    · obtain ⟨r, hr⟩ := hdb.logicalTable table.tableName
      exact absurd (hr.symm.trans h) (by simp)
    cases logical with
    | none =>
      simp only at h
      split at h <;> exact absurd h (by simp [pure, Except.pure])
    | some logical =>
      rcases bind_eq_error.1 h with h | ⟨rule, hrule, h⟩
      · obtain ⟨r, hr⟩ := hdb.rule logical.id
        exact absurd (hr.symm.trans h) (by simp)
      cases rule with
      | none => exact absurd h (by simp [pure, Except.pure])
      | some rule =>
        rcases bind_eq_error.1 h with h | ⟨⟨values, missing⟩, hvalues, h⟩
        · obtain ⟨f, -, hf⟩ := extractFactors_eq_error h
          exact factorValue_eq_error hf
        simp only at h
        split at h
        · exact absurd h (by simp [pure, Except.pure])
        · rename_i hmissing
          rw [not_not] at hmissing
          subst hmissing
          obtain ⟨v, hv⟩ := hrules table htable logical rule values hlogical hrule hvalues
          exact absurd (hv.symm.trans (resolveRoute_eq_error hdb h)) (by simp)

/-- With unambiguous metadata and rules that evaluate, only `str` can raise: it refuses an
integer of the context with too many digits. -/
theorem resolve_eq_error (hdb : db.Unambiguous) (hrules : RulesEvaluate rt db parsed routeContext)
    {e : PyError} (h : resolve rt db parsed routeContext = .error e) : e = .valueError := by
  rw [resolve] at h
  split at h
  · exact absurd h (by simp)
  · obtain ⟨table, ht, h⟩ := resolveTables_eq_error h
    exact resolveTable_eq_error hdb hrules ht h

end SqlGatekeeper
