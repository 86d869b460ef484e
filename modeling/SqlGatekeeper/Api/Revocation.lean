import SqlGatekeeper.Api.Auditing
import SqlGatekeeper.Pipeline.Narrowing

/-!
# Revocation

An operator revokes access by switching off datasources, logical tables or policies.

* `Metadata.Revokes`: metadata of which any such records are switched off.
* `resolve_revoked`, `check_revoked`, `execute_revoked`: every stage comes to what it came to, or
  rejects.
* `serve_revoked`: so does every request for SQL, exceptions included: revocation opens nothing, and
  reroutes nothing.
-/

namespace SqlGatekeeper

open Py Store Pipeline

/-! ## Switching off -/

/-- Some datasources, logical tables and policies are switched off; factors, rules and routes
stay. -/
structure Metadata.Revokes (db db' : Metadata) : Prop where
  datasources : SwitchedOff (fun d : DatasourceInstance => { d with enabled := false })
    db.datasources.rows db'.datasources.rows
  logicalTables : SwitchedOff (fun t : LogicalTable => { t with enabled := false })
    db.logicalTables.rows db'.logicalTables.rows
  policies : SwitchedOff (fun p : PolicySet => { p with enabled := false })
    db.policies.rows db'.policies.rows
  routeFactors : db'.routeFactors.rows = db.routeFactors.rows
  routeRules : db'.routeRules.rows = db.routeRules.rows
  physicalRoutes : db'.physicalRoutes.rows = db.physicalRoutes.rows

namespace Metadata.Revokes

variable {db db' : Metadata}

theorem getEnabledByCode (h : db.Revokes db') (hdb : db.Constraints) (code : Str) :
    Narrows (fun o => o = none) (db.getEnabledByCode code) (db'.getEnabledByCode code) :=
  oneOrNone_narrows h.datasources (fun d => by simp)
    (hdb.datasourceCode.length_filter_le (k := code)
    fun d _ hd => (of_decide_eq_true hd).1) _

theorem getEnabledByName (h : db.Revokes db') (hdb : db.Constraints) (name : Str) :
    Narrows (fun o => o = none) (db.getEnabledByName name) (db'.getEnabledByName name) :=
  oneOrNone_narrows h.logicalTables (fun t => by simp) (hdb.tableName.length_filter_le (k := name)
    fun t _ ht => (of_decide_eq_true ht).1) _

theorem getEnabledPolicyByCode (h : db.Revokes db') (hdb : db.Constraints) (code : Str) :
    Narrows (fun o => o = none) (db.getEnabledPolicyByCode code)
      (db'.getEnabledPolicyByCode code) :=
  oneOrNone_narrows h.policies (fun p => by simp) (hdb.policyCode.length_filter_le (k := code)
    fun p _ hp => (of_decide_eq_true hp).1) _

/-- Codes are read from records that are switched off, too. -/
theorem datasourceCodeFromId_eq (h : db.Revokes db') (id : Nat) :
    datasourceCodeFromId db' id = datasourceCodeFromId db id := by
  have hmap : (db'.datasourceById id).map (·.datasourceCode) =
      (db.datasourceById id).map (·.datasourceCode) :=
    h.datasources.find?_map (fun _ => rfl) fun _ => rfl
  unfold datasourceCodeFromId
  cases hd' : db'.datasourceById id <;> cases hd : db.datasourceById id <;>
    rw [hd', hd] at hmap <;> simp at hmap ⊢
  exact hmap

theorem logicalTableById_map (h : db.Revokes db') (id : Nat) :
    (db'.logicalTableById id).map (·.tableName) = (db.logicalTableById id).map (·.tableName) :=
  h.logicalTables.find?_map (fun _ => rfl) fun _ => rfl

theorem listEnabledRouteValues_eq (h : db.Revokes db') (id : Nat) :
    db'.listEnabledRouteValuesByLogicalTable id 20 =
      db.listEnabledRouteValuesByLogicalTable id 20 := by
  unfold Metadata.listEnabledRouteValuesByLogicalTable Metadata.enabledRoutesOf
  rw [h.physicalRoutes]

theorem countEnabled_eq (h : db.Revokes db') (id : Nat) :
    db'.countEnabledByLogicalTable id = db.countEnabledByLogicalTable id := by
  unfold Metadata.countEnabledByLogicalTable Metadata.enabledRoutesOf
  rw [h.physicalRoutes]

end Metadata.Revokes

/-! ## Routing -/

/-- The resolution ends at a table. -/
def TableOutcome.Rejects (outcome : TableOutcome) : Prop :=
  ∃ reasonCode message diagnostic, outcome = .reject reasonCode message diagnostic

section Routing

variable {rt : Runtime} {db db' : Metadata} {parsed : ParsedSql} {routeContext : JsonDict}

theorem buildPhysicalTarget_revoked (h : db.Revokes db') (hdb : db.Constraints)
    (table : ParsedTable) (route : PhysicalTableRoute) : Narrows (fun o => o = none)
    (buildPhysicalTarget db table route)
      (buildPhysicalTarget db' table route) := by
  unfold buildPhysicalTarget
  rw [h.datasourceCodeFromId_eq]
  refine (h.getEnabledByCode hdb _).bind (fun o _ => ?_) ?_
  · cases o with
    | none => exact .refl _
    | some d =>
      refine .of_eq ?_
      have hname := h.logicalTableById_map route.logicalTableId
      generalize db'.logicalTableById route.logicalTableId = o' at hname ⊢
      generalize db.logicalTableById route.logicalTableId = o at hname ⊢
      cases o with
      | none =>
        obtain rfl : o' = none := Option.map_eq_none_iff.1 hname
        rfl
      | some t =>
        obtain ⟨t', rfl, hsame⟩ := Option.map_eq_some_iff.1 hname
        simp only [hsame]
  · rintro o rfl
    exact ⟨none, rfl, rfl⟩

theorem resolveRoute_revoked (h : db.Revokes db') (hdb : db.Constraints) (table : ParsedTable)
    (t : LogicalTable) (factors : List RouteFactorDef) (rule : RouteRule) (values : Env) :
    Narrows TableOutcome.Rejects (resolveRoute rt db table t factors rule values)
      (resolveRoute rt db' table t factors rule values) := by
  have hroute : ∀ v, db'.getEnabledByLogicalTableAndRouteValue t.id v =
      db.getEnabledByLogicalTableAndRouteValue t.id v := by
    intro v
    unfold Metadata.getEnabledByLogicalTableAndRouteValue
    rw [h.physicalRoutes]
  have hvalues := h.listEnabledRouteValues_eq t.id
  have hcount := h.countEnabled_eq t.id
  unfold resolveRoute
  simp only [hroute, hvalues, hcount]
  refine Narrows.bind_right _ fun v _ => ?_
  refine Narrows.bind_right _ fun o _ => ?_
  cases o with
  | none => exact .refl _
  | some route =>
    simp only [h.datasourceCodeFromId_eq]
    refine (h.getEnabledByCode hdb _).bind (fun _ _ => .refl _) ?_
    rintro o rfl
    exact ⟨_, rfl, _, _, _, rfl⟩

theorem resolveLogicalTable_revoked (h : db.Revokes db') (hdb : db.Constraints)
    (table : ParsedTable) (t : LogicalTable) :
    Narrows TableOutcome.Rejects (resolveLogicalTable rt db parsed routeContext table t)
      (resolveLogicalTable rt db' parsed routeContext table t) := by
  have hfactors : db'.listRequiredEnabledByLogicalTable t.id =
      db.listRequiredEnabledByLogicalTable t.id := by
    unfold Metadata.listRequiredEnabledByLogicalTable
    rw [h.routeFactors]
  have hrule : db'.getEnabledByLogicalTable t.id = db.getEnabledByLogicalTable t.id := by
    unfold Metadata.getEnabledByLogicalTable
    rw [h.routeRules]
  have hvalues := h.listEnabledRouteValues_eq t.id
  have hcount := h.countEnabled_eq t.id
  have hfactor : factorValue rt db' t parsed table routeContext =
      factorValue rt db t parsed table routeContext := by
    funext factor
    unfold factorValue deriveLegacyRouteSuffix
    rw [hcount]
  unfold resolveLogicalTable
  simp only [hfactors, hrule, hvalues, hcount, hfactor]
  refine Narrows.bind_right _ fun o _ => ?_
  cases o with
  | none => exact .refl _
  | some rule =>
    refine Narrows.bind_right _ fun r _ => ?_
    obtain ⟨extracted, missing⟩ := r
    by_cases hmissing : missing ≠ []
    · simp only [if_pos hmissing]
      exact .refl _
    · simp only [if_neg hmissing]
      exact resolveRoute_revoked h hdb table t _ rule extracted

/-- A table is routed as before, or rejected. -/
theorem resolveTable_revoked (h : db.Revokes db') (hdb : db.Constraints) (table : ParsedTable) :
    Narrows TableOutcome.Rejects (resolveTable rt db parsed routeContext table)
      (resolveTable rt db' parsed routeContext table) := by
  have hphysical : db'.getEnabledByPhysicalTableName table.tableName =
      db.getEnabledByPhysicalTableName table.tableName := by
    unfold Metadata.getEnabledByPhysicalTableName
    rw [h.physicalRoutes]
  unfold resolveTable
  rw [hphysical]
  refine Narrows.bind_right _ fun o _ => ?_
  cases o with
  | some route =>
    refine (buildPhysicalTarget_revoked h hdb table route).bind (fun _ _ => .refl _) ?_
    rintro o rfl
    exact ⟨_, rfl, _, _, _, rfl⟩
  | none =>
    refine (h.getEnabledByName hdb _).bind (fun o _ => ?_) ?_
    · cases o with
      | none =>
        simp only
        cases matchInvalidPhysicalTable db' table.tableName with
        | none => exact .denial ⟨_, _, _, rfl⟩
        | some owner => exact .denial ⟨_, _, _, rfl⟩
      | some t => exact resolveLogicalTable_revoked h hdb table t
    · rintro o rfl
      simp only
      cases matchInvalidPhysicalTable db' table.tableName with
      | none => exact ⟨_, rfl, _, _, _, rfl⟩
      | some owner => exact ⟨_, rfl, _, _, _, rfl⟩

/-- A statement is routed as before, or rejected. -/
theorem resolve_revoked (h : db.Revokes db') (hdb : db.Constraints) :
    Narrows (fun decision => decision.allowed = false) (resolve rt db parsed routeContext)
      (resolve rt db' parsed routeContext) := by
  have htables : ∀ tables targets diagnostics,
      Narrows (fun decision => decision.allowed = false)
        (resolveTables rt db parsed routeContext tables targets diagnostics)
        (resolveTables rt db' parsed routeContext tables targets diagnostics) := by
    intro tables
    induction tables with
    | nil => exact fun _ _ => .refl _
    | cons table tables ih =>
      intro targets diagnostics
      refine (resolveTable_revoked h hdb table).bind (fun outcome _ => ?_) ?_
      · cases outcome with
        | target target diagnostic => exact ih _ _
        | reject reasonCode message diagnostic => exact .refl _
      · rintro outcome ⟨reasonCode, message, diagnostic, rfl⟩
        exact ⟨_, rfl, rfl⟩
  unfold resolve
  by_cases hnil : parsed.tables = []
  · simp only [if_pos hnil]
    exact .refl _
  · simp only [if_neg hnil]
    exact htables _ _ _

end Routing

/-! ## The check -/

section Check

variable {rt : Runtime} {db db' : Metadata} {evaluate : Evaluator}

/-- The filters allow what they allowed, or reject. -/
theorem filters_revoked (h : db.Revokes db') (hdb : db.Constraints) (context : FilterContext) :
    Narrows (fun r => r.1.allowed = false) (FilterChain.run (filters db evaluate) context)
      (FilterChain.run (filters db' evaluate) context) := by
  refine runChain_narrows ?_ context
  refine .cons (fun c => ?_) (.cons (fun c => ?_) (.cons (fun _ => .refl _)
    (.cons (fun _ => .refl _) (.cons (fun _ => .refl _) (.cons (fun _ => .refl _) .nil)))))
  · unfold PolicyLoadFilter.apply
    cases c.routeDecision.targets with
    | nil => exact .refl _
    | cons target targets =>
      refine (h.getEnabledPolicyByCode hdb _).bind (fun _ _ => .refl _) ?_
      rintro o rfl
      exact ⟨_, rfl, rfl⟩
  · unfold PhysicalTableValidateFilter.apply
    generalize c.routeDecision.targets = targets
    induction targets generalizing c with
    | nil => exact .refl _
    | cons target targets ih =>
      refine (h.getEnabledByCode hdb _).bind (fun o _ => ?_) ?_
      · cases o with
        | none => exact .refl _
        | some d => exact ih _
      · rintro o rfl
        exact ⟨_, rfl, rfl⟩

/-- A check comes to what it came to, or rejects. -/
theorem check_revoked (h : db.Revokes db') (hdb : db.Constraints) (sql : Str)
    (routeContext : JsonDict) : Narrows (fun result => result.allowed = false)
      (SqlCheckService.check rt db evaluate sql routeContext)
      (SqlCheckService.check rt db' evaluate sql routeContext) := by
  unfold SqlCheckService.check
  by_cases hguard : (BasicSqlGuard.evaluate rt.toUnicodeData sql).allowed = false
  · simp only [if_pos hguard]
    exact .refl _
  simp only [if_neg hguard]
  refine Narrows.bind_right _ fun parsed _ => ?_
  refine (resolve_revoked h hdb).bind (fun decision _ => ?_) fun decision hd => ?_
  · by_cases hrouted : decision.allowed = false
    · rw [if_pos hrouted, if_pos hrouted]
      exact .refl _
    · rw [if_neg hrouted, if_neg hrouted]
      refine (filters_revoked h hdb _).bind (fun _ _ => .refl _) fun r hr => ?_
      obtain ⟨verdict, context⟩ := r
      simp only at hr ⊢
      rw [if_pos hr]
      exact ⟨_, rfl, rfl⟩
  · rw [if_pos hd]
    exact ⟨_, rfl, rfl⟩

end Check

/-! ## The endpoints -/

section Endpoints

variable {env : Deployment} {db db' : Metadata}

/-- An execution comes to what it came to, or is refused. -/
theorem execute_revoked (h : db.Revokes db') (hdb : db.Constraints) (backend : Backend)
    (executionMs : Int) (result : CheckResult) : Narrows (fun x => x.allowed = false)
      (SqlExecutionService.execute db backend executionMs result).result
      (SqlExecutionService.execute db' backend executionMs result).result := by
  unfold SqlExecutionService.execute
  by_cases ha : result.allowed = false
  · simp only [if_pos ha]
    exact .refl _
  simp only [if_neg ha]
  split
  · rename_i code _
    rw [Traced.bind_result, Traced.bind_result]
    refine (h.getEnabledByCode hdb code).bind (fun o _ => ?_) ?_
    · cases o with
      | none => exact .refl _
      | some d =>
        simp only [Traced.bind_result]
        refine (h.getEnabledPolicyByCode hdb defaultPolicyCode).bind (fun _ _ => .refl _) ?_
        rintro o rfl
        exact ⟨_, rfl, rfl⟩
    · rintro o rfl
      exact ⟨_, rfl, rfl⟩
  · exact .refl _

theorem checkSql_revoked (h : db.Revokes db') (hdb : db.Constraints) (request : SqlRequest env.rt) :
    Narrows (fun response => response.allowed = false)
      ((checkSql env db request).map Prod.fst) ((checkSql env db' request).map Prod.fst) := by
  have hcheck : ∀ db, (checkSql env db request).map Prod.fst =
      (runCheck env db request).map (checkResponse env request) := by
    intro db
    unfold checkSql
    cases runCheck env db request <;> rfl
  rw [hcheck, hcheck]
  exact (check_revoked h hdb _ _).map fun result hr => hr

theorem executeSql_revoked (h : db.Revokes db') (hdb : db.Constraints)
    (request : SqlRequest env.rt) :
    Narrows (fun response => response.allowed = false)
      ((executeSql env db request).map Prod.fst) ((executeSql env db' request).map Prod.fst) := by
  have hexecute : ∀ db, (executeSql env db request).map Prod.fst =
      (runCheck env db request).bind fun result =>
        if result.allowed then
          (SqlExecutionService.execute db env.backend env.executionMs result).result.map
            (executeResponse env request result)
        else .ok (checkResponse env request result) := by
    intro db
    unfold executeSql
    cases runCheck env db request with
    | error e => rfl
    | ok result =>
      by_cases ha : result.allowed = true
      · simp only [bind, Except.bind, ha, if_true]
        cases (SqlExecutionService.execute db env.backend env.executionMs result).result <;> rfl
      · simp only [bind, Except.bind, ha]
        rfl
  rw [hexecute, hexecute]
  refine (check_revoked h hdb _ _).bind (fun result _ => ?_) fun result hr => ?_
  · by_cases ha : result.allowed = true
    · simp only [ha, if_true]
      exact (execute_revoked h hdb _ _ _).map fun x hx => hx
    · simp only [ha]
      exact .refl _
  · exact ⟨checkResponse env request result, by simp [hr], hr⟩

/-- Whatever datasources, logical tables and policies are switched off, a request for SQL is
answered as it was, raises as it did, or is rejected. -/
theorem serve_revoked (hdb : db.Constraints) (h : db.Revokes db') {request : ApiRequest env.rt}
    {sqlRequest : SqlRequest env.rt}
    (hsql : request = .checkSql sqlRequest ∨ request = .executeSql sqlRequest) :
    (serve env db' request).map Prod.fst = (serve env db request).map Prod.fst ∨
      ∃ response, (serve env db' request).map Prod.fst = .ok (.sql response) ∧
        response.allowed = false := by
  have hresponse : ∀ handler : Metadata → Except PyError (SqlDecisionResponse × Metadata),
      Narrows (fun response => response.allowed = false) ((handler db).map Prod.fst)
        ((handler db').map Prod.fst) →
      ((handler db').map (Prod.map ApiResponse.sql id)).map Prod.fst =
          ((handler db).map (Prod.map ApiResponse.sql id)).map Prod.fst ∨
        ∃ response, ((handler db').map (Prod.map ApiResponse.sql id)).map Prod.fst =
          .ok (.sql response) ∧ response.allowed = false := by
    intro handler hnarrows
    have hmap : ∀ db, ((handler db).map (Prod.map ApiResponse.sql id)).map Prod.fst =
        ((handler db).map Prod.fst).map ApiResponse.sql := by
      intro db
      cases handler db <;> rfl
    rw [hmap, hmap]
    rcases hnarrows with heq | ⟨response, heq, hr⟩
    · exact Or.inl (by rw [heq])
    · exact Or.inr ⟨response, by rw [heq]; rfl, hr⟩
  rcases hsql with rfl | rfl
  · exact hresponse (checkSql env · sqlRequest) (checkSql_revoked h hdb sqlRequest)
  · exact hresponse (executeSql env · sqlRequest) (executeSql_revoked h hdb sqlRequest)

end Endpoints

/-! ## An example -/

/-- The example's metadata with its datasource switched off. -/
def revokedMetadata : Metadata :=
  { exampleMetadata with datasources := ⟨[{ exampleDatasource with enabled := false }], 2⟩ }

theorem exampleMetadata_revokes : exampleMetadata.Revokes revokedMetadata where
  datasources := .cons (Or.inr rfl) .nil
  logicalTables := .cons (Or.inl rfl) .nil
  policies := .cons (Or.inl rfl) .nil
  routeFactors := rfl
  routeRules := rfl
  physicalRoutes := rfl

/-- The statement that was executed is rejected. -/
theorem serve_revoked_example :
    (∃ response, (serve exampleDeployment exampleMetadata (.executeSql exampleRequest)).map
      Prod.fst = .ok (.sql response) ∧ response.allowed = true) ∧
    ∃ response, (serve exampleDeployment revokedMetadata (.executeSql exampleRequest)).map
      Prod.fst = .ok (.sql response) ∧ response.allowed = false := by
  have hserve : ∀ (db : Metadata) (allowed : Bool),
      (executeSql exampleDeployment db exampleRequest).map (·.1.allowed) = .ok allowed →
      ∃ response, (serve exampleDeployment db (.executeSql exampleRequest)).map Prod.fst =
        .ok (.sql response) ∧ response.allowed = allowed := by
    intro db allowed hrun
    obtain ⟨answer, hanswer, hallowed⟩ := map_eq_ok.1 hrun
    refine ⟨answer.1, ?_, hallowed⟩
    show ((executeSql exampleDeployment db exampleRequest).map (Prod.map ApiResponse.sql id)).map
      Prod.fst = _
    rw [hanswer]
    rfl
  have hbefore := hserve exampleMetadata true (by decide +kernel)
  refine ⟨hbefore, ?_⟩
  rcases serve_revoked exampleMetadata_constraints exampleMetadata_revokes (Or.inr rfl) with
    hsame | hrejected
  · -- The run on the metadata left behind is not the one before.
    obtain ⟨response, hresponse, hallowed⟩ := hbefore
    obtain ⟨response', hresponse', hrejected⟩ :=
      hserve revokedMetadata false (by decide +kernel)
    have heq := Except.ok.inj (hresponse'.symm.trans (hsame.trans hresponse))
    injection heq with heq
    rw [heq, hallowed] at hrejected
    exact absurd hrejected (by decide)
  · exact hrejected

end SqlGatekeeper
