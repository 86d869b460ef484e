import SqlGatekeeper.Services.Checker

/-!
# What a context can steer

* `DeclaredKey`: the keys of the context that the metadata declare for the tables of a statement.
* `factorValue_context`: a factor reads no others.
* `resolve_context`: neither does a resolution, and one of physical tables reads none.
-/

namespace SqlGatekeeper

open Py Store

/-- The types of the factors that read the context. -/
def contextSourceTypes : List Str := ["route_context", "sql_predicate_from_context"]

/-- A key of the context that a factor declares. -/
def RouteFactorDef.Declares (rt : Runtime) (factor : RouteFactorDef) (key : Str) : Prop :=
  lower rt.toUnicodeData factor.sourceType ∈ contextSourceTypes ∧ factor.sourceKey = key

/-- A key of the context that a resolution may read: `shard_column`, or one that a required enabled
factor of a logical table declares. -/
def DeclaredKey (rt : Runtime) (db : Metadata) (parsed : ParsedSql) (key : Str) : Prop :=
  key = "shard_column" ∨ ∃ table ∈ parsed.tables, ∃ logicalTable ∈ db.logicalTables.rows,
    logicalTable.tableName = table.tableName ∧ logicalTable.enabled = true ∧
    ∃ factor ∈ db.listRequiredEnabledByLogicalTable logicalTable.id, factor.Declares rt key

/-! ## Factors -/

section Factors

variable {rt : Runtime} {db : Metadata} {parsed : ParsedSql} {table : ParsedTable}
  {logicalTable : LogicalTable} {routeContext routeContext' : JsonDict}

theorem contextColumn_congr {key : Str} (h : routeContext'.get key = routeContext.get key) :
    contextColumn routeContext' key = contextColumn routeContext key := by
  rw [contextColumn, contextColumn, h]

theorem extractFactorValue_context {factor : RouteFactorDef}
    (h : ∀ key, factor.Declares rt key → routeContext'.get key = routeContext.get key) :
    extractFactorValue rt factor parsed table routeContext' =
      extractFactorValue rt factor parsed table routeContext := by
  simp only [extractFactorValue]
  by_cases hpredicate : lower rt.toUnicodeData factor.sourceType = "sql_predicate"
  · rw [if_pos hpredicate, if_pos hpredicate]
  rw [if_neg hpredicate, if_neg hpredicate]
  by_cases hcolumn : lower rt.toUnicodeData factor.sourceType = "sql_predicate_from_context"
  · have hkey := h factor.sourceKey
      ⟨by rw [hcolumn]; exact List.mem_cons_of_mem _ List.mem_cons_self, rfl⟩
    rw [if_pos hcolumn, if_pos hcolumn, contextColumn_congr hkey]
  rw [if_neg hcolumn, if_neg hcolumn]
  by_cases hcontext : lower rt.toUnicodeData factor.sourceType = "route_context"
  · have hkey := h factor.sourceKey ⟨by rw [hcontext]; exact List.mem_cons_self, rfl⟩
    rw [if_pos hcontext, if_pos hcontext, hkey]
  rw [if_neg hcontext, if_neg hcontext]

theorem deriveLegacyRouteSuffix_context
    (h : routeContext'.get "shard_column" = routeContext.get "shard_column") :
    deriveLegacyRouteSuffix rt db logicalTable parsed table routeContext' =
      deriveLegacyRouteSuffix rt db logicalTable parsed table routeContext := by
  rw [deriveLegacyRouteSuffix, deriveLegacyRouteSuffix, contextColumn_congr h]

/-- A factor reads `shard_column` and the key that it declares, and no other. -/
theorem factorValue_context {factor : RouteFactorDef}
    (hshard : routeContext'.get "shard_column" = routeContext.get "shard_column")
    (h : ∀ key, factor.Declares rt key → routeContext'.get key = routeContext.get key) :
    factorValue rt db logicalTable parsed table routeContext' factor =
      factorValue rt db logicalTable parsed table routeContext factor := by
  rw [factorValue, factorValue, extractFactorValue_context h,
    deriveLegacyRouteSuffix_context hshard]

theorem extractFactors_congr {value value' : RouteFactorDef → Except PyError (Option Str)}
    {factors : List RouteFactorDef} (h : ∀ factor ∈ factors, value' factor = value factor)
    (extracted : Env) (missing : List Str) :
    extractFactors value' factors extracted missing =
      extractFactors value factors extracted missing := by
  induction factors generalizing extracted missing with
  | nil => rfl
  | cons factor factors ih =>
    have hrest := ih fun f hf => h f (List.mem_cons_of_mem _ hf)
    rw [extractFactors, extractFactors, h factor List.mem_cons_self]
    refine bind_congr fun v => ?_
    cases v with
    | none => exact hrest _ _
    | some v => exact hrest _ _

theorem resolveLogicalTable_context
    (h : ∀ factor ∈ db.listRequiredEnabledByLogicalTable logicalTable.id,
      factorValue rt db logicalTable parsed table routeContext' factor =
        factorValue rt db logicalTable parsed table routeContext factor) :
    resolveLogicalTable rt db parsed routeContext' table logicalTable =
      resolveLogicalTable rt db parsed routeContext table logicalTable := by
  simp only [resolveLogicalTable, extractFactors_congr h]

end Factors

/-! ## Resolutions -/

section Resolutions

variable {rt : Runtime} {db : Metadata} {parsed : ParsedSql} {table : ParsedTable}
  {routeContext routeContext' : JsonDict}

theorem resolveTable_context
    (h : ∀ logicalTable, db.getEnabledByName table.tableName = .ok (some logicalTable) →
      resolveLogicalTable rt db parsed routeContext' table logicalTable =
        resolveLogicalTable rt db parsed routeContext table logicalTable) :
    resolveTable rt db parsed routeContext' table = resolveTable rt db parsed
      routeContext table := by
  rw [resolveTable, resolveTable]
  refine bind_congr fun route => ?_
  cases route with
  | some route => rfl
  | none =>
    cases hnamed : db.getEnabledByName table.tableName with
    | error e => rfl
    | ok logicalTable =>
      cases logicalTable with
      | none => rfl
      | some logicalTable => exact h logicalTable hnamed

/-- A registered physical table is found, or is ambiguous: its name is not looked up as that of a
logical table. -/
theorem getEnabledByPhysicalTableName_ne_none {name : Str} (h : EnabledPhysical db name) :
    db.getEnabledByPhysicalTableName name ≠ .ok none := by
  obtain ⟨route, hmem, henabled, rfl⟩ := h
  intro hnone
  have hempty := List.filter_eq_nil_iff.1 (oneOrNone_eq_none.1 hnone) route hmem
  exact hempty (decide_eq_true ⟨rfl, henabled⟩)

theorem resolveTable_enabledPhysical (h : EnabledPhysical db table.tableName) :
    resolveTable rt db parsed routeContext' table = resolveTable rt db parsed
      routeContext table := by
  rw [resolveTable, resolveTable]
  cases hfound : db.getEnabledByPhysicalTableName table.tableName with
  | error e => rfl
  | ok route =>
    cases route with
    | none => exact absurd hfound (getEnabledByPhysicalTableName_ne_none h)
    | some route => rfl

/-- A resolution gives the same decision, or raises the same exception, for contexts that agree on
the declared keys; one of registered physical tables does for all contexts. -/
theorem resolve_context (rt : Runtime) (db : Metadata) (parsed : ParsedSql)
    (routeContext routeContext' : JsonDict) :
    ((∀ key, DeclaredKey rt db parsed key → routeContext'.get key = routeContext.get key) →
      resolve rt db parsed routeContext' = resolve rt db parsed routeContext) ∧
    ((∀ table ∈ parsed.tables, EnabledPhysical db table.tableName) →
      resolve rt db parsed routeContext' = resolve rt db parsed routeContext) := by
  constructor
  · intro h
    refine resolve_congr fun table htable => resolveTable_context fun logicalTable hnamed =>
      resolveLogicalTable_context fun factor hfactor => ?_
    obtain ⟨hmem, hname, henabled⟩ := Metadata.getEnabledByName_eq_some hnamed
    exact factorValue_context (h _ (Or.inl rfl)) fun key hkey =>
      h key (Or.inr ⟨table, htable, logicalTable, hmem, hname, henabled, factor, hfactor, hkey⟩)
  · intro h
    exact resolve_congr fun table htable => resolveTable_enabledPhysical (h table htable)

end Resolutions

/-- The example's metadata with a factor that reads the context. -/
def contextMetadata : Metadata :=
  { exampleMetadata with
    routeFactors := ⟨[⟨1, 1, "uid", "route_context", "uid", true, .dict [], true⟩], 2⟩ }

/-- The entry that the factor declares decides on the shard; another one changes nothing. -/
theorem resolve_context_example :
    (resolve asciiRuntime contextMetadata SqlCheckService.exampleParsed [("uid", .int 3)]).map
        (fun decision => decision.targets.map (·.physicalTableName)) = .ok ["user_1"] ∧
      (resolve asciiRuntime contextMetadata SqlCheckService.exampleParsed [("uid", .int 4)]).map
        (fun decision => decision.targets.map (·.physicalTableName)) = .ok ["user_0"] ∧
      resolve asciiRuntime contextMetadata SqlCheckService.exampleParsed [("tenant", .str "a"),
        ("uid", .int 3)] = resolve asciiRuntime contextMetadata SqlCheckService.exampleParsed
          [("uid", .int 3)] := by
  refine ⟨by decide +kernel, by decide +kernel, (resolve_context asciiRuntime contextMetadata
    SqlCheckService.exampleParsed [("uid", .int 3)] [("tenant", .str "a"), ("uid", .int 3)]).1
      fun key hkey => ?_⟩
  rcases hkey with rfl | ⟨table, -, logicalTable, -, -, -, factor, hfactor, hdeclares⟩
  · rfl
  · have hmem : factor ∈ contextMetadata.routeFactors.rows := List.mem_of_mem_filter hfactor
    rw [List.mem_singleton.1 hmem] at hdeclares
    rw [← hdeclares.2]
    rfl

end SqlGatekeeper
