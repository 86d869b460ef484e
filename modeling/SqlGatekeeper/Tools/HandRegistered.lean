import SqlGatekeeper.Services.Checker
import SqlGatekeeper.Tools.ImportedRouting

/-!
# Tables that were registered by hand

An import deletes what the last import made and inserts its own rows.

* `filter_replaced`: a query that selects none of the deleted and none of the inserted rows finds
  the same as before.
* `Metadata.HandRegistered`: the name of an enabled logical table that no import made.
* `KeepsHandRegistered`: an import changes no resolution over such names.
* `resolve_synced`: it changes none if no name is also the physical name of an imported route.
-/

namespace SqlGatekeeper

open Py Store SqlCheckService

/-! ## What an import leaves -/

/-- The name of an enabled logical table that no import made. -/
def Metadata.HandRegistered (db : Metadata) (name : Str) : Prop :=
  ∃ t ∈ db.logicalTables.rows, t.tableName = name ∧ t.enabled = true ∧
    isImported t.extra = false

/-- A query that selects none of the deleted and none of the inserted rows. -/
theorem filter_replaced {ρ : Type} {t : Table ρ} {added : List ρ} {p q : ρ → Bool}
    (hkept : ∀ r ∈ t.rows, q r = true → p r = false) (hadded : ∀ r ∈ added, q r = false) :
    ((t.delete p).rows ++ added).filter q = t.rows.filter q := by
  have hnone : added.filter q = [] := by
    rw [List.filter_eq_nil_iff]
    intro r hr
    rw [hadded r hr]
    exact Bool.false_ne_true
  rw [List.filter_append, hnone, List.append_nil, Table.delete_rows, List.filter_filter]
  refine List.filter_congr fun r hr => ?_
  cases hq : q r with
  | false => rfl
  | true => rw [hkept r hr hq]; rfl

section Synced

variable {db db' : Metadata} {bundle : SyncBundle}

/-- The ids that the bundle's logical tables are given are new. -/
theorem Synced.objectId_new (hs : Synced db bundle db') (hdb : db.Constraints) {name : Str}
    {k : Nat} (hk : objectId (objectIds (·.tableName) bundle.logicalTables db.logicalTables.nextId
      []) name = .ok k) {t : LogicalTable} (ht : t ∈ db.logicalTables.rows) : k ≠ t.id := by
  obtain ⟨added, -, hadded, -⟩ := insertAll_ok hs.logicalTables
  obtain ⟨u, hu, rfl, -⟩ := exists_of_objectId (·.id) (·.tableName)
    (fun record row hrow n => by rw [← Except.ok.inj hrow]; rfl)
    (fun record row hrow n => by rw [← Except.ok.inj hrow]; rfl) hadded hk
  have hnew : db.logicalTables.nextId ≤ u.id :=
    hadded.le_id (fun record row hrow n => by rw [← Except.ok.inj hrow]; rfl) u hu
  have hold := hdb.logicalTableIds.lt_nextId t ht
  omega

variable (hs : Synced db bundle db') (hdb : db.Constraints)

include hs hdb

section Kept

variable {t : LogicalTable} (ht : t ∈ db.logicalTables.rows)
  (hkept : t.id ∉ db.importedLogicalIds)

include ht hkept

/-- A kept table is found by its name. -/
theorem Synced.getEnabledByName_eq :
    db'.getEnabledByName t.tableName = db.getEnabledByName t.tableName := by
  have hname : ∀ {u : LogicalTable}, decide (u.tableName = t.tableName ∧ u.enabled = true) =
      true → u.tableName = t.tableName := fun h => (of_decide_eq_true h).1
  rw [Metadata.getEnabledByName, Metadata.getEnabledByName,
    hdb.tableName.filter_eq ht fun _ _ h => hname h,
    (hs.constraints hdb).tableName.filter_eq (hs.mem_logicalTables ht hkept) fun _ _ h => hname h]

/-- The factors of a kept table are the same. -/
theorem Synced.listRequiredEnabledByLogicalTable_eq :
    db'.listRequiredEnabledByLogicalTable t.id = db.listRequiredEnabledByLogicalTable t.id := by
  obtain ⟨added, hrows, hadded, -⟩ := insertAll_ok hs.routeFactors
  rw [Metadata.listRequiredEnabledByLogicalTable, hrows]
  refine filter_replaced (fun f hf hq => ?_) fun f hf => ?_
  · obtain ⟨hid, -⟩ := of_decide_eq_true hq
    rw [hid]
    exact decide_eq_false hkept
  · obtain ⟨record, k, m, hk, rfl⟩ := exists_record_of_added hadded hf
    exact decide_eq_false fun h => hs.objectId_new hdb hk ht h.1

/-- So is its rule. -/
theorem Synced.getEnabledByLogicalTable_eq :
    db'.getEnabledByLogicalTable t.id = db.getEnabledByLogicalTable t.id := by
  obtain ⟨added, hrows, hadded, -⟩ := insertAll_ok hs.routeRules
  rw [Metadata.getEnabledByLogicalTable, hrows, Metadata.getEnabledByLogicalTable]
  congr 1
  refine filter_replaced (fun r hr hq => ?_) fun r hr => ?_
  · obtain ⟨hid, -⟩ := of_decide_eq_true hq
    rw [hid]
    exact decide_eq_false hkept
  · obtain ⟨record, k, m, hk, rfl⟩ := exists_record_of_added hadded hr
    exact decide_eq_false fun h => hs.objectId_new hdb hk ht h.1

/-- A query for routes of a kept table finds the same routes. -/
theorem Synced.filter_routes_eq {q : PhysicalTableRoute → Bool}
    (hq : ∀ r, q r = true → r.logicalTableId = t.id) :
    db'.physicalRoutes.rows.filter q = db.physicalRoutes.rows.filter q := by
  obtain ⟨added, hrows, hadded, -⟩ := insertAll_ok hs.physicalRoutes
  rw [hrows]
  refine filter_replaced (fun r hr hqr => ?_) fun r hr => ?_
  · rw [hq r hqr]
    exact decide_eq_false hkept
  · obtain ⟨record, j, k, m, hj, -, rfl⟩ := exists_record_of_route hadded hr
    exact Bool.eq_false_of_not_eq_true fun h => hs.objectId_new hdb hj ht (hq _ h)

theorem Synced.getEnabledByLogicalTableAndRouteValue_eq (value : Str) :
    db'.getEnabledByLogicalTableAndRouteValue t.id value =
      db.getEnabledByLogicalTableAndRouteValue t.id value := by
  rw [Metadata.getEnabledByLogicalTableAndRouteValue,
    hs.filter_routes_eq hdb ht hkept fun r h => (of_decide_eq_true h).1]
  rfl

theorem Synced.enabledRoutesOf_eq : db'.enabledRoutesOf t.id = db.enabledRoutesOf t.id :=
  hs.filter_routes_eq hdb ht hkept fun _ h => (of_decide_eq_true h).1

end Kept

/-! ## Routes that stay -/

/-- The datasource of a kept route is found as before. -/
theorem Synced.getEnabledByCode_eq {r : PhysicalTableRoute} (hr : r ∈ db.physicalRoutes.rows)
    (hkept : r.logicalTableId ∉ db.importedLogicalIds) :
    db'.getEnabledByCode (datasourceCodeFromId db' r.datasourceId) =
      db.getEnabledByCode (datasourceCodeFromId db r.datasourceId) := by
  have hdb' := hs.constraints hdb
  obtain ⟨d, hd, hid⟩ := hdb.routeDatasource r hr
  have hd' := hs.mem_datasources hd (hid ▸ hs.routesKept r hr hkept)
  have hcode : ∀ {e : DatasourceInstance},
      decide (e.datasourceCode = d.datasourceCode ∧ e.enabled = true) = true →
      e.datasourceCode = d.datasourceCode := fun h => (of_decide_eq_true h).1
  rw [datasourceCodeFromId, datasourceCodeFromId, ← hid, hdb.datasourceById_eq hd,
    hdb'.datasourceById_eq hd', Metadata.getEnabledByCode, Metadata.getEnabledByCode,
    hdb.datasourceCode.filter_eq hd fun _ _ h => hcode h,
    hdb'.datasourceCode.filter_eq hd' fun _ _ h => hcode h]

/-- A kept route gives the same target. -/
theorem Synced.buildPhysicalTarget_eq (table : ParsedTable) {r : PhysicalTableRoute}
    (hr : r ∈ db.physicalRoutes.rows) (hkept : r.logicalTableId ∉ db.importedLogicalIds) :
    buildPhysicalTarget db' table r = buildPhysicalTarget db table r := by
  obtain ⟨owner, howner, hid⟩ := hdb.routeTable r hr
  have howner' := hs.mem_logicalTables howner (hid ▸ hkept)
  rw [buildPhysicalTarget, buildPhysicalTarget, hs.getEnabledByCode_eq hdb hr hkept, ← hid,
    hdb.logicalTableById_eq howner, (hs.constraints hdb).logicalTableById_eq howner']


/-! ## The same resolution -/

variable (rt : Runtime) (parsed : ParsedSql) (routeContext : JsonDict)

/-- A kept table is routed as before, for any factor values. -/
theorem Synced.resolveRoute_eq (table : ParsedTable) {t : LogicalTable}
    (ht : t ∈ db.logicalTables.rows) (hkept : t.id ∉ db.importedLogicalIds)
    (factors : List RouteFactorDef) (routeRule : RouteRule) (values : Env) :
    resolveRoute rt db' table t factors routeRule values =
      resolveRoute rt db table t factors routeRule values := by
  simp only [resolveRoute, Metadata.listEnabledRouteValuesByLogicalTable,
    Metadata.countEnabledByLogicalTable, hs.enabledRoutesOf_eq hdb ht hkept,
    hs.getEnabledByLogicalTableAndRouteValue_eq hdb ht hkept]
  refine bind_congr fun value => ?_
  cases hroute : db.getEnabledByLogicalTableAndRouteValue t.id value with
  | error e => rfl
  | ok route =>
    cases route with
    | none => rfl
    | some route =>
      obtain ⟨hr, hid, -⟩ := Metadata.getEnabledByLogicalTableAndRouteValue_eq_some hroute
      simp only [bind, Except.bind, hs.getEnabledByCode_eq hdb hr (hid ▸ hkept)]

/-- The factors of a kept table have the same values. -/
theorem Synced.factorValue_eq (table : ParsedTable) {t : LogicalTable}
    (ht : t ∈ db.logicalTables.rows) (hkept : t.id ∉ db.importedLogicalIds) :
    factorValue rt db' t parsed table routeContext =
      factorValue rt db t parsed table routeContext := by
  have hcount : db'.countEnabledByLogicalTable t.id = db.countEnabledByLogicalTable t.id := by
    rw [Metadata.countEnabledByLogicalTable, hs.enabledRoutesOf_eq hdb ht hkept]
    rfl
  have hlegacy : deriveLegacyRouteSuffix rt db' t parsed table routeContext =
      deriveLegacyRouteSuffix rt db t parsed table routeContext := by
    rw [deriveLegacyRouteSuffix, deriveLegacyRouteSuffix, hcount]
  funext factor
  rw [factorValue, factorValue, hlegacy]

theorem Synced.resolveLogicalTable_eq (table : ParsedTable) {t : LogicalTable}
    (ht : t ∈ db.logicalTables.rows) (hkept : t.id ∉ db.importedLogicalIds) :
    resolveLogicalTable rt db' parsed routeContext table t =
      resolveLogicalTable rt db parsed routeContext table t := by
  simp only [resolveLogicalTable, Metadata.listEnabledRouteValuesByLogicalTable,
    Metadata.countEnabledByLogicalTable, hs.enabledRoutesOf_eq hdb ht hkept,
    hs.listRequiredEnabledByLogicalTable_eq hdb ht hkept,
    hs.getEnabledByLogicalTable_eq hdb ht hkept,
    hs.factorValue_eq hdb rt parsed routeContext table ht hkept,
    hs.resolveRoute_eq hdb rt table ht hkept]

omit hdb in
/-- A name that no imported route has, before and after, is taken for a physical one as before. -/
theorem Synced.getEnabledByPhysicalTableName_eq {name : Str}
    (hbefore : ∀ r ∈ db.physicalRoutes.rows, r.enabled = true → r.physicalTableName = name →
      r.logicalTableId ∉ db.importedLogicalIds)
    (hafter : ∀ record ∈ bundle.physicalRoutes, record.physicalTableName ≠ name) :
    db'.getEnabledByPhysicalTableName name = db.getEnabledByPhysicalTableName name := by
  obtain ⟨added, hrows, hadded, -⟩ := insertAll_ok hs.physicalRoutes
  rw [Metadata.getEnabledByPhysicalTableName, hrows, Metadata.getEnabledByPhysicalTableName]
  congr 1
  refine filter_replaced (fun r hr hq => ?_) fun r hr => ?_
  · obtain ⟨hname, henabled⟩ := of_decide_eq_true hq
    exact decide_eq_false (hbefore r hr henabled hname)
  · obtain ⟨record, hrecord, f, m, hf, rfl⟩ := exists_of_forall₂_left hadded.forall₂ hr
    obtain ⟨j, -, hf⟩ := bind_eq_ok.1 hf
    obtain ⟨k, -, hf⟩ := bind_eq_ok.1 hf
    injection hf with hf
    subst hf
    exact decide_eq_false fun h => hafter record hrecord h.1

/-- A hand-registered name that no imported route has is resolved as before. -/
theorem Synced.resolveTable_eq {table : ParsedTable} (hhand : db.HandRegistered table.tableName)
    (hbefore : ∀ r ∈ db.physicalRoutes.rows, r.enabled = true →
      r.physicalTableName = table.tableName → r.logicalTableId ∉ db.importedLogicalIds)
    (hafter : ∀ record ∈ bundle.physicalRoutes, record.physicalTableName ≠ table.tableName) :
    resolveTable rt db' parsed routeContext table = resolveTable rt db parsed
      routeContext table := by
  obtain ⟨t, ht, hname, henabled, hmade⟩ := hhand
  have hkept : t.id ∉ db.importedLogicalIds := by
    intro hmem
    obtain ⟨u, hu, hid⟩ := List.mem_map.1 hmem
    obtain ⟨hu, hmade'⟩ := List.mem_filter.1 hu
    rw [hdb.logicalTableIds.unique.eq_of_mem hu ht hid, hmade] at hmade'
    exact Bool.false_ne_true hmade'
  have hfound : db.getEnabledByName table.tableName = .ok (some t) :=
    hname ▸ hdb.getEnabledByName_of_mem ht henabled
  have hfound' : db'.getEnabledByName table.tableName = .ok (some t) := by
    rw [← hname, hs.getEnabledByName_eq hdb ht hkept, hname, hfound]
  rw [resolveTable, resolveTable, hs.getEnabledByPhysicalTableName_eq hbefore hafter]
  cases hroute : db.getEnabledByPhysicalTableName table.tableName with
  | error e => rfl
  | ok route =>
    cases route with
    | some route =>
      obtain ⟨hr, hrname, hrenabled⟩ := Metadata.getEnabledByPhysicalTableName_eq_some hroute
      simp only [bind, Except.bind,
        hs.buildPhysicalTarget_eq hdb table hr (hbefore route hr hrenabled hrname)]
    | none =>
      simp only [bind, Except.bind, hfound, hfound',
        hs.resolveLogicalTable_eq hdb rt parsed routeContext table ht hkept]

end Synced

/-! ## The law -/

/-- What a request sees of a decision. -/
def RouteDecision.outcome (decision : RouteDecision) : Bool × Str × List RouteTarget :=
  (decision.allowed, decision.reasonCode, decision.targets)

/-- The import of some rows changes no resolution over tables that were registered by hand. -/
def KeepsHandRegistered (rt : Runtime) (db : Metadata) (rows : List TableConfigRow)
    (importedTarget : ImportedDatasourceTarget) : Prop :=
  ∀ bundle db', buildSyncBundle rt rows importedTarget = .ok bundle →
    syncBundleToLocal db bundle = .ok db' → ∀ sql parsed routeContext,
    parse rt sql = .ok parsed → (∀ table ∈ parsed.tables,
      db.HandRegistered table.tableName) →
    (resolve rt db' parsed routeContext).map RouteDecision.outcome =
      (resolve rt db parsed routeContext).map RouteDecision.outcome

/-- A committed import changes no resolution over tables that were registered by hand, if none of
their names is the physical name of an imported route: of an enabled one before the import, or
of one of the bundle. -/
theorem resolve_synced (rt : Runtime) {db db' : Metadata} {bundle : SyncBundle}
    (hdb : db.Constraints) (hsync : syncBundleToLocal db bundle = .ok db') (parsed : ParsedSql)
    (routeContext : JsonDict)
    (hhand : ∀ table ∈ parsed.tables, db.HandRegistered table.tableName)
    (hbefore : ∀ table ∈ parsed.tables, ∀ r ∈ db.physicalRoutes.rows, r.enabled = true →
      r.physicalTableName = table.tableName → r.logicalTableId ∉ db.importedLogicalIds)
    (hafter : ∀ table ∈ parsed.tables, ∀ record ∈ bundle.physicalRoutes,
      record.physicalTableName ≠ table.tableName) :
    (resolve rt db' parsed routeContext).map RouteDecision.outcome =
      (resolve rt db parsed routeContext).map RouteDecision.outcome := by
  have hs := synced_of_ok hsync
  rw [resolve_congr fun table htable => hs.resolveTable_eq hdb rt parsed routeContext
    (hhand table htable) (hbefore table htable) (hafter table htable)]

/-! ## A captured name -/

/-- A table in one piece that has the name of the example's logical table. -/
def capturingRows : List TableConfigRow := [⟨"s", "c", "user", 0, 0, 0⟩]

theorem handRegistered_user : exampleMetadata.HandRegistered "user" :=
  ⟨exampleTable, List.mem_singleton_self _, rfl, rfl, rfl⟩

theorem handRegistered_example : ∀ table ∈ exampleParsed.tables,
    exampleMetadata.HandRegistered table.tableName := by
  intro table htable
  rw [List.mem_singleton.1 htable]
  exact handRegistered_user

/-- An import of other tables keeps the example's. -/
theorem resolve_synced_example : ∃ (bundle : SyncBundle) (db' : Metadata),
    buildSyncBundle asciiRuntime twoShards exampleTarget = .ok bundle ∧
    syncBundleToLocal exampleMetadata bundle = .ok db' ∧
    (resolve asciiRuntime db' exampleParsed []).map RouteDecision.outcome =
      (resolve asciiRuntime exampleMetadata exampleParsed []).map RouteDecision.outcome := by
  have hnames : (buildSyncBundle asciiRuntime twoShards exampleTarget).map
      (fun bundle => bundle.physicalRoutes.map (·.physicalTableName)) =
      .ok [("t_0" : Str), ("t_1" : Str)] := by decide +kernel
  have hrun : ((buildSyncBundle asciiRuntime twoShards exampleTarget).bind
      (syncBundleToLocal exampleMetadata)).map (fun db => db.physicalRoutes.rows.length) =
      .ok 4 := by decide +kernel
  obtain ⟨bundle, hbundle, hnames⟩ := map_eq_ok.1 hnames
  obtain ⟨db', hdb', -⟩ := map_eq_ok.1 hrun
  obtain ⟨bundle', hbundle', hsync⟩ := bind_eq_ok.1 hdb'
  obtain rfl := Except.ok.inj (hbundle.symm.trans hbundle')
  refine ⟨bundle, db', hbundle, hsync, resolve_synced asciiRuntime exampleMetadata_constraints
    hsync exampleParsed [] handRegistered_example (fun table _ r hr _ _ => ?_)
      fun table ht record hr hname => ?_⟩
  · exact List.not_mem_nil
  · have hmem := List.mem_map_of_mem (f := fun q : PhysicalRouteRecord => q.physicalTableName) hr
    rw [hnames, hname, List.mem_singleton.1 ht] at hmem
    exact absurd hmem (by decide)

/-- An import can capture the name of a logical table: behind it the statement is read from the
imported table instead of the shard. -/
theorem capturingRows_reroute :
    ¬ KeepsHandRegistered asciiRuntime exampleMetadata capturingRows exampleTarget := by
  intro h
  have hrun : ((buildSyncBundle asciiRuntime capturingRows exampleTarget).bind
      (syncBundleToLocal exampleMetadata)).bind (fun db' =>
        (resolve asciiRuntime db' exampleParsed []).map
          fun decision => decision.targets.map (·.physicalTableName)) = .ok [("user" : Str)] := by
    decide +kernel
  have hbefore : (resolve asciiRuntime exampleMetadata exampleParsed []).map
      (fun decision => decision.targets.map (·.physicalTableName)) = .ok [("user_1" : Str)] := by
    decide +kernel
  obtain ⟨db', hdb', hafter⟩ := bind_eq_ok.1 hrun
  obtain ⟨bundle, hbundle, hsync⟩ := bind_eq_ok.1 hdb'
  obtain ⟨after, hresolve', hafter⟩ := map_eq_ok.1 hafter
  obtain ⟨before, hresolve, hbefore⟩ := map_eq_ok.1 hbefore
  have hsame := h bundle db' hbundle hsync exampleSql exampleParsed [] parse_exampleSql
    handRegistered_example
  rw [hresolve', hresolve] at hsame
  have htargets : after.targets = before.targets :=
    congrArg (fun o => o.2.2) (Except.ok.inj hsame)
  rw [htargets, hbefore] at hafter
  exact absurd hafter (by decide)

end SqlGatekeeper
