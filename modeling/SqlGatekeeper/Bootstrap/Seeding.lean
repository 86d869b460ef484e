import SqlGatekeeper.Bootstrap.Meta

/-!
# The metadata after a seeding

* `Metadata.UniqueConstraints`: generated ids and unique keys, without the foreign keys.
* `Put`: what `upsertDatasource` does to the datasources; `Put.fixed`: writing them again in the
  same order changes nothing.
* `upsertPolicy_ok`, `upsertPolicy_of_mem`, …: what the other upserts leave.
* `Seeding`: a committed seeding, taken apart; `exists_seeding`.
* `Seeding.uniqueConstraints`, `Seeding.constraints`: the declared constraints hold again.
-/

namespace SqlGatekeeper

open Py Store

/-- The declared unique constraints: generated ids and unique keys. -/
structure Metadata.UniqueConstraints (db : Metadata) : Prop where
  datasourceIds : db.datasources.Fresh (·.id)
  logicalTableIds : db.logicalTables.Fresh (·.id)
  routeFactorIds : db.routeFactors.Fresh (·.id)
  routeRuleIds : db.routeRules.Fresh (·.id)
  physicalRouteIds : db.physicalRoutes.Fresh (·.id)
  policyIds : db.policies.Fresh (·.id)
  statsSnapshotIds : db.statsSnapshots.Fresh (·.id)
  auditLogIds : db.auditLogs.Fresh (·.id)
  datasourceCode : Unique (·.datasourceCode) db.datasources.rows
  tableName : Unique (·.tableName) db.logicalTables.rows
  uqRouteFactorTableName :
    Unique (fun r => (r.logicalTableId, r.factorName)) db.routeFactors.rows
  uqRouteRuleTableName : Unique (fun r => (r.logicalTableId, r.ruleName)) db.routeRules.rows
  uqTableRouteValue : Unique (fun r => (r.logicalTableId, r.routeValue)) db.physicalRoutes.rows
  policyCode : Unique (·.policyCode) db.policies.rows
  uqStatsTable :
    Unique (fun r => (r.datasourceId, r.physicalTableName)) db.statsSnapshots.rows

theorem Metadata.Constraints.uniqueConstraints {db : Metadata} (hdb : db.Constraints) :
    db.UniqueConstraints := { hdb with }

/-! ## Datasources -/

/-- A datasource behind an upsert that finds the code. -/
def DatasourceSeed.put (seed : DatasourceSeed) (d : DatasourceInstance) : DatasourceInstance :=
  if d.datasourceCode = seed.datasourceCode then seed.overwrite d else d

section Put

variable {seed : DatasourceSeed}

@[simp] theorem DatasourceSeed.put_id (d : DatasourceInstance) : (seed.put d).id = d.id := by
  rw [put]
  split <;> rfl

@[simp] theorem DatasourceSeed.put_datasourceCode (d : DatasourceInstance) :
    (seed.put d).datasourceCode = d.datasourceCode := by
  rw [put]
  split <;> rfl

theorem DatasourceSeed.put_of_ne {d : DatasourceInstance}
    (h : d.datasourceCode ≠ seed.datasourceCode) : seed.put d = d :=
  if_neg h

/-- The last writer decides. -/
theorem DatasourceSeed.overwrite_congr {d d' : DatasourceInstance} (hid : d.id = d'.id)
    (hcode : d.datasourceCode = d'.datasourceCode) : seed.overwrite d = seed.overwrite d' := by
  rw [overwrite, overwrite, hid, hcode]

/-- What an upsert does to the datasources. -/
structure Put (seed : DatasourceSeed) (t : Table DatasourceInstance) (id : Nat)
    (t' : Table DatasourceInstance) : Prop where
  exists_row : ∃ d ∈ t'.rows, d.id = id ∧ d.datasourceCode = seed.datasourceCode
  written : ∀ d ∈ t'.rows, seed.put d = d
  frame : t'.rows.filter (fun d => decide (d.datasourceCode ≠ seed.datasourceCode)) =
    t.rows.filter fun d => decide (d.datasourceCode ≠ seed.datasourceCode)
  kept : ∀ d ∈ t.rows, ∃ d' ∈ t'.rows, d'.id = d.id ∧ d'.datasourceCode = d.datasourceCode
  fresh : t'.Fresh (·.id)
  unique : Unique (·.datasourceCode) t'.rows

/-- The statement that changes the found row changes the rows with its code. -/
theorem update_eq_map_put {t : Table DatasourceInstance} (hids : t.Fresh (·.id))
    (hcode : Unique (·.datasourceCode) t.rows) {d : DatasourceInstance} (hd : d ∈ t.rows)
    (hdcode : d.datasourceCode = seed.datasourceCode) :
    t.update (fun r => r.id = d.id) seed.overwrite = ⟨t.rows.map seed.put, t.nextId⟩ := by
  rw [Table.update, Table.mk.injEq]
  refine ⟨List.map_congr_left fun r hr => ?_, rfl⟩
  have hiff : r.id = d.id ↔ r.datasourceCode = seed.datasourceCode := by
    constructor
    · intro h
      rw [hids.unique.eq_of_mem hr hd h, hdcode]
    · intro h
      rw [hcode.eq_of_mem hr hd (h.trans hdcode.symm)]
  simp only [DatasourceSeed.put, decide_eq_true_eq, hiff]

/-- A datasource that is found is overwritten in place. -/
theorem upsertDatasource_of_mem {db : Metadata} (hids : db.datasources.Fresh (·.id))
    (hcode : Unique (·.datasourceCode) db.datasources.rows) {d : DatasourceInstance}
    (hd : d ∈ db.datasources.rows) (hdcode : d.datasourceCode = seed.datasourceCode) :
    upsertDatasource seed db = .ok (d.id, { db with
      datasources := ⟨db.datasources.rows.map seed.put, db.datasources.nextId⟩ }) := by
  have hfilter : db.datasources.rows.filter
      (fun r => decide (r.datasourceCode = seed.datasourceCode)) = [d] := by
    rw [hcode.filter_eq hd fun s _ hs => (of_decide_eq_true hs).trans hdcode.symm, if_pos]
    exact decide_eq_true hdcode
  rw [upsertDatasource, hfilter, ← update_eq_map_put hids hcode hd hdcode]
  rfl

theorem put_of_mem {t : Table DatasourceInstance} (hids : t.Fresh (·.id))
    (hcode : Unique (·.datasourceCode) t.rows) {d : DatasourceInstance} (hd : d ∈ t.rows)
    (hdcode : d.datasourceCode = seed.datasourceCode) :
    Put seed t d.id ⟨t.rows.map seed.put, t.nextId⟩ where
  exists_row := ⟨seed.put d, List.mem_map_of_mem hd, by simp, by simpa using hdcode⟩
  written := by
    intro e he
    obtain ⟨r, -, rfl⟩ := List.mem_map.1 he
    by_cases h : r.datasourceCode = seed.datasourceCode
    · rw [DatasourceSeed.put, if_pos ((DatasourceSeed.put_datasourceCode r).trans h),
        DatasourceSeed.put, if_pos h]
      rfl
    · rw [DatasourceSeed.put_of_ne h, DatasourceSeed.put_of_ne h]
  frame := by
    rw [List.filter_map]
    refine (List.map_congr_left fun r hr => ?_).trans ((List.map_id _).trans ?_)
    · exact DatasourceSeed.put_of_ne (by simpa using (List.mem_filter.1 hr).2)
    · exact List.filter_congr fun r _ => by simp
  kept := fun r hr => ⟨seed.put r, List.mem_map_of_mem hr, by simp, by simp⟩
  fresh := by
    have h : (t.update (fun r => r.id = d.id) seed.overwrite).Fresh (·.id) :=
      hids.update (f := seed.overwrite) fun _ => rfl
    rwa [update_eq_map_put hids hcode hd hdcode] at h
  unique := by
    have h := (Table.unique_update (p := fun r => decide (r.id = d.id)) (f := seed.overwrite)
      fun _ => rfl).2 hcode
    rwa [update_eq_map_put hids hcode hd hdcode] at h

/-- A datasource that is not found is inserted. -/
theorem put_of_forall_ne {t : Table DatasourceInstance} (hids : t.Fresh (·.id))
    (hcode : Unique (·.datasourceCode) t.rows)
    (h : ∀ d ∈ t.rows, d.datasourceCode ≠ seed.datasourceCode) :
    Put seed t t.nextId (t.insert seed.row) where
  exists_row := ⟨seed.row t.nextId,
    List.mem_append_right _ (List.mem_singleton_self _), rfl, rfl⟩
  written := by
    intro d hd
    rcases List.mem_append.1 hd with hd | hd
    · exact DatasourceSeed.put_of_ne (h d hd)
    · rw [List.mem_singleton.1 hd]
      exact if_pos rfl
  frame := by
    rw [Table.insert_rows, List.filter_append]
    simp [DatasourceSeed.row]
  kept := fun r hr => ⟨r, List.mem_append_left _ hr, rfl, rfl⟩
  fresh := hids.insert fun _ => rfl
  unique := Table.unique_insert hcode h

theorem upsertDatasource_ok (db : Metadata) (hids : db.datasources.Fresh (·.id))
    (hcode : Unique (·.datasourceCode) db.datasources.rows) (seed : DatasourceSeed) :
    ∃ id datasources, upsertDatasource seed db = .ok (id, { db with datasources }) ∧
      Put seed db.datasources id datasources := by
  by_cases h : ∃ d ∈ db.datasources.rows, d.datasourceCode = seed.datasourceCode
  · obtain ⟨d, hd, hdcode⟩ := h
    exact ⟨_, _, upsertDatasource_of_mem hids hcode hd hdcode, put_of_mem hids hcode hd hdcode⟩
  · have hne : ∀ d ∈ db.datasources.rows, d.datasourceCode ≠ seed.datasourceCode :=
      fun d hd hdcode => h ⟨d, hd, hdcode⟩
    have hfilter : db.datasources.rows.filter
        (fun r => decide (r.datasourceCode = seed.datasourceCode)) = [] :=
      List.filter_eq_nil_iff.2 fun r hr => by simpa using hne r hr
    have hadd : db.datasources.add PyError.integrityError (·.datasourceCode) seed.row =
        .ok (db.datasources.insert seed.row) := Table.add_of_forall_ne hne
    refine ⟨_, _, ?_, put_of_forall_ne hids hcode hne⟩
    rw [upsertDatasource, hfilter]
    simp only [oneOrNone, hadd]
    rfl

/-- What writes earlier datasources again and is followed by this upsert changes nothing. -/
theorem Put.fixed {t t' : Table DatasourceInstance} {id : Nat} (h : Put seed t id t')
    {f : DatasourceInstance → DatasourceInstance} (hfid : ∀ d, (f d).id = d.id)
    (hfcode : ∀ d, (f d).datasourceCode = d.datasourceCode) (hf : ∀ d ∈ t.rows, f d = d) :
    ∀ d ∈ t'.rows, seed.put (f d) = d := by
  intro d hd
  by_cases hcode : d.datasourceCode = seed.datasourceCode
  · rw [DatasourceSeed.put, if_pos ((hfcode d).trans hcode),
      DatasourceSeed.overwrite_congr (hfid d) (hfcode d)]
    have := h.written d hd
    rwa [DatasourceSeed.put, if_pos hcode] at this
  · have hmem : d ∈ t.rows := by
      have hd' : d ∈ t'.rows.filter fun d => decide (d.datasourceCode ≠ seed.datasourceCode) :=
        List.mem_filter.2 ⟨hd, decide_eq_true hcode⟩
      rw [h.frame] at hd'
      exact (List.mem_filter.1 hd').1
    rw [hf d hmem, DatasourceSeed.put_of_ne hcode]

/-- Datasources under other codes are as they were. -/
theorem Put.filter_notMem {t t' : Table DatasourceInstance} {id : Nat} (h : Put seed t id t')
    {codes : List Str} (hcodes : seed.datasourceCode ∈ codes) :
    t'.rows.filter (fun d => d.datasourceCode ∉ codes) =
      t.rows.filter fun d => d.datasourceCode ∉ codes := by
  have hsplit : ∀ l : List DatasourceInstance, l.filter (fun d => d.datasourceCode ∉ codes) =
      (l.filter fun d => decide (d.datasourceCode ≠ seed.datasourceCode)).filter
        fun d => d.datasourceCode ∉ codes := by
    intro l
    rw [List.filter_filter]
    refine List.filter_congr fun d _ => ?_
    by_cases hd : d.datasourceCode ∈ codes
    · simp [hd]
    · have hne : d.datasourceCode ≠ seed.datasourceCode := fun heq => hd (heq ▸ hcodes)
      simp [hd, hne]
  rw [hsplit, h.frame, ← hsplit]

end Put

/-! ## Rows that are left as they are -/

section Upserts

variable {db : Metadata}

theorem upsertPolicy_ok (db : Metadata) (hunique : Unique (·.policyCode) db.policies.rows) :
    ∃ r policies, upsertPolicy db = .ok { db with policies } ∧
      Table.Got (·.policyCode) ("default_select_guard" : Str) policyRow db.policies r
        policies := by
  obtain ⟨r, policies, h, hgot⟩ := Table.getOrAdd_ok PyError.multipleResultsFound
    PyError.integrityError ("default_select_guard" : Str) policyRow hunique fun _ => rfl
  exact ⟨r, policies, by rw [upsertPolicy, h]; rfl, hgot⟩

theorem upsertPolicy_of_mem (hunique : Unique (·.policyCode) db.policies.rows) {r : PolicySet}
    (hr : r ∈ db.policies.rows) (hk : r.policyCode = "default_select_guard") :
    upsertPolicy db = .ok db := by
  rw [upsertPolicy, Table.getOrAdd_of_mem hunique hr hk]
  rfl

theorem upsertLogicalTable_ok (db : Metadata)
    (hunique : Unique (·.tableName) db.logicalTables.rows)
    (tableName description routeSource template : Str) :
    ∃ r logicalTables, upsertLogicalTable tableName description routeSource template db =
        .ok (r.id, { db with logicalTables }) ∧
      Table.Got (·.tableName) tableName
        (logicalTableRow tableName description routeSource template) db.logicalTables r
        logicalTables := by
  obtain ⟨r, logicalTables, h, hgot⟩ := Table.getOrAdd_ok PyError.multipleResultsFound
    PyError.integrityError tableName
    (logicalTableRow tableName description routeSource template) hunique fun _ => rfl
  exact ⟨r, logicalTables, by rw [upsertLogicalTable, h]; rfl, hgot⟩

theorem upsertLogicalTable_of_mem (hunique : Unique (·.tableName) db.logicalTables.rows)
    {r : LogicalTable} (hr : r ∈ db.logicalTables.rows) {tableName : Str}
    (hk : r.tableName = tableName) (description routeSource template : Str) :
    upsertLogicalTable tableName description routeSource template db = .ok (r.id, db) := by
  rw [upsertLogicalTable, Table.getOrAdd_of_mem hunique hr hk]
  rfl

theorem upsertRouteFactor_ok (db : Metadata)
    (hunique : Unique (fun r => (r.logicalTableId, r.factorName)) db.routeFactors.rows)
    (id : Nat) (factorName sourceType sourceKey : Str) :
    ∃ r routeFactors, upsertRouteFactor id factorName sourceType sourceKey db =
        .ok { db with routeFactors } ∧
      Table.Got (fun r => (r.logicalTableId, r.factorName)) (id, factorName)
        (routeFactorRow id factorName sourceType sourceKey) db.routeFactors r routeFactors := by
  obtain ⟨r, routeFactors, h, hgot⟩ := Table.getOrAdd_ok PyError.multipleResultsFound
    PyError.integrityError (id, factorName)
    (routeFactorRow id factorName sourceType sourceKey) hunique fun _ => rfl
  exact ⟨r, routeFactors, by rw [upsertRouteFactor, h]; rfl, hgot⟩

theorem upsertRouteFactor_of_mem
    (hunique : Unique (fun r => (r.logicalTableId, r.factorName)) db.routeFactors.rows)
    {r : RouteFactorDef} (hr : r ∈ db.routeFactors.rows) {id : Nat} {factorName : Str}
    (hk : (r.logicalTableId, r.factorName) = (id, factorName)) (sourceType sourceKey : Str) :
    upsertRouteFactor id factorName sourceType sourceKey db = .ok db := by
  rw [upsertRouteFactor, Table.getOrAdd_of_mem hunique hr hk]
  rfl

theorem upsertRouteRule_ok (db : Metadata)
    (hunique : Unique (fun r => (r.logicalTableId, r.ruleName)) db.routeRules.rows)
    (id : Nat) (ruleName ruleType expression outputFormat : Str) :
    ∃ r routeRules, upsertRouteRule id ruleName ruleType expression outputFormat db =
        .ok { db with routeRules } ∧
      Table.Got (fun r => (r.logicalTableId, r.ruleName)) (id, ruleName)
        (routeRuleRow id ruleName ruleType expression outputFormat) db.routeRules r
        routeRules := by
  obtain ⟨r, routeRules, h, hgot⟩ := Table.getOrAdd_ok PyError.multipleResultsFound
    PyError.integrityError (id, ruleName)
    (routeRuleRow id ruleName ruleType expression outputFormat) hunique fun _ => rfl
  exact ⟨r, routeRules, by rw [upsertRouteRule, h]; rfl, hgot⟩

theorem upsertRouteRule_of_mem
    (hunique : Unique (fun r => (r.logicalTableId, r.ruleName)) db.routeRules.rows)
    {r : RouteRule} (hr : r ∈ db.routeRules.rows) {id : Nat} {ruleName : Str}
    (hk : (r.logicalTableId, r.ruleName) = (id, ruleName))
    (ruleType expression outputFormat : Str) :
    upsertRouteRule id ruleName ruleType expression outputFormat db = .ok db := by
  rw [upsertRouteRule, Table.getOrAdd_of_mem hunique hr hk]
  rfl

theorem upsertPhysicalRoute_ok (db : Metadata)
    (hunique : Unique (fun r => (r.logicalTableId, r.routeValue)) db.physicalRoutes.rows)
    (id : Nat) (routeValue physicalTableName : Str) (datasourceId : Nat) :
    ∃ r physicalRoutes, upsertPhysicalRoute id routeValue physicalTableName datasourceId db =
        .ok { db with physicalRoutes } ∧
      Table.Got (fun r => (r.logicalTableId, r.routeValue)) (id, routeValue)
        (physicalRouteRow id routeValue physicalTableName datasourceId) db.physicalRoutes r
        physicalRoutes := by
  obtain ⟨r, physicalRoutes, h, hgot⟩ := Table.getOrAdd_ok PyError.multipleResultsFound
    PyError.integrityError (id, routeValue)
    (physicalRouteRow id routeValue physicalTableName datasourceId) hunique fun _ => rfl
  exact ⟨r, physicalRoutes, by rw [upsertPhysicalRoute, h]; rfl, hgot⟩

theorem upsertPhysicalRoute_of_mem
    (hunique : Unique (fun r => (r.logicalTableId, r.routeValue)) db.physicalRoutes.rows)
    {r : PhysicalTableRoute} (hr : r ∈ db.physicalRoutes.rows) {id : Nat} {routeValue : Str}
    (hk : (r.logicalTableId, r.routeValue) = (id, routeValue)) (physicalTableName : Str)
    (datasourceId : Nat) :
    upsertPhysicalRoute id routeValue physicalTableName datasourceId db = .ok db := by
  rw [upsertPhysicalRoute, Table.getOrAdd_of_mem hunique hr hk]
  rfl

end Upserts

/-! ## A seeding, taken apart -/

section Seeding

variable {rt : Runtime} {settings : SeedSettings rt} {db db' : Metadata}

/-- A committed seeding, table by table. -/
structure Seeding (settings : SeedSettings rt) (db db' : Metadata) where
  databaseName : Str
  userDsId : Nat
  orderDsId : Nat
  redisDsId : Nat
  user : LogicalTable
  order : LogicalTable
  datasources₁ : Table DatasourceInstance
  datasources₂ : Table DatasourceInstance
  logicalTables : Table LogicalTable
  routeFactors : Table RouteFactorDef
  routeRules : Table RouteRule
  physicalRoutes₁ : Table PhysicalTableRoute
  physicalRoutes₂ : Table PhysicalTableRoute
  physicalRoutes₃ : Table PhysicalTableRoute
  redisDb : rt.strInt settings.redisDb = .ok databaseName
  policy : ∃ r, Table.Got (·.policyCode) ("default_select_guard" : Str) policyRow db.policies r
    db'.policies
  userPut : Put (userDatasource settings) db.datasources userDsId datasources₁
  orderPut : Put (orderDatasource settings) datasources₁ orderDsId datasources₂
  redisPut : Put (redisDatasource settings databaseName) datasources₂ redisDsId db'.datasources
  userTable : Table.Got (·.tableName) ("user" : Str) (logicalTableRow "user" "Logical user table"
    "sql_or_physical_table" "user_\x7bsuffix\x7d") db.logicalTables user logicalTables
  orderTable : Table.Got (·.tableName) ("order" : Str) (logicalTableRow "order"
    "Logical order table" "route_context_or_sql" "order_\x7bbiz_date\x7d") logicalTables order
    db'.logicalTables
  userFactor : ∃ r, Table.Got (fun r => (r.logicalTableId, r.factorName)) (user.id, ("uid" : Str))
    (routeFactorRow user.id "uid" "sql_predicate" "uid") db.routeFactors r routeFactors
  orderFactor : ∃ r, Table.Got (fun r => (r.logicalTableId, r.factorName))
    (order.id, ("biz_date" : Str))
    (routeFactorRow order.id "biz_date" "route_context" "biz_date") routeFactors r
    db'.routeFactors
  userRule : ∃ r, Table.Got (fun r => (r.logicalTableId, r.ruleName))
    (user.id, ("user_mod_2" : Str))
    (routeRuleRow user.id "user_mod_2" "mod" "int(uid) % 2" "\x7bvalue\x7d") db.routeRules r
    routeRules
  orderRule : ∃ r, Table.Got (fun r => (r.logicalTableId, r.ruleName))
    (order.id, ("order_month" : Str))
    (routeRuleRow order.id "order_month" "format" "biz_date.replace('-', '_')" "\x7bvalue\x7d")
    routeRules r db'.routeRules
  userRoute₀ : ∃ r, Table.Got (fun r => (r.logicalTableId, r.routeValue)) (user.id, ("0" : Str))
    (physicalRouteRow user.id "0" "user_0" userDsId) db.physicalRoutes r physicalRoutes₁
  userRoute₁ : ∃ r, Table.Got (fun r => (r.logicalTableId, r.routeValue)) (user.id, ("1" : Str))
    (physicalRouteRow user.id "1" "user_1" userDsId) physicalRoutes₁ r physicalRoutes₂
  orderRoute₀ : ∃ r, Table.Got (fun r => (r.logicalTableId, r.routeValue))
    (order.id, ("2025_06" : Str))
    (physicalRouteRow order.id "2025_06" "order_2025_06" orderDsId) physicalRoutes₂ r
    physicalRoutes₃
  orderRoute₁ : ∃ r, Table.Got (fun r => (r.logicalTableId, r.routeValue))
    (order.id, ("2025_07" : Str))
    (physicalRouteRow order.id "2025_07" "order_2025_07" orderDsId) physicalRoutes₃ r
    db'.physicalRoutes
  statsSnapshots : db'.statsSnapshots = db.statsSnapshots
  auditLogs : db'.auditLogs = db.auditLogs

/-- A seeding commits. -/
theorem exists_seeding (settings : SeedSettings rt) (hdb : db.UniqueConstraints) :
    ∃ db', seedReferenceData settings db = .ok db' ∧ Nonempty (Seeding settings db db') := by
  have hredisDb : rt.strInt settings.redisDb = .ok (intText settings.redisDb) := by
    rw [Runtime.strInt, if_pos settings.redisDb_fits]
  obtain ⟨p, policies, hpolicy, gpolicy⟩ := upsertPolicy_ok db hdb.policyCode
  obtain ⟨userDsId, datasources₁, huserDs, guserDs⟩ :=
    upsertDatasource_ok { db with policies }
    hdb.datasourceIds hdb.datasourceCode (userDatasource settings)
  obtain ⟨orderDsId, datasources₂, horderDs, gorderDs⟩ := upsertDatasource_ok
    { db with policies, datasources := datasources₁ } guserDs.fresh guserDs.unique
    (orderDatasource settings)
  obtain ⟨redisDsId, datasources, hredisDs, gredisDs⟩ := upsertDatasource_ok
    { db with policies, datasources := datasources₂ } gorderDs.fresh gorderDs.unique
    (redisDatasource settings (intText settings.redisDb))
  obtain ⟨user, logicalTables₁, huser, guser⟩ := upsertLogicalTable_ok
    { db with policies, datasources } hdb.tableName "user" "Logical user table"
    "sql_or_physical_table" "user_\x7bsuffix\x7d"
  obtain ⟨order, logicalTables, horder, gorder⟩ := upsertLogicalTable_ok
    { db with policies, datasources, logicalTables := logicalTables₁ } guser.unique "order"
    "Logical order table" "route_context_or_sql" "order_\x7bbiz_date\x7d"
  obtain ⟨f₁, routeFactors₁, hfactor₁, gfactor₁⟩ := upsertRouteFactor_ok
    { db with policies, datasources, logicalTables } hdb.uqRouteFactorTableName user.id "uid"
    "sql_predicate" "uid"
  obtain ⟨f₂, routeFactors, hfactor₂, gfactor₂⟩ := upsertRouteFactor_ok
    { db with policies, datasources, logicalTables, routeFactors := routeFactors₁ }
    gfactor₁.unique order.id "biz_date" "route_context" "biz_date"
  obtain ⟨r₁, routeRules₁, hrule₁, grule₁⟩ := upsertRouteRule_ok
    { db with policies, datasources, logicalTables, routeFactors } hdb.uqRouteRuleTableName user.id
    "user_mod_2" "mod" "int(uid) % 2" "\x7bvalue\x7d"
  obtain ⟨r₂, routeRules, hrule₂, grule₂⟩ := upsertRouteRule_ok
    { db with policies, datasources, logicalTables, routeFactors, routeRules := routeRules₁ }
    grule₁.unique order.id "order_month" "format" "biz_date.replace('-', '_')" "\x7bvalue\x7d"
  obtain ⟨q₁, physicalRoutes₁, hroute₁, groute₁⟩ := upsertPhysicalRoute_ok
    { db with policies, datasources, logicalTables, routeFactors, routeRules }
    hdb.uqTableRouteValue user.id "0" "user_0" userDsId
  obtain ⟨q₂, physicalRoutes₂, hroute₂, groute₂⟩ := upsertPhysicalRoute_ok
    { db with policies, datasources, logicalTables, routeFactors, routeRules,
              physicalRoutes := physicalRoutes₁ } groute₁.unique user.id "1" "user_1" userDsId
  obtain ⟨q₃, physicalRoutes₃, hroute₃, groute₃⟩ := upsertPhysicalRoute_ok
    { db with policies, datasources, logicalTables, routeFactors, routeRules,
              physicalRoutes := physicalRoutes₂ } groute₂.unique order.id "2025_06"
    "order_2025_06" orderDsId
  obtain ⟨q₄, physicalRoutes, hroute₄, groute₄⟩ := upsertPhysicalRoute_ok
    { db with policies, datasources, logicalTables, routeFactors, routeRules,
              physicalRoutes := physicalRoutes₃ } groute₃.unique order.id "2025_07"
    "order_2025_07" orderDsId
  refine ⟨{ db with
    policies, datasources, logicalTables, routeFactors, routeRules, physicalRoutes }, ?_, ⟨_,
    userDsId, orderDsId, redisDsId, user, order, datasources₁, datasources₂, logicalTables₁,
    routeFactors₁, routeRules₁, physicalRoutes₁, physicalRoutes₂, physicalRoutes₃,
    hredisDb, ⟨p, gpolicy⟩, guserDs, gorderDs, gredisDs, guser, gorder, ⟨f₁, gfactor₁⟩,
    ⟨f₂, gfactor₂⟩, ⟨r₁, grule₁⟩, ⟨r₂, grule₂⟩, ⟨q₁, groute₁⟩,
      ⟨q₂, groute₂⟩, ⟨q₃, groute₃⟩,
    ⟨q₄, groute₄⟩, rfl, rfl⟩⟩
  simp only [seedReferenceData, hredisDb, hpolicy, huserDs, horderDs, hredisDs, huser, horder,
    hfactor₁, hfactor₂, hrule₁, hrule₂, hroute₁, hroute₂, hroute₃, hroute₄, bind,
      Except.bind]

namespace Seeding

/-- The unique constraints hold again. -/
theorem uniqueConstraints (hs : Seeding settings db db') (hdb : db.UniqueConstraints) :
    db'.UniqueConstraints := by
  obtain ⟨p, hpolicy⟩ := hs.policy
  obtain ⟨f₁, hfactor₁⟩ := hs.userFactor
  obtain ⟨f₂, hfactor₂⟩ := hs.orderFactor
  obtain ⟨r₁, hrule₁⟩ := hs.userRule
  obtain ⟨r₂, hrule₂⟩ := hs.orderRule
  obtain ⟨q₁, hroute₁⟩ := hs.userRoute₀
  obtain ⟨q₂, hroute₂⟩ := hs.userRoute₁
  obtain ⟨q₃, hroute₃⟩ := hs.orderRoute₀
  obtain ⟨q₄, hroute₄⟩ := hs.orderRoute₁
  constructor
  case datasourceIds => exact hs.redisPut.fresh
  case logicalTableIds =>
    exact hs.orderTable.fresh (fun _ => rfl) (hs.userTable.fresh (fun _ => rfl) hdb.logicalTableIds)
  case routeFactorIds =>
    exact hfactor₂.fresh (fun _ => rfl) (hfactor₁.fresh (fun _ => rfl) hdb.routeFactorIds)
  case routeRuleIds =>
    exact hrule₂.fresh (fun _ => rfl) (hrule₁.fresh (fun _ => rfl) hdb.routeRuleIds)
  case physicalRouteIds =>
    exact hroute₄.fresh (fun _ => rfl) (hroute₃.fresh (fun _ => rfl)
      (hroute₂.fresh (fun _ => rfl) (hroute₁.fresh (fun _ => rfl) hdb.physicalRouteIds)))
  case policyIds => exact hpolicy.fresh (fun _ => rfl) hdb.policyIds
  case statsSnapshotIds => exact hs.statsSnapshots ▸ hdb.statsSnapshotIds
  case auditLogIds => exact hs.auditLogs ▸ hdb.auditLogIds
  case datasourceCode => exact hs.redisPut.unique
  case tableName => exact hs.orderTable.unique
  case uqRouteFactorTableName => exact hfactor₂.unique
  case uqRouteRuleTableName => exact hrule₂.unique
  case uqTableRouteValue => exact hroute₄.unique
  case policyCode => exact hpolicy.unique
  case uqStatsTable => exact hs.statsSnapshots ▸ hdb.uqStatsTable

/-- No datasource is lost. -/
theorem exists_datasource (hs : Seeding settings db db') {d : DatasourceInstance}
    (hd : d ∈ hs.datasources₁.rows) :
    ∃ d' ∈ db'.datasources.rows, d'.id = d.id ∧ d'.datasourceCode = d.datasourceCode := by
  obtain ⟨d₂, hd₂, hid₂, hcode₂⟩ := hs.orderPut.kept d hd
  obtain ⟨d₃, hd₃, hid₃, hcode₃⟩ := hs.redisPut.kept d₂ hd₂
  exact ⟨d₃, hd₃, hid₃.trans hid₂, hcode₃.trans hcode₂⟩

theorem exists_userDatasource (hs : Seeding settings db db') :
    ∃ d ∈ db'.datasources.rows, d.id = hs.userDsId ∧ d.datasourceCode = "biz_user_db" := by
  obtain ⟨d, hd, hid, hcode⟩ := hs.userPut.exists_row
  obtain ⟨d', hd', hid', hcode'⟩ := hs.exists_datasource hd
  exact ⟨d', hd', hid'.trans hid, hcode'.trans hcode⟩

theorem exists_orderDatasource (hs : Seeding settings db db') :
    ∃ d ∈ db'.datasources.rows, d.id = hs.orderDsId ∧ d.datasourceCode = "biz_order_db" := by
  obtain ⟨d, hd, hid, hcode⟩ := hs.orderPut.exists_row
  obtain ⟨d', hd', hid', hcode'⟩ := hs.redisPut.kept d hd
  exact ⟨d', hd', hid'.trans hid, hcode'.trans hcode⟩

theorem user_mem (hs : Seeding settings db db') : hs.user ∈ db'.logicalTables.rows :=
  hs.orderTable.grown.mem hs.userTable.mem

/-- Nor is a logical table. -/
theorem mem_logicalTables (hs : Seeding settings db db') {t : LogicalTable}
    (ht : t ∈ db.logicalTables.rows) : t ∈ db'.logicalTables.rows :=
  hs.orderTable.grown.mem (hs.userTable.grown.mem ht)

/-- The foreign keys hold again. -/
theorem constraints (hs : Seeding settings db db') (hdb : db.Constraints) : db'.Constraints := by
  have hkeys := hs.uniqueConstraints hdb.uniqueConstraints
  obtain ⟨f₁, hfactor₁⟩ := hs.userFactor
  obtain ⟨f₂, hfactor₂⟩ := hs.orderFactor
  obtain ⟨r₁, hrule₁⟩ := hs.userRule
  obtain ⟨r₂, hrule₂⟩ := hs.orderRule
  obtain ⟨q₁, hroute₁⟩ := hs.userRoute₀
  obtain ⟨q₂, hroute₂⟩ := hs.userRoute₁
  obtain ⟨q₃, hroute₃⟩ := hs.orderRoute₀
  obtain ⟨q₄, hroute₄⟩ := hs.orderRoute₁
  have hold : ∀ {id : Nat}, (∃ t ∈ db.logicalTables.rows, t.id = id) →
      ∃ t ∈ db'.logicalTables.rows, t.id = id :=
    fun ⟨t, ht, hid⟩ => ⟨t, hs.mem_logicalTables ht, hid⟩
  have hdatasource : ∀ {id : Nat}, (∃ d ∈ db.datasources.rows, d.id = id) →
      ∃ d ∈ db'.datasources.rows, d.id = id := by
    rintro id ⟨d, hd, rfl⟩
    obtain ⟨d₁, hd₁, hid₁, -⟩ := hs.userPut.kept d hd
    obtain ⟨d', hd', hid', -⟩ := hs.exists_datasource hd₁
    exact ⟨d', hd', hid'.trans hid₁⟩
  have huser : ∃ t ∈ db'.logicalTables.rows, t.id = hs.user.id := ⟨_, hs.user_mem, rfl⟩
  have horder : ∃ t ∈ db'.logicalTables.rows, t.id = hs.order.id :=
    ⟨_, hs.orderTable.mem, rfl⟩
  obtain ⟨userDs, huserDs, huserId, -⟩ := hs.exists_userDatasource
  obtain ⟨orderDs, horderDs, horderId, -⟩ := hs.exists_orderDatasource
  refine { hkeys with factorTable := ?_, ruleTable := ?_, routeTable := ?_, routeDatasource := ?_,
                      statsDatasource := ?_ }
  · exact hfactor₂.forall_mem (hfactor₁.forall_mem (fun f hf => hold (hdb.factorTable f hf))
      fun _ => huser) fun _ => horder
  · exact hrule₂.forall_mem (hrule₁.forall_mem (fun r hr => hold (hdb.ruleTable r hr))
      fun _ => huser) fun _ => horder
  · exact hroute₄.forall_mem (hroute₃.forall_mem (hroute₂.forall_mem (hroute₁.forall_mem
      (fun r hr => hold (hdb.routeTable r hr)) fun _ => huser) fun _ => huser) fun _ => horder)
      fun _ => horder
  · exact hroute₄.forall_mem (hroute₃.forall_mem (hroute₂.forall_mem (hroute₁.forall_mem
      (fun r hr => hdatasource (hdb.routeDatasource r hr)) fun _ => ⟨userDs, huserDs, huserId⟩)
      fun _ => ⟨userDs, huserDs, huserId⟩) fun _ => ⟨orderDs, horderDs, horderId⟩)
      fun _ => ⟨orderDs, horderDs, horderId⟩
  · intro r hr
    rw [hs.statsSnapshots] at hr
    exact hdatasource (hdb.statsDatasource r hr)

end Seeding

end Seeding

end SqlGatekeeper
