import SqlGatekeeper.Db.Models

/-!
# Repositories

The queries the services make on the metadata.  A query that expects one row raises
`multipleResultsFound` when it finds several; lists come in id order unless the query
orders them.

* `getEnabledByCode`, `getEnabledByName`, …: the queries, grouped by repository.
* `Metadata.Unambiguous`: no query that expects one row finds several.
* `Constraints.getEnabledByCode_ok`, …: what the declared keys give.
-/

namespace SqlGatekeeper

open Py Store

/-! ## Order -/

/-- The order of strings by code points. -/
def strLe : Str → Str → Bool
  | [], _ => true
  | _ :: _, [] => false
  | c :: cs, d :: ds => if c = d then strLe cs ds else decide (c.toNat < d.toNat)

/-- `sorted(strings)`. -/
def sortStrings (l : List Str) : List Str := l.insertionSort fun a b => strLe a b = true

namespace Metadata

variable (db : Metadata)

/-! ## Datasources -/

/-- `DatasourceInstanceRepository.get_enabled_by_code`. -/
def getEnabledByCode (datasourceCode : Str) : Except PyError (Option DatasourceInstance) :=
  oneOrNone .multipleResultsFound
    (db.datasources.rows.filter fun r => r.datasourceCode = datasourceCode ∧ r.enabled)

/-- `session.get(DatasourceInstance, id)`. -/
def datasourceById (id : Nat) : Option DatasourceInstance :=
  db.datasources.rows.find? fun r => r.id = id

/-! ## Logical tables -/

/-- `LogicalTableRepository.get_enabled_by_name`. -/
def getEnabledByName (tableName : Str) : Except PyError (Option LogicalTable) :=
  oneOrNone .multipleResultsFound
    (db.logicalTables.rows.filter fun r => r.tableName = tableName ∧ r.enabled)

/-- `LogicalTableRepository.list_enabled`. -/
def listEnabled : List LogicalTable := db.logicalTables.rows.filter (·.enabled)

/-- `session.get(LogicalTable, id)`. -/
def logicalTableById (id : Nat) : Option LogicalTable :=
  db.logicalTables.rows.find? fun r => r.id = id

/-! ## Route factors and rules -/

/-- `RouteFactorDefRepository.list_required_enabled_by_logical_table`. -/
def listRequiredEnabledByLogicalTable (logicalTableId : Nat) : List RouteFactorDef :=
  db.routeFactors.rows.filter fun r => r.logicalTableId = logicalTableId ∧
    r.enabled ∧ r.required

/-- `RouteRuleRepository.get_enabled_by_logical_table`. -/
def getEnabledByLogicalTable (logicalTableId : Nat) : Except PyError (Option RouteRule) :=
  oneOrNone .multipleResultsFound
    (db.routeRules.rows.filter fun r => r.logicalTableId = logicalTableId ∧ r.enabled)

/-! ## Physical routes -/

/-- `PhysicalTableRouteRepository.get_enabled_by_logical_table_and_route_value`. -/
def getEnabledByLogicalTableAndRouteValue (logicalTableId : Nat) (routeValue : Str) :
    Except PyError (Option PhysicalTableRoute) :=
  oneOrNone .multipleResultsFound
    (db.physicalRoutes.rows.filter fun r =>
      r.logicalTableId = logicalTableId ∧ r.routeValue = routeValue ∧ r.enabled)

/-- `PhysicalTableRouteRepository.get_enabled_by_physical_table_name`. -/
def getEnabledByPhysicalTableName (physicalTableName : Str) :
    Except PyError (Option PhysicalTableRoute) :=
  oneOrNone .multipleResultsFound
    (db.physicalRoutes.rows.filter fun r => r.physicalTableName = physicalTableName ∧ r.enabled)

/-- The enabled routes of a logical table. -/
def enabledRoutesOf (logicalTableId : Nat) : List PhysicalTableRoute :=
  db.physicalRoutes.rows.filter fun r => r.logicalTableId = logicalTableId ∧ r.enabled

/-- `PhysicalTableRouteRepository.list_enabled_route_values_by_logical_table`. -/
def listEnabledRouteValuesByLogicalTable (logicalTableId : Nat) (limit : Nat) : List Str :=
  (sortStrings ((db.enabledRoutesOf logicalTableId).map (·.routeValue))).take limit

/-- `PhysicalTableRouteRepository.count_enabled_by_logical_table`. -/
def countEnabledByLogicalTable (logicalTableId : Nat) : Nat :=
  (db.enabledRoutesOf logicalTableId).length

/-! ## Policies -/

/-- `PolicySetRepository.get_enabled_by_code`. -/
def getEnabledPolicyByCode (policyCode : Str) : Except PyError (Option PolicySet) :=
  oneOrNone .multipleResultsFound
    (db.policies.rows.filter fun r => r.policyCode = policyCode ∧ r.enabled)

/-! ## Audit log -/

/-- `RequestAuditLogRepository.add`; the id is generated. -/
def addAuditLog (auditLog : RequestAuditLog) : Metadata :=
  { db with auditLogs := db.auditLogs.insert fun id => { auditLog with id } }

/-- `RequestAuditLogRepository.list_by_request_id`. -/
def listByRequestId (requestId : Str) : List RequestAuditLog :=
  db.auditLogs.rows.filter fun r => r.requestId = requestId

/-! ## Unambiguous metadata -/

/-- Every query that expects one row finds at most one. -/
structure Unambiguous : Prop where
  datasource : ∀ code, Returns (db.getEnabledByCode code)
  logicalTable : ∀ name, Returns (db.getEnabledByName name)
  rule : ∀ id, Returns (db.getEnabledByLogicalTable id)
  route : ∀ id value, Returns (db.getEnabledByLogicalTableAndRouteValue id value)
  physicalTable : ∀ name, Returns (db.getEnabledByPhysicalTableName name)
  policy : ∀ code, Returns (db.getEnabledPolicyByCode code)

variable {db}

theorem getEnabledByCode_eq_some {code : Str} {d : DatasourceInstance}
    (h : db.getEnabledByCode code = .ok (some d)) :
    d ∈ db.datasources.rows ∧ d.datasourceCode = code ∧ d.enabled = true := by
  have := mem_of_oneOrNone_filter h
  simpa using this

theorem getEnabledByName_eq_some {name : Str} {t : LogicalTable}
    (h : db.getEnabledByName name = .ok (some t)) :
    t ∈ db.logicalTables.rows ∧ t.tableName = name ∧ t.enabled = true := by
  have := mem_of_oneOrNone_filter h
  simpa using this

theorem getEnabledByPhysicalTableName_eq_some {name : Str} {r : PhysicalTableRoute}
    (h : db.getEnabledByPhysicalTableName name = .ok (some r)) :
    r ∈ db.physicalRoutes.rows ∧ r.physicalTableName = name ∧ r.enabled = true := by
  have := mem_of_oneOrNone_filter h
  simpa using this

theorem getEnabledByLogicalTableAndRouteValue_eq_some {id : Nat} {value : Str}
    {r : PhysicalTableRoute}
    (h : db.getEnabledByLogicalTableAndRouteValue id value = .ok (some r)) :
    r ∈ db.physicalRoutes.rows ∧ r.logicalTableId = id ∧ r.routeValue = value ∧
      r.enabled = true := by
  have := mem_of_oneOrNone_filter h
  simpa using this

theorem getEnabledPolicyByCode_eq_some {code : Str} {p : PolicySet}
    (h : db.getEnabledPolicyByCode code = .ok (some p)) :
    p ∈ db.policies.rows ∧ p.policyCode = code ∧ p.enabled = true := by
  have := mem_of_oneOrNone_filter h
  simpa using this

theorem getEnabledByCode_of_mem (hdb : ∀ code, Returns (db.getEnabledByCode code))
    {d : DatasourceInstance} (hd : d ∈ db.datasources.rows) (henabled : d.enabled = true) :
    db.getEnabledByCode d.datasourceCode = .ok (some d) := by
  obtain ⟨o, ho⟩ := hdb d.datasourceCode
  exact oneOrNone_filter_of_mem ho hd (by simpa using henabled)

theorem getEnabledPolicyByCode_of_mem (hdb : ∀ code, Returns (db.getEnabledPolicyByCode code))
    {p : PolicySet} (hp : p ∈ db.policies.rows) (henabled : p.enabled = true) :
    db.getEnabledPolicyByCode p.policyCode = .ok (some p) := by
  obtain ⟨o, ho⟩ := hdb p.policyCode
  exact oneOrNone_filter_of_mem ho hp (by simpa using henabled)

/-- With unique codes a datasource is found unambiguously. -/
theorem getEnabledByCode_ok (hcode : Unique (·.datasourceCode) db.datasources.rows) (code : Str) :
    Returns (db.getEnabledByCode code) :=
  ⟨_, hcode.oneOrNone_filter (k := code)
    (fun r _ h => by simp only [decide_eq_true_eq] at h; exact h.1) _⟩

namespace Constraints

variable (hdb : db.Constraints)

include hdb

/-- Table names are unique. -/
theorem getEnabledByName_ok (name : Str) : Returns (db.getEnabledByName name) :=
  ⟨_, hdb.tableName.oneOrNone_filter (k := name)
    (fun r _ h => by simp only [decide_eq_true_eq] at h; exact h.1) _⟩

theorem getEnabledByName_of_mem {t : LogicalTable} (ht : t ∈ db.logicalTables.rows)
    (henabled : t.enabled = true) : db.getEnabledByName t.tableName = .ok (some t) := by
  obtain ⟨o, ho⟩ := hdb.getEnabledByName_ok t.tableName
  exact oneOrNone_filter_of_mem ho ht (by simpa using henabled)

/-- Route values are unique within a logical table. -/
theorem getEnabledByLogicalTableAndRouteValue_ok (id : Nat) (value : Str) :
    Returns (db.getEnabledByLogicalTableAndRouteValue id value) :=
  ⟨_, hdb.uqTableRouteValue.oneOrNone_filter (k := (id, value))
    (fun r _ h => by simp only [decide_eq_true_eq] at h; rw [h.1, h.2.1]) _⟩

/-- Policy codes are unique. -/
theorem getEnabledPolicyByCode_ok (code : Str) : Returns (db.getEnabledPolicyByCode code) :=
  ⟨_, hdb.policyCode.oneOrNone_filter (k := code)
    (fun r _ h => by simp only [decide_eq_true_eq] at h; exact h.1) _⟩

/-- The declared keys leave two queries open: by physical table name, and the rule of a
logical table. -/
theorem unambiguous (hrule : ∀ id, Returns (db.getEnabledByLogicalTable id))
    (hphys : ∀ name, Returns (db.getEnabledByPhysicalTableName name)) : db.Unambiguous where
  datasource := getEnabledByCode_ok hdb.datasourceCode
  logicalTable := hdb.getEnabledByName_ok
  rule := hrule
  route := hdb.getEnabledByLogicalTableAndRouteValue_ok
  physicalTable := hphys
  policy := hdb.getEnabledPolicyByCode_ok

/-- A logical table is found by its id. -/
theorem logicalTableById_eq {t : LogicalTable} (ht : t ∈ db.logicalTables.rows) :
    db.logicalTableById t.id = some t :=
  hdb.logicalTableIds.unique.find?_eq ht

/-- A datasource is found by its id. -/
theorem datasourceById_eq {d : DatasourceInstance} (hd : d ∈ db.datasources.rows) :
    db.datasourceById d.id = some d :=
  hdb.datasourceIds.unique.find?_eq hd

end Constraints

/-- One rule a logical table and one route a physical name make all queries unambiguous. -/
theorem Constraints.unambiguous_of_unique (hdb : db.Constraints)
    (hrule : Unique (·.logicalTableId) db.routeRules.rows)
    (hphys : Unique (·.physicalTableName) db.physicalRoutes.rows) : db.Unambiguous :=
  hdb.unambiguous
    (fun id => ⟨_, hrule.oneOrNone_filter (k := id)
      (fun r _ h => by simp only [decide_eq_true_eq] at h; exact h.1) _⟩)
    (fun name => ⟨_, hphys.oneOrNone_filter (k := name)
      (fun r _ h => by simp only [decide_eq_true_eq] at h; exact h.1) _⟩)

end Metadata

/-! ## An example

A table `user` in two shards by `uid`, under the default policy. -/

/-- The example's datasource. -/
def exampleDatasource : DatasourceInstance :=
  ⟨1, "biz", "biz", "mysql", "127.0.0.1", 3306, "biz_user", "readonly", "local:readonly", true,
    true, .dict []⟩

/-- The example's policy. -/
def examplePolicy : PolicySet :=
  ⟨1, "default_select_guard", [.str "select"], true, 1000, 100000, 10000, true, true,
    true, true⟩

/-- The example's logical table. -/
def exampleTable : LogicalTable :=
  ⟨1, "user", "", "sql", "user_\x7brouteValue\x7d", "default_select_guard", true, .dict []⟩

/-- The example's rule. -/
def exampleRule : RouteRule :=
  ⟨1, 1, "uid_mod", "mod", "int(uid) % 2", "\x7bvalue\x7d", true⟩

/-- The example's metadata. -/
def exampleMetadata : Metadata where
  datasources := ⟨[exampleDatasource], 2⟩
  logicalTables := ⟨[exampleTable], 2⟩
  routeFactors := ⟨[⟨1, 1, "uid", "sql_predicate", "uid", true, .dict [], true⟩], 2⟩
  routeRules := ⟨[exampleRule], 2⟩
  physicalRoutes := ⟨[⟨1, 1, "0", "user_0", 1, true, .dict []⟩,
    ⟨2, 1, "1", "user_1", 1, true, .dict []⟩], 3⟩
  policies := ⟨[examplePolicy], 2⟩
  statsSnapshots := ⟨[], 1⟩
  auditLogs := ⟨[], 1⟩

theorem exampleMetadata_constraints : exampleMetadata.Constraints where
  datasourceIds := ⟨by decide, by decide⟩
  logicalTableIds := ⟨by decide, by decide⟩
  routeFactorIds := ⟨by decide, by decide⟩
  routeRuleIds := ⟨by decide, by decide⟩
  physicalRouteIds := ⟨by decide, by decide⟩
  policyIds := ⟨by decide, by decide⟩
  statsSnapshotIds := ⟨by decide, by decide⟩
  auditLogIds := ⟨by decide, by decide⟩
  datasourceCode := by decide
  tableName := by decide
  uqRouteFactorTableName := by decide
  uqRouteRuleTableName := by decide
  uqTableRouteValue := by decide
  policyCode := by decide
  uqStatsTable := by decide
  factorTable := by decide
  ruleTable := by decide
  routeTable := by decide
  routeDatasource := by decide
  statsDatasource := by decide

theorem exampleMetadata_unambiguous : exampleMetadata.Unambiguous :=
  exampleMetadata_constraints.unambiguous_of_unique (by decide) (by decide)

end SqlGatekeeper
