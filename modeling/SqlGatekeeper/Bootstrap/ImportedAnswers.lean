import SqlGatekeeper.Api.LogicalAnswers
import SqlGatekeeper.Bootstrap.SeededRouting
import SqlGatekeeper.Tools.LegacyRouting

/-!
# What imported tables answer

From the rows of an import to the rows of a response.

* `ImportIs.holdsBundle`: a store whose imported part is a bundle holds it.
* `ShardedRecord`: a logical table of a bundle that is cut by the remainder of a column.
* `HeldGroup.rowsOf_perm`, …: the routes behind such a table in the store.
* `HeldGroup.allKept`: the router reads a conjunction in the shard of its own equation.
* `ShardedRecord.answers_of_serve`: an executed conjunction has the rows of all shards, on a store
  that holds the import.
* `importedAnswers_of_run`: whatever was served, seeded and imported, this is so for the tables of
  the last import before the request.
-/

namespace SqlGatekeeper

open Py Store Runs Logic Sharding

/-! ## The import in the store -/

theorem Corresponds.filter {σ ρ : Type} {R : ρ → σ → Prop} {rows : List ρ}
    {records : List σ} (h : Corresponds R rows records) {p : ρ → Bool} {p' : σ → Bool}
    (hp : ∀ r q, R r q → p r = p' q) : Corresponds R (rows.filter p) (records.filter p') := by
  obtain ⟨order, hperm, hall⟩ := h
  refine ⟨order.filter p', hperm.filter p', ?_⟩
  clear hperm
  induction hall with
  | nil => exact .nil
  | @cons r q rows order hrq _ ih =>
    rw [List.filter_cons, List.filter_cons, hp r q hrq]
    split
    · exact .cons hrq ih
    · exact ih

section Held

variable {db : Metadata} {bundle : SyncBundle}

/-- The name behind a reference tells whether a table is meant. -/
theorem Metadata.Constraints.id_eq_iff (hdb : db.Constraints) {t : LogicalTable}
    (ht : t ∈ db.logicalTables.rows) {id : Nat} {name : Str} (h : db.tableNameOf id = some name) :
    id = t.id ↔ name = t.tableName := by
  unfold Metadata.tableNameOf at h
  obtain ⟨u, hu, rfl⟩ := Option.map_eq_some_iff.1 h
  have hmem : u ∈ db.logicalTables.rows := List.mem_of_find?_eq_some hu
  obtain rfl : u.id = id := by simpa using List.find?_some hu
  constructor
  · intro hid
    rw [hdb.logicalTableIds.unique.eq_of_mem hmem ht hid]
  · intro hname
    rw [hdb.tableName.eq_of_mem hmem ht hname]

theorem datasourceCodeFromId_of_codeOf {id : Nat} {code : Str}
    (h : db.datasourceCodeOf id = some code) : datasourceCodeFromId db id = code := by
  unfold Metadata.datasourceCodeOf at h
  obtain ⟨d, hd, rfl⟩ := Option.map_eq_some_iff.1 h
  unfold datasourceCodeFromId
  rw [hd]

/-- The rows of an imported table, and the records with its name. -/
theorem Corresponds.ofTable {σ ρ : Type} {R : ρ → σ → Prop} {rows : List ρ}
    {records : List σ} {tableOf : ρ → Nat} {nameOf : σ → Str} (hdb : db.Constraints)
    {t : LogicalTable}
    (ht : t ∈ db.logicalTables.rows) (himported : isImported t.extra = true)
    (h : Corresponds R (rows.filter fun r => !db.isOwn (tableOf r)) records)
    (hname : ∀ r q, R r q → db.tableNameOf (tableOf r) = some (nameOf q)) :
    Corresponds R (rows.filter fun r => decide (tableOf r = t.id))
      (records.filter fun q => decide (nameOf q = t.tableName)) := by
  have hown : db.isOwn t.id = false := by
    unfold Metadata.isOwn
    rw [decide_eq_false_iff_not, not_not, hdb.mem_importedLogicalIds_iff ht]
    exact himported
  have hrows : (rows.filter fun r => decide (tableOf r = t.id)) =
      (rows.filter fun r => !db.isOwn (tableOf r)).filter fun r => decide (tableOf r = t.id) := by
    rw [List.filter_filter]
    refine List.filter_congr fun r _ => ?_
    by_cases hid : tableOf r = t.id
    · simp [hid, hown]
    · simp [hid]
  rw [hrows]
  exact Corresponds.filter h fun r q hrq => decide_eq_decide.2 (hdb.id_eq_iff ht (hname r q hrq))

/-- A store whose imported part is a bundle holds it. -/
theorem ImportIs.holdsBundle (h : ImportIs db bundle) (hdb : db.Constraints) :
    db.HoldsBundle bundle where
  datasources q hq := by
    obtain ⟨d, hd, hstored⟩ := h.datasources.exists_row hq
    exact ⟨d, List.mem_of_mem_filter hd, hstored⟩
  logicalTables q hq := by
    obtain ⟨t, ht, hstored⟩ := h.logicalTables.exists_row hq
    obtain ⟨ht, himported⟩ := List.mem_filter.1 ht
    refine ⟨t, ht, hstored, ?_, ?_, ?_⟩
    · rw [← hstored.tableName]
      exact Corresponds.imp (Corresponds.ofTable hdb ht himported h.routeFactors fun f q hf => hf.2)
        fun f _ q hf => hf.1
    · rw [← hstored.tableName]
      exact Corresponds.imp (Corresponds.ofTable hdb ht himported h.routeRules fun r q hr => hr.2)
        fun r _ q hr => hr.1
    · rw [← hstored.tableName]
      exact Corresponds.imp
        (Corresponds.ofTable hdb ht himported h.physicalRoutes fun r q hr => hr.2.1)
        fun r _ q hr => ⟨hr.1, datasourceCodeFromId_of_codeOf hr.2.2⟩

end Held

/-- The bundle of the last import is what the import was built from. -/
theorem lastImport_built {env : Deployment} (events : List (GatewayEvent env)) :
    lastImport events = emptyBundle ∨
      ∃ rows target, buildSyncBundle env.rt rows target = .ok (lastImport events) := by
  induction events using List.reverseRecOn with
  | nil => exact Or.inl rfl
  | append_singleton events event ih =>
    rw [lastImport_append]
    cases event with
    | imported rows target =>
      cases hbundle : buildSyncBundle env.rt rows target with
      | ok bundle =>
        refine Or.inr ⟨rows, target, hbundle.trans ?_⟩
        simp [GatewayEvent.importAfter, hbundle, Except.toOption]
      | error e =>
        have hafter : (GatewayEvent.imported rows target : GatewayEvent env).importAfter
            (lastImport events) = lastImport events := by
          simp [GatewayEvent.importAfter, hbundle, Except.toOption]
        rw [hafter]
        exact ih
    | _ => exact ih

/-! ## Imported shards -/

/-- Where the rows of a route of a bundle are: a datasource, and a table on it. -/
def PhysicalRouteRecord.place (route : PhysicalRouteRecord) : Str × Str :=
  (route.datasourceCode, route.physicalTableName)

/-- The routes of a logical table of a bundle. -/
def SyncBundle.routesOf (bundle : SyncBundle) (name : Str) : List PhysicalRouteRecord :=
  bundle.physicalRoutes.filter fun route => decide (route.logicalTableName = name)

/-- The rows of all shards of a logical table of a bundle. -/
def SyncBundle.rowsOf {ρ : Type} (bundle : SyncBundle) (contents : Str × Str → List ρ)
    (name : Str) : List ρ :=
  (bundle.routesOf name).flatMap fun route => contents route.place

/-- Every row of a logical table of a bundle is in the shard of its remainder. -/
def SyncBundle.RowsPlaced (bundle : SyncBundle) (name column : Str) (m : Nat)
    (contents : Str × Str → List (Str → Int)) : Prop :=
  ∀ route ∈ bundle.routesOf name, ∀ row ∈ contents route.place,
    intText ((row (columnKey column)).fmod m) = route.routeValue

/-- A logical table of a bundle that the importer found to be cut by remainders. -/
structure ShardedRecord (bundle : SyncBundle) (table : LogicalTableRecord) (m : Nat) : Prop where
  mem : table ∈ bundle.logicalTables
  business : table.extra.get "business_factor_routing" = .bool true
  modulus : table.extra.get "shard_modulus" = .int m

section Shards

variable {rt : Runtime} {db : Metadata} {name column : Str} {group : List TableConfigRow}
  {records : GroupRecords} {t : LogicalTable} {m : Nat}
  (hg : HeldGroup db t name group rt.toUnicodeData records.routeRule)
  (hphysical : db.getEnabledByPhysicalTableName name = .ok none)

include hg hphysical

theorem HeldGroup.routesOf_eq : db.routesOf name = db.enabledRoutesOf t.id := by
  unfold Metadata.routesOf
  rw [hphysical, hg.enabledByName]
  rfl

/-- The rows behind the table are those of the routes of its group. -/
theorem HeldGroup.rowsOf_perm {ρ : Type} (contents : Str × Str → List ρ) :
    (db.rowsOf contents name).Perm
      ((groupRoutes rt.toUnicodeData name group).flatMap fun route => contents route.place) := by
  obtain ⟨order, hperm, hall⟩ := hg.routes
  have hsame : ((db.enabledRoutesOf t.id).map fun r => contents (db.place r)) =
      order.map fun route => contents route.place := by
    rw [← List.forall₂_eq_eq_eq, List.forall₂_map_left_iff, List.forall₂_map_right_iff]
    refine hall.imp fun r route hr => ?_
    unfold PhysicalRouteRecord.place Metadata.place
    rw [hr.2, hr.1.physicalTableName]
  unfold Metadata.rowsOf
  rw [hg.routesOf_eq hphysical, List.flatMap_def, hsame, ← List.flatMap_def]
  exact hperm.flatMap_right _

/-- The rows are placed if they are where the routes of the group say. -/
theorem HeldGroup.rowsPlaced {ρ : Type} {key : Str → ρ → Str}
    {contents : Str × Str → List ρ}
    (hplaced : ∀ route ∈ groupRoutes rt.toUnicodeData name group,
      ∀ row ∈ contents route.place,
      key name row = route.routeValue) : db.RowsPlaced key contents name := by
  intro r hr row hrow
  rw [hg.routesOf_eq hphysical] at hr
  obtain ⟨route, hroute, hstored, hcode⟩ := hg.routes.exists_record hr
  unfold Metadata.place at hrow
  rw [hcode, hstored.physicalTableName] at hrow
  rw [hstored.routeValue]
  exact hplaced route hroute row hrow

/-- Every remainder has a shard. -/
theorem HeldGroup.allRemainders (hdb : db.Constraints) (hbuilt : GroupBuilt rt name group records)
    (hbusiness : supportsBusinessFactorRouting group = true) (hm : (m : Int) = shardModulus group) :
    db.AllRemainders (fun _ => m) name := by
  have hpositive : 0 < shardModulus group := by
    simp only [supportsBusinessFactorRouting, Bool.and_eq_true, decide_eq_true_eq] at hbusiness
    exact hbusiness.1.2
  have hm0 : 0 < m := by omega
  refine ⟨hm0, fun i hi => ?_⟩
  have hi : i < m := hi
  obtain ⟨r, d, row, -, -, -, hr, -⟩ :=
    exists_route_of_remainder (i : Int) hdb hbuilt hg hbusiness
  have hvalue : (i : Int) % shardModulus group = i := Int.emod_eq_of_lt (by omega) (by omega)
  obtain ⟨hmem, hid, hrv, henabled⟩ := Metadata.getEnabledByLogicalTableAndRouteValue_eq_some hr
  have htext : intText (i : Int) = natText i := by
    unfold intText
    rw [if_neg (by omega), Int.natAbs_natCast]
  rw [hvalue, htext] at hrv
  rw [← hrv, hg.routesOf_eq hphysical]
  exact List.mem_map_of_mem (List.mem_filter.2 ⟨hmem, decide_eq_true ⟨hid, henabled⟩⟩)

/-- A shard's table tells its remainder, so no two shards share a place. -/
theorem HeldGroup.distinctPlaces (hbusiness : supportsBusinessFactorRouting group = true) :
    db.DistinctPlaces [name] := by
  have hsharded : isSharded group = true := by
    simp only [supportsBusinessFactorRouting, Bool.and_eq_true] at hbusiness
    exact hbusiness.1.1
  have hnamed : ∀ r ∈ db.routesOf name, ∃ (row : TableConfigRow) (k : Int),
      r.routeValue = intText k ∧ r.physicalTableName = row.tableName ++ '_' :: intText k := by
    intro r hr
    rw [hg.routesOf_eq hphysical] at hr
    obtain ⟨route, hroute, hstored, -⟩ := hg.routes.exists_record hr
    obtain ⟨row, -, slot, hslot, rfl⟩ := mem_candidates_iff.1 (mem_candidates_of_mem hroute)
    unfold slots at hslot
    rw [if_pos hsharded] at hslot
    obtain ⟨k, -, rfl⟩ := List.mem_map.1 hslot
    exact ⟨row, k, hstored.routeValue, hstored.physicalTableName⟩
  intro a ha b hb r hr s hs hplace
  rw [List.mem_singleton.1 ha] at hr ⊢
  rw [List.mem_singleton.1 hb] at hs ⊢
  refine ⟨rfl, ?_⟩
  obtain ⟨row, j, hrv, hrname⟩ := hnamed r hr
  obtain ⟨row', k, hsv, hsname⟩ := hnamed s hs
  have hname : r.physicalTableName = s.physicalTableName := congrArg Prod.snd hplace
  rw [hrname, hsname] at hname
  rw [hrv, hsv, eq_of_shardName_eq hname]

/-- The router takes a conjunction over the table to the shard that its own equation names. -/
theorem HeldGroup.allKept (hdb : db.Constraints) (hbuilt : GroupBuilt rt name group records)
    (hbusiness : supportsBusinessFactorRouting group = true) (hm : (m : Int) = shardModulus group)
    {q : RowSelect} (hq : q.Plain) (hjoins : q.joins = []) (halias : q.first.aliasPart = none)
    (hconjunctive : q.condition.Conjunctive) (hname : q.first.name = name)
    (hcolumn : isIdentifier column = true) {routeContext : JsonDict}
    (hcontext : contextColumn routeContext "shard_column" = some column) {parsed : ParsedSql}
    {decision : RouteDecision} (hparsed : parse rt q.select.text = .ok parsed)
    (hresolved : resolve rt db parsed routeContext = .ok decision)
    (hrouted : decision.allowed = true) :
    List.Forall₂ (fun (t : JoinTable) (target : RouteTarget) =>
      KeptIn q.whole t.rowName column m target.routeValue) q.select.tables decision.targets := by
  obtain ⟨table, htables, htable, hwhere, hpredicates⟩ := parse_single hq hjoins halias hparsed
  have htable := htable.trans hname
  have hcolumnValue := columnValue_atoms (U := rt.toUnicodeData) hpredicates
    (fun a ha => hq.unqualified hjoins halias ha) hwhere column
  rw [resolve_singleton htables] at hresolved
  cases hatom : givenAtom rt.toUnicodeData q.condition.atoms column with
  | none =>
    obtain ⟨r, hr, -⟩ := hg.rule
    obtain ⟨f, hf, hvalue, -⟩ := @HeldGroup.exists_businessFactor rt db name column
      group _ _ t hg
      parsed table routeContext hbusiness hcontext
    rw [hcolumnValue, hatom] at hvalue
    obtain ⟨code, message, d, hreject⟩ := resolveLogicalTable_missing hf hr hvalue
    rw [hg.resolveTable_eq htable hphysical, hreject] at hresolved
    injection hresolved with hresolved
    subst hresolved
    cases hrouted
  | some a =>
    rw [hatom] at hcolumnValue
    have hrun := resolveTable_business table hdb hbuilt hg hbusiness htable hphysical hcontext
      hcolumnValue
    split at hrun
    · obtain ⟨found, d, row, hfound, -, -, -, hvalue, -⟩ := hrun
      rw [hfound] at hresolved
      injection hresolved with hresolved
      subst hresolved
      rw [RowSelect.tables_single hjoins]
      refine .cons ?_ .nil
      have hrow : q.first.rowName = [] := by
        unfold JoinTable.rowName
        rw [halias]
        rfl
      have hmod : a.value % shardModulus group = a.value.fmod m := by
        rw [← hm, Int.fmod_eq_emod_of_nonneg _ (Int.natCast_nonneg m)]
      rw [hrow, hvalue, hmod]
      exact hq.keptIn_of_given hjoins halias hconjunctive hcolumn hatom
    · rw [hrun] at hresolved
      cases hresolved

end Shards

/-! ## Answers -/

section Answers

variable {env : Deployment} {db : Metadata} {rows : List TableConfigRow}
  {target : ImportedDatasourceTarget} {bundle : SyncBundle}

/-- On a store that holds an import: the rows of an allowed answer to a conjunction over a table
that is cut by remainders. -/
theorem ShardedRecord.answers_of_serve {table : LogicalTableRecord} {m : Nat}
    (ht : ShardedRecord bundle table m) (hbuild : buildSyncBundle env.rt rows target = .ok bundle)
    (hdb : db.Constraints) (hheld : db.HoldsBundle bundle)
    (hphysical : db.getEnabledByPhysicalTableName table.tableName = .ok none)
    {request : SqlRequest env.rt} {response : SqlDecisionResponse}
    (hserve : (serve env db (.executeSql request)).map Prod.fst = .ok (.sql response))
    (hallowed : response.allowed = true) {q : RowSelect} (hq : q.Plain) (hjoins : q.joins = [])
    (halias : q.first.aliasPart = none) (hname : q.first.name = table.tableName)
    (hconjunctive : q.condition.Conjunctive) (hlimit : 0 < q.limit)
    (hsql : request.sql.1 = q.select.text) {column : Str} (hcolumn : isIdentifier column = true)
    (hcontext : contextColumn request.routeContext.1 "shard_column" = some column)
    {contents : Str × Str → List (Str → Int)} {decode : JsonDict → List (Str → Int)}
    (hserves : ServesTables env.backend contents decode q)
    (hplaced : bundle.RowsPlaced table.tableName column m contents) :
    Limited q.limit (((bundle.rowsOf contents table.tableName).map fun row => [row]).filter q.asks)
      (response.rows.map decode) := by
  obtain ⟨records, sample, more, hgroup, -, hrecord⟩ := exists_groupOfTable hbuild ht.mem
  obtain ⟨t, hg⟩ := exists_heldGroup hbuild hdb hheld ht.mem hgroup hrecord
  have hbusiness := ht.business
  have hmodulus := ht.modulus
  rw [hrecord] at hbusiness hmodulus
  obtain ⟨hsupports, hm⟩ := business_of_extra hbusiness hmodulus
  have hroutes : bundle.routesOf table.tableName = groupRoutes env.rt.toUnicodeData table.tableName
      (groupOf env.rt.toUnicodeData rows table.tableName) := hgroup.physicalRoutes
  have htables := RowSelect.tables_single hjoins
  have hanswers := @executedAnswers_of_kept env db request response q (fun _ => column) (fun _ => m)
    contents decode hdb hq (Or.inl hjoins) hlimit ?all ?distinct hserves ?placed hsql ?kept hserve
    hallowed
  case all =>
    rw [htables, List.forall_mem_singleton, hname]
    exact hg.allRemainders hphysical hdb hgroup.built hsupports hm
  case distinct =>
    rw [htables, List.map_singleton, hname]
    exact hg.distinctPlaces hphysical hsupports
  case placed =>
    rw [htables, List.forall_mem_singleton, hname]
    unfold SyncBundle.RowsPlaced at hplaced
    rw [hroutes] at hplaced
    exact hg.rowsPlaced hphysical hplaced
  case kept =>
    intro parsed decision hparsed hresolved hrouted
    exact hg.allKept hphysical hdb hgroup.built hsupports hm hq hjoins halias hconjunctive hname
      hcolumn hcontext hparsed hresolved hrouted
  unfold JoinSelect.Answers at hanswers
  rw [htables, List.map_singleton, product_singleton, hname] at hanswers
  unfold SyncBundle.rowsOf
  rw [hroutes]
  exact hanswers.perm (((hg.rowsOf_perm hphysical contents).map _).filter _)

end Answers

/-! ## In a run -/

/-- The tables behind the seeded routes. -/
def seededPhysicalNames : List Str := ["user_0", "user_1", "order_2025_06", "order_2025_07"]

theorem physicalTableName_mem {userDs orderDs : Nat} :
    ∀ route ∈ seededRoutes userDs orderDs, route.physicalTableName ∈ seededPhysicalNames := by
  simp [seededRoutes, physicalRouteRow, seededPhysicalNames]

section Runs

variable {env : Deployment} {events : List (GatewayEvent env)} {g : Gateway env}

/-- From the first start of a container on, whatever is served, seeded and imported, in whatever
order and overlap: an allowed answer of `execute_sql` to `select * from L where C limit k`, where
`C` is a conjunction of equations `column = integer`, `k` is not zero and the request names the
shard column, has the rows of all shards of `L` that satisfy `C`, up to `k` of them.  `L` is a table
of the last import before the request, found by the importer to be cut by remainders; the rows are
placed so, the servers answer by what they hold, and no physical table has the name of `L`. -/
theorem importedAnswers_of_run {settings : SeedSettings env.rt} {seeded : Metadata}
    (hseed : seedReferenceData settings createMetadataSchema = .ok seeded)
    (h : Run Gateway.Step (Gateway.idle env seeded) events g)
    (hkeeps : ∀ event ∈ events, event.KeepsImport)
    {number : Nat} {request : SqlRequest env.rt} {response : SqlDecisionResponse}
    (hanswered : .answered number (.executeSql request) (.sql response) ∈ events)
    (hallowed : response.allowed = true) {q : RowSelect} (hq : q.Plain) (hjoins : q.joins = [])
    (halias : q.first.aliasPart = none) (hconjunctive : q.condition.Conjunctive)
    (hlimit : 0 < q.limit) (hsql : request.sql.1 = q.select.text) {column : Str}
    (hcolumn : isIdentifier column = true)
    (hcontext : contextColumn request.routeContext.1 "shard_column" = some column)
    {contents : Str × Str → List (Str → Int)} {decode : JsonDict → List (Str → Int)}
    (hserves : ServesTables env.backend contents decode q) :
    ∃ before after, events = before ++ .opened number (.executeSql request) :: after ∧
      ∀ table m, ShardedRecord (lastImport before) table m → q.first.name = table.tableName →
        table.tableName ∉ seededPhysicalNames →
        (∀ route ∈ (lastImport before).physicalRoutes,
          route.physicalTableName ≠ table.tableName) →
        (lastImport before).RowsPlaced table.tableName column m contents →
        Limited q.limit ((((lastImport before).rowsOf contents table.tableName).map
          fun row => [row]).filter q.asks) (response.rows.map decode) := by
  obtain ⟨before, after, rfl⟩ := List.append_of_mem hanswered
  obtain ⟨m, m', hbefore, hstep, -⟩ := h.exists_prefix
  obtain ⟨s, hs, rfl, hrequest, hserve⟩ := hstep.exists_session rfl
  obtain ⟨userDs, orderDs, hseeded⟩ := storeIs_of_first hseed
  obtain ⟨first, rest, rfl, hsnapshot⟩ := storeIs_of_session hseeded hbefore
    (fun e he => hkeeps e (List.mem_append_left _ he)) hs
  rw [hrequest]
  refine ⟨first, _, by rw [List.append_assoc, List.cons_append], ?_⟩
  intro table m ht hname hfree himported hplaced
  have hphysical : s.snapshot.getEnabledByPhysicalTableName table.tableName = .ok none :=
    hsnapshot.getEnabledByPhysicalTableName_none
      (fun r hr heq => hfree (heq ▸ physicalTableName_mem r hr)) himported
  rcases lastImport_built first with hempty | ⟨rows, target, hbuild⟩
  · have hmem := ht.mem
    rw [hempty] at hmem
    exact absurd hmem List.not_mem_nil
  · exact ht.answers_of_serve hbuild hsnapshot.constraints
      (hsnapshot.imported.holdsBundle hsnapshot.constraints) hphysical hserve hallowed hq hjoins
      halias hname hconjunctive hlimit hsql hcolumn hcontext hserves hplaced

end Runs

/-! ## An imported table -/

/-- A row in each imported shard: number two in the even one, number three in the odd one. -/
def importedRows (place : Str × Str) : List (Str → Int) :=
  if place.2 = "t_0" then [fun _ => 2] else if place.2 = "t_1" then [fun _ => 3] else []

/-- `select * from c__t where uid = 3 limit 10` -/
def importedThree : RowSelect := ⟨⟨"c__t", none⟩, [], .conj (.prim (.atom (uidAtom 3))), 10⟩

/-- Servers that can be asked for the third row in the odd shard. -/
def importedBackend : Backend where
  __ := exampleBackend
  queryReply _ sql :=
    if sql = SqlExecutionService.guardedSql (importedThree.select.rename ["t_1"]).text then
      .ok [[("uid", .int 3)]]
    else .error (.serverError "no such table")

/-- A deployment in front of them. -/
def importedDeployment : Deployment := { exampleDeployment with backend := importedBackend }

/-- A request for the third row, with the column that the table is cut by. -/
def importedRequest : SqlRequest asciiRuntime :=
  { exampleRequest with
    sql := ⟨"select * from c__t where uid = 3 limit 10", by decide⟩
    routeContext := ⟨shardContext "uid", rfl⟩ }

theorem importedThree_plain : importedThree.Plain where
  tables := List.forall_mem_singleton.2 ⟨plainName_of (by decide), fun a ha => by cases ha⟩
  names := by decide
  atoms := uidThree_plain.atoms

theorem importedBackend_serves :
    ServesTables importedBackend importedRows decodeUser importedThree := by
  refine @servesTables_of_single importedThree _ _ _ "t_1" [[("uid", .int 3)]]
    (.serverError "no such table") rfl rfl (by decide) (by decide) (fun datasource sql => rfl)
    fun code => ?_
  have hasks : importedThree.asks [fun _ => 3] = true := by decide
  show Limited 10 (List.filter _ [[fun _ => 3]]) [[fun _ => 3]]
  rw [List.filter_cons_of_pos hasks, List.filter_nil]
  exact ⟨List.Subperm.refl _, rfl⟩

/-- The imported table and its two shards. -/
theorem twoShards_sharded {bundle : SyncBundle}
    (hbundle : buildSyncBundle asciiRuntime twoShards exampleTarget = .ok bundle) :
    ShardedRecord bundle twoShardsTable 2 ∧ ∀ route ∈ bundle.physicalRoutes,
      (route.routeValue = "0" ∧ route.physicalTableName = "t_0") ∨
        (route.routeValue = "1" ∧ route.physicalTableName = "t_1") := by
  have hbuilt : (buildSyncBundle asciiRuntime twoShards exampleTarget).map (fun bundle =>
      (bundle.logicalTables, bundle.physicalRoutes.map fun route =>
        (route.routeValue, route.physicalTableName))) =
      .ok ([twoShardsTable], [("0", "t_0"), ("1", "t_1")]) := by rfl
  rw [hbundle] at hbuilt
  obtain ⟨htables, hroutes⟩ := Prod.mk.inj (Except.ok.inj hbuilt)
  refine ⟨⟨htables ▸ List.mem_singleton_self _, rfl, rfl⟩, fun route hroute => ?_⟩
  have hpair := List.mem_map_of_mem (f := fun route : PhysicalRouteRecord =>
    (route.routeValue, route.physicalTableName)) hroute
  rw [hroutes] at hpair
  simpa using hpair

theorem importedRows_placed {bundle : SyncBundle}
    (hbundle : buildSyncBundle asciiRuntime twoShards exampleTarget = .ok bundle) :
    bundle.RowsPlaced "c__t" "uid" 2 importedRows := by
  intro route hroute row hrow
  unfold importedRows PhysicalRouteRecord.place at hrow
  rcases (twoShards_sharded hbundle).2 route (List.mem_of_mem_filter hroute) with
    ⟨hvalue, hname⟩ | ⟨hvalue, hname⟩
  · rw [hname, if_pos rfl, List.mem_singleton] at hrow
    rw [hrow, hvalue]
    decide
  · rw [hname, if_neg (show ¬ ("t_1" : Str) = "t_0" by decide), if_pos rfl,
      List.mem_singleton] at hrow
    rw [hrow, hvalue]
    decide

/-- A container starts on an empty database, shards are imported, and a row is asked for. -/
theorem exists_importedRun : ∃ seeded bundle response g,
    seedReferenceData defaultSeedSettings createMetadataSchema = .ok seeded ∧
      buildSyncBundle asciiRuntime twoShards exampleTarget = .ok bundle ∧
      SqlDecisionResponse.allowed response = true ∧
      Run Gateway.Step (Gateway.idle importedDeployment seeded)
        [.imported twoShards exampleTarget, .opened 0 (.executeSql importedRequest), .inserted 0,
          .answered 0 (.executeSql importedRequest) (.sql response)] g := by
  have hrun : ((seedReferenceData defaultSeedSettings createMetadataSchema).bind fun seeded =>
      (buildSyncBundle asciiRuntime twoShards exampleTarget).bind fun bundle =>
        (syncBundleToLocal seeded bundle).bind fun synced =>
          (executeSql importedDeployment synced importedRequest).map fun answer =>
            answer.1.allowed) = .ok true := by
    decide +kernel
  obtain ⟨seeded, hseed, hrun⟩ := bind_eq_ok.1 hrun
  obtain ⟨bundle, hbundle, hrun⟩ := bind_eq_ok.1 hrun
  obtain ⟨synced, hsync, hrun⟩ := bind_eq_ok.1 hrun
  obtain ⟨⟨response, written⟩, hexecute, hallowed⟩ := map_eq_ok.1 hrun
  have hserve : serve importedDeployment synced (.executeSql importedRequest) =
      .ok (.sql response, written) := by
    show (executeSql importedDeployment synced importedRequest).map _ = _
    rw [hexecute]
    rfl
  have himported : Run Gateway.Step (Gateway.idle importedDeployment seeded)
      ([] ++ [.imported twoShards exampleTarget]) _ := Run.nil.snoc (.imported hbundle hsync)
  have hopened : Run Gateway.Step (Gateway.idle importedDeployment seeded)
      ([] ++ [.imported twoShards exampleTarget] ++ [.opened 0 (.executeSql importedRequest)]) _ :=
    himported.snoc (.opened _ _)
  obtain ⟨g, hanswered⟩ := Gateway.exists_answered hopened (s := ⟨0, _, _⟩)
    List.mem_cons_self
    List.not_mem_nil hserve
  exact ⟨seeded, bundle, response, g, hseed, hbundle, hallowed, hanswered⟩

/-- The third row is found through its shard. -/
theorem importedAnswers_importedThree : ∃ bundle response,
    buildSyncBundle asciiRuntime twoShards exampleTarget = .ok bundle ∧
      SqlDecisionResponse.allowed response = true ∧
      Limited 10 (((bundle.rowsOf importedRows "c__t").map fun row => [row]).filter
        importedThree.asks) (response.rows.map decodeUser) := by
  obtain ⟨seeded, bundle, response, g, hseed, hbundle, hallowed, hrun⟩ := exists_importedRun
  have hkeeps : ∀ event ∈ ([.imported twoShards exampleTarget,
      .opened 0 (.executeSql importedRequest), .inserted 0,
      .answered 0 (.executeSql importedRequest) (.sql response)] :
      List (GatewayEvent importedDeployment)), event.KeepsImport := by
    simp only [List.forall_mem_cons]
    exact ⟨trivial, trivial, trivial, trivial, List.forall_mem_nil _⟩
  obtain ⟨before, after, hevents, hanswers⟩ :=
    @importedAnswers_of_run importedDeployment _ _ _ _
    hseed hrun hkeeps 0 importedRequest response (by simp) hallowed importedThree
    importedThree_plain rfl rfl trivial (by decide) rfl "uid" (by decide) rfl importedRows
    decodeUser importedBackend_serves
  -- The request was opened behind the import.
  have hbefore : before = [.imported twoShards exampleTarget] := by
    rcases before with _ | ⟨first, _ | ⟨second, before⟩⟩
    · cases (List.cons.inj hevents).1
    · rw [(List.cons.inj hevents).1]
    · have hrest := (List.cons.inj (List.cons.inj hevents).2).2
      rcases before with _ | ⟨third, _ | ⟨fourth, before⟩⟩
      · cases (List.cons.inj hrest).1
      · cases (List.cons.inj (List.cons.inj hrest).2).1
      · exact absurd (List.cons.inj (List.cons.inj hrest).2).2 (by simp)
  have hlast : lastImport before = bundle := by
    rw [hbefore]
    show (buildSyncBundle asciiRuntime twoShards exampleTarget).toOption.getD emptyBundle = bundle
    rw [hbundle]
    rfl
  rw [hlast] at hanswers
  obtain ⟨hsharded, hroutes⟩ := twoShards_sharded hbundle
  refine ⟨bundle, response, hbundle, hallowed, hanswers twoShardsTable 2 hsharded rfl (by decide)
    (fun route hroute hname => ?_) (importedRows_placed hbundle)⟩
  have hname : route.physicalTableName = "c__t" := hname
  rcases hroutes route hroute with ⟨-, htable⟩ | ⟨-, htable⟩
  · exact absurd (hname.symm.trans htable) (by decide)
  · exact absurd (hname.symm.trans htable) (by decide)

end SqlGatekeeper
