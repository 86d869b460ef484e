import SqlGatekeeper.Tools.StoredBundle

/-!
# The metadata after an import

What `sync_bundle_to_local` leaves when it commits.

* `insertAll_ok`: the rows that a list of records becomes; `Added` pairs them.
* `Synced`: a committed import, taken apart; `synced_of_ok`.
* `Synced.constraints`: the declared constraints hold again.
* `Synced.holdsBundle`: the metadata holds the bundle.
-/

namespace SqlGatekeeper

open Py Store

/-! ## Insertions -/

section InsertAll

variable {σ ρ κ : Type} [DecidableEq κ] {key : ρ → κ} {make : σ →
  Except PyError (Nat → ρ)}

/-- The rows of a list of records, under consecutive ids. -/
inductive Added (make : σ → Except PyError (Nat → ρ)) : Nat → List σ → List ρ → Prop
  | nil (n : Nat) : Added make n [] []
  | cons {n : Nat} {record : σ} {row : Nat → ρ} {records : List σ} {rows : List ρ}
      (hrow : make record = .ok row) (hrows : Added make (n + 1) records rows) :
      Added make n (record :: records) (row n :: rows)

/-- Rows that are inserted have the ids they are given. -/
def GivesIds (id : ρ → Nat) (make : σ → Except PyError (Nat → ρ)) : Prop :=
  ∀ record row, make record = .ok row → ∀ n, id (row n) = n

/-- What is there after an insertion. -/
theorem insertAll_ok {records : List σ} {t t' : Table ρ}
    (h : insertAll key make records t = .ok t') :
    ∃ added, t'.rows = t.rows ++ added ∧ Added make t.nextId records added ∧
      (Unique key t.rows → Unique key t'.rows) ∧
      ∀ id, GivesIds id make → t.Fresh id → t'.Fresh id := by
  induction records generalizing t with
  | nil =>
    injection h with h
    subst h
    exact ⟨[], by simp, .nil _, fun h => h, fun _ _ h => h⟩
  | cons record records ih =>
    obtain ⟨row, hrow, h⟩ := bind_eq_ok.1 h
    split at h
    · exact absurd h (by simp)
    · rename_i hnew
      obtain ⟨added, hrows, hadded, hunique, hfresh⟩ := ih h
      refine ⟨row t.nextId :: added, ?_, .cons hrow hadded, fun hkey => hunique ?_,
        fun id hid ht => hfresh id hid (ht.insert (hid record row hrow))⟩
      · rw [hrows, Table.insert_rows, List.append_assoc, List.singleton_append]
      · rw [Store.Unique, Table.insert_rows, List.map_append, List.map_singleton]
        refine List.nodup_append'.2 ⟨hkey, List.nodup_singleton _, ?_⟩
        rw [List.disjoint_singleton]
        intro hmem
        obtain ⟨r, hr, heq⟩ := List.mem_map.1 hmem
        exact hnew (List.any_eq_true.2 ⟨r, hr, by simpa using heq⟩)

theorem Added.forall₂ {n : Nat} {records : List σ} {added : List ρ}
    (h : Added make n records added) :
    List.Forall₂ (fun row record => ∃ f k, make record = .ok f ∧ row = f k) added
      records := by
  induction h with
  | nil => exact .nil
  | cons hrow _ ih => exact .cons ⟨_, _, hrow, rfl⟩ ih

/-- An id of the objects of some records is that of a row with the name. -/
theorem exists_of_objectId {make : σ → Except PyError (Nat → ρ)} {name : σ → Str}
    (id : ρ → Nat) (nameOf : ρ → Str) (hid : GivesIds id make)
    (hname : ∀ record row, make record = .ok row → ∀ n, nameOf (row n) = name record)
    {n : Nat} {records : List σ} {added : List ρ} (h : Added make n records added)
    {x : Str} {k : Nat}
    (hk : objectId (objectIds name records n []) x = .ok k) :
    ∃ row ∈ added, id row = k ∧ nameOf row = x := by
  have hlookup : ∀ {n : Nat} {records : List σ} {added : List ρ} {objects : List (Str × Nat)},
      Added make n records added → (objectIds name records n objects).lookup x = some k →
      (∃ row ∈ added, id row = k ∧ nameOf row = x) ∨ objects.lookup x = some k := by
    intro n records added objects h
    induction h generalizing objects with
    | nil => exact Or.inr
    | @cons n record row records rows hrow _ ih =>
      intro hk
      rcases ih hk with ⟨r, hr, hrk⟩ | hk
      · exact Or.inl ⟨r, List.mem_cons_of_mem _ hr, hrk⟩
      · by_cases hx : x = name record
        · subst hx
          rw [lookup_dictSet_self, Option.some.injEq] at hk
          subst hk
          exact Or.inl ⟨_, List.mem_cons_self, hid record row hrow n, hname record row hrow n⟩
        · rw [lookup_dictSet_ne hx] at hk
          exact Or.inr hk
  rw [objectId] at hk
  split at hk
  · rename_i heq
    injection hk with hk
    subst hk
    rcases hlookup h heq with hrow | hnil
    · exact hrow
    · exact absurd hnil (by simp)
  · exact absurd hk (by simp)

end InsertAll

/-! ## A committed import -/

section Sync

variable {db db' : Metadata} {bundle : SyncBundle}

/-- A committed import, table by table. -/
structure Synced (db : Metadata) (bundle : SyncBundle) (db' : Metadata) : Prop where
  routesKept : ∀ r ∈ db.physicalRoutes.rows, r.logicalTableId ∉ db.importedLogicalIds →
    r.datasourceId ∉ db.importedDatasourceIds
  snapshotsKept : ∀ r ∈ db.statsSnapshots.rows, r.datasourceId ∉ db.importedDatasourceIds
  datasources : insertAll (·.datasourceCode) (fun record => .ok record.row) bundle.datasources
    (db.datasources.delete fun r => r.id ∈ db.importedDatasourceIds) = .ok db'.datasources
  logicalTables : insertAll (·.tableName) (fun record => .ok record.row) bundle.logicalTables
    (db.logicalTables.delete fun r => r.id ∈ db.importedLogicalIds) = .ok db'.logicalTables
  routeFactors : insertAll (fun r => (r.logicalTableId, r.factorName))
    (fun record => (objectId (objectIds (·.tableName) bundle.logicalTables
      db.logicalTables.nextId []) record.logicalTableName).map record.row) bundle.routeFactors
    (db.routeFactors.delete fun r => r.logicalTableId ∈ db.importedLogicalIds) =
      .ok db'.routeFactors
  routeRules : insertAll (fun r => (r.logicalTableId, r.ruleName))
    (fun record => (objectId (objectIds (·.tableName) bundle.logicalTables
      db.logicalTables.nextId []) record.logicalTableName).map record.row) bundle.routeRules
    (db.routeRules.delete fun r => r.logicalTableId ∈ db.importedLogicalIds) = .ok db'.routeRules
  physicalRoutes : insertAll (fun r => (r.logicalTableId, r.routeValue))
    (fun record => do
      let logicalTableId ← objectId (objectIds (·.tableName) bundle.logicalTables
        db.logicalTables.nextId []) record.logicalTableName
      let datasourceId ← objectId (objectIds (·.datasourceCode) bundle.datasources
        db.datasources.nextId []) record.datasourceCode
      pure (record.row logicalTableId datasourceId)) bundle.physicalRoutes
    (db.physicalRoutes.delete fun r => r.logicalTableId ∈ db.importedLogicalIds) =
      .ok db'.physicalRoutes
  policies : db.policies.Fresh (·.id) → Unique (·.policyCode) db.policies.rows →
    db'.policies.Fresh (·.id) ∧ Unique (·.policyCode) db'.policies.rows
  statsSnapshots : db'.statsSnapshots = db.statsSnapshots
  auditLogs : db'.auditLogs = db.auditLogs

theorem ensureDefaultPolicy_ok (h : ensureDefaultPolicy db = .ok db') :
    ∃ policies, db' = { db with policies } ∧
      (db.policies.Fresh (·.id) → Unique (·.policyCode) db.policies.rows →
        policies.Fresh (·.id) ∧ Unique (·.policyCode) policies.rows) := by
  obtain ⟨o, ho, h⟩ := bind_eq_ok.1 h
  cases o with
  | some p =>
    injection h with h
    exact ⟨db.policies, h.symm, fun h1 h2 => ⟨h1, h2⟩⟩
  | none =>
    injection h with h
    refine ⟨_, h.symm, fun hfresh hunique => ⟨hfresh.insert fun _ => rfl, ?_⟩⟩
    rw [Store.Unique, Table.insert_rows, List.map_append, List.map_singleton]
    refine List.nodup_append'.2 ⟨hunique, List.nodup_singleton _, ?_⟩
    rw [List.disjoint_singleton]
    intro hmem
    obtain ⟨p, hp, hcode⟩ := List.mem_map.1 hmem
    have hnil := oneOrNone_eq_none.1 ho
    rw [List.filter_eq_nil_iff] at hnil
    exact hnil p hp (by simpa using hcode)

theorem synced_of_ok (h : syncBundleToLocal db bundle = .ok db') : Synced db bundle db' := by
  obtain ⟨db1, hpolicy, h⟩ := bind_eq_ok.1 h
  obtain ⟨policies, rfl, hpolicies⟩ := ensureDefaultPolicy_ok hpolicy
  obtain ⟨db2, hdelete, h⟩ := bind_eq_ok.1 h
  rw [deletePreviousImport] at hdelete
  split at hdelete
  · exact absurd hdelete (by simp)
  rename_i hkept
  injection hdelete with hdelete
  subst hdelete
  obtain ⟨datasources, hdatasources, h⟩ := bind_eq_ok.1 h
  obtain ⟨logicalTables, hlogical, h⟩ := bind_eq_ok.1 h
  obtain ⟨routeFactors, hfactors, h⟩ := bind_eq_ok.1 h
  obtain ⟨routeRules, hrules, h⟩ := bind_eq_ok.1 h
  obtain ⟨physicalRoutes, hroutes, h⟩ := bind_eq_ok.1 h
  injection h with h
  subst h
  simp only [Bool.or_eq_true, List.any_eq_true, not_or, not_exists, not_and, decide_eq_true_eq,
    Table.delete_rows, List.mem_filter, Bool.not_eq_true', decide_eq_false_iff_not] at hkept
  exact ⟨fun r hr hid => hkept.1 r ⟨hr, hid⟩, hkept.2, hdatasources, hlogical, hfactors,
    hrules, hroutes, hpolicies, rfl, rfl⟩

/-! ## Rows of a committed import -/

theorem mem_delete {ρ : Type} {t : Table ρ} {p : ρ → Bool} {r : ρ} :
    r ∈ (t.delete p).rows ↔ r ∈ t.rows ∧ p r = false := by
  rw [Table.delete_rows, List.mem_filter, Bool.not_eq_true']

/-- A logical table that is not imported stays. -/
theorem Synced.mem_logicalTables (hs : Synced db bundle db') {t : LogicalTable}
    (ht : t ∈ db.logicalTables.rows) (hid : t.id ∉ db.importedLogicalIds) :
    t ∈ db'.logicalTables.rows := by
  obtain ⟨added, hrows, -⟩ := insertAll_ok hs.logicalTables
  rw [hrows]
  exact List.mem_append_left _ (mem_delete.2 ⟨ht, decide_eq_false hid⟩)

/-- A datasource that is not imported stays. -/
theorem Synced.mem_datasources (hs : Synced db bundle db') {d : DatasourceInstance}
    (hd : d ∈ db.datasources.rows) (hid : d.id ∉ db.importedDatasourceIds) :
    d ∈ db'.datasources.rows := by
  obtain ⟨added, hrows, -⟩ := insertAll_ok hs.datasources
  rw [hrows]
  exact List.mem_append_left _ (mem_delete.2 ⟨hd, decide_eq_false hid⟩)

/-- The ids of the bundle's logical tables are new, and each is that of a row with the name. -/
theorem Synced.exists_table (hs : Synced db bundle db') {name : Str} {k : Nat}
    (h : objectId (objectIds (·.tableName) bundle.logicalTables db.logicalTables.nextId []) name =
      .ok k) : ∃ t ∈ db'.logicalTables.rows, t.id = k ∧ t.tableName = name := by
  obtain ⟨added, hrows, hadded, -⟩ := insertAll_ok hs.logicalTables
  obtain ⟨t, ht, hid, hname⟩ := exists_of_objectId (·.id) (·.tableName)
    (fun record row hrow n => by rw [← Except.ok.inj hrow]; rfl)
    (fun record row hrow n => by rw [← Except.ok.inj hrow]; rfl) hadded h
  exact ⟨t, by rw [hrows]; exact List.mem_append_right _ ht, hid, hname⟩

/-- Each id of the bundle's datasources is that of a row with the code. -/
theorem Synced.exists_datasource (hs : Synced db bundle db') {code : Str} {k : Nat}
    (h : objectId (objectIds (·.datasourceCode) bundle.datasources db.datasources.nextId []) code =
      .ok k) : ∃ d ∈ db'.datasources.rows, d.id = k ∧ d.datasourceCode = code := by
  obtain ⟨added, hrows, hadded, -⟩ := insertAll_ok hs.datasources
  obtain ⟨d, hd, hid, hcode⟩ := exists_of_objectId (·.id) (·.datasourceCode)
    (fun record row hrow n => by rw [← Except.ok.inj hrow]; rfl)
    (fun record row hrow n => by rw [← Except.ok.inj hrow]; rfl) hadded h
  exact ⟨d, by rw [hrows]; exact List.mem_append_right _ hd, hid, hcode⟩

/-- The table of a row that stays. -/
theorem Synced.exists_table_of_kept (hs : Synced db bundle db') {id : Nat}
    (h : ∃ t ∈ db.logicalTables.rows, t.id = id) (hid : id ∉ db.importedLogicalIds) :
    ∃ t ∈ db'.logicalTables.rows, t.id = id := by
  obtain ⟨t, ht, rfl⟩ := h
  exact ⟨t, hs.mem_logicalTables ht hid, rfl⟩

/-- A row that an import made: of which record, and for which table. -/
theorem exists_record_of_added {σ ρ : Type} {objects : List (Str × Nat)} {name : σ → Str}
    {row : σ → Nat → Nat → ρ} {n : Nat} {records : List σ} {added : List ρ}
    (h : Added (fun record => (objectId objects (name record)).map (row record)) n records added)
    {r : ρ} (hr : r ∈ added) :
    ∃ record k m, objectId objects (name record) = .ok k ∧ r = row record k m := by
  obtain ⟨record, -, f, m, hf, heq⟩ := exists_of_forall₂_left h.forall₂ hr
  obtain ⟨k, hk, rfl⟩ := map_eq_ok.1 hf
  exact ⟨record, k, m, hk, heq⟩

/-- A route that an import made. -/
theorem exists_record_of_route {tables datasources : List (Str × Nat)} {n : Nat}
    {records : List PhysicalRouteRecord} {added : List PhysicalTableRoute}
    (h : Added (fun record : PhysicalRouteRecord => do
      let logicalTableId ← objectId tables record.logicalTableName
      let datasourceId ← objectId datasources record.datasourceCode
      pure (record.row logicalTableId datasourceId)) n records added)
    {r : PhysicalTableRoute} (hr : r ∈ added) :
    ∃ (record : PhysicalRouteRecord) (j k m : Nat), objectId tables record.logicalTableName =
      .ok j ∧ objectId datasources record.datasourceCode = .ok k ∧ r = record.row j k m := by
  obtain ⟨record, -, f, m, hf, heq⟩ := exists_of_forall₂_left h.forall₂ hr
  obtain ⟨j, hj, hf⟩ := bind_eq_ok.1 hf
  obtain ⟨k, hk, hf⟩ := bind_eq_ok.1 hf
  injection hf with hf
  subst hf
  exact ⟨record, j, k, m, hj, hk, heq⟩

/-- The declared constraints hold again. -/
theorem Synced.constraints (hs : Synced db bundle db')
    (hdb : db.Constraints) : db'.Constraints := by
  obtain ⟨-, -, -, hdatasourceKey, hdatasourceIds⟩ := insertAll_ok hs.datasources
  obtain ⟨-, -, -, htableKey, htableIds⟩ := insertAll_ok hs.logicalTables
  obtain ⟨factors, hfactors, hfactorsAdded, hfactorKey, hfactorIds⟩ :=
    insertAll_ok hs.routeFactors
  obtain ⟨rules, hrules, hrulesAdded, hruleKey, hruleIds⟩ := insertAll_ok hs.routeRules
  obtain ⟨routes, hroutes, hroutesAdded, hrouteKey, hrouteIds⟩ := insertAll_ok hs.physicalRoutes
  obtain ⟨hpolicyIds, hpolicyKey⟩ := hs.policies hdb.policyIds hdb.policyCode
  have hgives : ∀ {σ ρ : Type} {id : ρ → Nat} {row : σ → Nat → ρ},
    (∀ record n, id (row record n) = n) →
      GivesIds id fun record => .ok (row record) := fun h record f hf n => by
    rw [← Except.ok.inj hf]
    exact h record n
  have hgives' : ∀ {σ ρ : Type} {id : ρ → Nat} {row : σ → Nat → Nat → ρ} {o : σ →
      Except PyError Nat}, (∀ record k n, id (row record k n) = n) →
      GivesIds id fun record => (o record).map (row record) := fun h record f hf n => by
    obtain ⟨k, -, rfl⟩ := map_eq_ok.1 hf
    exact h record k n
  constructor
  case datasourceIds => exact hdatasourceIds _ (hgives fun _ _ => rfl) (hdb.datasourceIds.delete _)
  case logicalTableIds => exact htableIds _ (hgives fun _ _ => rfl) (hdb.logicalTableIds.delete _)
  case routeFactorIds => exact hfactorIds _ (hgives' fun _ _ _ => rfl) (hdb.routeFactorIds.delete _)
  case routeRuleIds => exact hruleIds _ (hgives' fun _ _ _ => rfl) (hdb.routeRuleIds.delete _)
  case physicalRouteIds =>
    refine hrouteIds _ (fun record f hf n => ?_) (hdb.physicalRouteIds.delete _)
    obtain ⟨j, -, hf⟩ := bind_eq_ok.1 hf
    obtain ⟨k, -, hf⟩ := bind_eq_ok.1 hf
    injection hf with hf
    rw [← hf]
    rfl
  case policyIds => exact hpolicyIds
  case statsSnapshotIds => exact hs.statsSnapshots ▸ hdb.statsSnapshotIds
  case auditLogIds => exact hs.auditLogs ▸ hdb.auditLogIds
  case datasourceCode => exact hdatasourceKey (hdb.datasourceCode.sublist List.filter_sublist)
  case tableName => exact htableKey (hdb.tableName.sublist List.filter_sublist)
  case uqRouteFactorTableName =>
    exact hfactorKey (hdb.uqRouteFactorTableName.sublist List.filter_sublist)
  case uqRouteRuleTableName => exact hruleKey (hdb.uqRouteRuleTableName.sublist List.filter_sublist)
  case uqTableRouteValue => exact hrouteKey (hdb.uqTableRouteValue.sublist List.filter_sublist)
  case policyCode => exact hpolicyKey
  case uqStatsTable => exact hs.statsSnapshots ▸ hdb.uqStatsTable
  case factorTable =>
    intro f hf
    rw [hfactors] at hf
    rcases List.mem_append.1 hf with hf | hf
    · obtain ⟨hf, hid⟩ := mem_delete.1 hf
      exact hs.exists_table_of_kept (hdb.factorTable f hf) (of_decide_eq_false hid)
    · obtain ⟨record, k, m, hk, rfl⟩ := exists_record_of_added hfactorsAdded hf
      obtain ⟨t, ht, hid, -⟩ := hs.exists_table hk
      exact ⟨t, ht, hid⟩
  case ruleTable =>
    intro r hr
    rw [hrules] at hr
    rcases List.mem_append.1 hr with hr | hr
    · obtain ⟨hr, hid⟩ := mem_delete.1 hr
      exact hs.exists_table_of_kept (hdb.ruleTable r hr) (of_decide_eq_false hid)
    · obtain ⟨record, k, m, hk, rfl⟩ := exists_record_of_added hrulesAdded hr
      obtain ⟨t, ht, hid, -⟩ := hs.exists_table hk
      exact ⟨t, ht, hid⟩
  case routeTable =>
    intro r hr
    rw [hroutes] at hr
    rcases List.mem_append.1 hr with hr | hr
    · obtain ⟨hr, hid⟩ := mem_delete.1 hr
      exact hs.exists_table_of_kept (hdb.routeTable r hr) (of_decide_eq_false hid)
    · obtain ⟨record, j, k, m, hj, -, rfl⟩ := exists_record_of_route hroutesAdded hr
      obtain ⟨t, ht, hid, -⟩ := hs.exists_table hj
      exact ⟨t, ht, hid⟩
  case routeDatasource =>
    intro r hr
    rw [hroutes] at hr
    rcases List.mem_append.1 hr with hr | hr
    · obtain ⟨hr, hid⟩ := mem_delete.1 hr
      obtain ⟨d, hd, hdid⟩ := hdb.routeDatasource r hr
      exact ⟨d, hs.mem_datasources hd (hdid ▸ hs.routesKept r hr (of_decide_eq_false hid)),
        hdid⟩
    · obtain ⟨record, j, k, m, -, hk, rfl⟩ := exists_record_of_route hroutesAdded hr
      obtain ⟨d, hd, hid, -⟩ := hs.exists_datasource hk
      exact ⟨d, hd, hid⟩
  case statsDatasource =>
    intro r hr
    rw [hs.statsSnapshots] at hr
    obtain ⟨d, hd, hdid⟩ := hdb.statsDatasource r hr
    exact ⟨d, hs.mem_datasources hd (hdid ▸ hs.snapshotsKept r hr), hdid⟩

/-! ## The bundle is held -/

theorem Added.le_id {σ ρ : Type} {make : σ → Except PyError (Nat → ρ)} {id : ρ → Nat}
    (hid : GivesIds id make) {n : Nat} {records : List σ} {added : List ρ}
    (h : Added make n records added) : ∀ row ∈ added, n ≤ id row := by
  induction h with
  | nil => simp
  | @cons n record row records rows hrow _ ih =>
    refine List.forall_mem_cons.2 ⟨(hid record row hrow n).ge, fun r hr => ?_⟩
    have := ih r hr
    omega

/-- Of the rows behind the old ones, those of one table are made of the records with its name. -/
theorem corresponds_filter {σ ρ : Type} {R : ρ → σ → Prop} {old added : List ρ}
    {records : List σ} {p : ρ → Bool} {q : σ → Bool} (hold : ∀ r ∈ old, p r = false)
    (hadded : List.Forall₂ (fun r record => R r record ∧ p r = q record) added records) :
    Corresponds R ((old ++ added).filter p) (records.filter q) := by
  refine ⟨_, List.Perm.refl _, ?_⟩
  rw [List.filter_append, List.filter_eq_nil_iff.2 fun r hr => by simp [hold r hr],
    List.nil_append]
  induction hadded with
  | nil => exact .nil
  | @cons r record added records h _ ih =>
    rw [List.filter_cons, List.filter_cons, h.2]
    split
    · exact .cons h.1 ih
    · exact ih

/-- The ids of the rows of a table that the bundle made tell whether its name is meant. -/
theorem Synced.objectId_eq_iff (hs : Synced db bundle db') (hdb : db.Constraints) {t : LogicalTable}
    (ht : t ∈ db'.logicalTables.rows) {name : Str} {k : Nat}
    (hk : objectId (objectIds (·.tableName) bundle.logicalTables db.logicalTables.nextId []) name =
      .ok k) : k = t.id ↔ name = t.tableName := by
  have hdb' := hs.constraints hdb
  obtain ⟨t', ht', rfl, rfl⟩ := hs.exists_table hk
  constructor
  · intro hid
    rw [hdb'.logicalTableIds.unique.eq_of_mem ht' ht hid]
  · intro hname
    rw [hdb'.tableName.eq_of_mem ht' ht hname]

/-- A committed import holds its bundle. -/
theorem Synced.holdsBundle (hs : Synced db bundle db') (hdb : db.Constraints) :
    db'.HoldsBundle bundle := by
  have hdb' := hs.constraints hdb
  constructor
  · intro q hq
    obtain ⟨added, hrows, hadded, -⟩ := insertAll_ok hs.datasources
    obtain ⟨d, hd, f, n, hf, heq⟩ := exists_of_forall₂_right hadded.forall₂ hq
    injection hf with hf
    subst hf
    refine ⟨d, ?_, ?_⟩
    · rw [hrows]
      exact List.mem_append_right _ hd
    · rw [heq]
      exact ⟨rfl, rfl, rfl, rfl, rfl, rfl, rfl, rfl, rfl, rfl, rfl⟩
  · intro q hq
    obtain ⟨added, hrows, hadded, -⟩ := insertAll_ok hs.logicalTables
    obtain ⟨t, ht, f, n, hf, heq⟩ := exists_of_forall₂_right hadded.forall₂ hq
    injection hf with hf
    subst hf
    have hmem : t ∈ db'.logicalTables.rows := by
      rw [hrows]
      exact List.mem_append_right _ ht
    have hname : t.tableName = q.tableName := by
      rw [heq]
      rfl
    -- The table is new, so no old row refers to it.
    have hnew : db.logicalTables.nextId ≤ t.id :=
      hadded.le_id (fun record row hrow n => by rw [← Except.ok.inj hrow]; rfl) t ht
    have hold : ∀ {id : Nat}, (∃ u ∈ db.logicalTables.rows, u.id = id) →
        decide (id = t.id) = false := by
      rintro id ⟨u, hu, rfl⟩
      have := hdb.logicalTableIds.lt_nextId u hu
      exact decide_eq_false (by omega)
    refine ⟨t, hmem, ?_, ?_, ?_, ?_⟩
    · rw [heq]
      exact ⟨rfl, rfl, rfl, rfl, rfl, rfl, rfl⟩
    · obtain ⟨factors, hfactors, hfactorsAdded, -⟩ := insertAll_ok hs.routeFactors
      rw [hfactors]
      refine corresponds_filter (fun f hf => hold (hdb.factorTable f (mem_delete.1 hf).1))
        (hfactorsAdded.forall₂.imp fun f record => ?_)
      rintro ⟨g, m, hg, rfl⟩
      obtain ⟨k, hk, rfl⟩ := map_eq_ok.1 hg
      refine ⟨⟨rfl, rfl, rfl, rfl, rfl, rfl⟩, decide_eq_decide.2 ?_⟩
      rw [← hname]
      exact hs.objectId_eq_iff hdb hmem hk
    · obtain ⟨rules, hrules, hrulesAdded, -⟩ := insertAll_ok hs.routeRules
      rw [hrules]
      refine corresponds_filter (fun r hr => hold (hdb.ruleTable r (mem_delete.1 hr).1))
        (hrulesAdded.forall₂.imp fun r record => ?_)
      rintro ⟨g, m, hg, rfl⟩
      obtain ⟨k, hk, rfl⟩ := map_eq_ok.1 hg
      refine ⟨⟨rfl, rfl, rfl, rfl, rfl⟩, decide_eq_decide.2 ?_⟩
      rw [← hname]
      exact hs.objectId_eq_iff hdb hmem hk
    · obtain ⟨routes, hroutes, hroutesAdded, -⟩ := insertAll_ok hs.physicalRoutes
      rw [hroutes]
      refine corresponds_filter (fun r hr => hold (hdb.routeTable r (mem_delete.1 hr).1))
        (hroutesAdded.forall₂.imp fun r record => ?_)
      rintro ⟨g, m, hg, rfl⟩
      obtain ⟨j, hj, hg⟩ := bind_eq_ok.1 hg
      obtain ⟨k, hk, hg⟩ := bind_eq_ok.1 hg
      injection hg with hg
      subst hg
      obtain ⟨d, hd, rfl, hcode⟩ := hs.exists_datasource hk
      refine ⟨⟨⟨rfl, rfl, rfl, rfl⟩, ?_⟩, decide_eq_decide.2 ?_⟩
      · have hfound := hdb'.datasourceById_eq hd
        rw [datasourceCodeFromId, show (record.row j d.id m).datasourceId = d.id from rfl, hfound]
        exact hcode
      · rw [← hname]
        exact hs.objectId_eq_iff hdb hmem hj

end Sync

end SqlGatekeeper
