import SqlGatekeeper.Tools.HandRegistered

/-!
# An import after an import

* `SyncBundle.Marked`: the datasources and logical tables of a bundle carry the import's mark;
  `marked_of_ok`.
* `ImportFrame`: what no import made stays; `Synced.frame`.
* `ImportIs`: what imports made is the bundle; `Synced.importIs`.
* `Metadata.records`: the rows without generated ids, a reference being the name behind it.
* `Synced.records_datasources`, …: the records after an import, in terms of the bundle and of what
  stays.
* `sync_replacesImport`: an import replaces the one before it, and nothing else.
-/

namespace SqlGatekeeper

open Py Store

/-! ## Marked bundles -/

/-- The datasources and logical tables carry the mark by which the next import finds them. -/
structure SyncBundle.Marked (bundle : SyncBundle) : Prop where
  datasources : ∀ q ∈ bundle.datasources, isImported (.dict q.extra) = true
  logicalTables : ∀ q ∈ bundle.logicalTables, isImported (.dict q.extra) = true

/-- Every datasource that the first loop collects is that of a source. -/
theorem exists_source_of_mem {U : UnicodeData} {target : ImportedDatasourceTarget}
    {rows : List TableConfigRow} {groups : RowGroups}
    (h : ∀ e ∈ groups.datasourceMap, ∃ source, e.2 = datasourceRecord U target source) :
    ∀ e ∈ (rows.foldl (collectRow U target) groups).datasourceMap,
      ∃ source, e.2 = datasourceRecord U target source := by
  induction rows generalizing groups with
  | nil => exact h
  | cons row rows ih =>
    refine ih fun e he => ?_
    rw [collectRow] at he
    split at he
    · exact h e he
    · simp only [setDefault] at he
      split at he
      · exact h e he
      · rcases List.mem_append.1 he with he | he
        · exact h e he
        · rw [List.mem_singleton.1 he]
          exact ⟨_, rfl⟩

theorem marked_of_ok {rt : Runtime} {rows : List TableConfigRow}
    {target : ImportedDatasourceTarget} {bundle : SyncBundle}
    (h : buildSyncBundle rt rows target = .ok bundle) : bundle.Marked where
  datasources q hq := by
    obtain ⟨records, -, hbundle⟩ := bind_eq_ok.1 h
    injection hbundle with hbundle
    subst hbundle
    obtain ⟨e, he, rfl⟩ := List.mem_map.1 ((List.perm_insertionSort _ _).mem_iff.1 hq)
    obtain ⟨source, hsource⟩ := exists_source_of_mem (by simp) e he
    rw [hsource]
    rfl
  logicalTables q hq := by
    obtain ⟨records, sample, more, -, -, hsample⟩ := exists_groupOfTable h hq
    rw [hsample]
    rfl

/-! ## What stays -/

/-- A row that belongs to no imported logical table. -/
def Metadata.isOwn (db : Metadata) (logicalTableId : Nat) : Bool :=
  decide (logicalTableId ∉ db.importedLogicalIds)

/-- What an import leaves alone: the policies, what carries no mark, and what belongs to no marked
logical table. -/
structure ImportFrame (db db' : Metadata) : Prop where
  policies : ∃ added, db'.policies.rows = db.policies.rows ++ added
  datasources : db'.datasources.rows.filter (fun d => !isImported d.extra) =
    db.datasources.rows.filter fun d => !isImported d.extra
  logicalTables : db'.logicalTables.rows.filter (fun t => !isImported t.extra) =
    db.logicalTables.rows.filter fun t => !isImported t.extra
  routeFactors : db'.routeFactors.rows.filter (fun f => db'.isOwn f.logicalTableId) =
    db.routeFactors.rows.filter fun f => db.isOwn f.logicalTableId
  routeRules : db'.routeRules.rows.filter (fun r => db'.isOwn r.logicalTableId) =
    db.routeRules.rows.filter fun r => db.isOwn r.logicalTableId
  physicalRoutes : db'.physicalRoutes.rows.filter (fun r => db'.isOwn r.logicalTableId) =
    db.physicalRoutes.rows.filter fun r => db.isOwn r.logicalTableId
  statsSnapshots : db'.statsSnapshots = db.statsSnapshots
  auditLogs : db'.auditLogs = db.auditLogs

/-- The name behind a reference to a logical table. -/
def Metadata.tableNameOf (db : Metadata) (id : Nat) : Option Str :=
  (db.logicalTableById id).map (·.tableName)

/-- The code behind a reference to a datasource. -/
def Metadata.datasourceCodeOf (db : Metadata) (id : Nat) : Option Str :=
  (db.datasourceById id).map (·.datasourceCode)

/-- What carries the mark, and what belongs to it, is the bundle. -/
structure ImportIs (db : Metadata) (bundle : SyncBundle) : Prop where
  datasources : Corresponds DatasourceStored
    (db.datasources.rows.filter fun d => isImported d.extra) bundle.datasources
  logicalTables : Corresponds TableStored
    (db.logicalTables.rows.filter fun t => isImported t.extra) bundle.logicalTables
  routeFactors : Corresponds
    (fun f q => FactorStored f q ∧ db.tableNameOf f.logicalTableId = some q.logicalTableName)
    (db.routeFactors.rows.filter fun f => !db.isOwn f.logicalTableId) bundle.routeFactors
  routeRules : Corresponds
    (fun r q => RuleStored r q ∧ db.tableNameOf r.logicalTableId = some q.logicalTableName)
    (db.routeRules.rows.filter fun r => !db.isOwn r.logicalTableId) bundle.routeRules
  physicalRoutes : Corresponds
    (fun r q => RouteStored r q ∧ db.tableNameOf r.logicalTableId = some q.logicalTableName ∧
      db.datasourceCodeOf r.datasourceId = some q.datasourceCode)
    (db.physicalRoutes.rows.filter fun r => !db.isOwn r.logicalTableId) bundle.physicalRoutes

/-! ## Kept rows and new ones -/

/-- Rows are kept ones with new ones behind them, and a class tells them apart. -/
structure SplitBy {ρ : Type} (p : ρ → Bool) (rows kept added : List ρ) : Prop where
  rows_eq : rows = kept ++ added
  of_kept : ∀ r ∈ kept, p r = true
  of_added : ∀ r ∈ added, p r = false

theorem SplitBy.filter_eq {ρ : Type} {p : ρ → Bool} {rows kept added : List ρ}
    (h : SplitBy p rows kept added) : rows.filter p = kept := by
  rw [h.rows_eq, List.filter_append, List.filter_eq_self.2 h.of_kept,
    List.filter_eq_nil_iff.2 fun r hr => by simp [h.of_added r hr], List.append_nil]

theorem SplitBy.filter_not_eq {ρ : Type} {p : ρ → Bool} {rows kept added : List ρ}
    (h : SplitBy p rows kept added) : rows.filter (fun r => !p r) = added := by
  rw [h.rows_eq, List.filter_append, List.filter_eq_nil_iff.2 fun r hr => by simp [h.of_kept r hr],
    List.filter_eq_self.2 fun r hr => by simp [h.of_added r hr], List.nil_append]

section Import

variable {db db' : Metadata} {bundle : SyncBundle}

theorem mem_importedLogicalIds {id : Nat} :
    id ∈ db.importedLogicalIds ↔
      ∃ t ∈ db.logicalTables.rows, isImported t.extra = true ∧ t.id = id := by
  rw [Metadata.importedLogicalIds, List.mem_map]
  simp only [List.mem_filter, and_assoc]

theorem mem_importedDatasourceIds {id : Nat} :
    id ∈ db.importedDatasourceIds ↔
      ∃ d ∈ db.datasources.rows, isImported d.extra = true ∧ d.id = id := by
  rw [Metadata.importedDatasourceIds, List.mem_map]
  simp only [List.mem_filter, and_assoc]

/-- With distinct ids the marked rows are those with a marked row's id. -/
theorem Metadata.Constraints.mem_importedLogicalIds_iff (hdb : db.Constraints) {t : LogicalTable}
    (ht : t ∈ db.logicalTables.rows) :
    t.id ∈ db.importedLogicalIds ↔ isImported t.extra = true := by
  rw [mem_importedLogicalIds]
  constructor
  · rintro ⟨u, hu, hmarked, hid⟩
    rwa [← hdb.logicalTableIds.unique.eq_of_mem hu ht hid]
  · exact fun h => ⟨t, ht, h, rfl⟩

theorem Metadata.Constraints.mem_importedDatasourceIds_iff (hdb : db.Constraints)
    {d : DatasourceInstance} (hd : d ∈ db.datasources.rows) :
    d.id ∈ db.importedDatasourceIds ↔ isImported d.extra = true := by
  rw [mem_importedDatasourceIds]
  constructor
  · rintro ⟨e, he, hmarked, hid⟩
    rwa [← hdb.datasourceIds.unique.eq_of_mem he hd hid]
  · exact fun h => ⟨d, hd, h, rfl⟩

/-- The deletion of an import keeps the unmarked rows. -/
theorem delete_datasources_rows (hdb : db.Constraints) :
    (db.datasources.delete fun d => d.id ∈ db.importedDatasourceIds).rows =
      db.datasources.rows.filter fun d => !isImported d.extra := by
  refine List.filter_congr fun d hd => ?_
  simp only [hdb.mem_importedDatasourceIds_iff hd, Bool.decide_eq_true]

theorem delete_logicalTables_rows (hdb : db.Constraints) :
    (db.logicalTables.delete fun t => t.id ∈ db.importedLogicalIds).rows =
      db.logicalTables.rows.filter fun t => !isImported t.extra := by
  refine List.filter_congr fun t ht => ?_
  simp only [hdb.mem_importedLogicalIds_iff ht, Bool.decide_eq_true]

theorem delete_own {ρ : Type} (db : Metadata) (t : Table ρ) (tableOf : ρ → Nat) :
    (t.delete fun r => tableOf r ∈ db.importedLogicalIds).rows =
      t.rows.filter fun r => db.isOwn (tableOf r) :=
  List.filter_congr fun r _ => by simp [Metadata.isOwn]

/-! ## The ids of an import -/

variable (hs : Synced db bundle db') (hdb : db.Constraints)

include hs

/-- The logical tables that an import made: those of the bundle. -/
theorem Synced.exists_logicalTables :
    ∃ added, db'.logicalTables.rows =
        (db.logicalTables.delete fun t => t.id ∈ db.importedLogicalIds).rows ++ added ∧
      Added (fun record : LogicalTableRecord => .ok record.row) db.logicalTables.nextId
        bundle.logicalTables added := by
  obtain ⟨added, hrows, hadded, -⟩ := insertAll_ok hs.logicalTables
  exact ⟨added, hrows, hadded⟩

/-- The id of a table of the bundle is that of a marked row with its name. -/
theorem Synced.exists_marked_table (hmarked : bundle.Marked) {name : Str} {k : Nat}
    (h : objectId (objectIds (·.tableName) bundle.logicalTables db.logicalTables.nextId []) name =
      .ok k) :
    k ∈ db'.importedLogicalIds := by
  obtain ⟨added, hrows, hadded⟩ := hs.exists_logicalTables
  obtain ⟨t, ht, hid, -⟩ := exists_of_objectId (·.id) (·.tableName)
    (fun record row hrow n => by rw [← Except.ok.inj hrow]; rfl)
    (fun record row hrow n => by rw [← Except.ok.inj hrow]; rfl) hadded h
  obtain ⟨record, hrecord, f, n, hf, heq⟩ := exists_of_forall₂_left hadded.forall₂ ht
  refine mem_importedLogicalIds.2 ⟨t, hrows ▸ List.mem_append_right _ ht, ?_, hid⟩
  rw [heq, ← Except.ok.inj hf]
  exact hmarked.logicalTables record hrecord

include hdb

/-- A table that was there before is imported after the import only if it was before. -/
theorem Synced.isOwn_of_kept {id : Nat} (hid : ∃ t ∈ db.logicalTables.rows, t.id = id)
    (hown : db.isOwn id = true) : db'.isOwn id = true := by
  have hdb' := hs.constraints hdb
  obtain ⟨t, ht, rfl⟩ := hid
  rw [Metadata.isOwn, decide_eq_true_eq] at hown ⊢
  rw [hdb'.mem_importedLogicalIds_iff (hs.mem_logicalTables ht hown)]
  rwa [hdb.mem_importedLogicalIds_iff ht] at hown

/-- The rows of an import that belong to logical tables: those of unmarked tables stay, and those
of marked tables are new. -/
theorem Synced.splitBy_isOwn {ρ : Type} {tableOf : ρ → Nat} {t : Table ρ}
    {added rows : List ρ} (hrows : rows =
      (t.delete fun r => tableOf r ∈ db.importedLogicalIds).rows ++ added)
    (hold : ∀ r ∈ t.rows, ∃ u ∈ db.logicalTables.rows, u.id = tableOf r)
    (hadded : ∀ r ∈ added, tableOf r ∈ db'.importedLogicalIds) :
    SplitBy (fun r => db'.isOwn (tableOf r)) rows (t.rows.filter fun r => db.isOwn (tableOf r))
      added where
  rows_eq := by rw [hrows, delete_own]
  of_kept r hr := by
    obtain ⟨hmem, hown⟩ := List.mem_filter.1 hr
    exact hs.isOwn_of_kept hdb (hold r hmem) hown
  of_added r hr := by simpa [Metadata.isOwn] using hadded r hr

theorem Synced.tableNameOf_objectId {name : Str} {k : Nat}
    (h : objectId (objectIds (·.tableName) bundle.logicalTables db.logicalTables.nextId []) name =
      .ok k) : db'.tableNameOf k = some name := by
  obtain ⟨t, ht, rfl, rfl⟩ := hs.exists_table h
  rw [Metadata.tableNameOf, (hs.constraints hdb).logicalTableById_eq ht, Option.map_some]

theorem Synced.datasourceCodeOf_objectId {code : Str} {k : Nat}
    (h : objectId (objectIds (·.datasourceCode) bundle.datasources db.datasources.nextId []) code =
      .ok k) : db'.datasourceCodeOf k = some code := by
  obtain ⟨d, hd, rfl, rfl⟩ := hs.exists_datasource h
  rw [Metadata.datasourceCodeOf, (hs.constraints hdb).datasourceById_eq hd, Option.map_some]

/-! ## What stays and what was made -/

theorem Synced.splitBy_datasources (hmarked : bundle.Marked) :
    ∃ added, SplitBy (fun d : DatasourceInstance => !isImported d.extra) db'.datasources.rows
        (db.datasources.rows.filter fun d => !isImported d.extra) added ∧
      List.Forall₂ DatasourceStored added bundle.datasources := by
  obtain ⟨added, hrows, hadded, -⟩ := insertAll_ok hs.datasources
  refine ⟨added, ⟨by rw [hrows, delete_datasources_rows hdb], fun d hd =>
    (List.mem_filter.1 hd).2, fun d hd => ?_⟩, hadded.forall₂.imp fun d record => ?_⟩
  · obtain ⟨record, hrecord, f, n, hf, rfl⟩ := exists_of_forall₂_left hadded.forall₂ hd
    rw [← Except.ok.inj hf, Bool.not_eq_false']
    exact hmarked.datasources record hrecord
  · rintro ⟨f, n, hf, rfl⟩
    rw [← Except.ok.inj hf]
    exact ⟨rfl, rfl, rfl, rfl, rfl, rfl, rfl, rfl, rfl, rfl, rfl⟩

theorem Synced.splitBy_logicalTables (hmarked : bundle.Marked) :
    ∃ added, SplitBy (fun t : LogicalTable => !isImported t.extra) db'.logicalTables.rows
        (db.logicalTables.rows.filter fun t => !isImported t.extra) added ∧
      List.Forall₂ TableStored added bundle.logicalTables := by
  obtain ⟨added, hrows, hadded⟩ := hs.exists_logicalTables
  refine ⟨added, ⟨by rw [hrows, delete_logicalTables_rows hdb], fun t ht =>
    (List.mem_filter.1 ht).2, fun t ht => ?_⟩, hadded.forall₂.imp fun t record => ?_⟩
  · obtain ⟨record, hrecord, f, n, hf, rfl⟩ := exists_of_forall₂_left hadded.forall₂ ht
    rw [← Except.ok.inj hf, Bool.not_eq_false']
    exact hmarked.logicalTables record hrecord
  · rintro ⟨f, n, hf, rfl⟩
    rw [← Except.ok.inj hf]
    exact ⟨rfl, rfl, rfl, rfl, rfl, rfl, rfl⟩

theorem Synced.splitBy_routeFactors (hmarked : bundle.Marked) :
    ∃ added, SplitBy (fun f : RouteFactorDef => db'.isOwn f.logicalTableId) db'.routeFactors.rows
        (db.routeFactors.rows.filter fun f => db.isOwn f.logicalTableId) added ∧
      List.Forall₂ (fun f q => FactorStored f q ∧
        db'.tableNameOf f.logicalTableId = some q.logicalTableName) added bundle.routeFactors := by
  obtain ⟨added, hrows, hadded, -⟩ := insertAll_ok hs.routeFactors
  refine ⟨added, hs.splitBy_isOwn hdb hrows hdb.factorTable fun f hf => ?_,
    hadded.forall₂.imp fun f record => ?_⟩
  · obtain ⟨record, k, m, hk, rfl⟩ := exists_record_of_added hadded hf
    exact hs.exists_marked_table hmarked hk
  · rintro ⟨g, m, hg, rfl⟩
    obtain ⟨k, hk, rfl⟩ := map_eq_ok.1 hg
    exact ⟨⟨rfl, rfl, rfl, rfl, rfl, rfl⟩, hs.tableNameOf_objectId hdb hk⟩

theorem Synced.splitBy_routeRules (hmarked : bundle.Marked) :
    ∃ added, SplitBy (fun r : RouteRule => db'.isOwn r.logicalTableId) db'.routeRules.rows
        (db.routeRules.rows.filter fun r => db.isOwn r.logicalTableId) added ∧
      List.Forall₂ (fun r q => RuleStored r q ∧
        db'.tableNameOf r.logicalTableId = some q.logicalTableName) added bundle.routeRules := by
  obtain ⟨added, hrows, hadded, -⟩ := insertAll_ok hs.routeRules
  refine ⟨added, hs.splitBy_isOwn hdb hrows hdb.ruleTable fun r hr => ?_,
    hadded.forall₂.imp fun r record => ?_⟩
  · obtain ⟨record, k, m, hk, rfl⟩ := exists_record_of_added hadded hr
    exact hs.exists_marked_table hmarked hk
  · rintro ⟨g, m, hg, rfl⟩
    obtain ⟨k, hk, rfl⟩ := map_eq_ok.1 hg
    exact ⟨⟨rfl, rfl, rfl, rfl, rfl⟩, hs.tableNameOf_objectId hdb hk⟩

theorem Synced.splitBy_physicalRoutes (hmarked : bundle.Marked) :
    ∃ added, SplitBy (fun r : PhysicalTableRoute => db'.isOwn r.logicalTableId)
        db'.physicalRoutes.rows (db.physicalRoutes.rows.filter fun r => db.isOwn r.logicalTableId)
        added ∧
      List.Forall₂ (fun r q => RouteStored r q ∧
        db'.tableNameOf r.logicalTableId = some q.logicalTableName ∧
        db'.datasourceCodeOf r.datasourceId = some q.datasourceCode) added
          bundle.physicalRoutes := by
  obtain ⟨added, hrows, hadded, -⟩ := insertAll_ok hs.physicalRoutes
  refine ⟨added, hs.splitBy_isOwn hdb hrows hdb.routeTable fun r hr => ?_,
    hadded.forall₂.imp fun r record => ?_⟩
  · obtain ⟨record, j, k, m, hj, -, rfl⟩ := exists_record_of_route hadded hr
    exact hs.exists_marked_table hmarked hj
  · rintro ⟨g, m, hg, rfl⟩
    obtain ⟨j, hj, hg⟩ := bind_eq_ok.1 hg
    obtain ⟨k, hk, hg⟩ := bind_eq_ok.1 hg
    injection hg with hg
    subst hg
    exact ⟨⟨rfl, rfl, rfl, rfl⟩, hs.tableNameOf_objectId hdb hj,
      hs.datasourceCodeOf_objectId hdb hk⟩

/-- What stays. -/
theorem Synced.frame (hmarked : bundle.Marked)
    (hpolicies : ∃ added, db'.policies.rows = db.policies.rows ++ added) : ImportFrame
    db db' where
  policies := hpolicies
  datasources := (hs.splitBy_datasources hdb hmarked).elim fun _ h => h.1.filter_eq
  logicalTables := (hs.splitBy_logicalTables hdb hmarked).elim fun _ h => h.1.filter_eq
  routeFactors := (hs.splitBy_routeFactors hdb hmarked).elim fun _ h => h.1.filter_eq
  routeRules := (hs.splitBy_routeRules hdb hmarked).elim fun _ h => h.1.filter_eq
  physicalRoutes := (hs.splitBy_physicalRoutes hdb hmarked).elim fun _ h => h.1.filter_eq
  statsSnapshots := hs.statsSnapshots
  auditLogs := hs.auditLogs

/-- What was made is the bundle. -/
theorem Synced.importIs (hmarked : bundle.Marked) : ImportIs db' bundle := by
  obtain ⟨datasources, hdatasources, hstored⟩ := hs.splitBy_datasources hdb hmarked
  obtain ⟨tables, htables, htablesStored⟩ := hs.splitBy_logicalTables hdb hmarked
  obtain ⟨factors, hfactors, hfactorsStored⟩ := hs.splitBy_routeFactors hdb hmarked
  obtain ⟨rules, hrules, hrulesStored⟩ := hs.splitBy_routeRules hdb hmarked
  obtain ⟨routes, hroutes, hroutesStored⟩ := hs.splitBy_physicalRoutes hdb hmarked
  have hdatasources' := hdatasources.filter_not_eq
  have htables' := htables.filter_not_eq
  simp only [Bool.not_not] at hdatasources' htables'
  constructor
  case datasources => exact ⟨_, List.Perm.refl _, hdatasources'.symm ▸ hstored⟩
  case logicalTables => exact ⟨_, List.Perm.refl _, htables'.symm ▸ htablesStored⟩
  case routeFactors => exact ⟨_, List.Perm.refl _,
    hfactors.filter_not_eq.symm ▸ hfactorsStored⟩
  case routeRules => exact ⟨_, List.Perm.refl _, hrules.filter_not_eq.symm ▸ hrulesStored⟩
  case physicalRoutes => exact ⟨_, List.Perm.refl _,
    hroutes.filter_not_eq.symm ▸ hroutesStored⟩

end Import

/-! ## Records without generated ids -/

/-- The rows of the metadata without generated ids; a reference is the name behind it. -/
@[ext] structure Records where
  datasources : List DatasourceInstance
  logicalTables : List LogicalTable
  routeFactors : List (Option Str × RouteFactorDef)
  routeRules : List (Option Str × RouteRule)
  physicalRoutes : List (Option Str × Option Str × PhysicalTableRoute)
  policies : List PolicySet
  statsSnapshots : List (Option Str × TableStatsSnapshot)
  auditLogs : List RequestAuditLog

namespace Metadata

variable (db : Metadata)

def factorRecord (f : RouteFactorDef) : Option Str × RouteFactorDef :=
  (db.tableNameOf f.logicalTableId, { f with id := 0, logicalTableId := 0 })

def ruleRecord (r : RouteRule) : Option Str × RouteRule :=
  (db.tableNameOf r.logicalTableId, { r with id := 0, logicalTableId := 0 })

def routeRecord (r : PhysicalTableRoute) : Option Str × Option Str × PhysicalTableRoute :=
  (db.tableNameOf r.logicalTableId, db.datasourceCodeOf r.datasourceId,
    { r with id := 0, logicalTableId := 0, datasourceId := 0 })

def snapshotRecord (s : TableStatsSnapshot) : Option Str × TableStatsSnapshot :=
  (db.datasourceCodeOf s.datasourceId, { s with id := 0, datasourceId := 0 })

def records : Records where
  datasources := db.datasources.rows.map ({ · with id := 0 })
  logicalTables := db.logicalTables.rows.map ({ · with id := 0 })
  routeFactors := db.routeFactors.rows.map db.factorRecord
  routeRules := db.routeRules.rows.map db.ruleRecord
  physicalRoutes := db.physicalRoutes.rows.map db.routeRecord
  policies := db.policies.rows.map ({ · with id := 0 })
  statsSnapshots := db.statsSnapshots.rows.map db.snapshotRecord
  auditLogs := db.auditLogs.rows.map ({ · with id := 0 })

end Metadata

/-- Rows that were made of records, in a view that does not see their ids. -/
theorem Added.map_eq {σ ρ α : Type} {make : σ → Except PyError (Nat → ρ)} {n : Nat}
    {records : List σ} {added : List ρ} (h : Added make n records added) {view : ρ → α}
    {viewOf : σ → α}
    (hview : ∀ record row, make record = .ok row → ∀ m, view (row m) = viewOf record) :
    added.map view = records.map viewOf := by
  induction h with
  | nil => rfl
  | cons hrow _ ih => rw [List.map_cons, List.map_cons, ih, hview _ _ hrow]

section Resync

variable {db db' : Metadata} {bundle : SyncBundle} (hs : Synced db bundle db')
  (hdb : db.Constraints)

include hs hdb

/-- The name behind a reference to a table that stays. -/
theorem Synced.tableNameOf_kept {id : Nat} (hid : ∃ t ∈ db.logicalTables.rows, t.id = id)
    (hown : db.isOwn id = true) : db'.tableNameOf id = db.tableNameOf id := by
  obtain ⟨t, ht, rfl⟩ := hid
  have hkept : t.id ∉ db.importedLogicalIds := of_decide_eq_true hown
  rw [Metadata.tableNameOf, Metadata.tableNameOf, hdb.logicalTableById_eq ht,
    (hs.constraints hdb).logicalTableById_eq (hs.mem_logicalTables ht hkept)]

/-- The code behind a reference to a datasource that stays. -/
theorem Synced.datasourceCodeOf_kept {id : Nat} (hid : ∃ d ∈ db.datasources.rows, d.id = id)
    (hkept : id ∉ db.importedDatasourceIds) : db'.datasourceCodeOf id =
    db.datasourceCodeOf id := by
  obtain ⟨d, hd, rfl⟩ := hid
  rw [Metadata.datasourceCodeOf, Metadata.datasourceCodeOf, hdb.datasourceById_eq hd,
    (hs.constraints hdb).datasourceById_eq (hs.mem_datasources hd hkept)]

theorem Synced.factorRecord_kept : ∀ f ∈ db.routeFactors.rows.filter
    (fun f => db.isOwn f.logicalTableId), db'.factorRecord f = db.factorRecord f := by
  intro f hf
  obtain ⟨hmem, hown⟩ := List.mem_filter.1 hf
  rw [Metadata.factorRecord, hs.tableNameOf_kept hdb (hdb.factorTable f hmem) hown]
  rfl

theorem Synced.ruleRecord_kept : ∀ r ∈ db.routeRules.rows.filter
    (fun r => db.isOwn r.logicalTableId), db'.ruleRecord r = db.ruleRecord r := by
  intro r hr
  obtain ⟨hmem, hown⟩ := List.mem_filter.1 hr
  rw [Metadata.ruleRecord, hs.tableNameOf_kept hdb (hdb.ruleTable r hmem) hown]
  rfl

theorem Synced.routeRecord_kept : ∀ r ∈ db.physicalRoutes.rows.filter
    (fun r => db.isOwn r.logicalTableId), db'.routeRecord r = db.routeRecord r := by
  intro r hr
  obtain ⟨hmem, hown⟩ := List.mem_filter.1 hr
  rw [Metadata.routeRecord, hs.tableNameOf_kept hdb (hdb.routeTable r hmem) hown,
    hs.datasourceCodeOf_kept hdb (hdb.routeDatasource r hmem)
      (hs.routesKept r hmem (of_decide_eq_true hown))]
  rfl

theorem Synced.records_datasources : db'.records.datasources =
    (db.datasources.rows.filter fun d => !isImported d.extra).map ({ · with id := 0 }) ++
      bundle.datasources.map (·.row 0) := by
  obtain ⟨datasources, hdatasources, hadded, -⟩ := insertAll_ok hs.datasources
  change db'.datasources.rows.map ({ · with id := 0 }) = _
  rw [hdatasources, delete_datasources_rows hdb, List.map_append]
  congr 1
  exact hadded.map_eq fun record row hrow m => by rw [← Except.ok.inj hrow]; rfl

theorem Synced.records_logicalTables : db'.records.logicalTables =
    (db.logicalTables.rows.filter fun t => !isImported t.extra).map ({ · with id := 0 }) ++
      bundle.logicalTables.map (·.row 0) := by
  obtain ⟨tables, htables, hadded⟩ := hs.exists_logicalTables
  change db'.logicalTables.rows.map ({ · with id := 0 }) = _
  rw [htables, delete_logicalTables_rows hdb, List.map_append]
  congr 1
  exact hadded.map_eq fun record row hrow m => by rw [← Except.ok.inj hrow]; rfl

theorem Synced.records_routeFactors : db'.records.routeFactors =
    (db.routeFactors.rows.filter fun f => db.isOwn f.logicalTableId).map db.factorRecord ++
      bundle.routeFactors.map fun q => (some q.logicalTableName, q.row 0 0) := by
  obtain ⟨factors, hfactors, hadded, -⟩ := insertAll_ok hs.routeFactors
  change db'.routeFactors.rows.map db'.factorRecord = _
  rw [hfactors, delete_own db db.routeFactors (·.logicalTableId),
    List.map_append, List.map_congr_left (hs.factorRecord_kept hdb)]
  congr 1
  refine hadded.map_eq fun record row hrow m => ?_
  obtain ⟨k, hk, rfl⟩ := map_eq_ok.1 hrow
  rw [Metadata.factorRecord, show (record.row k m).logicalTableId = k from rfl,
    hs.tableNameOf_objectId hdb hk]
  rfl

theorem Synced.records_routeRules : db'.records.routeRules =
    (db.routeRules.rows.filter fun r => db.isOwn r.logicalTableId).map db.ruleRecord ++
      bundle.routeRules.map fun q => (some q.logicalTableName, q.row 0 0) := by
  obtain ⟨rules, hrules, hadded, -⟩ := insertAll_ok hs.routeRules
  change db'.routeRules.rows.map db'.ruleRecord = _
  rw [hrules, delete_own db db.routeRules (·.logicalTableId),
    List.map_append, List.map_congr_left (hs.ruleRecord_kept hdb)]
  congr 1
  refine hadded.map_eq fun record row hrow m => ?_
  obtain ⟨k, hk, rfl⟩ := map_eq_ok.1 hrow
  rw [Metadata.ruleRecord, show (record.row k m).logicalTableId = k from rfl,
    hs.tableNameOf_objectId hdb hk]
  rfl

theorem Synced.records_physicalRoutes : db'.records.physicalRoutes =
    (db.physicalRoutes.rows.filter fun r => db.isOwn r.logicalTableId).map db.routeRecord ++
      bundle.physicalRoutes.map fun q =>
        (some q.logicalTableName, some q.datasourceCode, q.row 0 0 0) := by
  obtain ⟨routes, hroutes, hadded, -⟩ := insertAll_ok hs.physicalRoutes
  change db'.physicalRoutes.rows.map db'.routeRecord = _
  rw [hroutes, delete_own db db.physicalRoutes (·.logicalTableId),
    List.map_append, List.map_congr_left (hs.routeRecord_kept hdb)]
  congr 1
  refine hadded.map_eq fun record row hrow m => ?_
  obtain ⟨j, hj, hrow⟩ := bind_eq_ok.1 hrow
  obtain ⟨k, hk, hrow⟩ := bind_eq_ok.1 hrow
  injection hrow with hrow
  subst hrow
  rw [Metadata.routeRecord, show (record.row j k m).logicalTableId = j from rfl,
    show (record.row j k m).datasourceId = k from rfl, hs.tableNameOf_objectId hdb hj,
    hs.datasourceCodeOf_objectId hdb hk]
  rfl

theorem Synced.records_statsSnapshots :
    db'.records.statsSnapshots = db.records.statsSnapshots := by
  change db'.statsSnapshots.rows.map db'.snapshotRecord = db.statsSnapshots.rows.map _
  rw [hs.statsSnapshots]
  refine List.map_congr_left fun s hmem => ?_
  rw [Metadata.snapshotRecord, hs.datasourceCodeOf_kept hdb (hdb.statsDatasource s hmem)
    (hs.snapshotsKept s hmem)]
  rfl

end Resync

/-! ## The import after an import -/

/-- The policies after an import are those before it, with the default policy. -/
theorem policies_of_ok {db db' : Metadata} {bundle : SyncBundle}
    (h : syncBundleToLocal db bundle = .ok db') :
    ensureDefaultPolicy db = .ok { db with policies := db'.policies } := by
  obtain ⟨db1, hpolicy, h⟩ := bind_eq_ok.1 h
  obtain ⟨policies, rfl, -⟩ := ensureDefaultPolicy_ok hpolicy
  rw [hpolicy]
  obtain ⟨db2, hdelete, h⟩ := bind_eq_ok.1 h
  rw [deletePreviousImport] at hdelete
  split at hdelete
  · exact absurd hdelete (by simp)
  injection hdelete with hdelete
  subst hdelete
  obtain ⟨datasources, -, h⟩ := bind_eq_ok.1 h
  obtain ⟨logicalTables, -, h⟩ := bind_eq_ok.1 h
  obtain ⟨routeFactors, -, h⟩ := bind_eq_ok.1 h
  obtain ⟨routeRules, -, h⟩ := bind_eq_ok.1 h
  obtain ⟨physicalRoutes, -, h⟩ := bind_eq_ok.1 h
  injection h with h
  subst h
  rfl

/-- Existing policies stay. -/
theorem exists_policies_of_ok {db db' : Metadata} {bundle : SyncBundle}
    (h : syncBundleToLocal db bundle = .ok db') :
    ∃ added, db'.policies.rows = db.policies.rows ++ added := by
  obtain ⟨o, -, ho⟩ := bind_eq_ok.1 (policies_of_ok h)
  cases o with
  | some p =>
    injection ho with ho
    exact ⟨[], by rw [List.append_nil, congrArg (·.policies.rows) ho]⟩
  | none =>
    injection ho with ho
    exact ⟨_, (congrArg (·.policies.rows) ho).symm⟩

/-- Where the default policy was ensured it is found again. -/
theorem ensureDefaultPolicy_again {db db' db'' : Metadata} (h : ensureDefaultPolicy db = .ok db')
    (hpolicies : db''.policies = db'.policies) : ensureDefaultPolicy db'' = .ok db'' := by
  obtain ⟨o, ho, h⟩ := bind_eq_ok.1 h
  have hfound : ∃ p, oneOrNone PyError.multipleResultsFound (db''.policies.rows.filter
      fun r => r.policyCode = SpyTableConfigSync.defaultPolicyCode) = .ok (some p) := by
    cases o with
    | some p =>
      injection h with h
      exact ⟨p, by rw [hpolicies, ← h, ho]⟩
    | none =>
      injection h with h
      rw [hpolicies, ← h, Table.insert_rows, List.filter_append, oneOrNone_eq_none.1 ho]
      exact ⟨_, rfl⟩
  obtain ⟨p, hp⟩ := hfound
  rw [ensureDefaultPolicy, hp]
  rfl

/-- A second import leaves the records that it leaves without the first. -/
theorem records_resync {db db₁ db₁₂ db₂ : Metadata} {bundle₁ bundle₂ : SyncBundle}
    (hdb : db.Constraints) (hmarked : bundle₁.Marked)
    (h₁ : syncBundleToLocal db bundle₁ = .ok db₁)
    (h₁₂ : syncBundleToLocal db₁ bundle₂ = .ok db₁₂)
    (h₂ : syncBundleToLocal db bundle₂ = .ok db₂) : db₁₂.records = db₂.records := by
  have hs₁ := synced_of_ok h₁
  have hs₁₂ := synced_of_ok h₁₂
  have hs₂ := synced_of_ok h₂
  have hdb₁ := hs₁.constraints hdb
  have hframe := hs₁.frame hdb hmarked (exists_policies_of_ok h₁)
  apply Records.ext
  · rw [hs₁₂.records_datasources hdb₁, hs₂.records_datasources hdb, hframe.datasources]
  · rw [hs₁₂.records_logicalTables hdb₁, hs₂.records_logicalTables hdb,
      hframe.logicalTables]
  · rw [hs₁₂.records_routeFactors hdb₁, hs₂.records_routeFactors hdb, hframe.routeFactors,
      List.map_congr_left (hs₁.factorRecord_kept hdb)]
  · rw [hs₁₂.records_routeRules hdb₁, hs₂.records_routeRules hdb, hframe.routeRules,
      List.map_congr_left (hs₁.ruleRecord_kept hdb)]
  · rw [hs₁₂.records_physicalRoutes hdb₁, hs₂.records_physicalRoutes hdb,
      hframe.physicalRoutes, List.map_congr_left (hs₁.routeRecord_kept hdb)]
  · have hagain : ensureDefaultPolicy db₁ = .ok db₁ :=
      ensureDefaultPolicy_again (policies_of_ok h₁) rfl
    have heq₁₂ := (policies_of_ok h₁₂).symm.trans hagain
    have heq₂ := (policies_of_ok h₂).symm.trans (policies_of_ok h₁)
    injection heq₁₂ with heq₁₂
    injection heq₂ with heq₂
    have hpolicies : db₁₂.policies = db₂.policies :=
      (congrArg Metadata.policies heq₁₂).trans (congrArg Metadata.policies heq₂).symm
    exact congrArg (fun t : Table PolicySet => t.rows.map ({ · with id := 0 })) hpolicies
  · rw [hs₁₂.records_statsSnapshots hdb₁, hs₁.records_statsSnapshots hdb,
      hs₂.records_statsSnapshots hdb]
  · have hlogs : db₁₂.auditLogs = db₂.auditLogs :=
      hs₁₂.auditLogs.trans (hs₁.auditLogs.trans hs₂.auditLogs.symm)
    exact congrArg (fun t : Table RequestAuditLog => t.rows.map ({ · with id := 0 })) hlogs

/-- The metadata behind a session: what it commits, or, rolled back, what it began with. -/
def afterSession (session : Metadata → Except PyError Metadata) (db : Metadata) : Metadata :=
  match session db with
  | .ok db' => db'
  | .error _ => db

/-- What importing again is to do. -/
structure ReplacesImport (rt : Runtime) (db : Metadata) : Prop where
  resync : ∀ rows₁ target₁ rows₂ target₂ bundle₁ bundle₂ db₁ db₁₂ db₂,
    buildSyncBundle rt rows₁ target₁ = .ok bundle₁ →
    buildSyncBundle rt rows₂ target₂ = .ok bundle₂ →
    syncBundleToLocal db bundle₁ = .ok db₁ → syncBundleToLocal db₁ bundle₂ =
      .ok db₁₂ →
    syncBundleToLocal db bundle₂ = .ok db₂ → db₁₂.records = db₂.records
  importIs : ∀ rows target bundle db', buildSyncBundle rt rows target = .ok bundle →
    syncBundleToLocal db bundle = .ok db' → ImportIs db' bundle
  frame : ∀ rows target bundle db', buildSyncBundle rt rows target = .ok bundle →
    syncBundleToLocal db bundle = .ok db' → ImportFrame db db'
  rolledBack : ∀ bundle e, syncBundleToLocal db bundle = .error e →
    afterSession (syncBundleToLocal · bundle) db = db

/-- An import replaces exactly the import before it. -/
theorem sync_replacesImport (rt : Runtime) {db : Metadata} (hdb : db.Constraints) :
    ReplacesImport rt db where
  resync rows₁ target₁ rows₂ target₂ bundle₁ bundle₂ db₁ db₁₂ db₂ hbundle₁ _
    h₁ h₁₂ h₂ :=
    records_resync hdb (marked_of_ok hbundle₁) h₁ h₁₂ h₂
  importIs rows target bundle db' hbundle h :=
    (synced_of_ok h).importIs hdb (marked_of_ok hbundle)
  frame rows target bundle db' hbundle h :=
    (synced_of_ok h).frame hdb (marked_of_ok hbundle) (exists_policies_of_ok h)
  rolledBack bundle e h := by
    rw [afterSession, h]

/-- A table in two shards is imported, and then, in its place, one of two sources. -/
theorem sync_replacesImport_example :
    ∃ shards sources db₁ db₁₂ db₂,
      buildSyncBundle asciiRuntime [⟨"s", "c", "t", 0, 1, 2⟩] exampleTarget = .ok shards ∧
      buildSyncBundle asciiRuntime [⟨"a", "c", "u", 0, 0, 0⟩, ⟨"b", "c", "u", 0, 0, 0⟩]
        exampleTarget = .ok sources ∧
      syncBundleToLocal exampleMetadata shards = .ok db₁ ∧
      syncBundleToLocal db₁ sources = .ok db₁₂ ∧
      syncBundleToLocal exampleMetadata sources = .ok db₂ ∧
      db₁₂.records = db₂.records ∧ ImportIs db₁₂ sources ∧
        ImportFrame db₁ db₁₂ := by
  have hrun : ((buildSyncBundle asciiRuntime [⟨"s", "c", "t", 0, 1, 2⟩] exampleTarget).bind
      fun shards => (buildSyncBundle asciiRuntime [⟨"a", "c", "u", 0, 0, 0⟩,
        ⟨"b", "c", "u", 0, 0, 0⟩] exampleTarget).bind fun sources =>
          (syncBundleToLocal exampleMetadata shards).bind fun db₁ =>
            (syncBundleToLocal db₁ sources).bind fun _ =>
              (syncBundleToLocal exampleMetadata sources).map fun _ => ()) = .ok () := by
    decide +kernel
  obtain ⟨shards, hshards, hrun⟩ := bind_eq_ok.1 hrun
  obtain ⟨sources, hsources, hrun⟩ := bind_eq_ok.1 hrun
  obtain ⟨db₁, h₁, hrun⟩ := bind_eq_ok.1 hrun
  obtain ⟨db₁₂, h₁₂, hrun⟩ := bind_eq_ok.1 hrun
  obtain ⟨db₂, h₂, -⟩ := map_eq_ok.1 hrun
  have hdb₁ := (synced_of_ok h₁).constraints exampleMetadata_constraints
  have hfirst := sync_replacesImport asciiRuntime exampleMetadata_constraints
  have hagain := sync_replacesImport asciiRuntime hdb₁
  exact ⟨shards, sources, db₁, db₁₂, db₂, hshards, hsources, h₁, h₁₂, h₂,
    hfirst.resync _ _ _ _ shards sources db₁ db₁₂ db₂ hshards hsources h₁ h₁₂ h₂,
    hagain.importIs _ _ sources db₁₂ hsources h₁₂,
      hagain.frame _ _ sources db₁₂ hsources h₁₂⟩

end SqlGatekeeper
