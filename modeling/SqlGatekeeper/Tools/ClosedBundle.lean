import SqlGatekeeper.Tools.ImportedRouting
import SqlGatekeeper.Tools.RouteOrigins

/-!
# Bundles are closed

What holds of the lists of a bundle together, for every list of rows that is accepted.

* `SyncBundle.Closed`: names and codes are distinct, and every record refers to one of them.
* `SyncBundle.Evaluable`: a logical table has one rule, and the rule reads the table's factor.
* `SyncBundle.CountsRows`: every row is counted once.
* `buildSyncBundle_closed`: an accepted list of rows gives such a bundle, and writing it never
  misses a reference.
-/

namespace SqlGatekeeper

open Py Store

/-! ## What is said of a bundle -/

/-- The names of the logical tables. -/
def SyncBundle.tableNames (bundle : SyncBundle) : List Str := bundle.logicalTables.map
    (·.tableName)

/-- The codes of the datasources. -/
def SyncBundle.datasourceCodes (bundle : SyncBundle) : List Str :=
  bundle.datasources.map (·.datasourceCode)

/-- Names and codes are distinct, and what refers to one of them finds it. -/
structure SyncBundle.Closed (bundle : SyncBundle) : Prop where
  tableNames : bundle.tableNames.Nodup
  datasourceCodes : bundle.datasourceCodes.Nodup
  routeFactors : ∀ f ∈ bundle.routeFactors, f.logicalTableName ∈ bundle.tableNames
  routeRules : ∀ r ∈ bundle.routeRules, r.logicalTableName ∈ bundle.tableNames
  physicalRoutes : ∀ r ∈ bundle.physicalRoutes,
    r.logicalTableName ∈ bundle.tableNames ∧ r.datasourceCode ∈ bundle.datasourceCodes

/-- A logical table has exactly one rule and at most one factor, and what the rule's expression
reads is that factor. -/
def SyncBundle.Evaluable (bundle : SyncBundle) (name : Str) : Prop :=
  ∃ (rule : RouteRuleRecord) (factor : Option RouteFactorRecord) (expression : Expr),
    (bundle.routeRules.filter fun r => decide (r.logicalTableName = name)) = [rule] ∧
    (bundle.routeFactors.filter fun f => decide (f.logicalTableName = name)) = factor.toList ∧
    parseExpr rule.expression = some expression ∧
    expression.freeNames = factor.toList.map (·.factorName)

/-- The rows that the logical tables count and those that were skipped are all. -/
def SyncBundle.CountsRows (bundle : SyncBundle) (rows : List TableConfigRow) : Prop :=
  ∃ counts : List Nat, List.Forall₂ (fun (table : LogicalTableRecord) (count : Nat) =>
      table.extra.get "row_count_in_table_config" = .int count) bundle.logicalTables counts ∧
    bundle.skippedRows + counts.sum = rows.length

/-! ## The first loop -/

section Collected

variable {U : UnicodeData} {target : ImportedDatasourceTarget}

theorem nodup_setDefault {α : Type} {key : Str} {value : α} {d : List (Str × α)}
    (h : (d.map Prod.fst).Nodup) : ((setDefault key value d).map Prod.fst).Nodup := by
  rw [setDefault]
  split
  · exact h
  · rename_i hkey
    rw [List.map_append, List.map_singleton]
    refine List.nodup_append'.2 ⟨h, List.nodup_singleton _, ?_⟩
    rw [List.disjoint_singleton]
    intro hmem
    obtain ⟨e, he, heq⟩ := List.mem_map.1 hmem
    exact hkey (List.lookup_isSome_iff.2 ⟨e, he, by simpa using heq.symm⟩)

theorem nodup_datasourceMap (rows : List TableConfigRow) {groups : RowGroups}
    (h : (groups.datasourceMap.map Prod.fst).Nodup) :
    ((rows.foldl (collectRow U target) groups).datasourceMap.map Prod.fst).Nodup := by
  induction rows generalizing groups with
  | nil => exact h
  | cons row rows ih =>
    refine ih ?_
    rw [collectRow]
    split
    · exact h
    · exact nodup_setDefault h

/-- Each row is skipped or kept. -/
theorem skippedRows_foldl (rows : List TableConfigRow) (groups : RowGroups) :
    (rows.foldl (collectRow U target) groups).skippedRows + (keptRows rows).length =
      groups.skippedRows + rows.length := by
  induction rows generalizing groups with
  | nil => rfl
  | cons row rows ih =>
    have hrest := ih (collectRow U target groups row)
    rw [List.foldl_cons, keptRows, List.filterMap_cons, normalizeRow, List.length_cons]
    rw [keptRows] at hrest
    by_cases hname : strip row.tableName = []
    · have hskip : (collectRow U target groups row).skippedRows = groups.skippedRows + 1 := by
        rw [collectRow, if_pos hname]
      simp only [hname, if_true]
      omega
    · have hkeep : (collectRow U target groups row).skippedRows = groups.skippedRows := by
        rw [collectRow, if_neg hname]
      simp only [hname, if_false, List.length_cons]
      omega

end Collected

/-! ## References -/

section References

variable {rt : Runtime} {rows : List TableConfigRow} {target : ImportedDatasourceTarget}
  {bundle : SyncBundle}

/-- What the first loop collected is in the bundle. -/
theorem collected_of_ok (h : buildSyncBundle rt rows target = .ok bundle) :
    let groups := rows.foldl (collectRow rt.toUnicodeData target) ⟨[], [], 0⟩
    bundle.skippedRows = groups.skippedRows ∧
      bundle.datasources.Perm (groups.datasourceMap.map Prod.snd) := by
  obtain ⟨records, -, hbundle⟩ := bind_eq_ok.1 h
  injection hbundle with hbundle
  subst hbundle
  exact ⟨rfl, List.perm_insertionSort _ _⟩

theorem nodup_datasourceCodes (h : buildSyncBundle rt rows target = .ok bundle) :
    bundle.datasourceCodes.Nodup := by
  obtain ⟨-, hperm⟩ := collected_of_ok h
  have hall : DatasourcesCollected rt.toUnicodeData ([] ++ keptRows rows)
      (rows.foldl (collectRow rt.toUnicodeData target) ⟨[], [], 0⟩).datasourceMap :=
    DatasourcesCollected.foldl ⟨by simp, by simp⟩
  have hnone : (([] : List (Str × DatasourceRecord)).map Prod.fst).Nodup := List.nodup_nil
  have hkeys : ((rows.foldl (collectRow rt.toUnicodeData target) ⟨[], [], 0⟩).datasourceMap.map
      Prod.fst).Nodup := nodup_datasourceMap rows hnone
  have hcodes : ((rows.foldl (collectRow rt.toUnicodeData target) ⟨[], [], 0⟩).datasourceMap.map
      Prod.snd).map (·.datasourceCode) =
      (rows.foldl (collectRow rt.toUnicodeData target) ⟨[], [], 0⟩).datasourceMap.map
        Prod.fst := by
    rw [List.map_map]
    exact List.map_congr_left fun e he => (hall.record e he).1
  rw [SyncBundle.datasourceCodes, (hperm.map _).nodup_iff, hcodes]
  exact hkeys

/-- Every reference of an accepted bundle is found. -/
theorem closed_of_ok (h : buildSyncBundle rt rows target = .ok bundle) : bundle.Closed := by
  have hnames : bundle.tableNames = (sortedGroups rt.toUnicodeData rows).map Prod.fst :=
    map_tableName_logicalTables h
  obtain ⟨records, hall, -, hfactors, hrules, -⟩ := buildSyncBundle_ok h
  refine ⟨hnames ▸ nodup_sortedGroups rows, nodup_datasourceCodes h, fun f hf => ?_, fun r hr =>
    ?_, fun route hroute => ?_⟩
  · rw [hfactors] at hf
    obtain ⟨s, hs, hfs⟩ := List.mem_filterMap.1 hf
    obtain ⟨g, hg, hbuilt⟩ := exists_of_forall₂_right hall hs
    have hname : f.logicalTableName = g.1 := logicalTableName_routeFactor f (by
      rw [← hbuilt.routeFactor, hfs]
      exact List.mem_singleton_self f)
    rw [hnames, hname]
    exact List.mem_map_of_mem hg
  · rw [hrules] at hr
    obtain ⟨s, hs, rfl⟩ := List.mem_map.1 hr
    obtain ⟨g, hg, hbuilt⟩ := exists_of_forall₂_right hall hs
    rw [hnames, logicalTableName_routeRule hbuilt.routeRule]
    exact List.mem_map_of_mem hg
  · obtain ⟨row, hrow, hof, -⟩ := arises_of_mem h hroute
    obtain ⟨q, hq, hcode, -⟩ := exists_datasource h hrow
    refine ⟨(mem_tableNames h).2 ⟨row, hrow, hof.logicalTableName.symm⟩, ?_⟩
    rw [hof.datasourceCode, ← hcode]
    exact List.mem_map_of_mem hq

/-! ## Rules -/

/-- The rule of a group reads its factor, and nothing else. -/
theorem exists_freeNames_routeRule {groupRows : List TableConfigRow} {name : Str}
    {rule : RouteRuleRecord} (h : routeRuleRecord groupRows rt name = .ok rule) :
    ∃ e, parseExpr rule.expression = some e ∧
      e.freeNames = (routeFactorRecord groupRows name).toList.map (·.factorName) := by
  rw [routeRuleRecord] at h
  rw [routeFactorRecord]
  by_cases hbusiness : supportsBusinessFactorRouting groupRows = true
  · rw [if_pos hbusiness] at h ⊢
    obtain ⟨modulus, hmodulus, h⟩ := bind_eq_ok.1 h
    injection h with h
    subst h
    rw [Runtime.strInt] at hmodulus
    split at hmodulus
    · injection hmodulus with hmodulus
      subst hmodulus
      have hpos : 0 < shardModulus groupRows := by
        rw [supportsBusinessFactorRouting, Bool.and_eq_true, Bool.and_eq_true,
          decide_eq_true_eq] at hbusiness
        exact hbusiness.1.2
      have htext : intText (shardModulus groupRows) = natText (shardModulus groupRows).natAbs :=
        if_neg (by omega)
      have hparse := parseExpr_strIntMod (x := businessShardFactor) (by decide)
        (shardModulus groupRows).natAbs
      rw [← htext] at hparse
      exact ⟨_, hparse, rfl⟩
    · exact absurd hmodulus (by simp)
  · rw [if_neg hbusiness] at h ⊢
    split at h
    · rename_i hsharded
      injection h with h
      subst h
      rw [if_pos hsharded]
      have hparse : parseExpr "str(int(route_suffix))" =
          some (.call "str" (.call "int" (.name "route_suffix"))) := by decide
      exact ⟨_, hparse, rfl⟩
    · rename_i hsharded
      rw [if_neg hsharded]
      split at h
      · rename_i hsource
        injection h with h
        subst h
        rw [if_pos hsource]
        have hparse : parseExpr "str(source_name)" = some (.call "str" (.name "source_name")) := by
          decide
        exact ⟨_, hparse, rfl⟩
      · rename_i hsource
        injection h with h
        subst h
        rw [if_neg hsource]
        have hparse : parseExpr "'0'" = some (.text "0") := by decide
        exact ⟨_, hparse, rfl⟩

/-- Every logical table of an accepted bundle has its rule. -/
theorem evaluable_of_ok (h : buildSyncBundle rt rows target = .ok bundle)
    {table : LogicalTableRecord} (htable : table ∈ bundle.logicalTables) : bundle.Evaluable
    table.tableName := by
  obtain ⟨records, -, -, hgroup, -⟩ := exists_groupOfTable h htable
  obtain ⟨e, hparse, hnames⟩ := exists_freeNames_routeRule hgroup.built.routeRule
  exact ⟨_, _, e, hgroup.routeRules, hgroup.routeFactors, hparse, hnames⟩

/-! ## Counts -/

/-- The logical tables count the rows that are kept. -/
theorem countsRows_of_ok (h : buildSyncBundle rt rows target =
    .ok bundle) : bundle.CountsRows rows := by
  obtain ⟨records, hall, htables, -⟩ := buildSyncBundle_ok h
  obtain ⟨hskipped, -⟩ := collected_of_ok h
  refine ⟨(sortedGroups rt.toUnicodeData rows).map fun g => g.2.length, ?_, ?_⟩
  · rw [htables, List.forall₂_map_left_iff, List.forall₂_map_right_iff]
    refine hall.flip.imp fun r g hg => ?_
    obtain ⟨sample, more, -, htable⟩ := hg.logicalTable
    rw [htable]
    rfl
  · have hsum : ((sortedGroups rt.toUnicodeData rows).map fun g => g.2.length).sum =
        (keptRows rows).length :=
      (((List.perm_insertionSort _ _).map _).sum_eq).trans (sum_length_groupBy _ _)
    rw [hsum, hskipped, skippedRows_foldl]
    exact Nat.zero_add _

end References

/-! ## Writing a closed bundle -/

section Writing

/-- The object of a record is found by its name. -/
theorem returns_objectId {σ : Type} {name : σ → Str} {records : List σ} {x : Str}
    (h : x ∈ records.map name) (id : Nat) : Returns
    (objectId (objectIds name records id []) x) := by
  have hlookup : ∀ {records : List σ} {id : Nat} {objects : List (Str × Nat)},
      x ∈ records.map name ∨ (objects.lookup x).isSome = true →
      ((objectIds name records id objects).lookup x).isSome = true := by
    intro records
    induction records with
    | nil => exact fun h => h.resolve_left List.not_mem_nil
    | cons record records ih =>
      intro id objects h
      refine ih ?_
      by_cases hx : x = name record
      · rw [hx, lookup_dictSet_self]
        exact Or.inr rfl
      · rw [lookup_dictSet_ne hx]
        exact h.imp_left fun h => (List.mem_cons.1 h).resolve_left hx
  have hsome : ((objectIds name records id []).lookup x).isSome = true := hlookup (Or.inl h)
  obtain ⟨k, hk⟩ := Option.isSome_iff_exists.1 hsome
  rw [objectId, hk]
  exact returns_ok k

/-- Rows that are written fail on a constraint, or on what a record refers to. -/
theorem insertAll_eq_error {σ ρ κ : Type} [DecidableEq κ] {key : ρ → κ}
    {make : σ → Except PyError (Nat → ρ)} {records : List σ} {table : Table ρ} {e : PyError}
    (h : insertAll key make records table = .error e) :
    e = .integrityError ∨ ∃ record ∈ records, make record = .error e := by
  induction records generalizing table with
  | nil => exact absurd h (by simp [insertAll])
  | cons record records ih =>
    rcases bind_eq_error.1 h with h | ⟨row, -, h⟩
    · exact Or.inr ⟨record, List.mem_cons_self, h⟩
    · split at h
      · injection h with h
        exact Or.inl h.symm
      · exact (ih h).imp_right fun ⟨r, hr, he⟩ => ⟨r, List.mem_cons_of_mem _ hr, he⟩

theorem insertAll_ne_keyError {σ ρ κ : Type} [DecidableEq κ] {key : ρ → κ}
    {make : σ → Except PyError (Nat → ρ)} {records : List σ}
    (hmake : ∀ record ∈ records, Returns (make record)) (table : Table ρ) :
    insertAll key make records table ≠ .error .keyError := by
  intro h
  rcases insertAll_eq_error h with h | ⟨record, hrecord, h⟩
  · exact absurd h (by simp)
  · exact (hmake record hrecord).ne_error _ h

/-- No lookup fails when a closed bundle is written. -/
theorem syncBundleToLocal_ne_keyError {bundle : SyncBundle} (hb : bundle.Closed) (db : Metadata) :
    syncBundleToLocal db bundle ≠ .error .keyError := by
  intro h
  rcases bind_eq_error.1 h with h | ⟨db1, -, h⟩
  · rw [ensureDefaultPolicy] at h
    rcases bind_eq_error.1 h with h | ⟨found, -, h⟩
    · exact absurd (oneOrNone_eq_error.1 h).1 (by simp)
    · cases found <;> exact absurd h (by simp [pure, Except.pure])
  rcases bind_eq_error.1 h with h | ⟨db2, -, h⟩
  · rw [deletePreviousImport] at h
    split at h
    · injection h with h
      exact absurd h (by simp)
    · exact absurd h (by simp)
  rcases bind_eq_error.1 h with h | ⟨datasources, -, h⟩
  · exact insertAll_ne_keyError (fun _ _ => returns_ok _) _ h
  rcases bind_eq_error.1 h with h | ⟨logicalTables, -, h⟩
  · exact insertAll_ne_keyError (fun _ _ => returns_ok _) _ h
  rcases bind_eq_error.1 h with h | ⟨routeFactors, -, h⟩
  · exact insertAll_ne_keyError
      (fun f hf => returns_map.2 (returns_objectId (hb.routeFactors f hf) _)) _ h
  rcases bind_eq_error.1 h with h | ⟨routeRules, -, h⟩
  · exact insertAll_ne_keyError
      (fun r hr => returns_map.2 (returns_objectId (hb.routeRules r hr) _)) _ h
  rcases bind_eq_error.1 h with h | ⟨physicalRoutes, -, h⟩
  · refine insertAll_ne_keyError (fun r hr => ?_) _ h
    obtain ⟨htable, hcode⟩ := hb.physicalRoutes r hr
    exact (returns_objectId htable _).bind fun _ _ => (returns_objectId hcode _).bind
      fun _ _ => returns_ok _
  · exact absurd h (by simp [pure, Except.pure])

end Writing

/-! ## Accepted rows -/

/-- What is imported is closed and can be evaluated: writing it misses no reference, every logical
table has its rule, and every row is counted. -/
theorem buildSyncBundle_closed {rt : Runtime} {rows : List TableConfigRow}
    {target : ImportedDatasourceTarget} {bundle : SyncBundle}
    (h : buildSyncBundle rt rows target = .ok bundle) :
    bundle.Closed ∧ (∀ db, syncBundleToLocal db bundle ≠ .error .keyError) ∧
      (∀ table ∈ bundle.logicalTables, bundle.Evaluable table.tableName) ∧
      bundle.CountsRows rows :=
  have hclosed := closed_of_ok h
  ⟨hclosed, syncBundleToLocal_ne_keyError hclosed, fun _ htable => evaluable_of_ok h htable,
    countsRows_of_ok h⟩

/-- A table in two shards, one of two sources, and a row without a table. -/
def mixedRows : List TableConfigRow :=
  [⟨"s", "c", "t", 0, 1, 2⟩, ⟨"a", "c", "u", 0, 0, 0⟩, ⟨"b", "c", "u", 0, 0, 0⟩,
    ⟨"s", "c", " ", 0, 0, 0⟩]

theorem buildSyncBundle_closed_mixedRows :
    ∃ bundle, buildSyncBundle asciiRuntime mixedRows exampleTarget = .ok bundle ∧
      (bundle.routeFactors.length = 2 ∧ bundle.physicalRoutes.length = 4 ∧
        bundle.skippedRows = 1) ∧
      bundle.Closed ∧ (∀ db, syncBundleToLocal db bundle ≠ .error .keyError) ∧
      (∀ table ∈ bundle.logicalTables, bundle.Evaluable table.tableName) ∧
      bundle.CountsRows mixedRows := by
  have hrun : (buildSyncBundle asciiRuntime mixedRows exampleTarget).map (fun bundle =>
      (bundle.routeFactors.length, bundle.physicalRoutes.length, bundle.skippedRows)) =
      .ok (2, 4, 1) := by decide +kernel
  obtain ⟨bundle, hbundle, hcounts⟩ := map_eq_ok.1 hrun
  obtain ⟨hfactors, hroutes, hskipped⟩ : _ = 2 ∧ _ = 4 ∧ _ = 1 := by simpa using hcounts
  exact ⟨bundle, hbundle, ⟨hfactors, hroutes, hskipped⟩, buildSyncBundle_closed hbundle⟩

end SqlGatekeeper
