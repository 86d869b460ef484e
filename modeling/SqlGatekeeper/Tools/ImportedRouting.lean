import SqlGatekeeper.Services.RowCoverage
import SqlGatekeeper.Tools.ImportedRoutes
import SqlGatekeeper.Tools.SyncedStore

/-!
# Routing over imported tables

Metadata that holds a bundle, and a statement `select * from L where c = v limit 1` over one of
its logical tables, with the column given in the context.

* `filter_groups`: the records of a bundle that belong to one group.
* `resolveTable_business`: a table with business routing goes by its rule.
* `routedByRemainder_iff`: it reaches the shard of `v mod m` exactly if Python reads `v`.
-/

namespace SqlGatekeeper

open Py Store Logic

section Held

variable {rt : Runtime} {rows : List TableConfigRow} {target : ImportedDatasourceTarget}
  {bundle : SyncBundle} {db : Metadata}

/-! ## Datasources -/

theorem mem_of_lookup {α : Type} {key : Str} {value : α} {d : List (Str × α)}
    (h : d.lookup key = some value) : (key, value) ∈ d := by
  obtain ⟨before, behind, rfl, -⟩ := List.lookup_eq_some_iff.1 h
  simp

/-- The dictionary has the datasources of the sources seen. -/
structure DatasourcesCollected (U : UnicodeData) (done : List TableConfigRow)
    (d : List (Str × DatasourceRecord)) : Prop where
  seen : ∀ row ∈ done, (d.lookup (makeDatasourceCode U row.sourceName)).isSome = true
  record : ∀ e ∈ d, e.2.datasourceCode = e.1 ∧ e.2.enabled = true

theorem lookup_setDefault {α : Type} {key key' : Str} {value : α} {d : List (Str × α)}
    (h : key' = key ∨ (d.lookup key').isSome = true) :
    ((setDefault key value d).lookup key').isSome = true := by
  rw [setDefault]
  split
  · rename_i hkey
    rcases h with rfl | h
    · exact hkey
    · exact h
  · rw [List.lookup_append, Option.isSome_or]
    rcases h with rfl | h
    · simp
    · rw [h, Bool.true_or]

theorem DatasourcesCollected.foldl {done : List TableConfigRow} {groups : RowGroups}
    (h : DatasourcesCollected rt.toUnicodeData done groups.datasourceMap) :
    DatasourcesCollected rt.toUnicodeData (done ++ keptRows rows)
      (rows.foldl (collectRow rt.toUnicodeData target) groups).datasourceMap := by
  induction rows generalizing done groups with
  | nil => simpa [keptRows] using h
  | cons row rows ih =>
    rw [List.foldl_cons]
    by_cases hname : strip row.tableName = []
    · have hkept : keptRows (row :: rows) = keptRows rows := by
        rw [keptRows, List.filterMap_cons, normalizeRow, if_pos hname]
        rfl
      rw [hkept]
      refine ih ?_
      rw [collectRow, if_pos hname]
      exact h
    · obtain ⟨kept, hnormal⟩ : ∃ kept, normalizeRow row = some kept := ⟨_, if_neg hname⟩
      have hsource : kept.sourceName = strip row.sourceName := by
        rw [normalizeRow, if_neg hname] at hnormal
        exact congrArg (·.sourceName) (Option.some.inj hnormal).symm
      have hkept : keptRows (row :: rows) = kept :: keptRows rows := by
        rw [keptRows, List.filterMap_cons, hnormal]
        rfl
      rw [hkept, ← List.singleton_append, ← List.append_assoc]
      refine ih ?_
      rw [collectRow, if_neg hname]
      refine ⟨fun r hr => lookup_setDefault ?_, fun e he => ?_⟩
      · rcases List.mem_append.1 hr with hr | hr
        · exact Or.inr (h.seen r hr)
        · rw [List.mem_singleton.1 hr, hsource]
          exact Or.inl rfl
      · have hmem : e ∈ setDefault (makeDatasourceCode rt.toUnicodeData (strip row.sourceName))
            (datasourceRecord rt.toUnicodeData target (strip row.sourceName))
            groups.datasourceMap := he
        rw [setDefault] at hmem
        split at hmem
        · exact h.record e hmem
        · rcases List.mem_append.1 hmem with hmem | hmem
          · exact h.record e hmem
          · rw [List.mem_singleton.1 hmem]
            exact ⟨rfl, rfl⟩

/-- The datasource of a row is in the bundle. -/
theorem exists_datasource (h : buildSyncBundle rt rows target = .ok bundle) {row : TableConfigRow}
    (hrow : row ∈ keptRows rows) :
    ∃ q ∈ bundle.datasources,
      q.datasourceCode = makeDatasourceCode rt.toUnicodeData row.sourceName ∧
        q.enabled = true := by
  obtain ⟨records, -, hbundle⟩ := bind_eq_ok.1 h
  injection hbundle with hbundle
  subst hbundle
  have hall : DatasourcesCollected rt.toUnicodeData ([] ++ keptRows rows)
      (rows.foldl (collectRow rt.toUnicodeData target) ⟨[], [], 0⟩).datasourceMap :=
    DatasourcesCollected.foldl ⟨by simp, by simp⟩
  obtain ⟨q, hq⟩ := Option.isSome_iff_exists.1 (hall.seen row (by simpa using hrow))
  have hmem := mem_of_lookup hq
  obtain ⟨hcode, henabled⟩ := hall.record _ hmem
  exact ⟨q, (List.perm_insertionSort _ _).mem_iff.2 (List.mem_map.2 ⟨_, hmem, rfl⟩),
    hcode, henabled⟩

/-! ## The records of a group -/

/-- Of what is made of all groups, the part that has the name of one group. -/
theorem filter_groups {α : Type} {groups : List (Str × List TableConfigRow)}
    {records : List GroupRecords} (f : GroupRecords → List α) (nameOf : α → Str)
    (hnames : List.Forall₂ (fun g r => ∀ x ∈ f r, nameOf x = g.1) groups records)
    (hnodup : (groups.map Prod.fst).Nodup) {i : Nat} (hi : i < groups.length)
    (hi' : i < records.length) :
    (records.flatMap f).filter (fun x => decide (nameOf x = groups[i].1)) = f records[i] := by
  have hnone : ∀ {name : Str} {groups : List (Str × List TableConfigRow)}
      {records : List GroupRecords},
      List.Forall₂ (fun g r => ∀ x ∈ f r, nameOf x = g.1) groups records →
      name ∉ groups.map Prod.fst →
      (records.flatMap f).filter (fun x => decide (nameOf x = name)) = [] := by
    intro name groups records hnames hname
    rw [List.filter_eq_nil_iff]
    intro x hx
    obtain ⟨r, hr, hxr⟩ := List.mem_flatMap.1 hx
    obtain ⟨g, hg, hgname⟩ := exists_of_forall₂_right hnames hr
    rw [decide_eq_true_eq]
    intro heq
    exact hname (List.mem_map.2 ⟨g, hg, (hgname x hxr).symm.trans heq⟩)
  have hself : ∀ {name : Str} {r : GroupRecords}, (∀ x ∈ f r, nameOf x = name) →
      (f r).filter (fun x => decide (nameOf x = name)) = f r := fun h =>
    List.filter_eq_self.2 fun x hx => decide_eq_true (h x hx)
  induction hnames generalizing i with
  | nil => exact absurd hi (by simp)
  | @cons g r groups records hg hrest ih =>
    rw [List.map_cons, List.nodup_cons] at hnodup
    rw [List.flatMap_cons, List.filter_append]
    cases i with
    | zero =>
      simp only [List.getElem_cons_zero]
      rw [hself hg, hnone hrest hnodup.1, List.append_nil]
    | succ i =>
      simp only [List.getElem_cons_succ]
      have hi2 : i < groups.length := by simpa using hi
      have hne : ∀ x ∈ f r, ¬ nameOf x = groups[i].1 := fun x hx heq =>
        hnodup.1 (List.mem_map.2 ⟨groups[i], List.getElem_mem hi2, heq.symm.trans (hg x hx)⟩)
      rw [List.filter_eq_nil_iff.2 fun x hx => by simpa using hne x hx, List.nil_append]
      exact ih hnodup.2 hi2 (by simpa using hi')

/-- The records of the group that a logical table was made from, picked out by its name. -/
structure GroupOfTable (rt : Runtime) (rows : List TableConfigRow) (bundle : SyncBundle)
    (name : Str) (records : GroupRecords) : Prop where
  built : GroupBuilt rt name (groupOf rt.toUnicodeData rows name) records
  routeFactors : (bundle.routeFactors.filter fun f => decide (f.logicalTableName = name)) =
    (routeFactorRecord (groupOf rt.toUnicodeData rows name) name).toList
  routeRules : (bundle.routeRules.filter fun r => decide (r.logicalTableName = name)) =
    [records.routeRule]
  physicalRoutes : (bundle.physicalRoutes.filter fun r => decide (r.logicalTableName = name)) =
    groupRoutes rt.toUnicodeData name (groupOf rt.toUnicodeData rows name)

theorem logicalTableName_routeFactor {groupRows : List TableConfigRow} {name : Str} :
    ∀ f ∈ (routeFactorRecord groupRows name).toList, f.logicalTableName = name := by
  intro f hf
  rw [routeFactorRecord] at hf
  split_ifs at hf
  · rw [List.mem_singleton.1 hf]
  · rw [List.mem_singleton.1 hf]
  · rw [List.mem_singleton.1 hf]
  · exact absurd hf (by simp)

theorem logicalTableName_routeRule {groupRows : List TableConfigRow} {name : Str}
    {rule : RouteRuleRecord} (h : routeRuleRecord groupRows rt name = .ok rule) :
    rule.logicalTableName = name := by
  rw [routeRuleRecord] at h
  split_ifs at h
  · obtain ⟨modulus, -, h⟩ := bind_eq_ok.1 h
    injection h with h
    rw [← h]
  all_goals
    injection h with h
    rw [← h]

theorem enabled_routeRule {groupRows : List TableConfigRow} {name : Str}
    {rule : RouteRuleRecord} (h : routeRuleRecord groupRows rt name = .ok rule) :
    rule.enabled = true := by
  rw [routeRuleRecord] at h
  split_ifs at h
  · obtain ⟨modulus, -, h⟩ := bind_eq_ok.1 h
    injection h with h
    rw [← h]
  all_goals
    injection h with h
    rw [← h]

/-- A logical table of a bundle and the records of its group. -/
theorem exists_groupOfTable (h : buildSyncBundle rt rows target = .ok bundle)
    {table : LogicalTableRecord} (htable : table ∈ bundle.logicalTables) :
    ∃ records sample more, GroupOfTable rt rows bundle table.tableName records ∧
      groupOf rt.toUnicodeData rows table.tableName = sample :: more ∧
      table = logicalTableRecord (groupOf rt.toUnicodeData rows table.tableName) table.tableName
        sample := by
  obtain ⟨records, hall, htables, hfactors, hrules, hroutes⟩ := buildSyncBundle_ok h
  rw [htables] at htable
  obtain ⟨r, hr, rfl⟩ := List.mem_map.1 htable
  obtain ⟨i, hi, rfl⟩ := List.mem_iff_getElem.1 hr
  have hi' : i < (sortedGroups rt.toUnicodeData rows).length := hall.length_eq.symm ▸ hi
  have hbuilt := (List.forall₂_iff_get.1 hall).2 i hi' hi
  have hnodup := nodup_sortedGroups (U := rt.toUnicodeData) rows
  obtain ⟨hgroup, -⟩ := mem_sortedGroups.1
    (List.get_mem (sortedGroups rt.toUnicodeData rows) ⟨i, hi'⟩)
  obtain ⟨sample, more, hsample, hrecord⟩ := hbuilt.logicalTable
  simp only [List.get_eq_getElem] at hbuilt hgroup hsample hrecord
  rw [hgroup] at hbuilt hsample hrecord
  have hname : records[i].logicalTable.tableName = (sortedGroups rt.toUnicodeData rows)[i].1 := by
    rw [hrecord]
    rfl
  rw [hname]
  refine ⟨records[i], sample, more, ⟨hbuilt, ?_, ?_, ?_⟩, hsample, hrecord⟩
  · rw [hfactors, ← hbuilt.routeFactor, ← filter_groups (fun r => r.routeFactor.toList)
      (·.logicalTableName) (hall.imp fun g r hg => by
        rw [hg.routeFactor]
        exact logicalTableName_routeFactor) hnodup hi' hi]
    congr 1
    rw [List.filterMap_eq_flatMap_toList]
  · rw [hrules, ← filter_groups (fun r => [r.routeRule])
      (·.logicalTableName) (hall.imp fun g r hg x hx => by
        rw [List.mem_singleton.1 hx]
        exact logicalTableName_routeRule hg.routeRule) hnodup hi' hi,
      List.map_eq_flatMap]
  · rw [hroutes, ← hbuilt.physicalRoutes, ← filter_groups (fun r => r.physicalRoutes)
      (·.logicalTableName) (hall.imp fun g r hg => by
        rw [hg.physicalRoutes]
        exact fun x hx => logicalTableName_of_mem hx) hnodup hi' hi]

/-! ## The metadata of a table -/

/-- A logical table that the metadata holds, and what its lookups find. -/
structure HeldGroup (db : Metadata) (t : LogicalTable) (name : Str) (group : List TableConfigRow)
    (U : UnicodeData) (rule : RouteRuleRecord) : Prop where
  enabledByName : db.getEnabledByName name = .ok (some t)
  factors : Corresponds FactorStored (db.listRequiredEnabledByLogicalTable t.id)
    (routeFactorRecord group name).toList
  rule : ∃ r, db.getEnabledByLogicalTable t.id = .ok (some r) ∧
    r.expression = rule.expression ∧ r.outputFormat = rule.outputFormat
  routes : Corresponds
    (fun r q => RouteStored r q ∧ datasourceCodeFromId db r.datasourceId = q.datasourceCode)
    (db.enabledRoutesOf t.id) (groupRoutes U name group)
  datasource : ∀ route ∈ groupRoutes U name group,
    ∃ d, db.getEnabledByCode route.datasourceCode = .ok (some d) ∧
      d.datasourceCode = route.datasourceCode

/-- What the metadata holds for a logical table of a bundle. -/
theorem exists_heldGroup (h : buildSyncBundle rt rows target = .ok bundle) (hdb : db.Constraints)
    (hheld : db.HoldsBundle bundle) {table : LogicalTableRecord}
    (htable : table ∈ bundle.logicalTables) {records : GroupRecords}
    (hrecords : GroupOfTable rt rows bundle table.tableName records)
    {sample : TableConfigRow} (hsample : table =
      logicalTableRecord (groupOf rt.toUnicodeData rows table.tableName) table.tableName sample) :
    ∃ t, HeldGroup db t table.tableName (groupOf rt.toUnicodeData rows table.tableName)
      rt.toUnicodeData records.routeRule := by
  obtain ⟨t, ht⟩ := hheld.logicalTables table htable
  have henabled : t.enabled = true := by
    rw [ht.stored.enabled, hsample]
    rfl
  refine ⟨t, ?_, ?_, ?_, ?_, ?_⟩
  · exact ht.stored.tableName ▸ hdb.getEnabledByName_of_mem ht.mem henabled
  · have hfactors := ht.routeFactors
    rw [hrecords.routeFactors] at hfactors
    have hrequired : ∀ f ∈ db.routeFactors.rows.filter fun f =>
        decide (f.logicalTableId = t.id), f.enabled = true ∧ f.required = true := by
      intro f hf
      obtain ⟨q, hq, hstored⟩ := hfactors.exists_record hf
      rw [hstored.enabled, hstored.required]
      rw [routeFactorRecord] at hq
      split_ifs at hq
      · rw [List.mem_singleton.1 hq]
        exact ⟨rfl, rfl⟩
      · rw [List.mem_singleton.1 hq]
        exact ⟨rfl, rfl⟩
      · rw [List.mem_singleton.1 hq]
        exact ⟨rfl, rfl⟩
      · exact absurd hq (by simp)
    have hlist : db.listRequiredEnabledByLogicalTable t.id =
        (db.routeFactors.rows.filter fun f => decide (f.logicalTableId = t.id)).filter
          fun f => decide (f.enabled = true ∧ f.required = true) := by
      rw [List.filter_filter, Metadata.listRequiredEnabledByLogicalTable]
      exact List.filter_congr fun f _ => by simp [Bool.and_comm]
    rw [hlist]
    exact hfactors.filter_true fun f hf => decide_eq_true (hrequired f hf)
  · have hrules := ht.routeRules
    rw [hrecords.routeRules] at hrules
    obtain ⟨r, hr, hstored⟩ := hrules.singleton
    have hone : db.routeRules.rows.filter (fun s => decide (s.logicalTableId = t.id ∧
        s.enabled = true)) = [r] := by
      have hsplit : db.routeRules.rows.filter
          (fun s => decide (s.logicalTableId = t.id ∧ s.enabled = true)) =
          (db.routeRules.rows.filter fun s => decide (s.logicalTableId = t.id)).filter
            fun s => decide (s.enabled = true) := by
        rw [List.filter_filter]
        exact List.filter_congr fun s _ => by simp [Bool.and_comm]
      have hrule : r.enabled = true := by
        rw [hstored.enabled, enabled_routeRule hrecords.built.routeRule]
      rw [hsplit, hr, List.filter_cons_of_pos (by simpa using hrule), List.filter_nil]
    exact ⟨r, oneOrNone_eq_some.2 hone, hstored.expression, hstored.outputFormat⟩
  · have hroutes := ht.physicalRoutes
    rw [hrecords.physicalRoutes] at hroutes
    have hlist : db.enabledRoutesOf t.id =
        (db.physicalRoutes.rows.filter fun r => decide (r.logicalTableId = t.id)).filter
          fun r => decide (r.enabled = true) := by
      rw [List.filter_filter, Metadata.enabledRoutesOf]
      exact List.filter_congr fun f _ => by simp [Bool.and_comm]
    rw [hlist]
    refine hroutes.filter_true fun r hr => decide_eq_true ?_
    obtain ⟨q, hq, hstored, -⟩ := hroutes.exists_record hr
    rw [hstored.enabled]
    obtain ⟨row, -, slot, -, rfl⟩ := mem_candidates_iff.1 (mem_candidates_of_mem hq)
    rfl
  · intro route hroute
    obtain ⟨row, hrow, slot, -, rfl⟩ := mem_candidates_iff.1 (mem_candidates_of_mem hroute)
    have hkept : row ∈ keptRows rows := List.mem_of_mem_filter (mem_dedupedRows.1 hrow).mem
    obtain ⟨q, hq, hcode, hqenabled⟩ := exists_datasource h hkept
    obtain ⟨d, hd, hstored⟩ := hheld.datasources q hq
    have hdcode : d.datasourceCode = makeDatasourceCode rt.toUnicodeData row.sourceName :=
      hstored.datasourceCode.trans hcode
    refine ⟨d, ?_, hdcode⟩
    have hfound := Metadata.getEnabledByCode_of_mem
      (Metadata.getEnabledByCode_ok hdb.datasourceCode) hd (hstored.enabled.trans hqenabled)
    rwa [hdcode] at hfound

/-- Every route of the group is found under its value. -/
theorem HeldGroup.exists_route {t : LogicalTable} {name : Str} {group : List TableConfigRow}
    {U : UnicodeData} {rule : RouteRuleRecord} (hg : HeldGroup db t name group U rule)
    (hdb : db.Constraints) {route : PhysicalRouteRecord}
    (hroute : route ∈ groupRoutes U name group) :
    ∃ r d, db.getEnabledByLogicalTableAndRouteValue t.id route.routeValue = .ok (some r) ∧
      r.physicalTableName = route.physicalTableName ∧
      db.getEnabledByCode (datasourceCodeFromId db r.datasourceId) = .ok (some d) ∧
      d.datasourceCode = route.datasourceCode := by
  obtain ⟨r, hr, hstored, hcode⟩ := hg.routes.exists_row hroute
  obtain ⟨d, hd, hdcode⟩ := hg.datasource route hroute
  rw [Metadata.enabledRoutesOf, List.mem_filter, decide_eq_true_eq] at hr
  obtain ⟨hmem, hid, henabled⟩ := hr
  obtain ⟨o, ho⟩ := hdb.getEnabledByLogicalTableAndRouteValue_ok t.id route.routeValue
  have hfound := oneOrNone_filter_of_mem ho hmem (by simp [hid, hstored.routeValue, henabled])
  exact ⟨r, d, hfound, hstored.physicalTableName, by rw [hcode]; exact hd, hdcode⟩

/-- A reference to the logical table by its name. -/
theorem HeldGroup.resolveTable_eq {t : LogicalTable} {name : Str} {group : List TableConfigRow}
    {U : UnicodeData} {rule : RouteRuleRecord} (hg : HeldGroup db t name group U rule)
    {table : ParsedTable} (hname : table.tableName = name)
    (hphysical : db.getEnabledByPhysicalTableName name = .ok none) {parsed : ParsedSql}
    {routeContext : JsonDict} :
    resolveTable rt db parsed routeContext table =
      resolveLogicalTable rt db parsed routeContext table t := by
  simp only [resolveTable, hname, hphysical, hg.enabledByName, bind, Except.bind]

end Held

/-! ## One statement -/

/-- `c = v` -/
def equation (column : Str) (value : Int) : Cond Atom .disj :=
  .conj (.prim (.atom ⟨none, column, value⟩))

/-- The context that names the column of the shard. -/
def shardContext (column : Str) : JsonDict := [("shard_column", .str column)]

section Statement

variable {rt : Runtime} {name column : Str} {value : Int}

theorem contextColumn_shardContext (h : isIdentifier column = true) :
    contextColumn (shardContext column) "shard_column" = some column := by
  cases column with
  | nil => exact absurd h (by decide)
  | cons c cs => rfl

/-- What the parser reads. -/
theorem parse_equation (rt : Runtime) (value : Int) (hname : isIdentifier name = true)
    (hcolumn : PlainName column) :
    ∃ parsed, parse rt (selectText name (condText (equation column value))) = .ok parsed ∧
      parsed.tables = [selectTable name] ∧
      columnValue rt.toUnicodeData parsed (selectTable name) column = some (intText value) := by
  have hplain : ∀ a ∈ (equation column value).atoms, a.Plain :=
    List.forall_mem_singleton.2 ⟨fun q hq => absurd hq (by simp), hcolumn⟩
  obtain ⟨parsed, hparsed, htables, hpredicates⟩ := parse_select rt hname hplain
  refine ⟨parsed, hparsed, htables, ?_⟩
  rw [columnValue_atoms hpredicates (List.forall_mem_singleton.2 rfl) rfl]
  simp [givenAtom, equation, Cond.atoms]

end Statement

/-! ## Business routing -/

section Business

variable {rt : Runtime} {rows : List TableConfigRow} {target : ImportedDatasourceTarget}
  {bundle : SyncBundle} {db : Metadata} {name column : Str} {group : List TableConfigRow}
  {value : Int}

/-- The rule of a group with business routing. -/
theorem evaluateRouteRule_business {rule : RouteRuleRecord} {r : RouteRule}
    (hrule : routeRuleRecord group rt name = .ok rule)
    (hbusiness : supportsBusinessFactorRouting group = true)
    (hexpression : r.expression = rule.expression) (hformat : r.outputFormat = rule.outputFormat)
    (s : Str) :
    evaluateRouteRule rt r [(businessShardFactor, s)] =
      (rt.int s).map fun k => intText (k % shardModulus group) := by
  have hpositive : 0 < shardModulus group := by
    simp only [supportsBusinessFactorRouting, Bool.and_eq_true, decide_eq_true_eq] at hbusiness
    exact hbusiness.1.2
  obtain ⟨n, hn⟩ := Int.eq_ofNat_of_zero_le hpositive.le
  rw [routeRuleRecord, if_pos hbusiness, hn] at hrule
  obtain ⟨modulus, hmodulus, hrule⟩ := bind_eq_ok.1 hrule
  rw [Runtime.strInt] at hmodulus
  split at hmodulus
  · rename_i hfit
    obtain rfl := Except.ok.inj hmodulus
    obtain rfl := Except.ok.inj hrule
    have htext : intText (n : Int) = natText n := by rw [intText, if_neg (by omega),
      Int.natAbs_natCast]
    rw [Int.natAbs_natCast] at hfit
    have hself : ([(businessShardFactor, s)] : Env).lookup businessShardFactor = some s := by
      rw [List.lookup_cons, beq_self_eq_true]
    rw [evaluateRouteRule, hexpression, hformat]
    simp only [htext]
    rw [Runtime.eval_strIntMod rt (by decide) hself (lookup_single s (by decide))
      (lookup_single s (by decide)) (by omega), if_pos hfit]
    cases rt.int s with
    | error e => rfl
    | ok k =>
      simp only [Except.map, bind, Except.bind]
      rw [Runtime.format_value rt _ (lookup_single s (by decide)), Runtime.strValue, hn,
        Int.fmod_eq_emod_of_nonneg _ (by omega)]
  · exact absurd hmodulus (by simp)

/-- The factor of a group with business routing takes the value of the column in the context. -/
theorem factorValue_business (db : Metadata) (t : LogicalTable) {f : RouteFactorDef}
    {q : RouteFactorRecord} {parsed : ParsedSql} {table : ParsedTable} {routeContext : JsonDict}
    (hbusiness : supportsBusinessFactorRouting group = true)
    (hq : routeFactorRecord group name = some q) (hstored : FactorStored f q)
    (hcontext : contextColumn routeContext "shard_column" = some column) :
    factorValue rt db t parsed table routeContext f =
        .ok (columnValue rt.toUnicodeData parsed table column) ∧
      f.factorName = businessShardFactor := by
  rw [routeFactorRecord, if_pos hbusiness] at hq
  obtain rfl := Option.some.inj hq
  have htype : lower rt.toUnicodeData f.sourceType = "sql_predicate_from_context" := by
    rw [hstored.sourceType]
    exact lower_ascii rt.toUnicodeData (s := "sql_predicate_from_context") (by decide)
  have hne : ("sql_predicate_from_context" : Str) ≠ "sql_predicate" := by decide
  have hextract : extractFactorValue rt f parsed table routeContext =
      .ok (columnValue rt.toUnicodeData parsed table column) := by
    rw [extractFactorValue]
    simp only [htype, hne, if_false, if_true, hstored.sourceKey]
    rw [show businessShardColumnContext = ("shard_column" : Str) from rfl, hcontext,
      Option.bind_some]
  have hkey : f.sourceKey ≠ "route_suffix" := by
    rw [hstored.sourceKey]
    exact show businessShardColumnContext ≠ ("route_suffix" : Str) by decide
  refine ⟨?_, hstored.factorName⟩
  rw [factorValue, hextract]
  simp only [bind, Except.bind, pure, Except.pure]
  rw [if_neg fun h => hkey h.2]

/-- The one required factor of a table with business routing, and its value. -/
theorem HeldGroup.exists_businessFactor {U : UnicodeData} {rule : RouteRuleRecord}
    {t : LogicalTable} (hg : HeldGroup db t name group U rule) {parsed : ParsedSql}
    {table : ParsedTable}
    {routeContext : JsonDict} (hbusiness : supportsBusinessFactorRouting group = true)
    (hcontext : contextColumn routeContext "shard_column" = some column) :
    ∃ f, db.listRequiredEnabledByLogicalTable t.id = [f] ∧
      factorValue rt db t parsed table routeContext f =
        .ok (columnValue rt.toUnicodeData parsed table column) ∧
      f.factorName = businessShardFactor := by
  obtain ⟨q, hq⟩ : ∃ q, routeFactorRecord group name = some q :=
    ⟨_, by rw [routeFactorRecord, if_pos hbusiness]⟩
  have hfactors := hg.factors
  rw [hq] at hfactors
  obtain ⟨f, hf, hstored⟩ := hfactors.singleton
  exact ⟨f, hf, factorValue_business db t hbusiness hq hstored hcontext⟩

/-- A request over one column reaches the shard of the remainder of its value. -/
def RoutedByRemainder (rt : Runtime) (rows : List TableConfigRow) (db : Metadata)
    (name column : Str) (value modulus : Int) : Prop :=
  ∃ parsed decision target,
    parse rt (selectText name (condText (equation column value))) = .ok parsed ∧
    resolve rt db parsed (shardContext column) = .ok decision ∧ decision.allowed = true ∧
    decision.targets = [target] ∧ target.routeValue = intText (value % modulus) ∧
    ∃ row ∈ groupOf rt.toUnicodeData rows name,
      row.beginIndex ≤ value % modulus ∧ value % modulus ≤ row.endIndex ∧
      target.physicalTableName = row.tableName ++ '_' :: intText (value % modulus) ∧
      target.datasourceCode = makeDatasourceCode rt.toUnicodeData row.sourceName

/-- The route of a suffix of a kept row. -/
theorem HeldGroup.route_of_suffix {records : GroupRecords} {t : LogicalTable}
    (hg : HeldGroup db t name group rt.toUnicodeData records.routeRule) (hdb : db.Constraints)
    (hbuilt : GroupBuilt rt name group records) (hs : isSharded group = true) {row : TableConfigRow}
    (hrow : row ∈ dedupedRows group) {k : Int} (hk : k ∈ suffixes row) :
    ∃ r d, db.getEnabledByLogicalTableAndRouteValue t.id (intText k) = .ok (some r) ∧
      r.physicalTableName = row.tableName ++ '_' :: intText k ∧
      db.getEnabledByCode (datasourceCodeFromId db r.datasourceId) = .ok (some d) ∧
      d.datasourceCode = makeDatasourceCode rt.toUnicodeData row.sourceName := by
  have hslot : some k ∈ slots group row := by
    rw [slots, if_pos hs]
    exact List.mem_map.2 ⟨k, hk, rfl⟩
  obtain ⟨route, hroute, hvalue, hentry, -⟩ := exists_groupRoute hbuilt.agree
    (mem_candidates_iff.2 ⟨row, hrow, some k, hslot, rfl⟩)
  obtain ⟨r, d, hr, hphysical, hd, hcode⟩ := hg.exists_route hdb hroute
  rw [hvalue] at hr
  obtain ⟨hentry1, hentry2⟩ := Prod.ext_iff.1 hentry
  exact ⟨r, d, hr, hphysical.trans hentry1, hd, hcode.trans hentry2⟩

/-- Every remainder has a route. -/
theorem exists_route_of_remainder (value : Int) {records : GroupRecords} {t : LogicalTable}
    (hdb : db.Constraints) (hbuilt : GroupBuilt rt name group records)
    (hg : HeldGroup db t name group rt.toUnicodeData records.routeRule)
    (hbusiness : supportsBusinessFactorRouting group = true) :
    ∃ r d row, row ∈ group ∧ row.beginIndex ≤ value % shardModulus group ∧
      value % shardModulus group ≤ row.endIndex ∧
      db.getEnabledByLogicalTableAndRouteValue t.id (intText (value % shardModulus group)) =
        .ok (some r) ∧
      r.physicalTableName = row.tableName ++ '_' :: intText (value % shardModulus group) ∧
      db.getEnabledByCode (datasourceCodeFromId db r.datasourceId) = .ok (some d) ∧
      d.datasourceCode = makeDatasourceCode rt.toUnicodeData row.sourceName := by
  simp only [supportsBusinessFactorRouting, Bool.and_eq_true, decide_eq_true_eq, List.all_eq_true]
    at hbusiness
  obtain ⟨⟨hsharded, hpositive⟩, -, hcovered⟩ := hbusiness
  set k := value % shardModulus group
  have hk : k ∈ shardSuffixes group :=
    hcovered k (mem_intRange.2 ⟨Int.emod_nonneg _ (by omega), Int.emod_lt_of_pos _ hpositive⟩)
  obtain ⟨row, hrow, hsuffix⟩ := List.mem_flatMap.1 hk
  have hkept : row ∈ dedupedRows group := List.mem_of_mem_filter hrow
  obtain ⟨r, d, hr, hphysical, hd, hcode⟩ :=
    hg.route_of_suffix hdb hbuilt hsharded hkept hsuffix
  obtain ⟨hbegin, hend⟩ := mem_suffixes.1 hsuffix
  exact ⟨r, d, row, (mem_dedupedRows.1 hkept).mem, hbegin, hend, hr, hphysical, hd, hcode⟩

/-- A reference to a table with business routing: the rule is applied to the value, and the route
of the remainder is there. -/
theorem resolveTable_business {records : GroupRecords} {t : LogicalTable} {parsed : ParsedSql}
    {routeContext : JsonDict} (table : ParsedTable) (hdb : db.Constraints)
    (hbuilt : GroupBuilt rt name group records)
    (hg : HeldGroup db t name group rt.toUnicodeData records.routeRule)
    (hbusiness : supportsBusinessFactorRouting group = true) (hname : table.tableName = name)
    (hphysical : db.getEnabledByPhysicalTableName name = .ok none)
    (hcontext : contextColumn routeContext "shard_column" = some column)
    (hvalue : columnValue rt.toUnicodeData parsed table column = some (intText value)) :
    if rt.digitsFit (natText value.natAbs).length = true then
      ∃ found d row, resolveTable rt db parsed routeContext table =
          .ok (.target found d) ∧ row ∈ group ∧
        row.beginIndex ≤ value % shardModulus group ∧ value % shardModulus group ≤
          row.endIndex ∧
        found.routeValue = intText (value % shardModulus group) ∧
        found.physicalTableName = row.tableName ++ '_' :: intText (value % shardModulus group) ∧
        found.datasourceCode = makeDatasourceCode rt.toUnicodeData row.sourceName
    else resolveTable rt db parsed routeContext table = .error .valueError := by
  obtain ⟨r, hr, hexpression, hformat⟩ := hg.rule
  obtain ⟨f, hf, hvalued, hfactorName⟩ :=
    @HeldGroup.exists_businessFactor rt db name column group
    _ _ t hg parsed table routeContext hbusiness hcontext
  have hfactor := hvalued.trans (congrArg Except.ok hvalue)
  rw [hg.resolveTable_eq hname hphysical, resolveLogicalTable_one hf hr hfactor, hfactorName]
  have heval := evaluateRouteRule_business hbuilt.routeRule hbusiness hexpression hformat
    (intText value)
  rw [rt.int_intText] at heval
  split
  · rename_i hfit
    rw [if_pos hfit] at heval
    obtain ⟨route, d, row, hrow, hbegin, hend, hroute, hphys, hd, hcode⟩ :=
      exists_route_of_remainder value hdb hbuilt hg hbusiness
    obtain ⟨found, diagnostic, hfound, hrv, hfp, hfd⟩ :=
      resolveRoute_found table [f] heval hroute hd
    exact ⟨found, diagnostic, row, hfound, hrow, hbegin, hend, hrv, hfp.trans hphys,
      hfd.trans hcode⟩
  · rename_i hfit
    rw [if_neg hfit] at heval
    rw [resolveRoute, heval]
    rfl

/-- A logical table that is marked for business routing. -/
theorem business_of_extra {sample : TableConfigRow} {modulus : Int}
    (hbusiness : (logicalTableRecord group name sample).extra.get "business_factor_routing" =
      .bool true)
    (hmodulus : (logicalTableRecord group name sample).extra.get "shard_modulus" = .int modulus) :
    supportsBusinessFactorRouting group = true ∧ modulus = shardModulus group := by
  have hmark : Json.bool (supportsBusinessFactorRouting group) = .bool true := hbusiness
  injection hmark with hmark
  have hvalue : (if supportsBusinessFactorRouting group = true then Json.int (shardModulus group)
      else .null) = .int modulus := hmodulus
  rw [if_pos hmark] at hvalue
  injection hvalue with hvalue
  exact ⟨hmark, hvalue.symm⟩

/-- The name of a logical table that no registered physical table has. -/
theorem getEnabledByPhysicalTableName_none
    (h : ∀ r ∈ db.physicalRoutes.rows, r.physicalTableName ≠ name) :
    db.getEnabledByPhysicalTableName name = .ok none := by
  refine oneOrNone_eq_none.2 (List.filter_eq_nil_iff.2 fun r hr => ?_)
  simpa using fun hname => absurd hname (h r hr)

/-- The request for one value of a table with business routing. -/
theorem resolve_business (value : Int) (h : buildSyncBundle rt rows target = .ok bundle)
    (hdb : db.Constraints) (hheld : db.HoldsBundle bundle) {table : LogicalTableRecord}
    (htable : table ∈ bundle.logicalTables)
    (hbusiness : table.extra.get "business_factor_routing" = .bool true) {modulus : Int}
    (hmodulus : table.extra.get "shard_modulus" = .int modulus)
    (hname : isIdentifier table.tableName = true)
    (hphysical : ∀ r ∈ db.physicalRoutes.rows, r.physicalTableName ≠ table.tableName)
    (hcolumn : PlainName column) :
    if rt.digitsFit (natText value.natAbs).length = true then
      RoutedByRemainder rt rows db table.tableName column value modulus
    else ∃ parsed,
      parse rt (selectText table.tableName (condText (equation column value))) = .ok parsed ∧
        resolve rt db parsed (shardContext column) = .error .valueError := by
  obtain ⟨records, sample, more, hgroup, hsample, hrecord⟩ := exists_groupOfTable h htable
  obtain ⟨t, hg⟩ := exists_heldGroup h hdb hheld htable hgroup hrecord
  rw [hrecord] at hbusiness hmodulus
  obtain ⟨hsupports, rfl⟩ := business_of_extra hbusiness hmodulus
  obtain ⟨parsed, hparsed, htables, hvalue⟩ := parse_equation rt value hname hcolumn
  have hresolve := resolveTable_business (selectTable table.tableName) hdb hgroup.built hg
    hsupports rfl (getEnabledByPhysicalTableName_none hphysical)
    (contextColumn_shardContext hcolumn.identifier) hvalue
  split
  · rename_i hfit
    rw [if_pos hfit] at hresolve
    obtain ⟨found, d, row, hfound, hrow, hbegin, hend, hrv, hphys, hcode⟩ := hresolve
    refine ⟨parsed, _, found, hparsed, (resolve_singleton htables).trans (by rw [hfound]; rfl),
      rfl, rfl, hrv, row, hrow, hbegin, hend, hphys, hcode⟩
  · rename_i hfit
    rw [if_neg hfit] at hresolve
    exact ⟨parsed, hparsed, (resolve_singleton htables).trans (by rw [hresolve]; rfl)⟩

/-- The request for one value of a table with business routing reaches the shard of its remainder
exactly if Python reads the value. -/
theorem routedByRemainder_iff (h : buildSyncBundle rt rows target = .ok bundle)
    (hdb : db.Constraints) (hheld : db.HoldsBundle bundle) {table : LogicalTableRecord}
    (htable : table ∈ bundle.logicalTables)
    (hbusiness : table.extra.get "business_factor_routing" = .bool true) {modulus : Int}
    (hmodulus : table.extra.get "shard_modulus" = .int modulus)
    (hname : isIdentifier table.tableName = true)
    (hphysical : ∀ r ∈ db.physicalRoutes.rows, r.physicalTableName ≠ table.tableName)
    (hcolumn : PlainName column) :
    RoutedByRemainder rt rows db table.tableName column value modulus ↔
      rt.digitsFit (natText value.natAbs).length = true := by
  have hrun := resolve_business value h hdb hheld htable hbusiness hmodulus hname hphysical
    hcolumn
  split at hrun
  · rename_i hfit
    exact iff_of_true hrun hfit
  · rename_i hfit
    refine iff_of_false ?_ hfit
    rintro ⟨parsed, decision, found, hparsed, hdecision, -⟩
    obtain ⟨parsed', hparsed', herror⟩ := hrun
    obtain rfl := Except.ok.inj (hparsed.symm.trans hparsed')
    exact absurd (hdecision.symm.trans herror) (by simp)

end Business

/-- A table in two shards. -/
def twoShards : List TableConfigRow := [⟨"s", "c", "t", 0, 1, 2⟩]

/-- Its logical table. -/
def twoShardsTable : LogicalTableRecord :=
  logicalTableRecord twoShards "c__t" ⟨"s", "c", "t", 0, 1, 2⟩

theorem twoShards_run :
    ∃ (bundle : SyncBundle) (db : Metadata),
      buildSyncBundle asciiRuntime twoShards exampleTarget = .ok bundle ∧
      twoShardsTable ∈ bundle.logicalTables ∧ db.Constraints ∧ db.HoldsBundle bundle ∧
      ∀ r ∈ db.physicalRoutes.rows, r.physicalTableName ≠ ("c__t" : Str) := by
  have hrun : ((buildSyncBundle asciiRuntime twoShards exampleTarget).bind
      (syncBundleToLocal exampleMetadata)).map
        (fun db => db.physicalRoutes.rows.map (·.physicalTableName)) =
      .ok [("user_0" : Str), ("user_1" : Str), ("t_0" : Str), ("t_1" : Str)] := by decide +kernel
  have htables : (buildSyncBundle asciiRuntime twoShards exampleTarget).map (·.logicalTables) =
      .ok [twoShardsTable] := by rfl
  obtain ⟨db, hdb, hnames⟩ := map_eq_ok.1 hrun
  obtain ⟨bundle, hbundle, hsync⟩ := bind_eq_ok.1 hdb
  obtain ⟨bundle', hbundle', htables⟩ := map_eq_ok.1 htables
  obtain rfl := Except.ok.inj (hbundle.symm.trans hbundle')
  have hs := synced_of_ok hsync
  refine ⟨bundle, db, hbundle, ?_, hs.constraints exampleMetadata_constraints,
    hs.holdsBundle exampleMetadata_constraints, fun r hr hname => ?_⟩
  · rw [htables]
    exact List.mem_singleton_self _
  · have hmem := List.mem_map_of_mem (f := fun r : PhysicalTableRoute => r.physicalTableName) hr
    rw [hnames, hname] at hmem
    exact absurd hmem (by decide)

/-- A number of 4301 digits. -/
@[irreducible] def longNumber : Int := ((10 ^ 4300 : Nat) : Int)

/-- A power of ten has one digit more than its exponent. -/
theorem not_digitsFit_of_natAbs {k : Int} {d : Nat} (hk : k.natAbs = 10 ^ d) (hd : 4300 ≤ d) :
    ¬ asciiRuntime.digitsFit (natText k.natAbs).length = true := by
  intro h
  have hlength : (natText k.natAbs).length ≤ d := by
    rw [Runtime.digitsFit, Py.digitsFit, Bool.or_eq_true] at h
    have hfit : (natText k.natAbs).length ≤ 4300 :=
      of_decide_eq_true (h.resolve_left (by decide))
    exact hfit.trans hd
  have hpos : 0 < d := by omega
  rw [hk, natText, Nat.length_toDigits_le_iff (by decide) hpos] at hlength
  exact Nat.lt_irrefl _ hlength

theorem not_digitsFit_longNumber :
    ¬ asciiRuntime.digitsFit (natText longNumber.natAbs).length = true := by
  refine not_digitsFit_of_natAbs ?_ (Nat.le_refl 4300)
  rw [longNumber]
  exact Int.natAbs_natCast _

/-- Python does not read a number of more than 4300 digits, and nothing catches its refusal. -/
theorem twoShards_raises :
    ∃ (bundle : SyncBundle) (db : Metadata),
      buildSyncBundle asciiRuntime twoShards exampleTarget = .ok bundle ∧
      twoShardsTable ∈ bundle.logicalTables ∧ db.Constraints ∧ db.HoldsBundle bundle ∧
      (∀ r ∈ db.physicalRoutes.rows, r.physicalTableName ≠ ("c__t" : Str)) ∧
      ¬ RoutedByRemainder asciiRuntime twoShards db "c__t" "uid" longNumber 2 := by
  obtain ⟨bundle, db, hbundle, htable, hdb, hheld, hphysical⟩ := twoShards_run
  refine ⟨bundle, db, hbundle, htable, hdb, hheld, hphysical, ?_⟩
  have hrun := resolve_business longNumber hbundle hdb hheld htable rfl rfl (by decide)
    hphysical plainName_uid
  rw [if_neg not_digitsFit_longNumber] at hrun
  rintro ⟨parsed, decision, found, hparsed, hdecision, -⟩
  obtain ⟨parsed', hparsed', herror⟩ := hrun
  obtain rfl := Except.ok.inj (hparsed.symm.trans hparsed')
  exact absurd (hdecision.symm.trans herror) (by simp)

theorem routedByRemainder_twoShards :
    ∃ bundle db, buildSyncBundle asciiRuntime twoShards exampleTarget = .ok bundle ∧
      db.HoldsBundle bundle ∧
      (RoutedByRemainder asciiRuntime twoShards db "c__t" "uid" (-7) 2 ↔
        asciiRuntime.digitsFit (natText (-7 : Int).natAbs).length = true) := by
  obtain ⟨bundle, db, hbundle, htable, hdb, hheld, hphysical⟩ := twoShards_run
  exact ⟨bundle, db, hbundle, hheld, routedByRemainder_iff hbundle hdb hheld htable rfl rfl
    (by decide) hphysical plainName_uid⟩

end SqlGatekeeper
