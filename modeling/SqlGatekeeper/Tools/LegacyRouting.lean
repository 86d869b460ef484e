import SqlGatekeeper.Tools.ImportedRouting

/-!
# Routing over tables with missing shards

A table whose rows do not cover the indexes from 0 to below the shard count has no business
routing.  A request over one column then goes by the legacy derivation, which takes the remainder by
the number of enabled routes.

* `coveredIndexes`: the indexes of a group; `card_coveredIndexes`: as many as it has routes.
* `supportsBusinessFactorRouting_iff`: when a group has business routing.
* `rejectedOrRouted_iff`: when a request is rejected or reaches the shard of its remainder.
-/

namespace SqlGatekeeper

open Py Store Logic

/-! ## Indexes of a group -/

section Covered

variable {U : UnicodeData} {name : Str} {group : List TableConfigRow} {m : Int}

/-- The indexes that the rows of a group cover. -/
def coveredIndexes (group : List TableConfigRow) : Finset Int := (group.flatMap suffixes).toFinset

theorem mem_coveredIndexes {k : Int} :
    k ∈ coveredIndexes group ↔ ∃ row ∈ group, row.beginIndex ≤ k ∧
      k ≤ row.endIndex := by
  simp only [coveredIndexes, List.mem_toFinset, List.mem_flatMap, mem_suffixes]

/-- The rows that are kept of repeated ones cover the same indexes. -/
theorem mem_coveredIndexes_iff {k : Int} :
    k ∈ coveredIndexes group ↔ ∃ row ∈ dedupedRows group, k ∈ suffixes row := by
  rw [mem_coveredIndexes]
  constructor
  · rintro ⟨row, hrow, hbegin, hend⟩
    obtain ⟨s, hs, hkey⟩ := exists_isLast segmentKey hrow
    simp only [segmentKey, Prod.mk.injEq] at hkey
    exact ⟨s, mem_dedupedRows.2 hs, mem_suffixes.2 ⟨hkey.2.1 ▸ hbegin,
      hkey.2.2.1 ▸ hend⟩⟩
  · rintro ⟨row, hrow, hk⟩
    exact ⟨row, (mem_dedupedRows.1 hrow).mem, mem_suffixes.1 hk⟩

/-- A sharded table has one route for each index. -/
theorem card_coveredIndexes (hs : isSharded group = true) :
    (groupRoutes U name group).length = (coveredIndexes group).card := by
  have hvalues : ((groupRoutes U name group).map (·.routeValue)).toFinset =
      (coveredIndexes group).image intText := by
    ext v
    rw [List.mem_toFinset, Finset.mem_image, groupRoutes, if_pos hs, mem_keys_firstByKey]
    constructor
    · rintro ⟨route, hroute, rfl⟩
      obtain ⟨row, hrow, slot, hslot, rfl⟩ := mem_candidates_iff.1 hroute
      rw [slots, if_pos hs] at hslot
      obtain ⟨k, hk, rfl⟩ := List.mem_map.1 hslot
      exact ⟨k, mem_coveredIndexes_iff.2 ⟨row, hrow, hk⟩, rfl⟩
    · rintro ⟨k, hk, rfl⟩
      obtain ⟨row, hrow, hk⟩ := mem_coveredIndexes_iff.1 hk
      refine ⟨_, mem_candidates_iff.2 ⟨row, hrow, some k, ?_, rfl⟩, rfl⟩
      rw [slots, if_pos hs]
      exact List.mem_map.2 ⟨k, hk, rfl⟩
  have hnodup : ((groupRoutes U name group).map (·.routeValue)).Nodup := by
    rw [groupRoutes, if_pos hs]
    exact unique_firstByKey _ _
  rw [← List.length_map (·.routeValue), ← List.toFinset_card_of_nodup hnodup, hvalues,
    Finset.card_image_of_injective _ fun _ _ h => intText_injective h]

theorem maxInt_of_forall {l : List Int} (hne : l ≠ [])
    (h : ∀ k ∈ l, k = m) : maxInt l = m := by
  cases l with
  | nil => exact absurd rfl hne
  | cons k ks =>
    obtain ⟨rfl, hks⟩ := List.forall_mem_cons.1 h
    rw [maxInt]
    clear hne h
    induction ks with
    | nil => rfl
    | cons j js ih =>
      obtain ⟨rfl, hjs⟩ := List.forall_mem_cons.1 hks
      rw [List.foldl_cons, max_self]
      exact ih hjs

/-- A group whose rows have one shard count has business routing exactly if it covers all indexes
below the count and no others. -/
theorem supportsBusinessFactorRouting_iff (hne : group ≠ [])
    (hcount : ∀ row ∈ group, row.shardCount = m)
    (hm : 0 < m) :
    isSharded group = true ∧ shardModulus group = m ∧
      (supportsBusinessFactorRouting group = true ↔ coveredIndexes group = Finset.Ico 0 m) := by
  have hdeduped : ∀ row ∈ dedupedRows group, row.shardCount = m := fun row hrow =>
    hcount row (mem_dedupedRows.1 hrow).mem
  obtain ⟨row, hrow⟩ := List.exists_mem_of_ne_nil _ hne
  obtain ⟨kept, hkept, -⟩ := exists_isLast segmentKey hrow
  have hsharded : isSharded group = true :=
    isSharded_iff.2 ⟨row, hrow, by rw [hcount row hrow]; exact hm⟩
  have hmodulus : shardModulus group = m := by
    refine maxInt_of_forall ?_ fun k hk => ?_
    · exact List.ne_nil_of_mem (List.mem_map.2 ⟨kept, mem_dedupedRows.2 hkept, rfl⟩)
    · obtain ⟨row, hrow, rfl⟩ := List.mem_map.1 hk
      exact hdeduped row hrow
  have hsuffixes : ∀ k, k ∈ shardSuffixes group ↔ k ∈ coveredIndexes group := fun k => by
    rw [shardSuffixes, List.filter_eq_self.2 fun row hrow => by
      rw [hdeduped row hrow]
      exact decide_eq_true hm, List.mem_flatMap, mem_coveredIndexes_iff]
  refine ⟨hsharded, hmodulus, ?_⟩
  simp only [supportsBusinessFactorRouting, hsharded, hmodulus, hm, decide_true, Bool.true_and,
    Bool.and_eq_true, List.all_eq_true, decide_eq_true_eq, hsuffixes, mem_intRange, Finset.ext_iff,
    Finset.mem_Ico]
  exact ⟨fun h k => ⟨h.1 k, h.2 k⟩, fun h => ⟨fun k => (h k).1, fun k => (h k).2⟩⟩

end Covered

/-- The index behind the last underscore of a shard's table. -/
theorem eq_of_shardName_eq {a b : Str} {j k : Int}
    (h : a ++ '_' :: intText j = b ++ '_' :: intText k) : j = k := by
  have htake : ∀ (a : Str) (k : Int),
      ((a ++ '_' :: intText k).reverse.takeWhile fun c => decide (c ≠ '_')) =
        (intText k).reverse := by
    intro a k
    have hne : ∀ c ∈ (intText k).reverse, decide (c ≠ '_') = true := by
      intro c hc
      rw [List.mem_reverse, intText] at hc
      refine decide_eq_true ?_
      rintro rfl
      split at hc
      · rcases List.mem_cons.1 hc with hc | hc
        · exact absurd hc (by decide)
        · exact absurd (natText_isDigit _ hc) (by decide)
      · exact absurd (natText_isDigit _ hc) (by decide)
    rw [List.reverse_append, List.reverse_cons, List.append_assoc, List.takeWhile_append_of_pos hne,
      List.singleton_append, List.takeWhile_cons_of_neg (by simp), List.append_nil]
  have := (htake a j).symm.trans ((congrArg _ (congrArg List.reverse h)).trans (htake b k))
  exact intText_injective (List.reverse_injective this)

/-! ## The legacy derivation -/

section Legacy

variable {rt : Runtime} {rows : List TableConfigRow} {target : ImportedDatasourceTarget}
  {bundle : SyncBundle} {db : Metadata} {name column : Str} {group : List TableConfigRow}
  {value m : Int}

/-- The factor of a sharded table without business routing is the legacy one. -/
theorem factorValue_legacy (db : Metadata) (t : LogicalTable) {f : RouteFactorDef}
    {q : RouteFactorRecord} {parsed : ParsedSql} {table : ParsedTable}
    (hbusiness : supportsBusinessFactorRouting group = false) (hs : isSharded group = true)
    (hq : routeFactorRecord group name = some q) (hstored : FactorStored f q) :
    factorValue rt db t parsed table (shardContext column) f =
        .ok (deriveLegacyRouteSuffix rt db t parsed table (shardContext column)) ∧
      f.factorName = "route_suffix" := by
  rw [routeFactorRecord, if_neg (by simp [hbusiness]), if_pos hs] at hq
  obtain rfl := Option.some.inj hq
  have htype : lower rt.toUnicodeData f.sourceType = "route_context" := by
    rw [hstored.sourceType]
    exact lower_ascii rt.toUnicodeData (s := "route_context") (by decide)
  have h1 : ("route_context" : Str) ≠ "sql_predicate" := by decide
  have h2 : ("route_context" : Str) ≠ "sql_predicate_from_context" := by decide
  have hget : JsonDict.get (shardContext column) defaultRouteFactor = .null := rfl
  have hkey : f.sourceKey = "route_suffix" := hstored.sourceKey
  have hextract : extractFactorValue rt f parsed table (shardContext column) = .ok none := by
    rw [extractFactorValue]
    simp only [htype, h1, h2, if_false, if_true, hstored.sourceKey, hget]
  refine ⟨?_, hstored.factorName⟩
  rw [factorValue, hextract]
  simp only [bind, Except.bind, hkey, and_self, if_true]
  rfl

/-- The legacy derivation: the remainder by the number of routes, if it can be computed. -/
theorem deriveLegacyRouteSuffix_eq {t : LogicalTable} {parsed : ParsedSql} {table : ParsedTable}
    (hcolumn : isIdentifier column = true)
    (hvalue : columnValue rt.toUnicodeData parsed table column = some (intText value)) {n : Nat}
    (hn : db.countEnabledByLogicalTable t.id = n) :
    deriveLegacyRouteSuffix rt db t parsed table (shardContext column) =
      if n ≠ 0 ∧ rt.digitsFit (natText value.natAbs).length = true ∧
          rt.digitsFit (natText (value % (n : Int)).natAbs).length = true then
        some (intText (value % (n : Int)))
      else none := by
  rw [deriveLegacyRouteSuffix]
  simp only [contextColumn_shardContext hcolumn, hvalue, hn, Option.bind_eq_bind, Option.bind_some,
    rt.int_intText, Runtime.strInt, Int.fmod_eq_emod_of_nonneg _ (Int.natCast_nonneg n)]
  by_cases h0 : n = 0
  · simp [h0]
  by_cases hfit : rt.digitsFit (natText value.natAbs).length = true
  · by_cases hresult : rt.digitsFit (natText (value % (n : Int)).natAbs).length = true
    · simp [h0, hfit, hresult, Except.bind, Except.toOption]
    · simp [h0, hfit, hresult, Except.bind, Except.toOption]
  · simp [h0, hfit, Except.bind, Except.toOption]

/-- The rule of a sharded table without business routing passes the suffix on. -/
theorem evaluateRouteRule_legacy {rule : RouteRuleRecord} {r : RouteRule}
    (hrule : routeRuleRecord group rt name = .ok rule)
    (hbusiness : supportsBusinessFactorRouting group = false) (hs : isSharded group = true)
    (hexpression : r.expression = rule.expression) (hformat : r.outputFormat = rule.outputFormat)
    {k : Int} (hfit : rt.digitsFit (natText k.natAbs).length = true) :
    evaluateRouteRule rt r [("route_suffix", intText k)] = .ok (intText k) := by
  rw [routeRuleRecord, if_neg (by simp [hbusiness]), if_pos hs] at hrule
  obtain rfl := Except.ok.inj hrule
  have hself : ([(("route_suffix" : Str), intText k)] : Env).lookup ("route_suffix" : Str) =
      some (intText k) := by rw [List.lookup_cons, beq_self_eq_true]
  rw [evaluateRouteRule, hexpression, hformat]
  simp only
  rw [Runtime.eval_strInt_routeSuffix rt hself (lookup_single _ (by decide))
    (lookup_single _ (by decide)), rt.int_intText, if_pos hfit]
  simp only [Except.bind, Runtime.strInt, if_pos hfit, Except.map, bind]
  rw [Runtime.format_value rt _ (lookup_single _ (by decide)), Runtime.strValue]

/-- An index has a route exactly if it is covered. -/
theorem HeldGroup.route_of_index {t : LogicalTable} {records : GroupRecords}
    (hg : HeldGroup db t name group rt.toUnicodeData records.routeRule) (hdb : db.Constraints)
    (hbuilt : GroupBuilt rt name group records) (hs : isSharded group = true) (k : Int) :
    if k ∈ coveredIndexes group then
      ∃ r d row, db.getEnabledByLogicalTableAndRouteValue t.id (intText k) = .ok (some r) ∧
        db.getEnabledByCode (datasourceCodeFromId db r.datasourceId) = .ok (some d) ∧
        row ∈ group ∧ r.physicalTableName = row.tableName ++ '_' :: intText k
    else db.getEnabledByLogicalTableAndRouteValue t.id (intText k) = .ok none := by
  split
  · rename_i hk
    obtain ⟨row, hrow, hsuffix⟩ := mem_coveredIndexes_iff.1 hk
    obtain ⟨r, d, hr, hphysical, hd, -⟩ := hg.route_of_suffix hdb hbuilt hs hrow hsuffix
    exact ⟨r, d, row, hr, hd, (mem_dedupedRows.1 hrow).mem, hphysical⟩
  · rename_i hk
    obtain ⟨o, ho⟩ := hdb.getEnabledByLogicalTableAndRouteValue_ok t.id (intText k)
    cases o with
    | none => exact ho
    | some r =>
      obtain ⟨hmem, hid, hvalue, henabled⟩ :=
        Metadata.getEnabledByLogicalTableAndRouteValue_eq_some ho
      obtain ⟨route, hroute, hstored, -⟩ := hg.routes.exists_record (r := r) (by
        rw [Metadata.enabledRoutesOf, List.mem_filter, decide_eq_true_eq]
        exact ⟨hmem, hid, henabled⟩)
      obtain ⟨row, hrow, slot, hslot, rfl⟩ :=
        mem_candidates_iff.1 (mem_candidates_of_mem hroute)
      rw [slots, if_pos hs] at hslot
      obtain ⟨j, hj, rfl⟩ := List.mem_map.1 hslot
      have hkj : intText j = intText k := hstored.routeValue.symm.trans hvalue
      obtain rfl := intText_injective hkj
      exact absurd (mem_coveredIndexes_iff.2 ⟨row, hrow, hj⟩) hk

/-- A reference to a sharded table without business routing: it reaches the remainder by the number
of indexes, if that is an index, and is rejected otherwise. -/
theorem resolveTable_legacy {records : GroupRecords} {t : LogicalTable} {parsed : ParsedSql}
    (table : ParsedTable) (hdb : db.Constraints) (hbuilt : GroupBuilt rt name group records)
    (hg : HeldGroup db t name group rt.toUnicodeData records.routeRule)
    (hbusiness : supportsBusinessFactorRouting group = false) (hs : isSharded group = true)
    (hname : table.tableName = name)
    (hphysical : db.getEnabledByPhysicalTableName name = .ok none)
    (hcolumn : isIdentifier column = true)
    (hvalue : columnValue rt.toUnicodeData parsed table column = some (intText value)) :
    if rt.digitsFit (natText value.natAbs).length = true ∧
        value % ((coveredIndexes group).card : Int) ∈ coveredIndexes group then
      ∃ found d row, resolveTable rt db parsed (shardContext column) table =
          .ok (.target found d) ∧ row ∈ group ∧ found.physicalTableName =
            row.tableName ++ '_' :: intText (value % ((coveredIndexes group).card : Int))
    else ∃ code message d, resolveTable rt db parsed (shardContext column) table =
      .ok (.reject code message d) := by
  obtain ⟨r, hr, hexpression, hformat⟩ := hg.rule
  obtain ⟨q, hq⟩ : ∃ q, routeFactorRecord group name = some q :=
    ⟨_, by rw [routeFactorRecord, if_neg (by simp [hbusiness]), if_pos hs]⟩
  have hfactors := hg.factors
  rw [hq] at hfactors
  obtain ⟨f, hf, hstored⟩ := hfactors.singleton
  obtain ⟨hfactor, hfactorName⟩ : factorValue rt db t parsed table (shardContext column) f =
      .ok (deriveLegacyRouteSuffix rt db t parsed table (shardContext column)) ∧ _ :=
    factorValue_legacy db t hbusiness hs hq hstored
  have hcount : db.countEnabledByLogicalTable t.id = (coveredIndexes group).card := by
    rw [Metadata.countEnabledByLogicalTable, hg.routes.length_eq, card_coveredIndexes hs]
  rw [deriveLegacyRouteSuffix_eq hcolumn hvalue hcount] at hfactor
  rw [hg.resolveTable_eq hname hphysical]
  set k := value % ((coveredIndexes group).card : Int)
  have hroute := hg.route_of_index hdb hbuilt hs k
  have hindex : k ∈ coveredIndexes group → (coveredIndexes group).card ≠ 0 ∧
      rt.digitsFit (natText k.natAbs).length = true := fun hk => by
    obtain ⟨row, hrow, hsuffix⟩ := mem_coveredIndexes_iff.1 hk
    exact ⟨(Finset.card_pos.2 ⟨k, hk⟩).ne', hbuilt.digitsFit hs row hrow k hsuffix⟩
  by_cases hderived : (coveredIndexes group).card ≠ 0 ∧
      rt.digitsFit (natText value.natAbs).length = true ∧
        rt.digitsFit (natText k.natAbs).length = true
  · rw [if_pos hderived] at hfactor
    rw [resolveLogicalTable_one hf hr hfactor, hfactorName]
    have heval := evaluateRouteRule_legacy hbuilt.routeRule hbusiness hs hexpression hformat
      hderived.2.2
    by_cases hk : k ∈ coveredIndexes group
    · rw [if_pos hk] at hroute
      rw [if_pos ⟨hderived.2.1, hk⟩]
      obtain ⟨route, d, row, hroute, hd, hrow, hphys⟩ := hroute
      obtain ⟨found, diagnostic, hfound, -, hfp, -⟩ :=
        resolveRoute_found table [f] heval hroute hd
      exact ⟨found, diagnostic, row, hfound, hrow, hfp.trans hphys⟩
    · rw [if_neg hk] at hroute
      rw [if_neg fun h => hk h.2, resolveRoute, heval]
      simp only [bind, Except.bind, hroute]
      exact ⟨_, _, _, rfl⟩
  · rw [if_neg hderived] at hfactor
    rw [if_neg fun h => hderived ⟨(hindex h.2).1, h.1, (hindex h.2).2⟩]
    exact resolveLogicalTable_missing hf hr hfactor

/-- A request over one column is rejected, or reaches the table of its remainder's shard. -/
def RejectedOrRouted (rt : Runtime) (rows : List TableConfigRow) (db : Metadata)
    (name column : Str) (value modulus : Int) : Prop :=
  ∃ parsed decision,
    parse rt (selectText name (condText (equation column value))) = .ok parsed ∧
    resolve rt db parsed (shardContext column) = .ok decision ∧
    (decision.allowed = true → ∃ found, decision.targets = [found] ∧
      ∃ row ∈ groupOf rt.toUnicodeData rows name,
        found.physicalTableName = row.tableName ++ '_' :: intText (value % modulus))

/-- What becomes of the request, by the kind of the table. -/
theorem rejectedOrRouted_cases (value : Int) (h : buildSyncBundle rt rows target = .ok bundle)
    (hdb : db.Constraints) (hheld : db.HoldsBundle bundle)
    (hgroup : groupOf rt.toUnicodeData rows name ≠ [])
    (hcount : ∀ row ∈ groupOf rt.toUnicodeData rows name, row.shardCount = m) (hm : 0 < m)
    (hname : isIdentifier name = true)
    (hphysical : ∀ r ∈ db.physicalRoutes.rows, r.physicalTableName ≠ name)
    (hcolumn : PlainName column) :
    (coveredIndexes (groupOf rt.toUnicodeData rows name) = Finset.Ico 0 m →
      (RejectedOrRouted rt rows db name column value m ↔
        rt.digitsFit (natText value.natAbs).length = true)) ∧
    (coveredIndexes (groupOf rt.toUnicodeData rows name) ≠ Finset.Ico 0 m →
      (RejectedOrRouted rt rows db name column value m ↔
        (rt.digitsFit (natText value.natAbs).length = true →
          value % ((coveredIndexes (groupOf rt.toUnicodeData rows name)).card : Int) ∈
            coveredIndexes (groupOf rt.toUnicodeData rows name) →
          value % ((coveredIndexes (groupOf rt.toUnicodeData rows name)).card : Int) =
            value % m))) := by
  obtain ⟨records, hbuilt, hmem⟩ := exists_groupBuilt h hgroup
  obtain ⟨sample, more, hsample, hrecord⟩ := hbuilt.logicalTable
  obtain ⟨records', sample', more', hg', hsample', hrecord'⟩ := exists_groupOfTable h hmem
  have hn : records.logicalTable.tableName = name := by rw [hrecord]; rfl
  obtain ⟨t, hg⟩ := exists_heldGroup h hdb hheld hmem hg' hrecord'
  have hbuilt' := hg'.built
  rw [hn] at hg hbuilt'
  obtain ⟨hs, hmodulus, hsupports⟩ := supportsBusinessFactorRouting_iff hgroup hcount hm
  obtain ⟨parsed, hparsed, htables, hvalue⟩ := parse_equation rt value hname hcolumn
  have hnone := getEnabledByPhysicalTableName_none hphysical
  have hrun : RejectedOrRouted rt rows db name column value m ↔
      ∃ decision, (resolveTable rt db parsed (shardContext column) (selectTable name)).map
          TableOutcome.decision = .ok decision ∧
        (decision.allowed = true → ∃ found, decision.targets = [found] ∧
          ∃ row ∈ groupOf rt.toUnicodeData rows name,
            found.physicalTableName = row.tableName ++ '_' :: intText (value % m)) := by
    rw [← resolve_singleton htables]
    constructor
    · rintro ⟨parsed', decision, hparsed', hdecision, hall⟩
      obtain rfl := Except.ok.inj (hparsed.symm.trans hparsed')
      exact ⟨decision, hdecision, hall⟩
    · rintro ⟨decision, hdecision, hall⟩
      exact ⟨parsed, decision, hparsed, hdecision, hall⟩
  rw [hrun]
  constructor
  · intro hcovered
    have hresolve := resolveTable_business (selectTable name) hdb hbuilt' hg (hsupports.2 hcovered)
      rfl hnone (contextColumn_shardContext hcolumn.identifier) hvalue
    rw [hmodulus] at hresolve
    split at hresolve
    · rename_i hfit
      obtain ⟨found, d, row, hfound, hrow, -, -, -, hphys, -⟩ := hresolve
      exact iff_of_true ⟨_, by rw [hfound]; rfl, fun _ =>
        ⟨found, rfl, row, hrow, hphys⟩⟩ hfit
    · rename_i hfit
      refine iff_of_false ?_ hfit
      rintro ⟨decision, hdecision, -⟩
      rw [hresolve] at hdecision
      exact absurd hdecision (by simp [Except.map])
  · intro hcovered
    have hbusiness : supportsBusinessFactorRouting
        (groupOf rt.toUnicodeData rows name) = false := by
      rw [← Bool.not_eq_true]
      exact fun hb => hcovered (hsupports.1 hb)
    have hresolve := resolveTable_legacy (selectTable name) hdb hbuilt' hg hbusiness hs rfl hnone
      hcolumn.identifier hvalue
    split at hresolve
    · rename_i hindex
      obtain ⟨found, d, row, hfound, hrow, hphys⟩ := hresolve
      rw [hfound]
      constructor
      · rintro ⟨decision, hdecision, hall⟩ - -
        obtain rfl := Except.ok.inj hdecision
        obtain ⟨found', hfound', row', -, hphys'⟩ := hall rfl
        obtain rfl : found = found' := by simpa [TableOutcome.decision] using hfound'
        exact eq_of_shardName_eq (hphys.symm.trans hphys')
      · intro hsame
        refine ⟨_, rfl, fun _ => ⟨found, rfl, row, hrow, ?_⟩⟩
        rw [hphys, hsame hindex.1 hindex.2]
    · rename_i hindex
      obtain ⟨code, message, d, hreject⟩ := hresolve
      rw [hreject]
      exact iff_of_true ⟨_, rfl, fun ha => absurd ha (by simp [TableOutcome.decision])⟩
        fun hfit hk => absurd ⟨hfit, hk⟩ hindex

/-- A request over one column of an imported table with one shard count is rejected or reaches the
shard of its remainder exactly in these cases: the rows cover all indexes and Python reads the
value; or they do not, and the remainder by the number of covered indexes cannot be taken, is no
covered index, or is the same as the remainder by the shard count. -/
theorem rejectedOrRouted_iff (h : buildSyncBundle rt rows target = .ok bundle)
    (hdb : db.Constraints) (hheld : db.HoldsBundle bundle)
    (hgroup : groupOf rt.toUnicodeData rows name ≠ [])
    (hcount : ∀ row ∈ groupOf rt.toUnicodeData rows name, row.shardCount = m) (hm : 0 < m)
    (hname : isIdentifier name = true)
    (hphysical : ∀ r ∈ db.physicalRoutes.rows, r.physicalTableName ≠ name)
    (hcolumn : PlainName column) :
    RejectedOrRouted rt rows db name column value m ↔
      (coveredIndexes (groupOf rt.toUnicodeData rows name) = Finset.Ico 0 m ∧
        rt.digitsFit (natText value.natAbs).length = true) ∨
      (coveredIndexes (groupOf rt.toUnicodeData rows name) ≠ Finset.Ico 0 m ∧
        (rt.digitsFit (natText value.natAbs).length = true →
          value % ((coveredIndexes (groupOf rt.toUnicodeData rows name)).card : Int) ∈
            coveredIndexes (groupOf rt.toUnicodeData rows name) →
          value % ((coveredIndexes (groupOf rt.toUnicodeData rows name)).card : Int) =
            value % m)) := by
  obtain ⟨hall, hpart⟩ := rejectedOrRouted_cases value h hdb hheld hgroup hcount hm hname
    hphysical hcolumn
  by_cases hcovered : coveredIndexes (groupOf rt.toUnicodeData rows name) = Finset.Ico 0 m
  · rw [hall hcovered]
    simp [hcovered]
  · rw [hpart hcovered]
    simp [hcovered]

end Legacy

/-- The shards 0 and 2 of three. -/
def missingShard : List TableConfigRow :=
  [⟨"s", "c", "t", 0, 0, 3⟩, ⟨"s", "c", "t", 2, 2, 3⟩]

theorem missingShard_run :
    ∃ (bundle : SyncBundle) (db : Metadata),
      buildSyncBundle asciiRuntime missingShard exampleTarget = .ok bundle ∧
      db.Constraints ∧ db.HoldsBundle bundle ∧
      ∀ r ∈ db.physicalRoutes.rows, r.physicalTableName ≠ ("c__t" : Str) := by
  have hrun : ((buildSyncBundle asciiRuntime missingShard exampleTarget).bind
      (syncBundleToLocal exampleMetadata)).map
        (fun db => db.physicalRoutes.rows.map (·.physicalTableName)) =
      .ok [("user_0" : Str), ("user_1" : Str), ("t_0" : Str), ("t_2" : Str)] := by decide +kernel
  obtain ⟨db, hdb, hnames⟩ := map_eq_ok.1 hrun
  obtain ⟨bundle, hbundle, hsync⟩ := bind_eq_ok.1 hdb
  have hs := synced_of_ok hsync
  refine ⟨bundle, db, hbundle, hs.constraints exampleMetadata_constraints,
    hs.holdsBundle exampleMetadata_constraints, fun r hr hname => ?_⟩
  have hmem := List.mem_map_of_mem (f := fun r : PhysicalTableRoute => r.physicalTableName) hr
  rw [hnames, hname] at hmem
  exact absurd hmem (by decide)

theorem groupOf_missingShard :
    groupOf asciiRuntime.toUnicodeData missingShard "c__t" = missingShard := by decide +kernel

/-- The value 4 belongs to the missing shard 1, but is read from shard 0: two routes are enabled. -/
theorem missingShard_misrouted :
    ∃ (bundle : SyncBundle) (db : Metadata),
      buildSyncBundle asciiRuntime missingShard exampleTarget = .ok bundle ∧
      db.Constraints ∧ db.HoldsBundle bundle ∧
      (∀ r ∈ db.physicalRoutes.rows, r.physicalTableName ≠ ("c__t" : Str)) ∧
      (∀ row ∈ groupOf asciiRuntime.toUnicodeData missingShard "c__t", row.shardCount = 3) ∧
      ¬ RejectedOrRouted asciiRuntime missingShard db "c__t" "uid" 4 3 := by
  obtain ⟨bundle, db, hbundle, hdb, hheld, hphysical⟩ := missingShard_run
  have hcount : ∀ row ∈ groupOf asciiRuntime.toUnicodeData missingShard "c__t",
      row.shardCount = 3 := by
    rw [groupOf_missingShard]
    decide
  refine ⟨bundle, db, hbundle, hdb, hheld, hphysical, hcount, ?_⟩
  have hcases := (rejectedOrRouted_cases 4 hbundle hdb hheld
    (by rw [groupOf_missingShard]; decide) hcount (by decide) (by decide) hphysical plainName_uid).2
  rw [groupOf_missingShard] at hcases
  rw [hcases (by decide)]
  decide

theorem rejectedOrRouted_missingShard :
    ∃ (bundle : SyncBundle) (db : Metadata),
      buildSyncBundle asciiRuntime missingShard exampleTarget = .ok bundle ∧
      db.HoldsBundle bundle ∧ RejectedOrRouted asciiRuntime missingShard db "c__t" "uid" 6 3 := by
  obtain ⟨bundle, db, hbundle, hdb, hheld, hphysical⟩ := missingShard_run
  refine ⟨bundle, db, hbundle, hheld, (rejectedOrRouted_iff hbundle hdb hheld ?_ ?_ (by decide)
    (by decide) hphysical plainName_uid).2 (Or.inr ?_)⟩
  · rw [groupOf_missingShard]
    decide
  · rw [groupOf_missingShard]
    decide
  · rw [groupOf_missingShard]
    decide

end SqlGatekeeper
