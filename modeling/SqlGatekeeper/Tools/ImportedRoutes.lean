import SqlGatekeeper.Tools.SpyTableConfigSync

/-!
# The routes of a bundle

What `build_sync_bundle` makes of the rows it accepts.

* `keptRows`, `groupOf`: the rows that are not skipped, and those of one logical table.
* `rowRoutes`, `candidates`: the routes that the rows of a group ask for.
* `Agree`: no two of them claim one route value; `Expanded.expandRows`: an accepted group's do not.
* `groupRoutes`, `mem_physicalRoutes`: the routes that the bundle has.
* `slots`, `mem_candidates_iff`: the routes of a row, one for each of its indexes.
-/

namespace SqlGatekeeper

open Py Store

/-! ## Rows that are kept -/

/-- A row with its names trimmed, unless it names no table. -/
def normalizeRow (row : TableConfigRow) : Option TableConfigRow :=
  if strip row.tableName = [] then none
  else some { row with
    sourceName := strip row.sourceName
    catlogName := strip row.catlogName
    tableName := strip row.tableName }

/-- The rows that are not skipped. -/
def keptRows (rows : List TableConfigRow) : List TableConfigRow := rows.filterMap normalizeRow

/-- The logical name of a row. -/
def logicalNameOf (U : UnicodeData) (row : TableConfigRow) : Str :=
  makeLogicalTableName U row.catlogName row.tableName

/-- The rows of a logical table. -/
def groupOf (U : UnicodeData) (rows : List TableConfigRow) (name : Str) : List TableConfigRow :=
  (keptRows rows).filter fun row => decide (logicalNameOf U row = name)

/-- The first loop groups the rows that are kept. -/
theorem logicalGroups_foldl (U : UnicodeData) (target : ImportedDatasourceTarget)
    (rows : List TableConfigRow) (groups : RowGroups) :
    (rows.foldl (collectRow U target) groups).logicalGroups =
      (keptRows rows).foldl (fun g row => groupAdd (logicalNameOf U row) row g)
        groups.logicalGroups := by
  induction rows generalizing groups with
  | nil => rfl
  | cons row rows ih =>
    rw [List.foldl_cons, ih, keptRows, keptRows, List.filterMap_cons, collectRow, normalizeRow]
    by_cases hname : strip row.tableName = []
    · simp only [hname, if_true]
    · simp only [hname, if_false]
      rfl

/-! ## Routes that rows ask for -/

section Candidates

variable (U : UnicodeData) (name : Str) (groupRows : List TableConfigRow)

/-- The routes that a row of a group asks for. -/
def rowRoutes (row : TableConfigRow) : List PhysicalRouteRecord :=
  if requiresSourceRouting groupRows then
    [physicalRouteRecord U name (effectiveSource row) row.tableName row]
  else if !isSharded groupRows then [physicalRouteRecord U name ['0'] row.tableName row]
  else (suffixes row).map fun suffix =>
    physicalRouteRecord U name (intText suffix) (row.tableName ++ '_' :: intText suffix) row

/-- The routes that the rows of a group ask for, in order. -/
def candidates : List PhysicalRouteRecord :=
  (sortedRows groupRows).flatMap (rowRoutes U name groupRows)

/-- What a route value stands for. -/
def PhysicalRouteRecord.entry (route : PhysicalRouteRecord) : Str × Str :=
  (route.physicalTableName, route.datasourceCode)

/-- No route value stands for two tables. -/
def Agree (routes : List PhysicalRouteRecord) : Prop :=
  ∀ a ∈ routes, ∀ b ∈ routes, a.routeValue = b.routeValue → a.entry = b.entry

/-- The routes of a group: a sharded table keeps the first of those with one value. -/
def groupRoutes : List PhysicalRouteRecord :=
  if isSharded groupRows then firstByKey (·.routeValue) (candidates U name groupRows)
  else candidates U name groupRows

end Candidates

/-! ## The loops -/

section Loops

variable {rt : Runtime} {name : Str} {groupRows : List TableConfigRow}

/-- The state of the loop after some routes. -/
structure Expanded (skipRepeated : Bool) (done : List PhysicalRouteRecord) (e : Expansion) :
    Prop where
  agree : Agree done
  seen : ∀ value entry, e.seenRouteValues.lookup value = some entry ↔
    ∃ route ∈ done, route.routeValue = value ∧ route.entry = entry
  routes : e.routes = if skipRepeated then firstByKey (·.routeValue) done else done

theorem Expanded.nil (skipRepeated : Bool) : Expanded skipRepeated [] ⟨[], []⟩ where
  agree _ ha := absurd ha (by simp)
  seen _ _ := by simp
  routes := by cases skipRepeated <;> rfl

/-- One more route. -/
theorem Expanded.addRoute {skipRepeated : Bool} {done : List PhysicalRouteRecord}
    {e e' : Expansion} (he : Expanded skipRepeated done e) {route : PhysicalRouteRecord}
    (h : addRoute skipRepeated route e = .ok e') :
    Expanded skipRepeated (done ++ [route]) e' := by
  rw [SqlGatekeeper.addRoute] at h
  split at h
  · exact absurd h (by simp)
  rename_i hconflict
  have hentry : ∀ a ∈ done, a.routeValue = route.routeValue → a.entry = route.entry := by
    intro a ha hv
    have hseen := (he.seen route.routeValue a.entry).2 ⟨a, ha, hv, rfl⟩
    rw [hseen] at hconflict
    exact show a.entry = (route.physicalTableName, route.datasourceCode) by simpa using hconflict
  have hagree : Agree (done ++ [route]) := by
    intro a ha b hb hv
    rcases List.mem_append.1 ha with ha | ha <;> rcases List.mem_append.1 hb with hb | hb
    · exact he.agree a ha b hb hv
    · rw [List.mem_singleton.1 hb] at hv ⊢
      exact hentry a ha hv
    · rw [List.mem_singleton.1 ha] at hv ⊢
      exact (hentry b hb hv.symm).symm
    · rw [List.mem_singleton.1 ha, List.mem_singleton.1 hb]
  have hlast : ∀ value entry, (∃ r ∈ done ++ [route], r.routeValue = value ∧
      r.entry = entry) ↔ (∃ r ∈ done, r.routeValue = value ∧ r.entry = entry) ∨
        (route.routeValue = value ∧ route.entry = entry) := fun value entry => by
    simp only [List.mem_append, List.mem_singleton, or_and_right, exists_or, exists_eq_left]
  have hseen : (e.seenRouteValues.lookup route.routeValue).isSome = true ↔
      route.routeValue ∈ (firstByKey (·.routeValue) done).map (·.routeValue) := by
    rw [mem_keys_firstByKey, Option.isSome_iff_exists]
    constructor
    · rintro ⟨entry, hentry⟩
      obtain ⟨r, hr, hv, -⟩ := (he.seen _ _).1 hentry
      exact ⟨r, hr, hv⟩
    · rintro ⟨r, hr, hv⟩
      exact ⟨r.entry, (he.seen _ _).2 ⟨r, hr, hv, rfl⟩⟩
  split at h
  · rename_i hskip
    injection h with h
    subst h
    rw [Bool.and_eq_true, hseen] at hskip
    refine ⟨hagree, fun value entry => ?_, ?_⟩
    · rw [hlast, he.seen]
      refine (or_iff_left_of_imp ?_).symm
      rintro ⟨rfl, rfl⟩
      obtain ⟨r, hr, hv⟩ := mem_keys_firstByKey.1 hskip.2
      exact ⟨r, hr, hv, hentry r hr hv⟩
    · rw [he.routes, hskip.1, firstByKey_append_singleton]
      simp only [hskip.2, if_true]
  · rename_i hskip
    injection h with h
    subst h
    refine ⟨hagree, fun value entry => ?_, ?_⟩
    · rw [hlast]
      by_cases hv : route.routeValue = value
      · subst hv
        simp only [lookup_dictSet_self, Option.some.injEq, true_and]
        refine (or_iff_right_of_imp ?_).symm
        rintro ⟨r, hr, hv, rfl⟩
        exact (hentry r hr hv).symm
      · simp only [lookup_dictSet_ne (Ne.symm hv), he.seen, hv, false_and, or_false]
    · simp only [he.routes]
      cases skipRepeated with
      | false => rfl
      | true =>
        rw [Bool.true_and, hseen] at hskip
        simp only [if_true]
        rw [firstByKey_append_singleton, if_neg hskip]

/-- The indexes of a row. -/
theorem Expanded.expandSuffixes {row : TableConfigRow} {indexes : List Int}
    {done : List PhysicalRouteRecord} {e e' : Expansion} (he : Expanded true done e)
    (h : expandSuffixes rt name row indexes e = .ok e') :
    Expanded true (done ++ indexes.map fun suffix => physicalRouteRecord rt.toUnicodeData name
      (intText suffix) (row.tableName ++ '_' :: intText suffix) row) e' ∧
      ∀ suffix ∈ indexes, rt.digitsFit (natText suffix.natAbs).length = true := by
  induction indexes generalizing done e with
  | nil =>
    injection h with h
    subst h
    exact ⟨by simpa using he, by simp⟩
  | cons suffix indexes ih =>
    obtain ⟨value, hvalue, hadd⟩ := bind_eq_ok.1 h
    obtain ⟨e1, he1, hmore⟩ := bind_eq_ok.1 hadd
    rw [Runtime.strInt] at hvalue
    split at hvalue
    · rename_i hfit
      injection hvalue with hvalue
      subst hvalue
      obtain ⟨hexp, hrest⟩ := ih (he.addRoute he1) hmore
      rw [List.append_assoc, List.singleton_append] at hexp
      exact ⟨hexp, List.forall_mem_cons.2 ⟨hfit, hrest⟩⟩
    · exact absurd hvalue (by simp)

theorem not_requiresSourceRouting (h : isSharded groupRows = true) :
    requiresSourceRouting groupRows = false := by rw [requiresSourceRouting, h]; rfl

/-- A row. -/
theorem Expanded.expandRow {row : TableConfigRow} {done : List PhysicalRouteRecord}
    {e e' : Expansion} (he : Expanded (isSharded groupRows) done e)
    (h : expandRow groupRows rt name row e = .ok e') :
    Expanded (isSharded groupRows) (done ++ rowRoutes rt.toUnicodeData name groupRows row) e' ∧
      (isSharded groupRows = true →
        ∀ suffix ∈ suffixes row, rt.digitsFit (natText suffix.natAbs).length = true) := by
  rw [SqlGatekeeper.expandRow] at h
  rw [rowRoutes]
  cases hs : isSharded groupRows with
  | true =>
    simp only [not_requiresSourceRouting hs, hs, Bool.false_eq_true, if_false,
      Bool.not_true] at h ⊢
    rw [hs] at he
    exact (he.expandSuffixes h).imp_right fun hfit _ => hfit
  | false =>
    rw [hs] at he
    refine ⟨?_, fun h => absurd h (by simp)⟩
    by_cases hr : requiresSourceRouting groupRows = true
    · rw [if_pos hr] at h ⊢
      exact he.addRoute h
    · simp only [hr, Bool.false_eq_true, if_false, hs, Bool.not_false, if_true] at h ⊢
      exact he.addRoute h

/-- All rows. -/
theorem Expanded.expandRows {rows : List TableConfigRow} {done : List PhysicalRouteRecord}
    {e e' : Expansion} (he : Expanded (isSharded groupRows) done e)
    (h : expandRows groupRows rt name rows e = .ok e') :
    Expanded (isSharded groupRows)
        (done ++ rows.flatMap (rowRoutes rt.toUnicodeData name groupRows)) e' ∧
      (isSharded groupRows = true → ∀ row ∈ rows,
        ∀ suffix ∈ suffixes row, rt.digitsFit (natText suffix.natAbs).length = true) := by
  induction rows generalizing done e with
  | nil =>
    injection h with h
    subst h
    exact ⟨by simpa using he, fun _ _ h => absurd h (by simp)⟩
  | cons row rows ih =>
    obtain ⟨e1, he1, h⟩ := bind_eq_ok.1 h
    obtain ⟨hexp1, hfit1⟩ := he.expandRow he1
    obtain ⟨hexp, hfit⟩ := ih hexp1 h
    rw [List.append_assoc] at hexp
    exact ⟨hexp, fun hs => List.forall_mem_cons.2 ⟨hfit1 hs, hfit hs⟩⟩

end Loops

/-! ## Groups -/

section Groups

variable {rt : Runtime} {U : UnicodeData} {name : Str} {groupRows : List TableConfigRow}

/-- What an accepted group gives. -/
structure GroupBuilt (rt : Runtime) (name : Str) (groupRows : List TableConfigRow)
    (records : GroupRecords) : Prop where
  logicalTable : ∃ sample more, groupRows = sample :: more ∧
    records.logicalTable = logicalTableRecord groupRows name sample
  routeFactor : records.routeFactor = routeFactorRecord groupRows name
  routeRule : routeRuleRecord groupRows rt name = .ok records.routeRule
  agree : Agree (candidates rt.toUnicodeData name groupRows)
  physicalRoutes : records.physicalRoutes = groupRoutes rt.toUnicodeData name groupRows
  digitsFit : isSharded groupRows = true → ∀ row ∈ dedupedRows groupRows,
    ∀ suffix ∈ suffixes row, rt.digitsFit (natText suffix.natAbs).length = true

theorem mem_sortedRows {row : TableConfigRow} :
    row ∈ sortedRows groupRows ↔ row ∈ dedupedRows groupRows :=
  (List.perm_insertionSort _ _).mem_iff

theorem buildGroup_ok {records : GroupRecords}
    (h : buildGroup rt (name, groupRows) = .ok records) : GroupBuilt rt name groupRows records := by
  cases groupRows with
  | nil => exact absurd h (by simp [buildGroup])
  | cons sample more =>
    obtain ⟨rule, hrule, hexpand⟩ := bind_eq_ok.1 h
    obtain ⟨e, he, hrecords⟩ := bind_eq_ok.1 hexpand
    injection hrecords with hrecords
    subst hrecords
    obtain ⟨hexp, hfit⟩ := (Expanded.nil _).expandRows he
    rw [List.nil_append] at hexp
    exact ⟨⟨sample, more, rfl, rfl⟩, rfl, hrule, hexp.agree, hexp.routes,
      fun hs row hrow => hfit hs row (mem_sortedRows.2 hrow)⟩

theorem buildGroups_ok {groups : List (Str × List TableConfigRow)} {records : List GroupRecords}
    (h : buildGroups rt groups = .ok records) :
    List.Forall₂ (fun g r => GroupBuilt rt g.1 g.2 r) groups records := by
  induction groups generalizing records with
  | nil =>
    injection h with h
    subst h
    exact .nil
  | cons g groups ih =>
    obtain ⟨r, hr, hmore⟩ := bind_eq_ok.1 h
    obtain ⟨rs, hrs, hall⟩ := bind_eq_ok.1 hmore
    injection hall with hall
    subst hall
    exact .cons (buildGroup_ok hr) (ih hrs)

/-- The groups in the order of the bundle. -/
def sortedGroups (U : UnicodeData) (rows : List TableConfigRow) :
    List (Str × List TableConfigRow) :=
  (groupBy (logicalNameOf U) (keptRows rows)).insertionSort fun a b => strLe a.1 b.1 = true

theorem mem_sortedGroups {rows : List TableConfigRow} :
    (name, groupRows) ∈ sortedGroups U rows ↔ groupRows = groupOf U rows name ∧
    groupRows ≠ [] := by
  rw [sortedGroups, (List.perm_insertionSort _ _).mem_iff, mem_groupBy]
  rfl

theorem nodup_sortedGroups (rows : List TableConfigRow) :
    ((sortedGroups U rows).map Prod.fst).Nodup :=
  ((List.perm_insertionSort _ _).map _).nodup_iff.2 (nodup_keys_groupBy _ _)

end Groups

/-! ## The bundle -/

section Bundle

variable {rt : Runtime} {rows : List TableConfigRow} {target : ImportedDatasourceTarget}
  {bundle : SyncBundle}

/-- The records of an accepted list of rows, group by group. -/
theorem buildSyncBundle_ok (h : buildSyncBundle rt rows target = .ok bundle) :
    ∃ records, List.Forall₂ (fun g r => GroupBuilt rt g.1 g.2 r)
        (sortedGroups rt.toUnicodeData rows) records ∧
      bundle.logicalTables = records.map (·.logicalTable) ∧
      bundle.routeFactors = records.filterMap (·.routeFactor) ∧
      bundle.routeRules = records.map (·.routeRule) ∧
      bundle.physicalRoutes = records.flatMap (·.physicalRoutes) := by
  obtain ⟨records, hrecords, h⟩ := bind_eq_ok.1 h
  injection h with h
  subst h
  have hgroups := logicalGroups_foldl rt.toUnicodeData target rows ⟨[], [], 0⟩
  rw [hgroups] at hrecords
  exact ⟨records, buildGroups_ok hrecords, rfl, rfl, rfl, rfl⟩

/-- The routes of a bundle, group by group. -/
theorem physicalRoutes_eq (h : buildSyncBundle rt rows target = .ok bundle) :
    bundle.physicalRoutes = (sortedGroups rt.toUnicodeData rows).flatMap
      fun g => groupRoutes rt.toUnicodeData g.1 g.2 := by
  obtain ⟨records, hall, -, -, -, hroutes⟩ := buildSyncBundle_ok h
  rw [hroutes]
  clear hroutes
  generalize sortedGroups rt.toUnicodeData rows = groups at hall ⊢
  induction hall with
  | nil => rfl
  | cons hg _ ih => rw [List.flatMap_cons, List.flatMap_cons, hg.physicalRoutes, ← ih]

/-- A route of the bundle is one of a logical table's. -/
theorem mem_physicalRoutes (h : buildSyncBundle rt rows target = .ok bundle)
    {route : PhysicalRouteRecord} :
    route ∈ bundle.physicalRoutes ↔ ∃ name, groupOf rt.toUnicodeData rows name ≠ [] ∧
      route ∈ groupRoutes rt.toUnicodeData name (groupOf rt.toUnicodeData rows name) := by
  rw [physicalRoutes_eq h, List.mem_flatMap]
  constructor
  · rintro ⟨⟨name, groupRows⟩, hg, hr⟩
    obtain ⟨rfl, hne⟩ := mem_sortedGroups.1 hg
    exact ⟨name, hne, hr⟩
  · rintro ⟨name, hne, hr⟩
    exact ⟨_, mem_sortedGroups.2 ⟨rfl, hne⟩, hr⟩

/-- The logical tables of a bundle, group by group. -/
theorem map_tableName_logicalTables (h : buildSyncBundle rt rows target = .ok bundle) :
    bundle.logicalTables.map (·.tableName) =
      (sortedGroups rt.toUnicodeData rows).map Prod.fst := by
  obtain ⟨records, hall, htables, -⟩ := buildSyncBundle_ok h
  rw [htables, List.map_map]
  clear htables
  generalize sortedGroups rt.toUnicodeData rows = groups at hall ⊢
  induction hall with
  | nil => rfl
  | cons hg _ ih =>
    obtain ⟨sample, more, -, htable⟩ := hg.logicalTable
    rw [List.map_cons, List.map_cons, ← ih, Function.comp_apply, htable]
    rfl

/-- A logical table of the bundle is that of a row which is kept. -/
theorem mem_tableNames (h : buildSyncBundle rt rows target = .ok bundle) {name : Str} :
    name ∈ bundle.logicalTables.map (·.tableName) ↔
      ∃ row ∈ keptRows rows, logicalNameOf rt.toUnicodeData row = name := by
  rw [map_tableName_logicalTables h, List.mem_map]
  constructor
  · rintro ⟨⟨name, group⟩, hg, rfl⟩
    obtain ⟨rfl, hne⟩ := mem_sortedGroups.1 hg
    obtain ⟨row, hrow⟩ := List.exists_mem_of_ne_nil _ hne
    rw [groupOf, List.mem_filter, decide_eq_true_eq] at hrow
    exact ⟨row, hrow⟩
  · rintro ⟨row, hrow, hname⟩
    refine ⟨(name, groupOf rt.toUnicodeData rows name), mem_sortedGroups.2 ⟨rfl, ?_⟩, rfl⟩
    refine List.ne_nil_of_mem (a := row) ?_
    rw [groupOf, List.mem_filter, decide_eq_true_eq]
    exact ⟨hrow, hname⟩

/-- Every group of an accepted list of rows is built. -/
theorem exists_groupBuilt (h : buildSyncBundle rt rows target = .ok bundle) {name : Str}
    (hne : groupOf rt.toUnicodeData rows name ≠ []) :
    ∃ records, GroupBuilt rt name (groupOf rt.toUnicodeData rows name) records ∧
      records.logicalTable ∈ bundle.logicalTables := by
  obtain ⟨records, hall, htables, -⟩ := buildSyncBundle_ok h
  have hmem : (name, groupOf rt.toUnicodeData rows name) ∈ sortedGroups rt.toUnicodeData rows :=
    mem_sortedGroups.2 ⟨rfl, hne⟩
  obtain ⟨i, hi, hget⟩ := List.mem_iff_getElem.1 hmem
  have hi' : i < records.length := hall.length_eq ▸ hi
  have hbuilt := (List.forall₂_iff_get.1 hall).2 i hi hi'
  rw [List.get_eq_getElem, hget] at hbuilt
  exact ⟨_, hbuilt, by rw [htables]; exact List.mem_map.2 ⟨_, List.get_mem _ _, rfl⟩⟩

end Bundle

/-! ## Facts about groups -/

section Facts

variable {U : UnicodeData} {name : Str} {groupRows : List TableConfigRow}

theorem mem_dedupedRows {row : TableConfigRow} :
    row ∈ dedupedRows groupRows ↔ IsLast segmentKey groupRows row := mem_lastByKey

theorem isSharded_iff : isSharded groupRows = true ↔ ∃ row ∈ groupRows,
    0 < row.shardCount := by
  simp only [isSharded, List.any_eq_true, decide_eq_true_eq]
  constructor
  · rintro ⟨row, hrow, hcount⟩
    exact ⟨row, (mem_dedupedRows.1 hrow).mem, hcount⟩
  · rintro ⟨row, hrow, hcount⟩
    obtain ⟨s, hs, hkey⟩ := exists_isLast segmentKey hrow
    simp only [segmentKey, Prod.mk.injEq] at hkey
    exact ⟨s, mem_dedupedRows.2 hs, hkey.2.2.2 ▸ hcount⟩

theorem mem_candidates {route : PhysicalRouteRecord} :
    route ∈ candidates U name groupRows ↔
      ∃ row ∈ dedupedRows groupRows, route ∈ rowRoutes U name groupRows row := by
  simp only [candidates, List.mem_flatMap, mem_sortedRows]

theorem mem_candidates_of_mem {route : PhysicalRouteRecord}
    (h : route ∈ groupRoutes U name groupRows) : route ∈ candidates U name groupRows := by
  rw [groupRoutes] at h
  split at h
  · obtain ⟨before, behind, hmem, -⟩ := mem_firstByKey.1 h
    rw [hmem]
    simp
  · exact h

theorem logicalTableName_of_mem {route : PhysicalRouteRecord}
    (h : route ∈ groupRoutes U name groupRows) : route.logicalTableName = name := by
  obtain ⟨row, -, hrow⟩ := mem_candidates.1 (mem_candidates_of_mem h)
  rw [rowRoutes] at hrow
  split_ifs at hrow
  · rw [List.mem_singleton.1 hrow]
    rfl
  · rw [List.mem_singleton.1 hrow]
    rfl
  · obtain ⟨suffix, -, rfl⟩ := List.mem_map.1 hrow
    rfl

theorem mem_intRange {start stop k : Int} : k ∈ intRange start stop ↔ start ≤ k ∧
    k < stop := by
  rw [intRange, List.mem_map]
  constructor
  · rintro ⟨i, hi, rfl⟩
    rw [List.mem_range] at hi
    omega
  · rintro ⟨h1, h2⟩
    exact ⟨(k - start).toNat, by rw [List.mem_range]; omega, by omega⟩

theorem mem_suffixes {row : TableConfigRow} {k : Int} :
    k ∈ suffixes row ↔ row.beginIndex ≤ k ∧ k ≤ row.endIndex := by
  rw [suffixes, mem_intRange]
  omega

/-! ### Slots -/

/-- The indexes under which a row of a group asks for routes; a table without shards has none. -/
def slots (groupRows : List TableConfigRow) (row : TableConfigRow) : List (Option Int) :=
  if isSharded groupRows then (suffixes row).map some else [none]

/-- The physical table of a row under an index. -/
def physicalName (row : TableConfigRow) : Option Int → Str
  | none => row.tableName
  | some suffix => row.tableName ++ '_' :: intText suffix

theorem mem_slots_none {row : TableConfigRow} {i : Option Int}
    (hi : i ∈ slots groupRows row) : i = none ↔ isSharded groupRows = false := by
  rw [slots] at hi
  split at hi
  · rename_i hs
    obtain ⟨k, -, rfl⟩ := List.mem_map.1 hi
    simp [hs]
  · rename_i hs
    simp [List.mem_singleton.1 hi, hs]

/-- The value of a row's route under an index. -/
def slotValue (groupRows : List TableConfigRow) (row : TableConfigRow) : Option Int → Str
  | none => if requiresSourceRouting groupRows then effectiveSource row else ['0']
  | some suffix => intText suffix

/-- The routes of a row, slot by slot. -/
theorem rowRoutes_eq (row : TableConfigRow) :
    rowRoutes U name groupRows row = (slots groupRows row).map fun slot =>
      physicalRouteRecord U name (slotValue groupRows row slot) (physicalName row slot) row := by
  rw [rowRoutes, slots]
  cases hs : isSharded groupRows with
  | true =>
    simp only [not_requiresSourceRouting hs, Bool.false_eq_true, if_false, Bool.not_true, if_true,
      List.map_map]
    rfl
  | false =>
    by_cases hr : requiresSourceRouting groupRows = true
    · simp [hr, slotValue, physicalName]
    · simp [hr, slotValue, physicalName]

theorem mem_candidates_iff {route : PhysicalRouteRecord} :
    route ∈ candidates U name groupRows ↔
      ∃ row ∈ dedupedRows groupRows, ∃ slot ∈ slots groupRows row,
        route = physicalRouteRecord U name (slotValue groupRows row slot) (physicalName row slot)
          row := by
  simp only [mem_candidates, rowRoutes_eq, List.mem_map, eq_comm]

/-- Every route asked for is there, under its value and its table. -/
theorem exists_groupRoute (hagree : Agree (candidates U name groupRows))
    {route : PhysicalRouteRecord} (h : route ∈ candidates U name groupRows) :
    ∃ a ∈ groupRoutes U name groupRows, a.routeValue = route.routeValue ∧
      a.entry = route.entry ∧ (isSharded groupRows = false → a = route) := by
  rw [groupRoutes]
  cases hs : isSharded groupRows with
  | false => exact ⟨route, h, rfl, rfl, fun _ => rfl⟩
  | true =>
    obtain ⟨a, ha, hv⟩ : ∃ a ∈ firstByKey (·.routeValue) (candidates U name groupRows),
        a.routeValue = route.routeValue := by
      rw [← List.mem_map]
      exact mem_keys_firstByKey.2 ⟨route, h, rfl⟩
    have hcandidate : a ∈ candidates U name groupRows :=
      mem_candidates_of_mem (by rw [groupRoutes, if_pos hs]; exact ha)
    exact ⟨a, ha, hv, hagree a hcandidate route h hv, fun h => absurd h (by simp)⟩


end Facts

/-- Where the examples' datasources connect to. -/
def exampleTarget : ImportedDatasourceTarget :=
  ⟨"127.0.0.1", 13306, "spy", "reader", "local:reader"⟩

end SqlGatekeeper
