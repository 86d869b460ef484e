import SqlGatekeeper.Tools.ImportedRoutes

/-!
# Where imported routes come from

* `ImportsAll`, `importsAll_iff`: every row that names a table has its routes in the bundle, exactly
  if no other table takes its segment.
* `OneOrigin`, `oneOrigin_iff`: the routes of a logical table come from one table, exactly if no
  other table is normalised to its name.
-/

namespace SqlGatekeeper

open Py Store

section Origins

variable {rt : Runtime} {rows : List TableConfigRow} {target : ImportedDatasourceTarget}
  {bundle : SyncBundle}

/-! ## No table is lost -/

/-- A route of a row: under its logical table, on its datasource. -/
structure RouteOf (U : UnicodeData) (row : TableConfigRow)
    (route : PhysicalRouteRecord) : Prop where
  logicalTableName : route.logicalTableName = logicalNameOf U row
  datasourceCode : route.datasourceCode = makeDatasourceCode U row.sourceName

/-- The routes that a row must have: one for its table, or, if its group is sharded, one for each
of its indexes. -/
def Covered (U : UnicodeData) (rows : List TableConfigRow) (bundle : SyncBundle)
    (row : TableConfigRow) : Prop :=
  if ∃ r ∈ groupOf U rows (logicalNameOf U row), 0 < r.shardCount then
    ∀ suffix, row.beginIndex ≤ suffix → suffix ≤ row.endIndex →
      ∃ route ∈ bundle.physicalRoutes, RouteOf U row route ∧
        route.routeValue = intText suffix ∧ route.physicalTableName = row.tableName ++
          '_' :: intText suffix
  else ∃ route ∈ bundle.physicalRoutes, RouteOf U row route ∧
    route.physicalTableName = row.tableName

/-- A route comes from a row. -/
def Arises (U : UnicodeData) (rows : List TableConfigRow) (route : PhysicalRouteRecord) : Prop :=
  ∃ row ∈ keptRows rows, RouteOf U row route ∧
    if ∃ r ∈ groupOf U rows (logicalNameOf U row), 0 < r.shardCount then
      ∃ suffix, row.beginIndex ≤ suffix ∧ suffix ≤ row.endIndex ∧
        route.routeValue = intText suffix ∧
        route.physicalTableName = row.tableName ++ '_' :: intText suffix
    else route.physicalTableName = row.tableName

/-- The import loses no table and makes up no route. -/
def ImportsAll (U : UnicodeData) (rows : List TableConfigRow) (bundle : SyncBundle) : Prop :=
  (∀ row ∈ keptRows rows, Covered U rows bundle row) ∧
    ∀ route ∈ bundle.physicalRoutes, Arises U rows route

/-- A row that no later row of its segment replaces stands for this one: same table, same
datasource and, if the group is sharded, same indexes.  A sharded row without indexes asks for
nothing. -/
def StandsFor (U : UnicodeData) (rows : List TableConfigRow) (row : TableConfigRow) : Prop :=
  let group := groupOf U rows (logicalNameOf U row)
  (∃ r ∈ group, 0 < r.shardCount) ∧ row.endIndex < row.beginIndex ∨
    ∃ s, IsLast segmentKey group s ∧ s.tableName = row.tableName ∧
      makeDatasourceCode U s.sourceName = makeDatasourceCode U row.sourceName ∧
      ((∃ r ∈ group, 0 < r.shardCount) → s.beginIndex = row.beginIndex ∧
        s.endIndex = row.endIndex)

theorem mem_groupOf {U : UnicodeData} {row : TableConfigRow} {name : Str} :
    row ∈ groupOf U rows name ↔ row ∈ keptRows rows ∧ logicalNameOf U row = name := by
  rw [groupOf, List.mem_filter, decide_eq_true_eq]

/-- A route of a row's group is in the bundle. -/
theorem mem_bundle_iff (h : buildSyncBundle rt rows target = .ok bundle) {row : TableConfigRow}
    (hrow : row ∈ keptRows rows) (route : PhysicalRouteRecord) :
    route ∈ bundle.physicalRoutes ∧ route.logicalTableName = logicalNameOf rt.toUnicodeData
      row ↔ route ∈ groupRoutes rt.toUnicodeData (logicalNameOf rt.toUnicodeData row)
        (groupOf rt.toUnicodeData rows (logicalNameOf rt.toUnicodeData row)) := by
  rw [mem_physicalRoutes h]
  constructor
  · rintro ⟨⟨name, -, hmem⟩, hname⟩
    obtain rfl : name = logicalNameOf rt.toUnicodeData row :=
      (logicalTableName_of_mem hmem).symm.trans hname
    exact hmem
  · intro hmem
    exact ⟨⟨_, List.ne_nil_of_mem (mem_groupOf.2 ⟨hrow, rfl⟩), hmem⟩,
      logicalTableName_of_mem hmem⟩

theorem covered_iff (h : buildSyncBundle rt rows target = .ok bundle) {row : TableConfigRow}
    (hrow : row ∈ keptRows rows) :
    Covered rt.toUnicodeData rows bundle row ↔ StandsFor rt.toUnicodeData rows row := by
  have hmem := mem_bundle_iff h hrow
  have hgroup : row ∈ groupOf rt.toUnicodeData rows (logicalNameOf rt.toUnicodeData row) :=
    mem_groupOf.2 ⟨hrow, rfl⟩
  obtain ⟨records, hbuilt, -⟩ := exists_groupBuilt h (List.ne_nil_of_mem hgroup)
  have hagree := hbuilt.agree
  rw [Covered, StandsFor]
  generalize groupOf rt.toUnicodeData rows (logicalNameOf rt.toUnicodeData row) = group at *
  simp only [← isSharded_iff]
  by_cases hs : isSharded group = true
  · have hslots : ∀ r, slots group r = (suffixes r).map some := fun r => by rw [slots, if_pos hs]
    have hslot : ∀ r k, k ∈ suffixes r → some k ∈ slots group r := fun r k hk => by
      rw [hslots]
      exact List.mem_map.2 ⟨k, hk, rfl⟩
    simp only [hs, if_true, true_and, forall_const]
    constructor
    · intro hcovered
      by_cases hrange : row.endIndex < row.beginIndex
      · exact Or.inl hrange
      -- The row that keeps the segment claims the same route values.
      obtain ⟨s, hs', hkey⟩ := exists_isLast segmentKey hgroup
      simp only [segmentKey, Prod.mk.injEq] at hkey
      obtain ⟨hsource, hbegin, hend, -⟩ := hkey
      obtain ⟨route, hroute, hof, hvalue, hname⟩ := hcovered row.beginIndex le_rfl (by omega)
      have hcandidate := mem_candidates_of_mem ((hmem route).1 ⟨hroute, hof.logicalTableName⟩)
      have hother : physicalRouteRecord rt.toUnicodeData (logicalNameOf rt.toUnicodeData row)
          (slotValue group s (some row.beginIndex)) (physicalName s (some row.beginIndex)) s ∈
          candidates rt.toUnicodeData (logicalNameOf rt.toUnicodeData row) group :=
        mem_candidates_iff.2 ⟨s, mem_dedupedRows.2 hs', _,
          hslot _ _ (mem_suffixes.2 ⟨by omega, by omega⟩), rfl⟩
      have hentry := hagree _ hother _ hcandidate hvalue.symm
      have htable : s.tableName ++ '_' :: intText row.beginIndex =
          row.tableName ++ '_' :: intText row.beginIndex := (Prod.mk.inj hentry).1.trans hname
      exact Or.inr ⟨s, hs', List.append_cancel_right htable, by rw [hsource], hbegin, hend⟩
    · rintro (hrange | ⟨s, hlast, htable, hcode, hbegin, hend⟩) k hk hk'
      · omega
      · obtain ⟨a, ha, hv, he, -⟩ := exists_groupRoute hagree (mem_candidates_iff.2
          ⟨s, mem_dedupedRows.2 hlast, some k,
            hslot s k (mem_suffixes.2 ⟨by omega, by omega⟩), rfl⟩)
        obtain ⟨hbundle, hname⟩ := (hmem a).2 ha
        refine ⟨a, hbundle, ⟨hname, (Prod.mk.inj he).2.trans hcode⟩, hv,
          (Prod.mk.inj he).1.trans ?_⟩
        show s.tableName ++ '_' :: intText k = _
        rw [htable]
  · have hslots : ∀ r, slots group r = [none] := fun r => by rw [slots, if_neg hs]
    simp only [hs, if_false, false_and, false_or, false_imp_iff, and_true, Bool.false_eq_true]
    constructor
    · rintro ⟨route, hroute, hof, hname⟩
      obtain ⟨s, hs', slot, hslot, rfl⟩ := mem_candidates_iff.1
        (mem_candidates_of_mem ((hmem route).1 ⟨hroute, hof.logicalTableName⟩))
      rw [hslots, List.mem_singleton] at hslot
      subst hslot
      exact ⟨s, mem_dedupedRows.1 hs', hname, hof.datasourceCode⟩
    · rintro ⟨s, hlast, htable, hcode⟩
      obtain ⟨a, ha, -, he, -⟩ := exists_groupRoute hagree (mem_candidates_iff.2
        ⟨s, mem_dedupedRows.2 hlast, none, by rw [hslots]; exact List.mem_singleton_self _,
          rfl⟩)
      obtain ⟨hbundle, hname⟩ := (hmem a).2 ha
      exact ⟨a, hbundle, ⟨hname, (Prod.mk.inj he).2.trans hcode⟩,
        (Prod.mk.inj he).1.trans htable⟩

/-- Every route of a bundle comes from a row. -/
theorem arises_of_mem (h : buildSyncBundle rt rows target = .ok bundle)
    {route : PhysicalRouteRecord} (hroute : route ∈ bundle.physicalRoutes) :
    Arises rt.toUnicodeData rows route := by
  obtain ⟨name, -, hmem⟩ := (mem_physicalRoutes h).1 hroute
  obtain ⟨row, hrow, slot, hslot, rfl⟩ := mem_candidates_iff.1 (mem_candidates_of_mem hmem)
  obtain ⟨hkept, rfl⟩ := mem_groupOf.1 (mem_dedupedRows.1 hrow).mem
  refine ⟨row, hkept, ⟨rfl, rfl⟩, ?_⟩
  simp only [← isSharded_iff]
  rw [slots] at hslot
  split at hslot
  · rename_i hs
    obtain ⟨k, hk, rfl⟩ := List.mem_map.1 hslot
    rw [if_pos hs]
    obtain ⟨h1, h2⟩ := mem_suffixes.1 hk
    exact ⟨k, h1, h2, rfl, rfl⟩
  · rename_i hs
    rw [if_neg hs]
    rw [List.mem_singleton.1 hslot]
    rfl

/-- The import loses no table exactly if each row that asks for routes has one that stands for
it. -/
theorem importsAll_iff (h : buildSyncBundle rt rows target = .ok bundle) :
    ImportsAll rt.toUnicodeData rows bundle ↔
      ∀ row ∈ keptRows rows, StandsFor rt.toUnicodeData rows row := by
  constructor
  · exact fun hall row hrow => (covered_iff h hrow).1 (hall.1 row hrow)
  · exact fun hall => ⟨fun row hrow => (covered_iff h hrow).2 (hall row hrow),
      fun route hroute => arises_of_mem h hroute⟩

end Origins

/-- Two tables whose names differ in the case of a letter only. -/
def twoCases : List TableConfigRow :=
  [⟨"s", "c", "Orders", 0, 0, 0⟩, ⟨"s", "c", "orders", 0, 0, 0⟩]

/-- The table `Orders` is lost. -/
theorem twoCases_not_covered :
    ∃ bundle, buildSyncBundle asciiRuntime twoCases exampleTarget = .ok bundle ∧
      ¬ Covered asciiRuntime.toUnicodeData twoCases bundle ⟨"s", "c", "Orders", 0, 0, 0⟩ := by
  have hrun : (buildSyncBundle asciiRuntime twoCases exampleTarget).map (fun bundle =>
      bundle.physicalRoutes.map (·.physicalTableName)) = .ok [("orders" : Str)] := by
    decide +kernel
  obtain ⟨bundle, hbundle, hnames⟩ := map_eq_ok.1 hrun
  refine ⟨bundle, hbundle, fun hcovered => ?_⟩
  rw [Covered, if_neg (by decide +kernel)] at hcovered
  obtain ⟨route, hroute, -, hname⟩ := hcovered
  have hmem : ("Orders" : Str) ∈ bundle.physicalRoutes.map (·.physicalTableName) :=
    List.mem_map.2 ⟨route, hroute, hname⟩
  rw [hnames] at hmem
  exact absurd hmem (by decide)

theorem twoCases_loses_table :
    ∃ bundle, buildSyncBundle asciiRuntime twoCases exampleTarget = .ok bundle ∧
      ¬ ImportsAll asciiRuntime.toUnicodeData twoCases bundle := by
  obtain ⟨bundle, hbundle, hnot⟩ := twoCases_not_covered
  exact ⟨bundle, hbundle, fun hall => hnot (hall.1 _ (by decide +kernel))⟩

/-- A table in four shards; the first two are given twice. -/
def shardRows : List TableConfigRow :=
  [⟨"s", "c", "orders", 0, 1, 4⟩, ⟨"s", "c", "orders", 2, 3, 4⟩,
    ⟨"s", "c", "orders", 0, 1, 4⟩]

theorem eq_of_mem_shardRows {name : Str} {row : TableConfigRow}
    (h : row ∈ groupOf asciiRuntime.toUnicodeData shardRows name) :
    row.catlogName = "c" ∧ row.tableName = "orders" := by
  have hall : ∀ r ∈ shardRows, r.catlogName = "c" ∧ r.tableName = "orders" := by decide
  exact hall row (mem_groupOf.1 h).1

/-- No row of one of the tables that differ in case stands for the other; of the four shards every
row does. -/
theorem importsAll_twoCases :
    (∃ bundle, buildSyncBundle asciiRuntime twoCases exampleTarget = .ok bundle ∧
      ¬ ∀ row ∈ keptRows twoCases, StandsFor asciiRuntime.toUnicodeData twoCases row) ∧
    ∃ bundle, buildSyncBundle asciiRuntime shardRows exampleTarget = .ok bundle ∧
      ImportsAll asciiRuntime.toUnicodeData shardRows bundle := by
  obtain ⟨lost, hlost, hnot⟩ := twoCases_not_covered
  have hrun : (buildSyncBundle asciiRuntime shardRows exampleTarget).map (fun _ => ()) =
      .ok () := by decide +kernel
  obtain ⟨bundle, hbundle, -⟩ := map_eq_ok.1 hrun
  refine ⟨⟨lost, hlost, fun hall => ?_⟩, bundle, hbundle, (importsAll_iff hbundle).2 ?_⟩
  · exact hnot (((importsAll_iff hlost).2 hall).1 _ (by decide +kernel))
  · intro row hrow
    have hgroup : row ∈ groupOf asciiRuntime.toUnicodeData shardRows
        (logicalNameOf asciiRuntime.toUnicodeData row) := mem_groupOf.2 ⟨hrow, rfl⟩
    obtain ⟨s, hlast, hkey⟩ := exists_isLast segmentKey hgroup
    simp only [segmentKey, Prod.mk.injEq] at hkey
    obtain ⟨hsource, hbegin, hend, -⟩ := hkey
    exact Or.inr ⟨s, hlast, (eq_of_mem_shardRows hlast.mem).2.trans
      (eq_of_mem_shardRows hgroup).2.symm, by rw [hsource], fun _ => ⟨hbegin, hend⟩⟩

/-! ## No two tables are mixed -/

section Mixed

variable {rt : Runtime} {rows : List TableConfigRow} {target : ImportedDatasourceTarget}
  {bundle : SyncBundle}

/-- The row that a route was made from: the row of its group that asks for exactly this record. -/
def MadeFrom (U : UnicodeData) (rows : List TableConfigRow) (route : PhysicalRouteRecord)
    (row : TableConfigRow) : Prop :=
  row ∈ groupOf U rows route.logicalTableName ∧
    route ∈ rowRoutes U route.logicalTableName (groupOf U rows route.logicalTableName) row

/-- The same catalog and table, up to the case of letters. -/
def SameTable (U : UnicodeData) (row : TableConfigRow) (catlogName tableName : Str) : Prop :=
  lower U row.catlogName = lower U catlogName ∧ lower U row.tableName = lower U tableName

/-- Every route of a logical table was made from a row of the catalog and the table that are
recorded for it. -/
def OneOrigin (U : UnicodeData) (rows : List TableConfigRow) (bundle : SyncBundle) : Prop :=
  ∀ table ∈ bundle.logicalTables, ∀ route ∈ bundle.physicalRoutes,
    route.logicalTableName = table.tableName → ∀ row, MadeFrom U rows route row →
      ∃ catlogName tableName, table.extra.get "original_catlog_name" = .str catlogName ∧
        table.extra.get "original_table_name" = .str tableName ∧
        SameTable U row catlogName tableName

/-- A row asks for a route that no row sorted before it asks for: if the group is sharded, one of
its indexes is none of theirs. -/
def Contributes (group before : List TableConfigRow) (row : TableConfigRow) : Prop :=
  (∃ r ∈ group, 0 < r.shardCount) → ∃ suffix, row.beginIndex ≤ suffix ∧
    suffix ≤ row.endIndex ∧ ∀ s ∈ before, ¬ (s.beginIndex ≤ suffix ∧
      suffix ≤ s.endIndex)

/-- The row of a route is determined by its record. -/
theorem row_eq_of_route_eq {U : UnicodeData} {name : Str} {group : List TableConfigRow}
    {r s : TableConfigRow} {i j : Option Int} (hi : i ∈ slots group r) (hj : j ∈ slots group s)
    (h : physicalRouteRecord U name (slotValue group r i) (physicalName r i) r =
      physicalRouteRecord U name (slotValue group s j) (physicalName s j) s) : r = s := by
  have hextra := congrArg (·.extra) h
  simp only [physicalRouteRecord, List.cons.injEq, Prod.mk.injEq, Json.str.injEq, Json.int.injEq,
    true_and, and_true] at hextra
  have hvalue : slotValue group r i = slotValue group s j := congrArg (·.routeValue) h
  have hname : physicalName r i = physicalName s j := congrArg (·.physicalTableName) h
  have htable : r.tableName = s.tableName := by
    have hij : i = none ↔ j = none := (mem_slots_none hi).trans (mem_slots_none hj).symm
    cases i with
    | none =>
      obtain rfl : j = none := hij.1 rfl
      exact hname
    | some k =>
      cases j with
      | none => exact absurd (hij.2 rfl) (by simp)
      | some l =>
        obtain rfl : k = l := intText_injective hvalue
        exact List.append_cancel_right hname
  obtain ⟨h1, h2, h3, h4, h5⟩ := hextra
  cases r
  cases s
  simp_all

/-- The routes of a group, each with the row it was made from. -/
theorem exists_contributes {U : UnicodeData} {name : Str} {group : List TableConfigRow}
    {route : PhysicalRouteRecord} (h : route ∈ groupRoutes U name group) :
    ∃ before row behind, sortedRows group = before ++ row :: behind ∧
      Contributes group before row ∧ route ∈ rowRoutes U name group row := by
  rw [groupRoutes] at h
  by_cases hs : isSharded group = true
  · rw [if_pos hs, mem_firstByKey] at h
    obtain ⟨before, row, behind, hsorted, hroute, hbefore⟩ := h.exists_source
    refine ⟨before, row, behind, hsorted, fun _ => ?_, hroute⟩
    rw [rowRoutes_eq, slots, if_pos hs, List.map_map] at hroute
    obtain ⟨k, hk, rfl⟩ := List.mem_map.1 hroute
    obtain ⟨h1, h2⟩ := mem_suffixes.1 hk
    refine ⟨k, h1, h2, fun s hmem hks => ?_⟩
    have hother : physicalRouteRecord U name (slotValue group s (some k))
        (physicalName s (some k)) s ∈ rowRoutes U name group s := by
      rw [rowRoutes_eq, slots, if_pos hs, List.map_map]
      exact List.mem_map.2 ⟨k, mem_suffixes.2 hks, rfl⟩
    exact hbefore s hmem _ hother rfl
  · rw [if_neg hs] at h
    obtain ⟨row, hrow, hroute⟩ := List.mem_flatMap.1 h
    obtain ⟨before, behind, hsorted⟩ := List.append_of_mem hrow
    exact ⟨before, row, behind, hsorted, fun h => absurd (isSharded_iff.2 h) hs, hroute⟩

/-- A row that contributes has a route. -/
theorem exists_route_of_contributes (U : UnicodeData) (name : Str) {group : List TableConfigRow}
    {before behind : List TableConfigRow} {row : TableConfigRow}
    (hsorted : sortedRows group = before ++ row :: behind) (h : Contributes group before row) :
    ∃ route ∈ groupRoutes U name group, route ∈ rowRoutes U name group row := by
  rw [groupRoutes]
  by_cases hs : isSharded group = true
  · obtain ⟨k, h1, h2, hk⟩ := h (isSharded_iff.1 hs)
    have hroutes : ∀ r, rowRoutes U name group r = (suffixes r).map fun k =>
        physicalRouteRecord U name (intText k) (physicalName r (some k)) r := fun r => by
      rw [rowRoutes_eq, slots, if_pos hs, List.map_map]
      rfl
    have hroute : physicalRouteRecord U name (intText k) (physicalName row (some k)) row ∈
        rowRoutes U name group row := by
      rw [hroutes]
      exact List.mem_map.2 ⟨k, mem_suffixes.2 ⟨h1, h2⟩, rfl⟩
    refine ⟨_, ?_, hroute⟩
    rw [if_pos hs, mem_firstByKey, candidates, hsorted, List.flatMap_append, List.flatMap_cons]
    refine IsFirst.append_left (IsFirst.append_right ?_ _) ?_
    · -- The indexes of a row are distinct.
      obtain ⟨start, rest, hsplit⟩ := List.append_of_mem (mem_suffixes.2 ⟨h1, h2⟩)
      refine ⟨start.map _, rest.map _, by rw [hroutes, hsplit, List.map_append]; rfl, ?_⟩
      intro c hc hv
      obtain ⟨l, hl, rfl⟩ := List.mem_map.1 hc
      have hnodup : (suffixes row).Nodup :=
        List.Nodup.map (fun _ _ h => by simpa using h) List.nodup_range
      rw [hsplit, List.nodup_append'] at hnodup
      exact hnodup.2.2 hl (by rw [intText_injective hv]; exact List.mem_cons_self)
    · intro c hc hv
      obtain ⟨s, hmem, hc⟩ := List.mem_flatMap.1 hc
      rw [hroutes] at hc
      obtain ⟨l, hl, rfl⟩ := List.mem_map.1 hc
      obtain rfl : l = k := intText_injective hv
      exact hk s hmem (mem_suffixes.1 hl)
  · have hroutes : rowRoutes U name group row =
        [physicalRouteRecord U name (slotValue group row none) row.tableName row] := by
      rw [rowRoutes_eq, slots, if_neg hs]
      rfl
    refine ⟨_, ?_, by rw [hroutes]; exact List.mem_singleton_self _⟩
    rw [if_neg hs, candidates, hsorted]
    exact List.mem_flatMap.2 ⟨row, by simp, by rw [hroutes]; exact List.mem_singleton_self _⟩

/-- What is recorded for a logical table. -/
theorem extra_of_logicalTable (name : Str) (group : List TableConfigRow) (sample : TableConfigRow) :
    (logicalTableRecord group name sample).extra.get "original_catlog_name" =
        .str sample.catlogName ∧
      (logicalTableRecord group name sample).extra.get "original_table_name" =
        .str sample.tableName := by
  refine ⟨?_, ?_⟩ <;> rfl

theorem mem_logicalTables (h : buildSyncBundle rt rows target = .ok bundle)
    {table : LogicalTableRecord} (htable : table ∈ bundle.logicalTables) :
    ∃ name sample more, groupOf rt.toUnicodeData rows name = sample :: more ∧
      table = logicalTableRecord (groupOf rt.toUnicodeData rows name) name sample := by
  obtain ⟨records, hall, htables, -⟩ := buildSyncBundle_ok h
  rw [htables] at htable
  obtain ⟨r, hr, rfl⟩ := List.mem_map.1 htable
  obtain ⟨g, hg, hbuilt⟩ := exists_of_forall₂_right hall hr
  obtain ⟨hgroup, -⟩ := mem_sortedGroups.1 hg
  obtain ⟨sample, more, hsample, hrecord⟩ := hbuilt.logicalTable
  rw [hgroup] at hsample hrecord
  exact ⟨_, sample, more, hsample, hrecord⟩

/-- The routes of a logical table come from one table exactly if every row that contributes a route
has the catalog and the table of the first row whose names are normalised to the same one. -/
theorem oneOrigin_iff (h : buildSyncBundle rt rows target = .ok bundle) :
    OneOrigin rt.toUnicodeData rows bundle ↔
      ∀ name sample more, groupOf rt.toUnicodeData rows name = sample :: more →
        ∀ before row behind,
          sortedRows (groupOf rt.toUnicodeData rows name) = before ++ row :: behind →
          Contributes (groupOf rt.toUnicodeData rows name) before row →
          SameTable rt.toUnicodeData row sample.catlogName sample.tableName := by
  constructor
  · intro hall name sample more hgroup before row behind hsorted hcontributes
    obtain ⟨route, hroute, hmade⟩ :=
      exists_route_of_contributes rt.toUnicodeData name hsorted hcontributes
    have hne : groupOf rt.toUnicodeData rows name ≠ [] := by simp [hgroup]
    have hname := logicalTableName_of_mem hroute
    obtain ⟨records, hbuilt, htable⟩ := exists_groupBuilt h hne
    obtain ⟨sample', more', hsample, hrecord⟩ := hbuilt.logicalTable
    obtain ⟨rfl, -⟩ := List.cons.inj (hsample.symm.trans hgroup)
    rw [hrecord] at htable
    have hrow : row ∈ groupOf rt.toUnicodeData rows name := by
      refine (mem_dedupedRows.1 (mem_sortedRows.1 ?_)).mem
      rw [hsorted]
      simp
    obtain ⟨c, t, hc, ht, hsame⟩ :=
      hall _ htable route ((mem_physicalRoutes h).2 ⟨name, hne, hroute⟩)
      hname row ⟨by rw [hname]; exact hrow, by rw [hname]; exact hmade⟩
    obtain ⟨hc', ht'⟩ := extra_of_logicalTable name
      (groupOf rt.toUnicodeData rows name) sample'
    rw [hc', Json.str.injEq] at hc
    rw [ht', Json.str.injEq] at ht
    rwa [hc, ht]
  · intro hall table htable route hroute hname row hmade
    obtain ⟨name, sample, more, hgroup, rfl⟩ := mem_logicalTables h htable
    obtain ⟨hc, ht⟩ := extra_of_logicalTable name
      (groupOf rt.toUnicodeData rows name) sample
    obtain ⟨name', -, hmem⟩ := (mem_physicalRoutes h).1 hroute
    obtain rfl : name' = name := (logicalTableName_of_mem hmem).symm.trans hname
    obtain ⟨before, row', behind, hsorted, hcontributes, hroute'⟩ := exists_contributes hmem
    obtain ⟨-, hmade⟩ := hmade
    rw [logicalTableName_of_mem hmem, rowRoutes_eq] at hmade
    rw [rowRoutes_eq] at hroute'
    obtain ⟨i, hi, rfl⟩ := List.mem_map.1 hmade
    obtain ⟨j, hj, heq⟩ := List.mem_map.1 hroute'
    obtain rfl : row' = row := row_eq_of_route_eq hj hi heq
    exact ⟨_, _, hc, ht, hall name' sample more hgroup before row' behind hsorted hcontributes⟩

end Mixed

/-- The tables `a.b__c` and `a__b.c`, one shard each. -/
def twoSeparators : List TableConfigRow :=
  [⟨"s", "a", "b__c", 0, 0, 2⟩, ⟨"s", "a__b", "c", 1, 1, 2⟩]

theorem twoSeparators_run :
    (buildSyncBundle asciiRuntime twoSeparators exampleTarget).map (fun bundle =>
      (bundle.logicalTables, bundle.physicalRoutes)) =
      .ok ([logicalTableRecord twoSeparators "a__b__c" ⟨"s", "a", "b__c", 0, 0, 2⟩],
        [physicalRouteRecord asciiData "a__b__c" "0" "b__c_0" ⟨"s", "a", "b__c", 0, 0, 2⟩,
          physicalRouteRecord asciiData "a__b__c" "1" "c_1" ⟨"s", "a__b", "c", 1, 1, 2⟩]) := by
  rfl

/-- The logical table of `a.b__c` has a shard of `a__b.c`. -/
theorem twoSeparators_mixed :
    ∃ bundle, buildSyncBundle asciiRuntime twoSeparators exampleTarget = .ok bundle ∧
      ¬ OneOrigin asciiRuntime.toUnicodeData twoSeparators bundle := by
  obtain ⟨bundle, hbundle, hrecords⟩ := map_eq_ok.1 twoSeparators_run
  obtain ⟨htables, hroutes⟩ := Prod.mk.inj hrecords
  refine ⟨bundle, hbundle, fun hall => ?_⟩
  obtain ⟨c, t, hc, -, hsame⟩ := hall _ (by rw [htables]; exact List.mem_singleton_self _)
    (physicalRouteRecord asciiData "a__b__c" "1" "c_1" ⟨"s", "a__b", "c", 1, 1, 2⟩)
    (by rw [hroutes]; exact List.mem_cons_of_mem _ (List.mem_singleton_self _)) rfl
    ⟨"s", "a__b", "c", 1, 1, 2⟩ ⟨by decide +kernel, by
      exact List.mem_singleton_self _⟩
  have hc' : c = "a" := by
    injection hc with hc
    exact hc.symm
  rw [hc'] at hsame
  exact absurd hsame.1 (by decide +kernel)

/-- The second of the two tables contributes a shard to the first; the four shards come from one
table. -/
theorem oneOrigin_twoSeparators :
    (∃ bundle, buildSyncBundle asciiRuntime twoSeparators exampleTarget = .ok bundle ∧
      ¬ OneOrigin asciiRuntime.toUnicodeData twoSeparators bundle) ∧
    ∃ bundle, buildSyncBundle asciiRuntime shardRows exampleTarget = .ok bundle ∧
      OneOrigin asciiRuntime.toUnicodeData shardRows bundle := by
  obtain ⟨mixed, hmixed, -⟩ := map_eq_ok.1 twoSeparators_run
  have hrun : (buildSyncBundle asciiRuntime shardRows exampleTarget).map (fun _ => ()) =
      .ok () := by decide +kernel
  obtain ⟨bundle, hbundle, -⟩ := map_eq_ok.1 hrun
  refine ⟨⟨mixed, hmixed, fun hall => ?_⟩, bundle, hbundle, (oneOrigin_iff hbundle).2 ?_⟩
  · have hsame := (oneOrigin_iff hmixed).1 hall "a__b__c" ⟨"s", "a", "b__c", 0, 0, 2⟩
      [⟨"s", "a__b", "c", 1, 1, 2⟩] rfl [⟨"s", "a", "b__c", 0, 0, 2⟩]
      ⟨"s", "a__b", "c", 1, 1, 2⟩ [] rfl fun _ => ⟨1, by decide, by decide, by decide⟩
    exact absurd hsame.1 (by decide +kernel)
  · intro name sample more hgroup before row behind hsorted _
    have hsample : sample ∈ groupOf asciiRuntime.toUnicodeData shardRows name :=
      hgroup ▸ List.mem_cons_self
    have hrow : row ∈ groupOf asciiRuntime.toUnicodeData shardRows name :=
      (mem_dedupedRows.1 (mem_sortedRows.1 (hsorted ▸ by simp))).mem
    obtain ⟨hcatlog, htable⟩ := eq_of_mem_shardRows hsample
    obtain ⟨hcatlog', htable'⟩ := eq_of_mem_shardRows hrow
    exact ⟨by rw [hcatlog, hcatlog'], by rw [htable, htable']⟩

end SqlGatekeeper
