import SqlGatekeeper.Tools.ClosedBundle
import SqlGatekeeper.Tools.HandRegistered

/-!
# The keys of imported routes

* `returns_sync_iff`: the routes of a bundle commit exactly if no two share logical table and route
  value.
* `uniqueRouteValues_iff`: no two routes of a bundle do, and they commit, exactly if no table
  without shards has two segments of one source.
* `lookupsResolve_iff`: in a store of the bundle's routes a lookup by physical name never finds two,
  exactly if no two routes that the rows ask for have one physical name.
-/

namespace SqlGatekeeper

open Py Store

/-! ## Route values -/

section Group

variable {U : UnicodeData} {name : Str} {groupRows : List TableConfigRow}

theorem unique_dedupedRows : Unique segmentKey (dedupedRows groupRows) := unique_lastByKey _ _

theorem nodup_dedupedRows : (dedupedRows groupRows).Nodup := List.Nodup.of_map _ unique_dedupedRows

/-- Each source has one segment. -/
def OneSegmentPerSource (groupRows : List TableConfigRow) : Prop :=
  ∀ r ∈ groupRows, ∀ s ∈ groupRows, effectiveSource r = effectiveSource s →
    segmentKey r = segmentKey s

theorem unique_effectiveSource_iff :
    Unique effectiveSource (dedupedRows groupRows) ↔ OneSegmentPerSource groupRows := by
  constructor
  · intro h r hr s hs hsource
    have hsame : ∀ {a b : TableConfigRow}, segmentKey a = segmentKey b →
        effectiveSource a = effectiveSource b := fun {a b} hab => by
      rw [effectiveSource, effectiveSource, (Prod.mk.inj hab).1]
    obtain ⟨r', hr', hrk⟩ := exists_isLast segmentKey hr
    obtain ⟨s', hs', hsk⟩ := exists_isLast segmentKey hs
    have heq := h.eq_of_mem (mem_dedupedRows.2 hr') (mem_dedupedRows.2 hs')
      ((hsame hrk).trans (hsource.trans (hsame hsk).symm))
    rw [← hrk, ← hsk, heq]
  · intro h
    refine nodup_dedupedRows.map_on fun r hr s hs hsource => ?_
    exact unique_dedupedRows.eq_of_mem hr hs
      (h r (mem_dedupedRows.1 hr).mem s (mem_dedupedRows.1 hs).mem hsource)

/-- A table that is not routed by source has one source at most. -/
theorem effectiveSource_eq (hs : isSharded groupRows = false)
    (hr : requiresSourceRouting groupRows = false) {a b : TableConfigRow}
    (ha : a ∈ dedupedRows groupRows) (hb : b ∈ dedupedRows groupRows) :
    effectiveSource a = effectiveSource b := by
  rw [requiresSourceRouting, hs, Bool.not_false, Bool.true_and, decide_eq_false_iff_not, not_lt,
    distinctSourceNames, sortStrings, List.length_insertionSort] at hr
  have hmem : ∀ {r : TableConfigRow}, r ∈ dedupedRows groupRows →
      effectiveSource r ∈ ((dedupedRows groupRows).map effectiveSource).dedup := fun h =>
    List.mem_dedup.2 (List.mem_map.2 ⟨_, h, rfl⟩)
  obtain ⟨x, hx⟩ := List.length_eq_one_iff.1
    (le_antisymm hr (List.length_pos_of_mem (hmem ha)))
  have ha' := hmem ha
  have hb' := hmem hb
  rw [hx, List.mem_singleton] at ha' hb'
  rw [ha', hb']

theorem flatMap_rowRoutes {route : TableConfigRow → PhysicalRouteRecord}
    (h : ∀ row, rowRoutes U name groupRows row = [route row]) :
    candidates U name groupRows = (sortedRows groupRows).map route := by
  rw [candidates, funext h, List.map_eq_flatMap]

/-- The route values of a group are distinct if it is sharded or has one segment a source. -/
theorem unique_routeValue_iff :
    Unique (·.routeValue) (groupRoutes U name groupRows) ↔
      (isSharded groupRows = false → OneSegmentPerSource groupRows) := by
  rw [← unique_effectiveSource_iff, groupRoutes]
  cases hs : isSharded groupRows with
  | true => exact iff_of_true (unique_firstByKey _ _) fun h => absurd h (by simp)
  | false =>
    simp only [Bool.false_eq_true, if_false, forall_const]
    have hsorted : (sortedRows groupRows).Perm (dedupedRows groupRows) :=
      List.perm_insertionSort _ _
    cases hr : requiresSourceRouting groupRows with
    | true =>
      have hroutes : candidates U name groupRows = (sortedRows groupRows).map fun row =>
          physicalRouteRecord U name (effectiveSource row) row.tableName row :=
        flatMap_rowRoutes fun row => by rw [rowRoutes, if_pos hr]
      rw [hroutes, Store.Unique, List.map_map]
      exact (hsorted.map _).nodup_iff
    | false =>
      have hroutes : candidates U name groupRows = (sortedRows groupRows).map fun row =>
          physicalRouteRecord U name ['0'] row.tableName row :=
        flatMap_rowRoutes fun row => by
          simp only [rowRoutes, hr, hs, Bool.false_eq_true, if_false, Bool.not_false, if_true]
      rw [hroutes, Store.Unique, List.map_map, Store.Unique]
      -- All rows have one source, and all routes one value.
      have hone : ∀ {κ : Type} (key : TableConfigRow → κ),
          (∀ a ∈ dedupedRows groupRows, ∀ b ∈ dedupedRows groupRows, key a = key b) →
          (((dedupedRows groupRows).map key).Nodup ↔ (dedupedRows groupRows).length ≤ 1) := by
        intro κ key hkey
        rcases hl : dedupedRows groupRows with _ | ⟨a, _ | ⟨b, rest⟩⟩
        · simp
        · simp
        · refine iff_of_false ?_ (by simp)
          rw [hl] at hkey
          have hab := hkey a (by simp) b (by simp)
          simp [hab]
      rw [(hsorted.map _).nodup_iff, hone _ fun _ _ _ _ => rfl,
        hone _ fun a ha b hb => effectiveSource_eq hs hr ha hb]

end Group

section Bundle

variable {rt : Runtime} {rows : List TableConfigRow} {target : ImportedDatasourceTarget}
  {bundle : SyncBundle}

/-- The routes of a bundle satisfy the unique key of logical table and route value exactly if, in
every logical table without a sharded row, two rows of one source have the same segment. -/
theorem unique_routeKeys_iff (h : buildSyncBundle rt rows target = .ok bundle) :
    Unique (fun route => (route.logicalTableName, route.routeValue)) bundle.physicalRoutes ↔
      ∀ name, (∀ row ∈ groupOf rt.toUnicodeData rows name, row.shardCount ≤ 0) →
        OneSegmentPerSource (groupOf rt.toUnicodeData rows name) := by
  have hgroup : ∀ name, Unique (fun route : PhysicalRouteRecord =>
    (route.logicalTableName, route.routeValue))
      (groupRoutes rt.toUnicodeData name (groupOf rt.toUnicodeData rows name)) ↔
      ((∀ row ∈ groupOf rt.toUnicodeData rows name, row.shardCount ≤ 0) →
        OneSegmentPerSource (groupOf rt.toUnicodeData rows name)) := fun name => by
    have hkey : (groupRoutes rt.toUnicodeData name (groupOf rt.toUnicodeData rows name)).map
        (fun route => (route.logicalTableName, route.routeValue)) =
        ((groupRoutes rt.toUnicodeData name (groupOf rt.toUnicodeData rows name)).map
          (·.routeValue)).map fun v => (name, v) := by
      rw [List.map_map]
      exact List.map_congr_left fun route hroute => by
        rw [logicalTableName_of_mem hroute]
        rfl
    rw [Store.Unique, hkey, List.nodup_map_iff (Prod.mk_right_injective name)]
    refine unique_routeValue_iff.trans (imp_congr_left ?_)
    rw [← Bool.not_eq_true, isSharded_iff]
    push Not
    rfl
  rw [Store.Unique, physicalRoutes_eq h, List.map_flatMap, List.nodup_flatMap]
  constructor
  · rintro ⟨hall, -⟩ name
    by_cases hne : groupOf rt.toUnicodeData rows name = []
    · rw [hne]
      intro _ r hr
      exact absurd hr (by simp)
    · exact (hgroup name).1 (hall _ (mem_sortedGroups.2 ⟨rfl, hne⟩))
  · intro hall
    refine ⟨?_, ?_⟩
    · rintro ⟨name, groupRows⟩ hg
      obtain ⟨rfl, -⟩ := mem_sortedGroups.1 hg
      exact (hgroup name).2 (hall name)
    · refine (List.pairwise_map.1 (nodup_sortedGroups rows)).imp_of_mem ?_
      rintro ⟨a, ra⟩ ⟨b, rb⟩ _ _ hab
      rw [Function.onFun, List.disjoint_left]
      intro key hka hkb
      obtain ⟨r, hr, rfl⟩ := List.mem_map.1 hka
      obtain ⟨s, hs, hkey⟩ := List.mem_map.1 hkb
      exact hab ((logicalTableName_of_mem hr).symm.trans
        ((Prod.mk.inj hkey).1.symm.trans (logicalTableName_of_mem hs)))

end Bundle

/-! ## The commit of the routes -/

/-- Rows are inserted exactly if their keys are distinct and new. -/
theorem returns_insertAll_iff {σ ρ κ : Type} [DecidableEq κ] {key : ρ → κ}
    {make : σ → Except PyError (Nat → ρ)} {keyOf : σ → κ} {records : List σ}
    (hmake : ∀ record ∈ records, ∃ row, make record = .ok row ∧
      ∀ n, key (row n) = keyOf record)
    (table : Table ρ) :
    Returns (insertAll key make records table) ↔
      Unique keyOf records ∧ ∀ record ∈ records, ∀ r ∈ table.rows,
        key r ≠ keyOf record := by
  induction records generalizing table with
  | nil => exact iff_of_true (returns_ok _) ⟨List.nodup_nil, fun _ h =>
      absurd h List.not_mem_nil⟩
  | cons record records ih =>
    obtain ⟨row, hrow, hkey⟩ := hmake record List.mem_cons_self
    have hrest := ih (fun r hr => hmake r (List.mem_cons_of_mem _ hr)) (table.insert row)
    rw [insertAll, returns_bind_of_eq hrow, hkey]
    by_cases hclash : (table.rows.any fun r => key r = keyOf record) = true
    · rw [if_pos hclash]
      refine iff_of_false (not_returns_error _) fun h => ?_
      obtain ⟨r, hr, heq⟩ := List.any_eq_true.1 hclash
      exact h.2 record List.mem_cons_self r hr (of_decide_eq_true heq)
    · rw [if_neg hclash, hrest, Store.Unique, Store.Unique, List.map_cons, List.nodup_cons,
        Table.insert_rows]
      have hnew : ∀ r ∈ table.rows, key r ≠ keyOf record := fun r hr heq =>
        hclash (List.any_eq_true.2 ⟨r, hr, decide_eq_true heq⟩)
      constructor
      · rintro ⟨hunique, hfree⟩
        refine ⟨⟨fun hmem => ?_, hunique⟩, List.forall_mem_cons.2 ⟨hnew, fun q hq r hr =>
          hfree q hq r (List.mem_append_left _ hr)⟩⟩
        obtain ⟨q, hq, heq⟩ := List.mem_map.1 hmem
        exact hfree q hq _ (List.mem_append_right _ (List.mem_singleton_self _))
          ((hkey _).trans heq.symm)
      · rintro ⟨⟨hnotMem, hunique⟩, hfree⟩
        refine ⟨hunique, fun q hq r hr => ?_⟩
        rcases List.mem_append.1 hr with hr | hr
        · exact hfree q (List.mem_cons_of_mem _ hq) r hr
        · rw [List.mem_singleton.1 hr, hkey]
          exact fun heq => hnotMem (List.mem_map.2 ⟨q, hq, heq.symm⟩)

section Commit

variable {db : Metadata} {bundle : SyncBundle}

/-- A bundle whose other records commit commits with its routes exactly if no two of these share
logical table and route value. -/
theorem returns_sync_iff (hb : bundle.Closed) (hdb : db.Constraints)
    (hrest : Returns (syncBundleToLocal db { bundle with physicalRoutes := [] })) :
    Returns (syncBundleToLocal db bundle) ↔
      Unique (fun route => (route.logicalTableName, route.routeValue)) bundle.physicalRoutes := by
  obtain ⟨db', hok⟩ := hrest
  have hs := synced_of_ok hok
  have hdb' := hs.constraints hdb
  obtain ⟨db₁, hpolicy, hok⟩ := bind_eq_ok.1 hok
  obtain ⟨db₂, hdelete, hok⟩ := bind_eq_ok.1 hok
  obtain ⟨datasources, hdatasources, hok⟩ := bind_eq_ok.1 hok
  obtain ⟨logicalTables, hlogical, hok⟩ := bind_eq_ok.1 hok
  obtain ⟨routeFactors, hfactors, hok⟩ := bind_eq_ok.1 hok
  obtain ⟨routeRules, hrules, -⟩ := bind_eq_ok.1 hok
  rw [syncBundleToLocal, returns_bind_of_eq hpolicy, returns_bind_of_eq hdelete,
    returns_bind_of_eq hdatasources, returns_bind_of_eq hlogical, returns_bind_of_eq hfactors,
    returns_bind_of_eq hrules, returns_bind]
  refine (and_iff_left fun _ _ => returns_ok _).trans ?_
  obtain ⟨policies, rfl, -⟩ := ensureDefaultPolicy_ok hpolicy
  rw [deletePreviousImport] at hdelete
  split at hdelete
  · cases hdelete
  injection hdelete with hdelete
  subst hdelete
  -- A route's key is the id of its table and its value; ids are given by name, and new.
  let tableId : Str → Nat := fun name => (objectId (objectIds (·.tableName) bundle.logicalTables
    db.logicalTables.nextId []) name).toOption.getD 0
  have hid : ∀ route ∈ bundle.physicalRoutes, objectId (objectIds (·.tableName)
      bundle.logicalTables db.logicalTables.nextId []) route.logicalTableName =
        .ok (tableId route.logicalTableName) := by
    intro route hroute
    obtain ⟨k, hk⟩ := returns_objectId (hb.physicalRoutes route hroute).1
      db.logicalTables.nextId
    simp only [tableId, hk, Except.toOption, Option.getD_some]
  rw [@returns_insertAll_iff _ _ _ _ _ _ fun route : PhysicalRouteRecord =>
    (tableId route.logicalTableName, route.routeValue)]
  · constructor
    · rintro ⟨hunique, -⟩
      refine List.Nodup.of_map (fun p : Str × Str => (tableId p.1, p.2)) ?_
      rw [List.map_map]
      exact hunique
    · intro hunique
      refine ⟨?_, fun route hroute r hr heq => ?_⟩
      · refine (List.Nodup.of_map _ hunique).map_on fun a ha b hb heq => ?_
        obtain ⟨hsame, hvalue⟩ := Prod.mk.inj heq
        obtain ⟨t, ht, htid, htname⟩ := hs.exists_table (hid a ha)
        obtain ⟨u, hu, huid, huname⟩ := hs.exists_table (hid b hb)
        have htu : t = u :=
          hdb'.logicalTableIds.unique.eq_of_mem ht hu (htid.trans (hsame.trans huid.symm))
        have hname : a.logicalTableName = b.logicalTableName := by
          rw [← htname, ← huname, htu]
        exact hunique.eq_of_mem ha hb (Prod.ext hname hvalue)
      · obtain ⟨t, ht, htid⟩ := hdb.routeTable r (mem_delete.1 hr).1
        exact hs.objectId_new hdb (hid route hroute) ht
          ((Prod.mk.inj heq).1.symm.trans htid.symm)
  · intro route hroute
    obtain ⟨k, hk⟩ := returns_objectId (hb.physicalRoutes route hroute).2 db.datasources.nextId
    exact ⟨_, bind_eq_ok.2 ⟨_, hid route hroute, bind_eq_ok.2 ⟨k, hk, rfl⟩⟩,
      fun n => rfl⟩

end Commit

section Committed

variable {rt : Runtime} {rows : List TableConfigRow} {target : ImportedDatasourceTarget}
  {bundle : SyncBundle}

/-- No two routes of a bundle share logical table and route value, and they commit wherever the rest
of the bundle does, exactly if, in every logical table without a sharded row, two rows of one source
have the same segment. -/
theorem uniqueRouteValues_iff (h : buildSyncBundle rt rows target = .ok bundle) :
    (Unique (fun route => (route.logicalTableName, route.routeValue)) bundle.physicalRoutes ↔
      ∀ name, (∀ row ∈ groupOf rt.toUnicodeData rows name, row.shardCount ≤ 0) →
        OneSegmentPerSource (groupOf rt.toUnicodeData rows name)) ∧
    ∀ db : Metadata, db.Constraints →
      Returns (syncBundleToLocal db { bundle with physicalRoutes := [] }) →
      (Returns (syncBundleToLocal db bundle) ↔
        ∀ name, (∀ row ∈ groupOf rt.toUnicodeData rows name, row.shardCount ≤ 0) →
          OneSegmentPerSource (groupOf rt.toUnicodeData rows name)) :=
  ⟨unique_routeKeys_iff h, fun _ hdb hrest =>
    (returns_sync_iff (closed_of_ok h) hdb hrest).trans (unique_routeKeys_iff h)⟩

end Committed

/-- A table without shards in two segments. -/
def twoSegments : List TableConfigRow :=
  [⟨"s", "c", "t", 0, 0, 0⟩, ⟨"s", "c", "t", 1, 1, 0⟩]

theorem twoSegments_run :
    (buildSyncBundle asciiRuntime twoSegments exampleTarget).map (fun bundle =>
      bundle.physicalRoutes.map fun route => (route.logicalTableName, route.routeValue)) =
      .ok [(("c__t" : Str), ("0" : Str)), ("c__t", "0")] := by decide +kernel

/-- Both segments become routes under the value `0`. -/
theorem twoSegments_not_unique :
    ∃ bundle, buildSyncBundle asciiRuntime twoSegments exampleTarget = .ok bundle ∧
      ¬ Unique (fun route => (route.logicalTableName, route.routeValue))
        bundle.physicalRoutes := by
  obtain ⟨bundle, hbundle, hkeys⟩ := map_eq_ok.1 twoSegments_run
  refine ⟨bundle, hbundle, fun hunique => ?_⟩
  rw [Store.Unique, hkeys] at hunique
  exact absurd hunique (by decide)

/-- The routes of the two segments clash, and their commit fails; those of two shards commit. -/
theorem uniqueRouteValues_twoSegments :
    (∃ bundle, buildSyncBundle asciiRuntime twoSegments exampleTarget = .ok bundle ∧
      ¬ Unique (fun route => (route.logicalTableName, route.routeValue)) bundle.physicalRoutes ∧
      ¬ Returns (syncBundleToLocal exampleMetadata bundle)) ∧
    ∃ bundle, buildSyncBundle asciiRuntime twoShards exampleTarget = .ok bundle ∧
      Unique (fun route => (route.logicalTableName, route.routeValue)) bundle.physicalRoutes ∧
      Returns (syncBundleToLocal exampleMetadata bundle) := by
  have hsegments : ((buildSyncBundle asciiRuntime twoSegments exampleTarget).bind fun bundle =>
      syncBundleToLocal exampleMetadata { bundle with physicalRoutes := [] }).map (fun _ => ()) =
        .ok () := by decide +kernel
  have hshards : ((buildSyncBundle asciiRuntime twoShards exampleTarget).bind fun bundle =>
      syncBundleToLocal exampleMetadata { bundle with physicalRoutes := [] }).map (fun _ => ()) =
        .ok () := by decide +kernel
  obtain ⟨_, hrun, -⟩ := map_eq_ok.1 hsegments
  obtain ⟨segments, hbundle, hrest⟩ := bind_eq_ok.1 hrun
  obtain ⟨_, hrun', -⟩ := map_eq_ok.1 hshards
  obtain ⟨shards, hbundle', hrest'⟩ := bind_eq_ok.1 hrun'
  obtain ⟨hunique, hcommits⟩ := uniqueRouteValues_iff hbundle
  obtain ⟨hunique', hcommits'⟩ := uniqueRouteValues_iff hbundle'
  have hclash : ¬ ∀ name, (∀ row ∈ groupOf asciiRuntime.toUnicodeData twoSegments name,
      row.shardCount ≤ 0) →
        OneSegmentPerSource (groupOf asciiRuntime.toUnicodeData twoSegments name) := fun h =>
    absurd (h "c__t" (by decide) ⟨"s", "c", "t", 0, 0, 0⟩ (by decide) ⟨"s", "c", "t", 1, 1,
      0⟩ (by decide) rfl) (by decide)
  -- Two shards have one row, which is in the segment of itself.
  have hsingle : ∀ name, (∀ row ∈ groupOf asciiRuntime.toUnicodeData twoShards name,
      row.shardCount ≤ 0) →
        OneSegmentPerSource (groupOf asciiRuntime.toUnicodeData twoShards name) := by
    intro name _ r hr s hs _
    rw [List.mem_singleton.1 (List.mem_filter.1 hr).1,
      List.mem_singleton.1 (List.mem_filter.1 hs).1]
  exact ⟨⟨segments, hbundle, fun h => hclash (hunique.1 h), fun h => hclash
      ((hcommits exampleMetadata exampleMetadata_constraints ⟨_, hrest⟩).1 h)⟩,
    shards, hbundle', hunique'.2 hsingle,
      (hcommits' exampleMetadata exampleMetadata_constraints ⟨_, hrest'⟩).2 hsingle⟩

/-! ## Physical names -/

/-- No two routes that the rows ask for have one physical name, unless they are the same route. -/
def DistinctNames (U : UnicodeData) (rows : List TableConfigRow) : Prop :=
  ∀ a b, ∀ r ∈ dedupedRows (groupOf U rows a), ∀ s ∈ dedupedRows (groupOf U rows b),
    ∀ i ∈ slots (groupOf U rows a) r, ∀ j ∈ slots (groupOf U rows b) s,
      physicalName r i = physicalName s j → a = b ∧ i = j ∧ (i = none → r = s)

section Lookups

variable {rt : Runtime} {rows : List TableConfigRow} {target : ImportedDatasourceTarget}
  {bundle : SyncBundle}

/-- The physical names of a bundle are distinct exactly if those that the rows ask for are. -/
theorem unique_physicalTableName_iff (h : buildSyncBundle rt rows target = .ok bundle) :
    Unique (·.physicalTableName) bundle.physicalRoutes ↔
      DistinctNames rt.toUnicodeData rows := by
  have hagree : ∀ name, groupOf rt.toUnicodeData rows name ≠ [] →
      Agree (candidates rt.toUnicodeData name (groupOf rt.toUnicodeData rows name)) :=
        fun name hne =>
    (exists_groupBuilt h hne).choose_spec.1.agree
  have hne : ∀ {name row}, row ∈ dedupedRows (groupOf rt.toUnicodeData rows name) →
      groupOf rt.toUnicodeData rows name ≠ [] := fun hrow =>
    List.ne_nil_of_mem (mem_dedupedRows.1 hrow).mem
  constructor
  · intro hunique a b r hr s hs i hi j hj hname
    obtain ⟨x, hx, hxv, hxe, hxr⟩ := exists_groupRoute (hagree a (hne hr))
      (mem_candidates_iff.2 ⟨r, hr, i, hi, rfl⟩)
    obtain ⟨y, hy, hyv, hye, hyr⟩ := exists_groupRoute (hagree b (hne hs))
      (mem_candidates_iff.2 ⟨s, hs, j, hj, rfl⟩)
    have hxn : x.physicalTableName = physicalName r i := (Prod.mk.inj hxe).1
    have hyn : y.physicalTableName = physicalName s j := (Prod.mk.inj hye).1
    obtain rfl : x = y := hunique.eq_of_mem ((mem_physicalRoutes h).2 ⟨a, hne hr, hx⟩)
      ((mem_physicalRoutes h).2 ⟨b, hne hs, hy⟩) (hxn.trans (hname.trans hyn.symm))
    obtain rfl : a = b := (logicalTableName_of_mem hx).symm.trans (logicalTableName_of_mem hy)
    have hvalue := hxv.symm.trans hyv
    cases i with
    | none =>
      have hunsharded := (mem_slots_none hi).1 rfl
      obtain rfl : j = none := (mem_slots_none hj).2 hunsharded
      have hrs := (hxr hunsharded).symm.trans (hyr hunsharded)
      refine ⟨rfl, rfl, fun _ => unique_dedupedRows.eq_of_mem hr hs ?_⟩
      have hextra := congrArg (·.extra) hrs
      simp only [physicalRouteRecord, List.cons.injEq, Prod.mk.injEq, Json.str.injEq,
        Json.int.injEq, true_and, and_true] at hextra
      rw [segmentKey, segmentKey, hextra.1, hextra.2.2.1, hextra.2.2.2.1, hextra.2.2.2.2]
    | some k =>
      cases j with
      | none =>
        have := (mem_slots_none hj).1 rfl
        exact absurd ((mem_slots_none hi).2 this) (by simp)
      | some l =>
        obtain rfl : k = l := intText_injective hvalue
        exact ⟨rfl, rfl, fun h => absurd h (by simp)⟩
  · intro hdistinct
    -- Two routes of one name are the same route.
    have hroute : ∀ a b, ∀ x ∈ groupRoutes rt.toUnicodeData a
        (groupOf rt.toUnicodeData rows a), ∀ y ∈ groupRoutes rt.toUnicodeData b
          (groupOf rt.toUnicodeData rows b),
        x.physicalTableName = y.physicalTableName → a = b ∧ x.routeValue = y.routeValue ∧
          (isSharded (groupOf rt.toUnicodeData rows a) = false → x = y) := by
      intro a b x hx y hy hname
      obtain ⟨r, hr, i, hi, rfl⟩ := mem_candidates_iff.1 (mem_candidates_of_mem hx)
      obtain ⟨s, hs, j, hj, rfl⟩ := mem_candidates_iff.1 (mem_candidates_of_mem hy)
      obtain ⟨rfl, rfl, hrs⟩ := hdistinct a b r hr s hs i hi j hj hname
      refine ⟨rfl, ?_, fun hunsharded => by rw [hrs ((mem_slots_none hi).2 hunsharded)]⟩
      cases i with
      | none => rw [hrs rfl]
      | some k => rfl
    rw [Store.Unique, physicalRoutes_eq h, List.map_flatMap, List.nodup_flatMap]
    refine ⟨?_, ?_⟩
    · rintro ⟨name, groupRows⟩ hg
      obtain ⟨rfl, -⟩ := mem_sortedGroups.1 hg
      cases hs : isSharded (groupOf rt.toUnicodeData rows name) with
      | true =>
        have hunique : Unique (·.routeValue)
            (groupRoutes rt.toUnicodeData name (groupOf rt.toUnicodeData rows name)) :=
          unique_routeValue_iff.2 fun h => absurd (hs.symm.trans h) (by simp)
        exact (List.Nodup.of_map _ hunique).map_on fun x hx y hy hname =>
          hunique.eq_of_mem hx hy (hroute name name x hx y hy hname).2.1
      | false =>
        have hslots : ∀ row, slots (groupOf rt.toUnicodeData rows name) row = [none] :=
          fun row => by
          rw [slots, hs]
          rfl
        have hroutes : (groupRoutes rt.toUnicodeData name (groupOf rt.toUnicodeData rows name)).map
            (·.physicalTableName) =
            (sortedRows (groupOf rt.toUnicodeData rows name)).map (·.tableName) := by
          rw [groupRoutes, hs, if_neg (by simp),
            flatMap_rowRoutes fun row => by rw [rowRoutes_eq, hslots]; rfl, List.map_map]
          rfl
        simp only [hroutes]
        refine List.Nodup.map_on (fun r hr s hs' hname => ?_)
          ((List.perm_insertionSort _ _).nodup_iff.2 nodup_dedupedRows)
        exact (hdistinct name name r (mem_sortedRows.1 hr) s (mem_sortedRows.1 hs') none
          (by rw [hslots]; exact List.mem_singleton_self _) none
          (by rw [hslots]; exact List.mem_singleton_self _) hname).2.2 rfl
    · refine (List.pairwise_map.1 (nodup_sortedGroups rows)).imp_of_mem ?_
      rintro ⟨a, ra⟩ ⟨b, rb⟩ ha hb hab
      obtain ⟨rfl, -⟩ := mem_sortedGroups.1 ha
      obtain ⟨rfl, -⟩ := mem_sortedGroups.1 hb
      rw [Function.onFun, List.disjoint_left]
      intro name hx hy
      obtain ⟨x, hxmem, rfl⟩ := List.mem_map.1 hx
      obtain ⟨y, hymem, hname⟩ := List.mem_map.1 hy
      exact hab (hroute a b x hxmem y hymem hname.symm).1

/-- Every route of a bundle is enabled. -/
theorem enabled_of_mem (h : buildSyncBundle rt rows target = .ok bundle)
    {route : PhysicalRouteRecord} (hroute : route ∈ bundle.physicalRoutes) :
    route.enabled = true := by
  obtain ⟨name, -, hmem⟩ := (mem_physicalRoutes h).1 hroute
  obtain ⟨row, -, slot, -, rfl⟩ := mem_candidates_iff.1 (mem_candidates_of_mem hmem)
  rfl

/-- Every lookup by physical name finds one route at most, and a resolution that finds the rest of
its metadata unambiguous gives a decision, up to a context value that `str` refuses. -/
def LookupsResolve (rt : Runtime) (db : Metadata) : Prop :=
  (∀ tableName, Returns (db.getEnabledByPhysicalTableName tableName)) ∧
    ∀ parsed routeContext, db.Constraints →
      (∀ id, Returns (db.getEnabledByLogicalTable id)) →
      RulesEvaluate rt db parsed routeContext →
      Returns (resolve rt db parsed routeContext) ∨
        resolve rt db parsed routeContext = .error .valueError

/-- In a store whose routes are those of a bundle, lookups by physical name are never ambiguous
exactly if the physical names that the rows ask for are distinct. -/
theorem lookupsResolve_iff (h : buildSyncBundle rt rows target = .ok bundle) {db : Metadata}
    (hdb : Corresponds RouteStored db.physicalRoutes.rows bundle.physicalRoutes) :
    LookupsResolve rt db ↔ DistinctNames rt.toUnicodeData rows := by
  have henabled : ∀ r ∈ db.physicalRoutes.rows, r.enabled = true := by
    intro r hr
    obtain ⟨q, hq, hstored⟩ := hdb.exists_record hr
    rw [hstored.enabled, enabled_of_mem h hq]
  have hfilter : ∀ tableName : Str, (db.physicalRoutes.rows.filter fun r =>
      decide (r.physicalTableName = tableName ∧ r.enabled = true)) =
      db.physicalRoutes.rows.filter fun r => decide (r.physicalTableName = tableName) :=
    fun tableName => List.filter_congr fun r hr => by rw [henabled r hr]; simp
  have hlookup : (∀ tableName, Returns (db.getEnabledByPhysicalTableName tableName)) ↔
      DistinctNames rt.toUnicodeData rows := by
    simp only [Metadata.getEnabledByPhysicalTableName, hfilter, Returns]
    rw [oneOrNone_filter_iff, ← unique_physicalTableName_iff h, Store.Unique, Store.Unique]
    exact (hdb.perm_map fun r q hstored => hstored.physicalTableName).nodup_iff
  refine ⟨fun hall => hlookup.1 hall.1, fun hdistinct => ?_⟩
  have hphys := hlookup.2 hdistinct
  refine ⟨hphys, fun parsed routeContext hconstraints hrule hevaluate => ?_⟩
  cases hres : resolve rt db parsed routeContext with
  | ok decision => exact Or.inl ⟨decision, rfl⟩
  | error e =>
    exact Or.inr (by rw [resolve_eq_error (hconstraints.unambiguous hrule hphys) hevaluate hres])

end Lookups

/-- A table that two sources have. -/
def twoSources : List TableConfigRow :=
  [⟨"a", "c", "t", 0, 0, 0⟩, ⟨"b", "c", "t", 0, 0, 0⟩]

/-- A store of the routes of `twoSources`. -/
def twoSourcesStore : Metadata :=
  { exampleMetadata with
    datasources := ⟨[{ exampleDatasource with id := 1, datasourceCode := "spy_src_a" },
      { exampleDatasource with id := 2, datasourceCode := "spy_src_b" }], 3⟩
    logicalTables := ⟨[{ exampleTable with tableName := "c__t" }], 2⟩
    physicalRoutes := ⟨[
      ⟨1, 1, "a", "t", 1, true, .dict (physicalRouteRecord asciiData "c__t" "a" "t"
        ⟨"a", "c", "t", 0, 0, 0⟩).extra⟩,
      ⟨2, 1, "b", "t", 2, true, .dict (physicalRouteRecord asciiData "c__t" "b" "t"
        ⟨"b", "c", "t", 0, 0, 0⟩).extra⟩], 3⟩ }

theorem twoSourcesStore_routes :
    ∃ bundle, buildSyncBundle asciiRuntime twoSources exampleTarget = .ok bundle ∧
      Corresponds RouteStored twoSourcesStore.physicalRoutes.rows bundle.physicalRoutes := by
  have hrun : (buildSyncBundle asciiRuntime twoSources exampleTarget).map (·.physicalRoutes) =
      .ok [physicalRouteRecord asciiData "c__t" "a" "t" ⟨"a", "c", "t", 0, 0, 0⟩,
        physicalRouteRecord asciiData "c__t" "b" "t" ⟨"b", "c", "t", 0, 0, 0⟩] := by
    rfl
  obtain ⟨bundle, hbundle, hroutes⟩ := map_eq_ok.1 hrun
  refine ⟨bundle, hbundle, bundle.physicalRoutes, List.Perm.refl _, ?_⟩
  rw [hroutes]
  exact .cons ⟨rfl, rfl, rfl, rfl⟩ (.cons ⟨rfl, rfl, rfl, rfl⟩ .nil)

/-- The name `t` has two enabled routes, so that its lookup raises. -/
theorem twoSources_ambiguous :
    twoSourcesStore.Constraints ∧
      (∃ bundle, buildSyncBundle asciiRuntime twoSources exampleTarget = .ok bundle ∧
        Corresponds RouteStored twoSourcesStore.physicalRoutes.rows bundle.physicalRoutes) ∧
      twoSourcesStore.getEnabledByPhysicalTableName "t" = .error .multipleResultsFound ∧
      ¬ LookupsResolve asciiRuntime twoSourcesStore := by
  have hlookup : twoSourcesStore.getEnabledByPhysicalTableName "t" = .error .multipleResultsFound :=
    rfl
  refine ⟨?_, twoSourcesStore_routes, hlookup, fun h => ?_⟩
  · exact {
      exampleMetadata_constraints with
      datasourceIds := ⟨by decide, by decide⟩
      logicalTableIds := ⟨by decide, by decide⟩
      physicalRouteIds := ⟨by decide, by decide⟩
      datasourceCode := by decide
      tableName := by decide
      uqTableRouteValue := by decide
      factorTable := by decide
      ruleTable := by decide
      routeTable := by decide
      routeDatasource := by decide
      statsDatasource := by decide }
  · obtain ⟨o, ho⟩ := h.1 "t"
    exact absurd (hlookup.symm.trans ho) (by simp)

/-- A store of the routes of `twoShards`. -/
def twoShardsStore : Metadata :=
  { exampleMetadata with
    physicalRoutes := ⟨[
      ⟨1, 1, "0", "t_0", 1, true, .dict (physicalRouteRecord asciiData "c__t" "0" "t_0"
        ⟨"s", "c", "t", 0, 1, 2⟩).extra⟩,
      ⟨2, 1, "1", "t_1", 1, true, .dict (physicalRouteRecord asciiData "c__t" "1" "t_1"
        ⟨"s", "c", "t", 0, 1, 2⟩).extra⟩], 3⟩ }

/-- The name that two sources have is found twice, the names of two shards once. -/
theorem lookupsResolve_twoSources :
    (¬ DistinctNames asciiRuntime.toUnicodeData twoSources ∧
      ¬ LookupsResolve asciiRuntime twoSourcesStore) ∧
    DistinctNames asciiRuntime.toUnicodeData twoShards ∧
      LookupsResolve asciiRuntime twoShardsStore := by
  obtain ⟨bundle, hbundle, hroutes⟩ := twoSourcesStore_routes
  have hrun : (buildSyncBundle asciiRuntime twoShards exampleTarget).map (·.physicalRoutes) =
      .ok [physicalRouteRecord asciiData "c__t" "0" "t_0" ⟨"s", "c", "t", 0, 1, 2⟩,
        physicalRouteRecord asciiData "c__t" "1" "t_1" ⟨"s", "c", "t", 0, 1, 2⟩] := by
    rfl
  obtain ⟨bundle', hbundle', hrecords⟩ := map_eq_ok.1 hrun
  have hroutes' : Corresponds RouteStored twoShardsStore.physicalRoutes.rows
      bundle'.physicalRoutes := by
    refine ⟨bundle'.physicalRoutes, List.Perm.refl _, ?_⟩
    rw [hrecords]
    exact .cons ⟨rfl, rfl, rfl, rfl⟩ (.cons ⟨rfl, rfl, rfl, rfl⟩ .nil)
  have hclash : ¬ DistinctNames asciiRuntime.toUnicodeData twoSources := fun h =>
    absurd (h "c__t" "c__t" ⟨"a", "c", "t", 0, 0, 0⟩ (by decide) ⟨"b", "c", "t", 0, 0, 0⟩
      (by decide) none (by decide) none (by decide) rfl).2.2 (by decide)
  have hdistinct : DistinctNames asciiRuntime.toUnicodeData twoShards := by
    refine (unique_physicalTableName_iff hbundle').1 ?_
    rw [hrecords]
    decide
  exact ⟨⟨hclash, fun h => hclash ((lookupsResolve_iff hbundle hroutes).1 h)⟩, hdistinct,
    (lookupsResolve_iff hbundle' hroutes').2 hdistinct⟩

end SqlGatekeeper
