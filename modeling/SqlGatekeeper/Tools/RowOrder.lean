import SqlGatekeeper.Store.Sorting
import SqlGatekeeper.Tools.ClosedBundle

/-!
# The order of the rows

An import sorts what it reads, so it does not rest on the order in which the rows are fetched.

* `strLe_trans`, `rowLe_trans`: the orders that it sorts by.
* `Consistent`: names that are made into the same identifier are the same, and segments that only
  differ in their shard counts do not occur.
* `buildGroup_perm`: a group is made into the same records in any order.
* `buildSyncBundle_perm`: so is a bundle, or the same error.
-/

namespace SqlGatekeeper

open Py Store

/-! ## The orders -/

theorem strLe_total (a b : Str) : strLe a b = true ∨ strLe b a = true := by
  induction a generalizing b with
  | nil => exact Or.inl rfl
  | cons c cs ih =>
    cases b with
    | nil => exact Or.inr rfl
    | cons d ds =>
      unfold strLe
      by_cases hcd : c = d
      · subst hcd
        simpa using ih ds
      · have hne : c.toNat ≠ d.toNat := fun h => hcd (Char.toNat_inj.1 h)
        rw [if_neg hcd, if_neg (Ne.symm hcd), decide_eq_true_eq, decide_eq_true_eq]
        omega

theorem strLe_antisymm {a b : Str} (hab : strLe a b = true) (hba : strLe b a = true) : a = b := by
  induction a generalizing b with
  | nil =>
    cases b with
    | nil => rfl
    | cons d ds => simp [strLe] at hba
  | cons c cs ih =>
    cases b with
    | nil => simp [strLe] at hab
    | cons d ds =>
      unfold strLe at hab hba
      by_cases hcd : c = d
      · subst hcd
        rw [if_pos rfl] at hab hba
        rw [ih hab hba]
      · rw [if_neg hcd, decide_eq_true_eq] at hab
        rw [if_neg (Ne.symm hcd), decide_eq_true_eq] at hba
        omega

theorem strLe_trans {a b c : Str} (hab : strLe a b = true) (hbc : strLe b c = true) :
    strLe a c = true := by
  induction a generalizing b c with
  | nil => rfl
  | cons x xs ih =>
    cases b with
    | nil => simp [strLe] at hab
    | cons y ys =>
      cases c with
      | nil => simp [strLe] at hbc
      | cons z zs =>
        unfold strLe at hab hbc ⊢
        by_cases hxy : x = y
        · subst hxy
          rw [if_pos rfl] at hab
          by_cases hxz : x = z
          · rw [if_pos hxz] at hbc ⊢
            exact ih hab hbc
          · rw [if_neg hxz] at hbc ⊢
            exact hbc
        · rw [if_neg hxy, decide_eq_true_eq] at hab
          by_cases hyz : y = z
          · subst hyz
            rw [if_neg hxy, decide_eq_true_eq]
            exact hab
          · rw [if_neg hyz, decide_eq_true_eq] at hbc
            have hxz : x ≠ z := by
              intro h
              subst h
              omega
            rw [if_neg hxz, decide_eq_true_eq]
            omega

theorem rowLe_total (a b : TableConfigRow) : rowLe a b = true ∨ rowLe b a = true := by
  unfold rowLe
  by_cases hbegin : a.beginIndex = b.beginIndex
  · rw [if_pos hbegin, if_pos hbegin.symm]
    by_cases hend : a.endIndex = b.endIndex
    · rw [if_pos hend, if_pos hend.symm]
      exact strLe_total _ _
    · rw [if_neg hend, if_neg (Ne.symm hend), decide_eq_true_eq, decide_eq_true_eq]
      omega
  · rw [if_neg hbegin, if_neg (Ne.symm hbegin), decide_eq_true_eq, decide_eq_true_eq]
    omega

theorem rowLe_iff {a b : TableConfigRow} : rowLe a b = true ↔
    a.beginIndex < b.beginIndex ∨ (a.beginIndex = b.beginIndex ∧ (a.endIndex < b.endIndex ∨
      (a.endIndex = b.endIndex ∧ strLe a.sourceName b.sourceName = true))) := by
  unfold rowLe
  by_cases hbegin : a.beginIndex = b.beginIndex
  · by_cases hend : a.endIndex = b.endIndex
    · simp [hbegin, hend]
    · simp [hbegin, hend]
  · simp [hbegin]

theorem rowLe_trans (a b c : TableConfigRow) (hab : rowLe a b = true) (hbc : rowLe b c = true) :
    rowLe a c = true := by
  rw [rowLe_iff] at hab hbc ⊢
  have hsource : strLe a.sourceName b.sourceName = true → strLe b.sourceName c.sourceName =
      true → strLe a.sourceName c.sourceName = true := fun h h' => strLe_trans h h'
  grind

theorem rowLe_antisymm {a b : TableConfigRow} (hab : rowLe a b = true) (hba : rowLe b a = true) :
    a.beginIndex = b.beginIndex ∧ a.endIndex = b.endIndex ∧ a.sourceName = b.sourceName := by
  rw [rowLe_iff] at hab hba
  have hsource : strLe a.sourceName b.sourceName = true → strLe b.sourceName a.sourceName =
      true → a.sourceName = b.sourceName := fun h h' => strLe_antisymm h h'
  grind

theorem sortStrings_perm {l l' : List Str} (h : l.Perm l') : sortStrings l = sortStrings l' :=
  insertionSort_eq_of_perm strLe_total (fun _ _ _ => strLe_trans) h fun _ _ _ _ => strLe_antisymm

theorem foldl_max_spec (ks : List Int) (k : Int) :
    ks.foldl max k ∈ k :: ks ∧ ∀ i ∈ k :: ks, i ≤ ks.foldl max k := by
  induction ks generalizing k with
  | nil => simp
  | cons j js ih =>
    obtain ⟨hmem, hle⟩ := ih (max k j)
    have hmax := hle (max k j) List.mem_cons_self
    rw [List.foldl_cons]
    constructor
    · rcases List.mem_cons.1 hmem with h | h
      · rw [h]
        rcases max_choice k j with hk | hj
        · simp [hk]
        · simp [hj]
      · simp [h]
    · intro i hi
      simp only [List.mem_cons] at hi
      rcases hi with rfl | rfl | hi
      · exact (le_max_left _ _).trans hmax
      · exact (le_max_right _ _).trans hmax
      · exact hle i (List.mem_cons_of_mem _ hi)

/-- The maximum depends on the members only. -/
theorem maxInt_perm {l l' : List Int} (h : l.Perm l') : maxInt l = maxInt l' := by
  cases l with
  | nil => rw [h.nil_eq]
  | cons k ks =>
    cases l' with
    | nil => exact absurd h.symm.nil_eq (by simp)
    | cons j js =>
      obtain ⟨hmem, hle⟩ := foldl_max_spec ks k
      obtain ⟨hmem', hle'⟩ := foldl_max_spec js j
      exact le_antisymm (hle' _ (h.mem_iff.1 hmem)) (hle _ (h.mem_iff.2 hmem'))

/-! ## One group -/

/-- Rows of one table whose segments differ in more than their shard counts. -/
structure Uniform (group : List TableConfigRow) : Prop where
  catlogName : ∀ a ∈ group, ∀ b ∈ group, a.catlogName = b.catlogName
  tableName : ∀ a ∈ group, ∀ b ∈ group, a.tableName = b.tableName
  segments : ∀ a ∈ group, ∀ b ∈ group, a.sourceName = b.sourceName →
    a.beginIndex = b.beginIndex → a.endIndex = b.endIndex → a.shardCount = b.shardCount

section Group

variable {group group' : List TableConfigRow}

theorem Uniform.perm (hu : Uniform group) (h : group.Perm group') : Uniform group' where
  catlogName a ha b hb := hu.catlogName a (h.mem_iff.2 ha) b (h.mem_iff.2 hb)
  tableName a ha b hb := hu.tableName a (h.mem_iff.2 ha) b (h.mem_iff.2 hb)
  segments a ha b hb := hu.segments a (h.mem_iff.2 ha) b (h.mem_iff.2 hb)

/-- Its rows are told apart by source and indexes. -/
theorem Uniform.eq_of_segment (hu : Uniform group) {a b : TableConfigRow} (ha : a ∈ group)
    (hb : b ∈ group) (hsource : a.sourceName = b.sourceName)
    (hbegin : a.beginIndex = b.beginIndex)
    (hend : a.endIndex = b.endIndex) : a = b := by
  have hcatlog := hu.catlogName a ha b hb
  have htable := hu.tableName a ha b hb
  have hcount := hu.segments a ha b hb hsource hbegin hend
  cases a
  cases b
  simp_all

/-- No row is lost by the deduplication. -/
theorem Uniform.mem_dedupedRows (hu : Uniform group) {row : TableConfigRow} :
    row ∈ dedupedRows group ↔ row ∈ group := by
  rw [SqlGatekeeper.mem_dedupedRows]
  constructor
  · exact fun h => h.mem
  · intro hrow
    obtain ⟨kept, hkept, hkey⟩ := exists_isLast segmentKey hrow
    simp only [segmentKey, Prod.mk.injEq] at hkey
    rw [← hu.eq_of_segment hkept.mem hrow hkey.1 hkey.2.1 hkey.2.2.1]
    exact hkept

theorem dedupedRows_perm (hu : Uniform group) (h : group.Perm group') :
    (dedupedRows group).Perm (dedupedRows group') := by
  have hnodup : ∀ g, (dedupedRows g).Nodup := fun g =>
    List.Nodup.of_map segmentKey (unique_lastByKey segmentKey g)
  refine (List.perm_ext_iff_of_nodup (hnodup group) (hnodup group')).2 fun row => ?_
  rw [hu.mem_dedupedRows, (hu.perm h).mem_dedupedRows]
  exact h.mem_iff

variable (hu : Uniform group) (h : group.Perm group')

include hu h

theorem isSharded_perm : isSharded group' = isSharded group := by
  unfold isSharded
  exact (dedupedRows_perm hu h).symm.any_eq

theorem distinctSourceNames_perm : distinctSourceNames group' = distinctSourceNames group := by
  unfold distinctSourceNames
  exact sortStrings_perm ((dedupedRows_perm hu h).symm.map _).dedup

theorem requiresSourceRouting_perm : requiresSourceRouting group' =
    requiresSourceRouting group := by
  unfold requiresSourceRouting
  rw [isSharded_perm hu h, distinctSourceNames_perm hu h]

theorem shardModulus_perm : shardModulus group' = shardModulus group := by
  unfold shardModulus
  exact maxInt_perm ((dedupedRows_perm hu h).symm.map _)

theorem shardSuffixes_perm : (shardSuffixes group').Perm (shardSuffixes group) := by
  unfold shardSuffixes
  exact ((dedupedRows_perm hu h).symm.filter _).flatMap_right _

theorem supportsBusinessFactorRouting_perm :
    supportsBusinessFactorRouting group' = supportsBusinessFactorRouting group := by
  have hsuffixes := shardSuffixes_perm hu h
  unfold supportsBusinessFactorRouting
  rw [isSharded_perm hu h, shardModulus_perm hu h, hsuffixes.all_eq]
  simp only [hsuffixes.mem_iff]

theorem sortedRows_perm : sortedRows group' = sortedRows group := by
  unfold sortedRows
  refine (insertionSort_eq_of_perm rowLe_total rowLe_trans (dedupedRows_perm hu h) ?_).symm
  intro a ha b hb hab hba
  obtain ⟨hbegin, hend, hsource⟩ := rowLe_antisymm hab hba
  exact hu.eq_of_segment (hu.mem_dedupedRows.1 ha) (hu.mem_dedupedRows.1 hb) hsource hbegin hend

theorem logicalTableRecord_perm (name : Str) {sample sample' : TableConfigRow}
    (hsample : sample ∈ group) (hsample' : sample' ∈ group) :
    logicalTableRecord group' name sample' = logicalTableRecord group name sample := by
  have hdeduped := dedupedRows_perm hu h
  have hnames : sortStrings ((dedupedRows group').map (·.sourceName)).dedup =
      sortStrings ((dedupedRows group).map (·.sourceName)).dedup :=
    sortStrings_perm (hdeduped.symm.map _).dedup
  have hcounts : (((dedupedRows group').map (·.shardCount)).dedup).insertionSort (· ≤ ·) =
      (((dedupedRows group).map (·.shardCount)).dedup).insertionSort (· ≤ ·) :=
    insertionSort_eq_of_perm le_total (fun _ _ _ => le_trans) (hdeduped.symm.map _).dedup
      fun _ _ _ _ => le_antisymm
  unfold logicalTableRecord
  rw [hu.catlogName _ hsample' _ hsample, hu.tableName _ hsample' _ hsample, isSharded_perm hu h,
    requiresSourceRouting_perm hu h, supportsBusinessFactorRouting_perm hu h,
      shardModulus_perm hu h,
    hnames, hcounts, hdeduped.length_eq, h.length_eq]

theorem routeFactorRecord_perm (name : Str) :
    routeFactorRecord group' name = routeFactorRecord group name := by
  unfold routeFactorRecord
  rw [isSharded_perm hu h, requiresSourceRouting_perm hu h, supportsBusinessFactorRouting_perm hu h,
    distinctSourceNames_perm hu h]

theorem routeRuleRecord_perm (rt : Runtime) (name : Str) :
    routeRuleRecord group' rt name = routeRuleRecord group rt name := by
  unfold routeRuleRecord
  rw [isSharded_perm hu h, requiresSourceRouting_perm hu h, supportsBusinessFactorRouting_perm hu h,
    shardModulus_perm hu h]

theorem expandRows_perm (rt : Runtime) (name : Str) (rows : List TableConfigRow) (e : Expansion) :
    expandRows group' rt name rows e = expandRows group rt name rows e := by
  have hrow : ∀ row e, expandRow group' rt name row e = expandRow group rt name row e := by
    intro row e
    unfold expandRow
    rw [isSharded_perm hu h, requiresSourceRouting_perm hu h]
  induction rows generalizing e with
  | nil => rfl
  | cons row rows ih =>
    unfold expandRows
    rw [hrow]
    exact bind_congr fun e => ih e

/-- The records of a group, or the error, do not depend on the order of its rows. -/
theorem buildGroup_perm (rt : Runtime) (name : Str) :
    buildGroup rt (name, group') = buildGroup rt (name, group) := by
  cases group with
  | nil => rw [← h.nil_eq]
  | cons sample more =>
    cases group' with
    | nil => exact absurd h.symm.nil_eq (by simp)
    | cons sample' more' =>
      have hsample' : sample' ∈ sample :: more := h.mem_iff.2 List.mem_cons_self
      unfold buildGroup
      simp only [routeRuleRecord_perm hu h, sortedRows_perm hu h, expandRows_perm hu h,
        routeFactorRecord_perm hu h, logicalTableRecord_perm hu h name List.mem_cons_self hsample']

end Group

/-! ## All groups -/

/-- Rows whose identifiers only coincide where their names do, and whose segments differ in more
than their shard counts. -/
structure Consistent (U : UnicodeData) (rows : List TableConfigRow) : Prop where
  tables : ∀ a ∈ keptRows rows, ∀ b ∈ keptRows rows, logicalNameOf U a =
    logicalNameOf U b → a.catlogName = b.catlogName ∧ a.tableName = b.tableName
  sources : ∀ a ∈ keptRows rows, ∀ b ∈ keptRows rows,
    makeDatasourceCode U a.sourceName = makeDatasourceCode U b.sourceName →
      a.sourceName = b.sourceName
  segments : ∀ a ∈ keptRows rows, ∀ b ∈ keptRows rows, logicalNameOf U a =
    logicalNameOf U b → a.sourceName = b.sourceName → a.beginIndex = b.beginIndex →
      a.endIndex = b.endIndex → a.shardCount = b.shardCount

section Rows

variable {rt : Runtime} {U : UnicodeData} {rows rows' : List TableConfigRow}
  {target : ImportedDatasourceTarget}

theorem Consistent.uniform (hc : Consistent U rows) (name : Str) : Uniform
    (groupOf U rows name) := by
  have hmem : ∀ {a}, a ∈ groupOf U rows name → a ∈ keptRows rows ∧
      logicalNameOf U a = name := by
    intro a ha
    obtain ⟨ha, hname⟩ := List.mem_filter.1 ha
    exact ⟨ha, of_decide_eq_true hname⟩
  have hsame : ∀ {a b}, a ∈ groupOf U rows name → b ∈ groupOf U rows name →
      logicalNameOf U a = logicalNameOf U b := fun ha hb => (hmem ha).2.trans (hmem hb).2.symm
  constructor
  · exact fun a ha b hb => (hc.tables a (hmem ha).1 b (hmem hb).1 (hsame ha hb)).1
  · exact fun a ha b hb => (hc.tables a (hmem ha).1 b (hmem hb).1 (hsame ha hb)).2
  · exact fun a ha b hb => hc.segments a (hmem ha).1 b (hmem hb).1 (hsame ha hb)

theorem keptRows_perm (h : rows.Perm rows') : (keptRows rows).Perm (keptRows rows') :=
  h.filterMap normalizeRow

theorem groupOf_perm (h : rows.Perm rows') (name : Str) :
    (groupOf U rows name).Perm (groupOf U rows' name) :=
  (keptRows_perm h).filter _

theorem sortedGroups_eq (U : UnicodeData) (rows : List TableConfigRow) :
    sortedGroups U rows =
      ((sortedGroups U rows).map Prod.fst).map fun name => (name, groupOf U rows name) := by
  rw [List.map_map]
  refine (List.map_id _).symm.trans (List.map_congr_left fun g hg => ?_)
  obtain ⟨name, group⟩ := g
  show (name, group) = (name, groupOf U rows name)
  rw [(mem_sortedGroups.1 hg).1]

/-- The tables come in the same order. -/
theorem sortedGroups_perm (h : rows.Perm rows') :
    (sortedGroups U rows').map Prod.fst = (sortedGroups U rows).map Prod.fst := by
  have hsorted : ∀ rows, ((sortedGroups U rows).map Prod.fst).Pairwise fun a b =>
      strLe a b = true := by
    intro rows
    rw [List.pairwise_map]
    exact pairwise_insertionSort_of (fun (a b : Str × List TableConfigRow) => strLe_total a.1 b.1)
      (fun _ _ _ => strLe_trans) _
  have hmem : ∀ rows name, name ∈ (sortedGroups U rows).map Prod.fst ↔
      groupOf U rows name ≠ [] := by
    intro rows name
    rw [List.mem_map]
    constructor
    · rintro ⟨⟨n, group⟩, hg, rfl⟩
      obtain ⟨rfl, hne⟩ := mem_sortedGroups.1 hg
      exact hne
    · exact fun hne => ⟨(name, _), mem_sortedGroups.2 ⟨rfl, hne⟩, rfl⟩
  refine List.Perm.eq_of_pairwise (fun a b _ _ => strLe_antisymm) (hsorted rows') (hsorted rows) ?_
  refine (List.perm_ext_iff_of_nodup (nodup_sortedGroups rows') (nodup_sortedGroups rows)).2 ?_
  intro name
  rw [hmem, hmem, not_iff_not]
  have hgroup := groupOf_perm (U := U) h name
  exact ⟨fun hnil => List.Perm.eq_nil (hnil ▸ hgroup), fun hnil =>
    List.Perm.eq_nil (hnil ▸ hgroup.symm)⟩

theorem buildGroups_perm (hc : Consistent rt.toUnicodeData rows) (h : rows.Perm rows') :
    buildGroups rt (sortedGroups rt.toUnicodeData rows') =
      buildGroups rt (sortedGroups rt.toUnicodeData rows) := by
  rw [sortedGroups_eq _ rows', sortedGroups_eq _ rows, sortedGroups_perm h]
  generalize (sortedGroups rt.toUnicodeData rows).map Prod.fst = names
  induction names with
  | nil => rfl
  | cons name names ih =>
    simp only [List.map_cons, buildGroups]
    rw [buildGroup_perm (hc.uniform name) (groupOf_perm h name), ih]

/-! ## Datasources -/

/-- The datasources that the first loop collects. -/
def collected (U : UnicodeData) (target : ImportedDatasourceTarget) (rows : List TableConfigRow) :
    List (Str × DatasourceRecord) :=
  (rows.foldl (collectRow U target) ⟨[], [], 0⟩).datasourceMap

/-- Every datasource is that of a kept row. -/
theorem exists_row_of_collected {groups : RowGroups} {done : List TableConfigRow}
    (hdone : ∀ e ∈ groups.datasourceMap, ∃ row ∈ done,
      e.2 = datasourceRecord U target row.sourceName) :
    ∀ e ∈ (rows.foldl (collectRow U target) groups).datasourceMap,
      ∃ row ∈ done ++ keptRows rows, e.2 = datasourceRecord U target row.sourceName := by
  induction rows generalizing groups done with
  | nil => simpa [keptRows] using hdone
  | cons row rows ih =>
    rw [List.foldl_cons]
    by_cases hname : strip row.tableName = []
    · have hkept : keptRows (row :: rows) = keptRows rows := by
        unfold keptRows
        rw [List.filterMap_cons, normalizeRow, if_pos hname]
      have hskip : collectRow U target groups row =
          { groups with skippedRows := groups.skippedRows + 1 } := by
        unfold collectRow
        rw [if_pos hname]
      rw [hkept, hskip]
      exact ih hdone
    · obtain ⟨kept, hnormal⟩ : ∃ kept, normalizeRow row = some kept := ⟨_, if_neg hname⟩
      have hsource : kept.sourceName = strip row.sourceName := by
        unfold normalizeRow at hnormal
        rw [if_neg hname] at hnormal
        exact congrArg (·.sourceName) (Option.some.inj hnormal).symm
      have hkept : keptRows (row :: rows) = kept :: keptRows rows := by
        unfold keptRows
        rw [List.filterMap_cons, hnormal]
      rw [hkept, ← List.singleton_append, ← List.append_assoc]
      refine ih fun e he => ?_
      have hmem : e ∈ setDefault (makeDatasourceCode U (strip row.sourceName))
          (datasourceRecord U target (strip row.sourceName)) groups.datasourceMap := by
        unfold collectRow at he
        rw [if_neg hname] at he
        exact he
      unfold setDefault at hmem
      split at hmem
      · obtain ⟨r, hr, heq⟩ := hdone e hmem
        exact ⟨r, List.mem_append_left _ hr, heq⟩
      · rcases List.mem_append.1 hmem with hmem | hmem
        · obtain ⟨r, hr, heq⟩ := hdone e hmem
          exact ⟨r, List.mem_append_left _ hr, heq⟩
        · rw [List.mem_singleton.1 hmem, ← hsource]
          exact ⟨kept, by simp, rfl⟩

theorem datasourcesCollected (rows : List TableConfigRow) :
    DatasourcesCollected rt.toUnicodeData (keptRows rows)
      (collected rt.toUnicodeData target rows) := by
  have hall : DatasourcesCollected rt.toUnicodeData ([] ++ keptRows rows)
      (rows.foldl (collectRow rt.toUnicodeData target) ⟨[], [], 0⟩).datasourceMap :=
    DatasourcesCollected.foldl ⟨by simp, by simp⟩
  exact hall

/-- The codes of the collected datasources are distinct. -/
theorem nodup_codes_collected (rows : List TableConfigRow) :
    (((collected rt.toUnicodeData target rows).map Prod.snd).map (·.datasourceCode)).Nodup := by
  have hcodes : ((collected rt.toUnicodeData target rows).map Prod.snd).map (·.datasourceCode) =
      (collected rt.toUnicodeData target rows).map Prod.fst := by
    rw [List.map_map]
    exact List.map_congr_left fun e he => ((datasourcesCollected rows).record e he).1
  rw [hcodes]
  exact nodup_datasourceMap rows List.nodup_nil

/-- Of consistent rows, each has its datasource collected, and no others are. -/
theorem mem_collected (hc : Consistent rt.toUnicodeData rows) {record : DatasourceRecord} :
    record ∈ (collected rt.toUnicodeData target rows).map Prod.snd ↔
      ∃ row ∈ keptRows rows, record = datasourceRecord rt.toUnicodeData target
        row.sourceName := by
  have hrow : ∀ e ∈ collected rt.toUnicodeData target rows, ∃ row ∈ keptRows rows,
      e.2 = datasourceRecord rt.toUnicodeData target row.sourceName := by
    exact @exists_row_of_collected rt.toUnicodeData rows target ⟨[], [], 0⟩ [] (by simp)
  constructor
  · intro h
    obtain ⟨e, he, rfl⟩ := List.mem_map.1 h
    exact hrow e he
  · rintro ⟨row, hmem, rfl⟩
    have hall : DatasourcesCollected rt.toUnicodeData (keptRows rows)
        (collected rt.toUnicodeData target rows) := datasourcesCollected rows
    have hseen := hall.seen row hmem
    obtain ⟨e, he, hkey⟩ := List.lookup_isSome_iff.1 hseen
    have hcode : e.2.datasourceCode = makeDatasourceCode rt.toUnicodeData row.sourceName := by
      rw [(hall.record e he).1]
      have heq : makeDatasourceCode rt.toUnicodeData row.sourceName = e.1 := by simpa using hkey
      exact heq.symm
    obtain ⟨other, hother, heq⟩ := hrow e he
    rw [heq] at hcode
    refine List.mem_map.2 ⟨e, he, ?_⟩
    rw [heq, hc.sources other hother row hmem hcode]

theorem Consistent.perm (hc : Consistent U rows) (h : rows.Perm rows') : Consistent U rows' := by
  have hmem : ∀ {a}, a ∈ keptRows rows' → a ∈ keptRows rows :=
    fun ha => (keptRows_perm h).mem_iff.2 ha
  constructor
  · exact fun a ha b hb => hc.tables a (hmem ha) b (hmem hb)
  · exact fun a ha b hb => hc.sources a (hmem ha) b (hmem hb)
  · exact fun a ha b hb => hc.segments a (hmem ha) b (hmem hb)

theorem collected_perm (hc : Consistent rt.toUnicodeData rows) (h : rows.Perm rows') :
    ((collected rt.toUnicodeData target rows').map Prod.snd).Perm
      ((collected rt.toUnicodeData target rows).map Prod.snd) := by
  have hnodup : ∀ rows, ((collected rt.toUnicodeData target rows).map Prod.snd).Nodup :=
    fun rows =>
    List.Nodup.of_map (·.datasourceCode) (nodup_codes_collected rows)
  refine (List.perm_ext_iff_of_nodup (hnodup rows') (hnodup rows)).2 fun record => ?_
  rw [mem_collected hc, mem_collected (hc.perm h)]
  simp only [(keptRows_perm h).mem_iff]

theorem sortedDatasources_perm (hc : Consistent rt.toUnicodeData rows) (h : rows.Perm rows') :
    ((collected rt.toUnicodeData target rows').map Prod.snd).insertionSort
        (fun a b => strLe a.datasourceCode b.datasourceCode = true) =
      ((collected rt.toUnicodeData target rows).map Prod.snd).insertionSort
        fun a b => strLe a.datasourceCode b.datasourceCode = true := by
  refine insertionSort_eq_of_perm (fun (a b : DatasourceRecord) => strLe_total _ _)
    (fun _ _ _ => strLe_trans) (collected_perm hc h) fun a ha b hb hab hba => ?_
  exact List.inj_on_of_nodup_map (nodup_codes_collected rows') ha hb (strLe_antisymm hab hba)

/-! ## The bundle -/

/-- A bundle is made of the sorted groups, the datasources and the count of the rows that name no
table. -/
theorem buildSyncBundle_eq (rows : List TableConfigRow) :
    buildSyncBundle rt rows target =
      (buildGroups rt (sortedGroups rt.toUnicodeData rows)).map fun records => {
        datasources := ((collected rt.toUnicodeData target rows).map Prod.snd).insertionSort
          fun a b => strLe a.datasourceCode b.datasourceCode = true
        logicalTables := records.map (·.logicalTable)
        routeFactors := records.filterMap (·.routeFactor)
        routeRules := records.map (·.routeRule)
        physicalRoutes := records.flatMap (·.physicalRoutes)
        skippedRows := rows.length - (keptRows rows).length } := by
  have hgroups := logicalGroups_foldl rt.toUnicodeData target rows ⟨[], [], 0⟩
  have hskipped := @skippedRows_foldl rt.toUnicodeData target rows ⟨[], [], 0⟩
  have hcount : (rows.foldl (collectRow rt.toUnicodeData target) ⟨[], [], 0⟩).skippedRows =
      rows.length - (keptRows rows).length := by
    simp only at hskipped
    omega
  unfold buildSyncBundle
  simp only [hgroups, hcount]
  rfl

/-- Consistent rows are imported alike in whatever order they come: to the same bundle, or with the
same error. -/
theorem buildSyncBundle_perm (rt : Runtime) (target : ImportedDatasourceTarget)
    {rows rows' : List TableConfigRow} (hc : Consistent rt.toUnicodeData rows)
    (h : rows.Perm rows') : buildSyncBundle rt rows' target = buildSyncBundle rt rows target := by
  rw [buildSyncBundle_eq rows', buildSyncBundle_eq rows, buildGroups_perm hc h,
    sortedDatasources_perm hc h, h.length_eq, (keptRows_perm h).length_eq]

end Rows

/-- A table whose two shards come from two sources, with one of them listed twice. -/
def listedTwice : List TableConfigRow :=
  [⟨"east", "c", "t", 0, 0, 2⟩, ⟨"west", " c", "t", 1, 1, 2⟩,
    ⟨"east", "c", "t ", 0, 0, 2⟩]

/-- It is imported alike, whichever row comes first. -/
theorem buildSyncBundle_perm_listedTwice :
    buildSyncBundle asciiRuntime listedTwice.reverse exampleTarget =
      buildSyncBundle asciiRuntime listedTwice exampleTarget :=
  buildSyncBundle_perm asciiRuntime exampleTarget ⟨by decide +kernel, by decide +kernel,
    by decide +kernel⟩ (List.reverse_perm listedTwice).symm

-- Two spellings of one name are not consistent: the row that comes first gives the table its name.
example : (buildSyncBundle asciiRuntime twoCases.reverse exampleTarget).map (fun bundle =>
      bundle.logicalTables.map (·.physicalNameTemplate)) ≠
    (buildSyncBundle asciiRuntime twoCases exampleTarget).map (fun bundle =>
      bundle.logicalTables.map (·.physicalNameTemplate)) := by
  decide +kernel

end SqlGatekeeper
