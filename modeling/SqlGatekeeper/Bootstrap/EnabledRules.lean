import SqlGatekeeper.Bootstrap.Reseeding
import SqlGatekeeper.Tools.HandRegistered

/-!
# One enabled rule a logical table

The resolver needs it, the declared keys do not give it, and two programs write rules.

* `Metadata.OneEnabledRule`: each logical table has at most one enabled rule.
* `Synced.oneEnabledRule`: an import keeps it.
* `Metadata.SeedRulesFit`: a seeded logical table with an enabled rule has one of the seeded name.
* `Seeding.oneEnabledRule_iff`: a seeding keeps it exactly then.
* `writersKeepRules_iff`: both together.
-/

namespace SqlGatekeeper

open Py Store

/-- The enabled rules of a logical table. -/
def enabledRules (t : Table RouteRule) (id : Nat) : List RouteRule :=
  t.rows.filter fun r => r.logicalTableId = id ∧ r.enabled

/-- Each logical table has at most one enabled rule. -/
def Metadata.OneEnabledRule (db : Metadata) : Prop :=
  ∀ t ∈ db.logicalTables.rows, (enabledRules db.routeRules t.id).length ≤ 1

section Rules

variable {t t' : Table RouteRule} {id : Nat} {r s : RouteRule}

theorem mem_enabledRules :
    r ∈ enabledRules t id ↔ r ∈ t.rows ∧ r.logicalTableId = id ∧ r.enabled = true := by
  rw [enabledRules, List.mem_filter, decide_eq_true_eq]

theorem eq_of_mem_enabledRules (h : (enabledRules t id).length ≤ 1) (hr : r ∈ enabledRules t id)
    (hs : s ∈ enabledRules t id) : r = s := by
  rcases hl : enabledRules t id with _ | ⟨u, _ | ⟨v, rest⟩⟩
  · rw [hl] at hr
    exact absurd hr List.not_mem_nil
  · rw [hl, List.mem_singleton] at hr hs
    rw [hr, hs]
  · rw [hl] at h
    simp at h

/-- With the foreign key no other id has a rule. -/
theorem Metadata.OneEnabledRule.length_le {db : Metadata} (h : db.OneEnabledRule)
    (hdb : ∀ r ∈ db.routeRules.rows, ∃ t ∈ db.logicalTables.rows, t.id = r.logicalTableId)
    (id : Nat) : (enabledRules db.routeRules id).length ≤ 1 := by
  by_cases ht : ∃ t ∈ db.logicalTables.rows, t.id = id
  · obtain ⟨t, ht, rfl⟩ := ht
    exact h t ht
  · have hnil : enabledRules db.routeRules id = [] := by
      rw [List.eq_nil_iff_forall_not_mem]
      intro r hr
      obtain ⟨hmem, hid, -⟩ := mem_enabledRules.1 hr
      exact ht (hid ▸ hdb r hmem)
    rw [hnil]
    exact Nat.zero_le 1

/-- The lookup of a rule raises exactly when there are several. -/
theorem returns_getEnabledByLogicalTable {db : Metadata} :
    Returns (db.getEnabledByLogicalTable id) ↔ (enabledRules db.routeRules id).length ≤ 1 := by
  constructor
  · rintro ⟨o, ho⟩
    by_contra hlt
    have herror : db.getEnabledByLogicalTable id = .error .multipleResultsFound :=
      oneOrNone_eq_error.2 ⟨rfl, by rw [enabledRules] at hlt; omega⟩
    rw [herror] at ho
    exact absurd ho (by simp)
  · exact fun h => ⟨_, oneOrNone_of_length_le h⟩

/-! ## An upsert of a rule -/

section Upsert

variable {ruleName ruleType expression outputFormat : Str} {k : Nat}

/-- A logical table that has an enabled rule has one of the given name. -/
def RuleFits (t : Table RouteRule) (id : Nat) (ruleName : Str) : Prop :=
  (∃ r ∈ t.rows, r.logicalTableId = id ∧ r.enabled = true) →
    ∃ r ∈ t.rows, r.logicalTableId = id ∧ r.ruleName = ruleName

variable (hgot : Table.Got (fun r => (r.logicalTableId, r.ruleName)) (k, ruleName)
  (routeRuleRow k ruleName ruleType expression outputFormat) t r t')

include hgot

/-- A rule that is inserted beside no enabled one leaves one enabled rule at most. -/
theorem length_enabledRules_of_got (hone : ∀ id, (enabledRules t id).length ≤ 1)
    (hfits : RuleFits t k ruleName) (id : Nat) : (enabledRules t' id).length ≤ 1 := by
  rcases hgot.eq_or_insert with rfl | ⟨hnew, rfl⟩
  · exact hone id
  · rw [enabledRules, Table.insert_rows, List.filter_append, List.length_append]
    by_cases hid : id = k
    · subst hid
      have hnil : enabledRules t id = [] := by
        rw [List.eq_nil_iff_forall_not_mem]
        intro s hs
        obtain ⟨hmem, hsid, henabled⟩ := mem_enabledRules.1 hs
        obtain ⟨u, hu, huid, huname⟩ := hfits ⟨s, hmem, hsid, henabled⟩
        exact hnew u hu (by rw [huid, huname])
      rw [enabledRules] at hnil
      rw [hnil, List.length_nil, Nat.zero_add]
      exact List.length_filter_le _ [_]
    · have hnone : [routeRuleRow k ruleName ruleType expression outputFormat t.nextId].filter
          (fun s => decide (s.logicalTableId = id ∧ s.enabled = true)) = [] :=
        List.filter_eq_nil_iff.2 fun s hs => by
          rw [List.mem_singleton.1 hs, decide_eq_true_eq]
          exact fun h => hid h.1.symm
      rw [hnone, List.length_nil, Nat.add_zero]
      exact hone id

/-- If one enabled rule is left, none was inserted beside an enabled one. -/
theorem ruleFits_of_got {t'' : Table RouteRule} (hsub : t'.rows ⊆ t''.rows)
    (hone : (enabledRules t'' k).length ≤ 1) : RuleFits t k ruleName := by
  rintro ⟨s, hs, hsid, henabled⟩
  rcases hgot.eq_or_insert with rfl | ⟨hnew, rfl⟩
  · have hkey := hgot.key_eq
    rw [Prod.mk.injEq] at hkey
    exact ⟨r, hgot.mem, hkey.1, hkey.2⟩
  · exfalso
    have hold : s ∈ enabledRules t'' k :=
      mem_enabledRules.2 ⟨hsub (List.mem_append_left _ hs), hsid, henabled⟩
    have hinserted : routeRuleRow k ruleName ruleType expression outputFormat t.nextId ∈
        enabledRules t'' k :=
      mem_enabledRules.2 ⟨hsub (List.mem_append_right _ (List.mem_singleton_self _)), rfl, rfl⟩
    have heq := eq_of_mem_enabledRules hone hold hinserted
    exact hnew s hs (by rw [heq]; rfl)

/-- The rules of other tables are the same. -/
theorem ruleFits_iff_of_got {j : Nat} (hj : j ≠ k) (name : Str) :
    RuleFits t' j name ↔ RuleFits t j name := by
  have hmem : ∀ s : RouteRule, s.logicalTableId = j → (s ∈ t'.rows ↔ s ∈ t.rows) := by
    intro s hs
    refine ⟨fun h => hgot.grown.mem_of_notMem h ?_, hgot.grown.mem⟩
    simp only [List.mem_singleton, Prod.mk.injEq, not_and]
    exact fun h => absurd (hs.symm.trans h) hj
  have hiff : ∀ p : RouteRule → Prop, (∃ s ∈ t'.rows, s.logicalTableId = j ∧ p s) ↔
      ∃ s ∈ t.rows, s.logicalTableId = j ∧ p s := by
    intro p
    constructor
    · rintro ⟨s, hs, hid, hp⟩
      exact ⟨s, (hmem s hid).1 hs, hid, hp⟩
    · rintro ⟨s, hs, hid, hp⟩
      exact ⟨s, (hmem s hid).2 hs, hid, hp⟩
  rw [RuleFits, RuleFits, hiff, hiff]

end Upsert

end Rules

/-! ## The seeding -/

section Writers

variable {rt : Runtime} {settings : SeedSettings rt} {db db' : Metadata}

/-- A seeded logical table that is there and has an enabled rule has one of the seeded name. -/
def Metadata.SeedRulesFit (db : Metadata) : Prop :=
  ∀ t ∈ db.logicalTables.rows,
    (t.tableName = "user" → RuleFits db.routeRules t.id "user_mod_2") ∧
      (t.tableName = "order" → RuleFits db.routeRules t.id "order_month")

/-- A table that is not there has no rules. -/
theorem RuleFits.of_mem (hdb : db.Constraints) {u : LogicalTable} (name : Str)
    (h : u ∈ db.logicalTables.rows → RuleFits db.routeRules u.id name)
    (hmem : ∀ t ∈ db.logicalTables.rows, t.id = u.id → t = u) :
    RuleFits db.routeRules u.id name := by
  rintro ⟨r, hr, hid, henabled⟩
  obtain ⟨t, ht, htid⟩ := hdb.ruleTable r hr
  have htu := hmem t ht (htid.trans hid)
  exact h (htu ▸ ht) ⟨r, hr, hid, henabled⟩

/-- After a seeding each logical table has one enabled rule exactly if the rules fit. -/
theorem Seeding.oneEnabledRule_iff (hs : Seeding settings db db') (hdb : db.Constraints)
    (hone : db.OneEnabledRule) : db'.OneEnabledRule ↔ db.SeedRulesFit := by
  have hdb' := hs.constraints hdb
  obtain ⟨r₁, hrule₁⟩ := hs.userRule
  obtain ⟨r₂, hrule₂⟩ := hs.orderRule
  have huser := hs.userTable.key_eq
  have horder := hs.orderTable.key_eq
  have hne : hs.order.id ≠ hs.user.id := by
    intro h
    have heq := hdb'.logicalTableIds.unique.eq_of_mem hs.orderTable.mem hs.user_mem h
    rw [heq, huser] at horder
    exact absurd horder (by decide)
  constructor
  · intro hone'
    have hfits₂ : RuleFits db.routeRules hs.order.id "order_month" :=
      (ruleFits_iff_of_got hrule₁ hne _).1
        (ruleFits_of_got hrule₂ (fun _ h => h) (hone' _ hs.orderTable.mem))
    have hfits₁ : RuleFits db.routeRules hs.user.id "user_mod_2" :=
      ruleFits_of_got hrule₁ (fun _ h => hrule₂.grown.mem h) (hone' _ hs.user_mem)
    refine fun t ht => ⟨fun hname => ?_, fun hname => ?_⟩
    · rwa [hdb'.tableName.eq_of_mem (hs.mem_logicalTables ht) hs.user_mem
        (hname.trans huser.symm)]
    · rwa [hdb'.tableName.eq_of_mem (hs.mem_logicalTables ht) hs.orderTable.mem
        (hname.trans horder.symm)]
  · intro hfit t _
    have hids : ∀ {u : LogicalTable}, u ∈ db'.logicalTables.rows →
        ∀ t ∈ db.logicalTables.rows, t.id = u.id → t = u :=
      fun hu t ht hid => hdb'.logicalTableIds.unique.eq_of_mem (hs.mem_logicalTables ht) hu hid
    have hfits₁ : RuleFits db.routeRules hs.user.id "user_mod_2" :=
      .of_mem hdb _ (fun hmem => (hfit _ hmem).1 huser) (hids hs.user_mem)
    have hfits₂ : RuleFits db.routeRules hs.order.id "order_month" :=
      .of_mem hdb _ (fun hmem => (hfit _ hmem).2 horder) (hids hs.orderTable.mem)
    exact length_enabledRules_of_got hrule₂
      (length_enabledRules_of_got hrule₁ (hone.length_le hdb.ruleTable) hfits₁)
      ((ruleFits_iff_of_got hrule₁ hne _).2 hfits₂) t.id

/-! ## The import -/

/-- An import keeps it: a kept table has its rules, and a new one has the rule of its group. -/
theorem Synced.oneEnabledRule {rows : List TableConfigRow} {target : ImportedDatasourceTarget}
    {bundle : SyncBundle} (hbundle : buildSyncBundle rt rows target = .ok bundle)
    (hs : Synced db bundle db') (hdb : db.Constraints) (hone : db.OneEnabledRule) :
    db'.OneEnabledRule := by
  have hdb' := hs.constraints hdb
  intro t ht
  rw [← returns_getEnabledByLogicalTable]
  obtain ⟨added, hrows, hadded, -⟩ := insertAll_ok hs.logicalTables
  rw [hrows] at ht
  rcases List.mem_append.1 ht with hkept | hnew
  · obtain ⟨hmem, hid⟩ := mem_delete.1 hkept
    rw [hs.getEnabledByLogicalTable_eq hdb hmem (of_decide_eq_false hid)]
    exact returns_getEnabledByLogicalTable.2 (hone t hmem)
  · obtain ⟨record, hrecord, f, n, hf, heq⟩ := exists_of_forall₂_left hadded.forall₂ hnew
    have hname : t.tableName = record.tableName := by
      rw [heq, ← Except.ok.inj hf]
      rfl
    obtain ⟨records, sample, more, hgroup, -, hsample⟩ := exists_groupOfTable hbundle hrecord
    obtain ⟨u, hheld⟩ := exists_heldGroup hbundle hdb' (hs.holdsBundle hdb) hrecord
      hgroup hsample
    obtain ⟨humem, huname, -⟩ := Metadata.getEnabledByName_eq_some hheld.enabledByName
    have htu : t = u := hdb'.tableName.eq_of_mem (hrows ▸ ht) humem (hname.trans huname.symm)
    obtain ⟨r, hr, -⟩ := hheld.rule
    exact ⟨some r, htu ▸ hr⟩

/-! ## Both writers -/

/-- Each logical table has at most one enabled rule, and no lookup of a rule raises. -/
def Metadata.RulesResolve (db : Metadata) : Prop :=
  db.OneEnabledRule ∧ ∀ id, Returns (db.getEnabledByLogicalTable id)

theorem Metadata.OneEnabledRule.rulesResolve (h : db.OneEnabledRule) (hdb : db.Constraints) :
    db.RulesResolve :=
  ⟨h, fun id => returns_getEnabledByLogicalTable.2 (h.length_le hdb.ruleTable id)⟩

/-- Whatever the writers commit on the metadata, rules resolve afterwards. -/
def WritersKeepRules (settings : SeedSettings rt) (db : Metadata) : Prop :=
  (∀ db', seedReferenceData settings db = .ok db' → db'.RulesResolve) ∧
    ∀ rows target bundle db', buildSyncBundle rt rows target = .ok bundle →
      syncBundleToLocal db bundle = .ok db' → db'.RulesResolve

/-- The writers keep one enabled rule a logical table exactly if the seeded rules fit. -/
theorem writersKeepRules_iff (settings : SeedSettings rt) (hdb : db.Constraints)
    (hone : db.OneEnabledRule) : WritersKeepRules settings db ↔ db.SeedRulesFit := by
  obtain ⟨seeded, hok, ⟨hs⟩⟩ := exists_seeding settings hdb.uniqueConstraints
  have hseeding := hs.oneEnabledRule_iff hdb hone
  constructor
  · exact fun h => hseeding.1 (h.1 seeded hok).1
  · intro hfit
    refine ⟨fun db' hdb' => ?_, fun rows target bundle db' hbundle hsync => ?_⟩
    · rw [hok] at hdb'
      injection hdb' with hdb'
      subst hdb'
      exact (hseeding.2 hfit).rulesResolve (hs.constraints hdb)
    · have hsynced := synced_of_ok hsync
      exact (hsynced.oneEnabledRule hbundle hdb hone).rulesResolve (hsynced.constraints hdb)

end Writers

theorem exampleMetadata_oneEnabledRule : exampleMetadata.OneEnabledRule := by
  intro t ht
  rw [List.mem_singleton.1 ht]
  decide

/-- The example's table `user` has the rule `uid_mod`; the seeding adds `user_mod_2` to it, and
resolving a statement on it raises. -/
theorem seedReferenceData_twoRules :
    exampleMetadata.Constraints ∧ exampleMetadata.OneEnabledRule ∧
      (∃ db', seedReferenceData defaultSeedSettings exampleMetadata = .ok db' ∧
        db'.getEnabledByLogicalTable 1 = .error .multipleResultsFound ∧
        resolve asciiRuntime db' SqlCheckService.exampleParsed [] =
          .error .multipleResultsFound) ∧
      ¬ WritersKeepRules defaultSeedSettings exampleMetadata := by
  have hrun : (seedReferenceData defaultSeedSettings exampleMetadata).map (fun db' =>
      ((db'.getEnabledByLogicalTable 1).map fun _ => (),
        (resolve asciiRuntime db' SqlCheckService.exampleParsed []).map fun _ => ())) =
      .ok (.error .multipleResultsFound, .error .multipleResultsFound) := by
    decide +kernel
  obtain ⟨db', hdb', hview⟩ := map_eq_ok.1 hrun
  rw [Prod.mk.injEq, map_eq_error, map_eq_error] at hview
  refine ⟨exampleMetadata_constraints, exampleMetadata_oneEnabledRule,
    ⟨db', hdb', hview⟩, ?_⟩
  intro h
  exact ((h.1 db' hdb').2 1).ne_error _ hview.1

/-- The example's metadata with the rule under its seeded name. -/
def renamedRule : Metadata :=
  { exampleMetadata with routeRules := ⟨[{ exampleRule with ruleName := "user_mod_2" }], 2⟩ }

theorem renamedRule_constraints : renamedRule.Constraints :=
  { exampleMetadata_constraints with
    routeRuleIds := ⟨by decide, by decide⟩
    uqRouteRuleTableName := by decide
    ruleTable := by decide }

theorem writersKeepRules_example :
    (¬ exampleMetadata.SeedRulesFit ∧
      ¬ WritersKeepRules defaultSeedSettings exampleMetadata) ∧
      renamedRule.SeedRulesFit ∧ WritersKeepRules defaultSeedSettings renamedRule := by
  have hone : renamedRule.OneEnabledRule := by
    intro t ht
    rw [List.mem_singleton.1 ht]
    decide
  have hclash : ¬ exampleMetadata.SeedRulesFit := fun h => by
    obtain ⟨r, hr, -, hname⟩ := (h exampleTable List.mem_cons_self).1 rfl
      ⟨exampleRule, List.mem_cons_self, rfl, rfl⟩
    rw [List.mem_singleton.1 hr] at hname
    exact absurd hname (by decide)
  have hfit : renamedRule.SeedRulesFit := by
    intro t ht
    rw [List.mem_singleton.1 ht]
    exact ⟨fun _ _ => ⟨_, List.mem_cons_self, rfl, rfl⟩, fun h => absurd h (by decide)⟩
  exact ⟨⟨hclash, fun h => hclash ((writersKeepRules_iff defaultSeedSettings
      exampleMetadata_constraints exampleMetadata_oneEnabledRule).1 h)⟩,
    hfit, (writersKeepRules_iff defaultSeedSettings renamedRule_constraints hone).2 hfit⟩

end SqlGatekeeper
