import SqlGatekeeper.Bootstrap.Lifecycle
import SqlGatekeeper.Services.ModRouting

/-!
# Where the seeded tables are read

The seeded tables `user` and `order` keep their routes through everything that a store goes
through.

* `resolveTable_oneFactor`: when a table with one factor is routed, and where.
* `RoutesUser`, `RoutesOrder`: the routing of the two tables.
* `seededRouting_of_run`: both hold for every request of a run, unless the last import before it
  has a physical table of that name.
-/

namespace SqlGatekeeper

open Py Store Runs

/-! ## One factor -/

section OneFactor

variable {rt : Runtime} {db : Metadata} {parsed : ParsedSql} {routeContext : JsonDict}

/-- A reference is routed to a physical table on a datasource. -/
def Routed (rt : Runtime) (db : Metadata) (parsed : ParsedSql) (routeContext : JsonDict)
    (table : ParsedTable) (name code : Str) : Prop :=
  ∃ target d, resolveTable rt db parsed routeContext table = .ok (.target target d) ∧
    target.physicalTableName = name ∧ target.datasourceCode = code

/-- A value of a route rule that leads somewhere. -/
def LeadsTo (rt : Runtime) (db : Metadata) (t : LogicalTable) (factor : RouteFactorDef)
    (rule : RouteRule) (s name code : Str) : Prop :=
  ∃ v route datasource, evaluateRouteRule rt rule [(factor.factorName, s)] = .ok v ∧
    db.getEnabledByLogicalTableAndRouteValue t.id v = .ok (some route) ∧
    db.getEnabledByCode (datasourceCodeFromId db route.datasourceId) = .ok (some datasource) ∧
    route.physicalTableName = name ∧ datasource.datasourceCode = code

theorem resolveRoute_target_iff (table : ParsedTable) (t : LogicalTable) (factor : RouteFactorDef)
    (rule : RouteRule) (s name code : Str) :
    (∃ target d, resolveRoute rt db table t [factor] rule [(factor.factorName, s)] =
        .ok (.target target d) ∧ target.physicalTableName = name ∧
          target.datasourceCode = code) ↔
      LeadsTo rt db t factor rule s name code := by
  constructor
  · rintro ⟨target, d, h, hname, hcode⟩
    obtain ⟨v, hv, h⟩ := bind_eq_ok.1 h
    obtain ⟨route, hroute, h⟩ := bind_eq_ok.1 h
    cases route with
    | none => exact absurd h (by simp [pure, Except.pure])
    | some route =>
      obtain ⟨datasource, hdatasource, h⟩ := bind_eq_ok.1 h
      cases datasource with
      | none => exact absurd h (by simp [pure, Except.pure])
      | some datasource =>
        injection h with h
        injection h with h
        subst h
        exact ⟨v, route, datasource, hv, hroute, hdatasource, hname, hcode⟩
  · rintro ⟨v, route, datasource, hv, hroute, hdatasource, hname, hcode⟩
    obtain ⟨target, d, h, -, htarget, hds⟩ :=
      resolveRoute_found table [factor] hv hroute hdatasource
    exact ⟨target, d, h, htarget.trans hname, hds.trans hcode⟩

/-- A table with one factor, by a name that no route has, is routed exactly when the factor has a
value that leads somewhere. -/
theorem resolveTable_oneFactor {table : ParsedTable} {t : LogicalTable} {factor : RouteFactorDef}
    {rule : RouteRule} (hphys : db.getEnabledByPhysicalTableName table.tableName = .ok none)
    (hlogical : db.getEnabledByName table.tableName = .ok (some t))
    (hfactors : db.listRequiredEnabledByLogicalTable t.id = [factor])
    (hrule : db.getEnabledByLogicalTable t.id = .ok (some rule)) (name code : Str) :
    Routed rt db parsed routeContext table name code ↔
      ∃ s, factorValue rt db t parsed table routeContext factor = .ok (some s) ∧
        LeadsTo rt db t factor rule s name code := by
  have hstep : resolveTable rt db parsed routeContext table =
      resolveLogicalTable rt db parsed routeContext table t := by
    simp only [resolveTable, hphys, hlogical, bind, Except.bind]
  unfold Routed
  rw [hstep]
  cases hvalue : factorValue rt db t parsed table routeContext factor with
  | error e =>
    refine iff_of_false ?_ fun h => ?_
    · rintro ⟨target, d, h, -⟩
      simp [resolveLogicalTable, hfactors, hrule, extractFactors, hvalue, bind, Except.bind] at h
    · obtain ⟨s, hs, -⟩ := h
      cases hs
  | ok value =>
    cases value with
    | none =>
      obtain ⟨reason, message, diagnostic, hreject⟩ :=
        resolveLogicalTable_missing hfactors hrule hvalue
      rw [hreject]
      refine iff_of_false ?_ fun h => ?_
      · rintro ⟨target, d, h, -⟩
        cases h
      · obtain ⟨s, hs, -⟩ := h
        cases hs
    | some s =>
      rw [resolveLogicalTable_one hfactors hrule hvalue, resolveRoute_target_iff]
      constructor
      · intro h
        exact ⟨s, rfl, h⟩
      · rintro ⟨s', hs', h⟩
        cases hs'
        exact h

end OneFactor

/-! ## The seeded tables -/

section Seeded

variable {rt : Runtime} {db : Metadata} {parsed : ParsedSql} {routeContext : JsonDict}
  {userDs orderDs : Nat}

/-- The rows of an own table are found among the own rows. -/
theorem filter_own {ρ : Type} {rows : List ρ} {tableOf : ρ → Nat} {q : ρ → Bool} {id : Nat}
    (hown : db.isOwn id = true) (hq : ∀ r, q r = true → tableOf r = id) :
    rows.filter q = (rows.filter fun r => db.isOwn (tableOf r)).filter q := by
  rw [List.filter_filter]
  refine List.filter_congr fun r _ => ?_
  cases h : q r with
  | false => rfl
  | true => simp [hq r h, hown]

namespace SeededPart

variable (h : SeededPart userDs orderDs db) (hdb : db.Constraints)

include h hdb

theorem isOwn_of_mem {t : LogicalTable} (ht : t ∈ [userTable, orderTable]) :
    db.isOwn t.id = true := by
  have hmem : t ∈ db.logicalTables.rows.filter fun t => !isImported t.extra :=
    h.logicalTables ▸ ht
  obtain ⟨hmem, hmark⟩ := List.mem_filter.1 hmem
  unfold Metadata.isOwn
  rw [decide_eq_true_eq, hdb.mem_importedLogicalIds_iff hmem]
  simpa using hmark

theorem getEnabledByName_of_mem {t : LogicalTable} (ht : t ∈ [userTable, orderTable])
    (henabled : t.enabled = true) : db.getEnabledByName t.tableName = .ok (some t) := by
  have hmem : t ∈ db.logicalTables.rows.filter fun t => !isImported t.extra :=
    h.logicalTables ▸ ht
  exact hdb.getEnabledByName_of_mem (List.mem_of_mem_filter hmem) henabled

theorem listRequired_of_mem {t : LogicalTable} (ht : t ∈ [userTable, orderTable]) :
    db.listRequiredEnabledByLogicalTable t.id =
      seededFactors.filter fun f => f.logicalTableId = t.id ∧ f.enabled ∧ f.required := by
  unfold Metadata.listRequiredEnabledByLogicalTable
  rw [filter_own (h.isOwn_of_mem hdb ht) fun f hf => (of_decide_eq_true hf).1, h.routeFactors]

theorem getEnabledByLogicalTable_of_mem {t : LogicalTable} (ht : t ∈ [userTable, orderTable]) :
    db.getEnabledByLogicalTable t.id = oneOrNone .multipleResultsFound
      (seededRules.filter fun r => r.logicalTableId = t.id ∧ r.enabled) := by
  unfold Metadata.getEnabledByLogicalTable
  rw [filter_own (h.isOwn_of_mem hdb ht) fun r hr => (of_decide_eq_true hr).1, h.routeRules]

theorem getEnabledByRouteValue_of_mem {t : LogicalTable} (ht : t ∈ [userTable, orderTable])
    (v : Str) :
    db.getEnabledByLogicalTableAndRouteValue t.id v = oneOrNone .multipleResultsFound
      ((seededRoutes userDs orderDs).filter fun r =>
        r.logicalTableId = t.id ∧ r.routeValue = v ∧ r.enabled) := by
  unfold Metadata.getEnabledByLogicalTableAndRouteValue
  rw [filter_own (h.isOwn_of_mem hdb ht) fun r hr => (of_decide_eq_true hr).1, h.physicalRoutes]

omit h in
/-- A seeded datasource is found by its id and its code. -/
theorem getEnabledByCode_of_seeded {id : Nat} {code : Str} (hds : SeededDatasource db id code) :
    ∃ d, db.getEnabledByCode (datasourceCodeFromId db id) = .ok (some d) ∧
      d.datasourceCode = code := by
  obtain ⟨d, hd, rfl, hcode, henabled, -⟩ := hds
  refine ⟨d, ?_, hcode⟩
  unfold datasourceCodeFromId
  rw [hdb.datasourceById_eq hd]
  exact Metadata.getEnabledByCode_of_mem
    (Metadata.getEnabledByCode_ok hdb.datasourceCode) hd henabled

end SeededPart

/-- A reference to `user` is read from the shard of its `uid`, if that is a number. -/
def RoutesUser (rt : Runtime) (db : Metadata) : Prop :=
  ∀ (parsed : ParsedSql) (routeContext : JsonDict) (table : ParsedTable) (name code : Str),
    table.tableName = "user" → (Routed rt db parsed routeContext table name code ↔
      ∃ s k, columnValue rt.toUnicodeData parsed table "uid" = some s ∧ rt.int s = .ok k ∧
        name = "user_" ++ intText (k.fmod 2) ∧ code = "biz_user_db")

/-- A reference to `order` is read from the table of the month that the request names, if it is one
of two. -/
def RoutesOrder (rt : Runtime) (db : Metadata) : Prop :=
  ∀ (parsed : ParsedSql) (routeContext : JsonDict) (table : ParsedTable) (name code : Str),
    table.tableName = "order" → (Routed rt db parsed routeContext table name code ↔
      ∃ s, routeContext.get "biz_date" ≠ .null ∧
        rt.strJson (routeContext.get "biz_date") = .ok s ∧
        (strReplace s "-" "_" = "2025_06" ∨ strReplace s "-" "_" = "2025_07") ∧
        name = "order_" ++ strReplace s "-" "_" ∧ code = "biz_order_db")

theorem factorValue_uid (t : LogicalTable) (table : ParsedTable) :
    factorValue rt db t parsed table routeContext (routeFactorRow 1 "uid" "sql_predicate" "uid" 1) =
      .ok (columnValue rt.toUnicodeData parsed table "uid") := by
  have hmod := @factorValue_mod rt db parsed routeContext t "uid"
    (routeFactorRow 1 "uid" "sql_predicate" "uid" 1) rfl rfl table
  rw [hmod]
  unfold modFactorValue
  cases columnValue rt.toUnicodeData parsed table "uid" with
  | some s => rfl
  | none => rfl

/-- A factor that the request names is what the request has under its key. -/
theorem factorValue_routeContext {factor : RouteFactorDef}
    (htype : factor.sourceType = "route_context") (hkey : factor.sourceKey ≠ "route_suffix")
    (t : LogicalTable) (table : ParsedTable) (s : Str) :
    factorValue rt db t parsed table routeContext factor = .ok (some s) ↔
      routeContext.get factor.sourceKey ≠ .null ∧
        rt.strJson (routeContext.get factor.sourceKey) = .ok s := by
  have hlower : lower rt.toUnicodeData factor.sourceType = "route_context" := by
    rw [htype, lower_ascii _ (by decide)]
    decide
  have hpredicate : ("route_context" : Str) ≠ "sql_predicate" := by decide
  have hcontext : ("route_context" : Str) ≠ "sql_predicate_from_context" := by decide
  have hmap : ∀ x : Except PyError Str,
      (x.map some >>= fun value => (pure value : Except PyError (Option Str))) = .ok (some s) ↔
        x = .ok s := by
    intro x
    cases x <;> simp [Except.map, bind, Except.bind, pure, Except.pure]
  rw [factorValue, extractFactorValue]
  simp only [hlower, if_neg hpredicate, if_neg hcontext, if_true, hkey, and_false, if_false]
  generalize routeContext.get factor.sourceKey = value
  cases value with
  | null => simp [bind, Except.bind, pure, Except.pure]
  | _ => exact (hmap _).trans (by simp)

/-- The rule of `user`. -/
theorem leadsTo_user (h : SeededPart userDs orderDs db) (hdb : db.Constraints)
    (s name code : Str) :
    LeadsTo rt db userTable (routeFactorRow 1 "uid" "sql_predicate" "uid" 1)
        (routeRuleRow 1 "user_mod_2" "mod" "int(uid) % 2" "\x7bvalue\x7d" 1) s name code ↔
      ∃ k, rt.int s = .ok k ∧ name = "user_" ++ intText (k.fmod 2) ∧
        code = "biz_user_db" := by
  have hvalue : ∀ v, evaluateRouteRule rt
      (routeRuleRow 1 "user_mod_2" "mod" "int(uid) % 2" "\x7bvalue\x7d" 1) [("uid", s)] = .ok v ↔
      ∃ k, rt.int s = .ok k ∧ v = intText (k.fmod 2) := by
    intro v
    have hmod := @evaluateRouteRule_mod rt "uid" 2
      (routeRuleRow 1 "user_mod_2" "mod" "int(uid) % 2" "\x7bvalue\x7d" 1) (by decide) (by decide)
      rfl rfl s v
    rw [hmod]
    exact and_iff_right ⟨by decide, by decide, rt.digitsFit_small (by decide)⟩
  have hroute : ∀ k : Int, ∃ route, db.getEnabledByLogicalTableAndRouteValue userTable.id
      (intText (k.fmod 2)) = .ok (some route) ∧
      route.physicalTableName = "user_" ++ intText (k.fmod 2) ∧ route.datasourceId = userDs := by
    intro k
    rw [h.getEnabledByRouteValue_of_mem hdb List.mem_cons_self]
    have h0 := Int.fmod_nonneg_of_pos k (show (0 : Int) < 2 by omega)
    have h1 := Int.fmod_lt_of_pos k (show (0 : Int) < 2 by omega)
    have hcases : k.fmod 2 = 0 ∨ k.fmod 2 = 1 := by omega
    rcases hcases with hk | hk <;> rw [hk]
    · exact ⟨physicalRouteRow 1 "0" "user_0" userDs 1, rfl, rfl, rfl⟩
    · exact ⟨physicalRouteRow 1 "1" "user_1" userDs 2, rfl, rfl, rfl⟩
  obtain ⟨d, hd, hdcode⟩ := SeededPart.getEnabledByCode_of_seeded hdb h.userDatasource
  constructor
  · rintro ⟨v, route, datasource, hv, hfound, hds, rfl, rfl⟩
    obtain ⟨k, hk, rfl⟩ := (hvalue v).1 hv
    obtain ⟨route', hroute', hname, hid⟩ := hroute k
    rw [hroute'] at hfound
    cases hfound
    rw [hid, hd] at hds
    cases hds
    exact ⟨k, hk, hname, hdcode⟩
  · rintro ⟨k, hk, rfl, rfl⟩
    obtain ⟨route, hfound, hname, hid⟩ := hroute k
    exact ⟨_, route, d, (hvalue _).2 ⟨k, hk, rfl⟩, hfound, by rw [hid]; exact hd,
      hname, hdcode⟩

/-- The value of the rule of `order`. -/
theorem evaluateRouteRule_month (s v : Str) :
    evaluateRouteRule rt (routeRuleRow 2 "order_month" "format" "biz_date.replace('-', '_')"
      "\x7bvalue\x7d" 2) [("biz_date", s)] = .ok v ↔ v = strReplace s "-" "_" := by
  have hparse : parseExpr "biz_date.replace('-', '_')" =
      some (.replace (.name "biz_date") (.text "-") (.text "_")) := by decide
  have hself : ([("biz_date", s)] : Env).lookup ("biz_date" : Str) = some s := by
    rw [List.lookup_cons, beq_self_eq_true]
  have hvalue : ([("biz_date", s)] : Env).lookup ("value" : Str) = none := rfl
  have heval : rt.eval "biz_date.replace('-', '_')" [("biz_date", s)] =
      .ok (.str (strReplace s "-" "_")) := by
    rw [Runtime.eval, hparse]
    simp only [Expr.literals, List.append_nil, List.all_nil, if_true, Expr.eval, lookupName, hself]
    rfl
  unfold evaluateRouteRule
  show (rt.eval "biz_date.replace('-', '_')" [("biz_date", s)] >>= fun routeValue =>
    rt.format "\x7bvalue\x7d" routeValue [("biz_date", s)]) = .ok v ↔ _
  rw [heval]
  show rt.format "\x7bvalue\x7d" (.str (strReplace s "-" "_")) [("biz_date", s)] = .ok v ↔ _
  rw [Runtime.format_value rt _ hvalue, Runtime.strValue]
  constructor
  · intro h
    exact (Except.ok.inj h).symm
  · intro h
    rw [h]

theorem leadsTo_order (h : SeededPart userDs orderDs db) (hdb : db.Constraints)
    (s name code : Str) :
    LeadsTo rt db orderTable (routeFactorRow 2 "biz_date" "route_context" "biz_date" 2)
        (routeRuleRow 2 "order_month" "format" "biz_date.replace('-', '_')" "\x7bvalue\x7d" 2) s
        name code ↔
      (strReplace s "-" "_" = "2025_06" ∨ strReplace s "-" "_" = "2025_07") ∧
        name = "order_" ++ strReplace s "-" "_" ∧ code = "biz_order_db" := by
  have horder : orderTable ∈ [userTable, orderTable] := List.mem_cons_of_mem _ List.mem_cons_self
  have hroute : ∀ v : Str, v = "2025_06" ∨ v = "2025_07" →
      ∃ route, db.getEnabledByLogicalTableAndRouteValue orderTable.id v = .ok (some route) ∧
        route.physicalTableName = "order_" ++ v ∧ route.datasourceId = orderDs := by
    intro v hv
    rw [h.getEnabledByRouteValue_of_mem hdb horder]
    rcases hv with rfl | rfl
    · exact ⟨physicalRouteRow 2 "2025_06" "order_2025_06" orderDs 3, rfl, rfl, rfl⟩
    · exact ⟨physicalRouteRow 2 "2025_07" "order_2025_07" orderDs 4, rfl, rfl, rfl⟩
  have hvalues : ∀ (v : Str) (route : PhysicalTableRoute),
      db.getEnabledByLogicalTableAndRouteValue orderTable.id v = .ok (some route) →
      v = "2025_06" ∨ v = "2025_07" := by
    intro v route hfound
    rw [h.getEnabledByRouteValue_of_mem hdb horder] at hfound
    obtain ⟨hmem, hroute⟩ := mem_of_oneOrNone_filter hfound
    obtain ⟨hid, hv, -⟩ := of_decide_eq_true hroute
    simp only [seededRoutes, List.mem_cons, List.not_mem_nil, or_false] at hmem
    rcases hmem with rfl | rfl | rfl | rfl
    · exact absurd hid (show (1 : Nat) ≠ 2 by decide)
    · exact absurd hid (show (1 : Nat) ≠ 2 by decide)
    · exact Or.inl hv.symm
    · exact Or.inr hv.symm
  obtain ⟨d, hd, hdcode⟩ := SeededPart.getEnabledByCode_of_seeded hdb h.orderDatasource
  constructor
  · rintro ⟨v, route, datasource, hv, hfound, hds, rfl, rfl⟩
    obtain rfl := (evaluateRouteRule_month s v).1 hv
    have hmonth := hvalues _ route hfound
    obtain ⟨route', hroute', hname, hid⟩ := hroute _ hmonth
    rw [hroute'] at hfound
    cases hfound
    rw [hid, hd] at hds
    cases hds
    exact ⟨hmonth, hname, hdcode⟩
  · rintro ⟨hmonth, rfl, rfl⟩
    obtain ⟨route, hfound, hname, hid⟩ := hroute _ hmonth
    exact ⟨_, route, d, (evaluateRouteRule_month s _).2 rfl, hfound, by rw [hid]; exact hd, hname,
      hdcode⟩

/-- Where no route has the name `user`, references to it are routed. -/
theorem SeededPart.routesUser (h : SeededPart userDs orderDs db) (hdb : db.Constraints)
    (hphys : db.getEnabledByPhysicalTableName "user" = .ok none) : RoutesUser rt db := by
  intro parsed routeContext table name code hname
  have hfactors := h.listRequired_of_mem hdb (t := userTable) List.mem_cons_self
  have hrule := h.getEnabledByLogicalTable_of_mem hdb (t := userTable) List.mem_cons_self
  have hlogical := h.getEnabledByName_of_mem hdb (t := userTable) List.mem_cons_self rfl
  rw [resolveTable_oneFactor (by rw [hname]; exact hphys) (by rw [hname]; exact hlogical) hfactors
    hrule]
  constructor
  · rintro ⟨s, hs, hleads⟩
    obtain ⟨k, hk, hrest⟩ := (leadsTo_user h hdb s name code).1 hleads
    exact ⟨s, k, Except.ok.inj ((factorValue_uid userTable table).symm.trans hs), hk, hrest⟩
  · rintro ⟨s, k, hs, hk, hrest⟩
    exact ⟨s, (factorValue_uid userTable table).trans (congrArg Except.ok hs),
      (leadsTo_user h hdb s name code).2 ⟨k, hk, hrest⟩⟩

/-- Where no route has the name `order`, references to it are routed. -/
theorem SeededPart.routesOrder (h : SeededPart userDs orderDs db) (hdb : db.Constraints)
    (hphys : db.getEnabledByPhysicalTableName "order" = .ok none) : RoutesOrder rt db := by
  intro parsed routeContext table name code hname
  have horder : orderTable ∈ [userTable, orderTable] := List.mem_cons_of_mem _ List.mem_cons_self
  have hfactors := h.listRequired_of_mem hdb horder
  have hrule := h.getEnabledByLogicalTable_of_mem hdb horder
  have hlogical := h.getEnabledByName_of_mem hdb horder rfl
  rw [resolveTable_oneFactor (by rw [hname]; exact hphys) (by rw [hname]; exact hlogical) hfactors
    hrule]
  have hvalue := fun s => @factorValue_routeContext rt db parsed routeContext
    (routeFactorRow 2 "biz_date" "route_context" "biz_date" 2) rfl (by decide) orderTable table s
  constructor
  · rintro ⟨s, hs, hleads⟩
    obtain ⟨hnull, hstr⟩ := (hvalue s).1 hs
    exact ⟨s, hnull, hstr, (leadsTo_order h hdb s name code).1 hleads⟩
  · rintro ⟨s, hnull, hstr, hrest⟩
    exact ⟨s, (hvalue s).2 ⟨hnull, hstr⟩, (leadsTo_order h hdb s name code).2 hrest⟩

end Seeded

/-! ## In a run -/

section Runs

variable {env : Deployment} {userDs orderDs : Nat}

/-- A name that neither a seeded nor an imported route has. -/
theorem StoreIs.getEnabledByPhysicalTableName_none {db : Metadata} {bundle : SyncBundle}
    (h : StoreIs userDs orderDs db bundle) {name : Str}
    (hseeded : ∀ r ∈ seededRoutes userDs orderDs, r.physicalTableName ≠ name)
    (himported : ∀ q ∈ bundle.physicalRoutes, q.physicalTableName ≠ name) :
    db.getEnabledByPhysicalTableName name = .ok none := by
  unfold Metadata.getEnabledByPhysicalTableName
  rw [oneOrNone_eq_none, List.filter_eq_nil_iff]
  intro r hr hname
  obtain ⟨hname, -⟩ := of_decide_eq_true hname
  by_cases hown : db.isOwn r.logicalTableId = true
  · have hmem : r ∈ db.physicalRoutes.rows.filter fun r => db.isOwn r.logicalTableId :=
      List.mem_filter.2 ⟨hr, hown⟩
    rw [h.seeded.physicalRoutes] at hmem
    exact hseeded r hmem hname
  · obtain ⟨q, hq, hstored, -⟩ := h.imported.physicalRoutes.exists_record
      (List.mem_filter.2 ⟨hr, by simpa using hown⟩)
    exact himported q hq (hstored.physicalTableName.symm.trans hname)

/-- Whatever was served, seeded and imported before a request arrived, it finds the seeded tables
where they were, unless the last import before it has a physical table of that name. -/
theorem seededRouting_of_run {settings : SeedSettings env.rt} {seeded : Metadata}
    (hseed : seedReferenceData settings createMetadataSchema = .ok seeded)
    {events : List (GatewayEvent env)} {g : Gateway env}
    (h : Run Gateway.Step (Gateway.idle env seeded) events g)
    (hkeeps : ∀ event ∈ events, event.KeepsImport) {s : ApiSession env}
    (hs : s ∈ g.sessions.rows) :
    ∃ first rest, events = first ++ .opened s.number s.request :: rest ∧
      ((∀ q ∈ (lastImport first).physicalRoutes, q.physicalTableName ≠ "user") →
        RoutesUser env.rt s.snapshot) ∧
      ((∀ q ∈ (lastImport first).physicalRoutes, q.physicalTableName ≠ "order") →
        RoutesOrder env.rt s.snapshot) := by
  obtain ⟨userDs, orderDs, hseeded⟩ := storeIs_of_first hseed
  obtain ⟨first, rest, heq, hsnapshot⟩ := storeIs_of_session hseeded h hkeeps hs
  refine ⟨first, rest, heq, fun himported => ?_, fun himported => ?_⟩
  · exact hsnapshot.seeded.routesUser hsnapshot.constraints
      (hsnapshot.getEnabledByPhysicalTableName_none (by simp [seededRoutes, physicalRouteRow])
        himported)
  · exact hsnapshot.seeded.routesOrder hsnapshot.constraints
      (hsnapshot.getEnabledByPhysicalTableName_none (by simp [seededRoutes, physicalRouteRow])
        himported)

end Runs

/-- The first request after the first start finds both tables. -/
theorem seededRouting_firstRequest : ∃ db, seedReferenceData defaultSeedSettings
    createMetadataSchema = .ok db ∧ RoutesUser asciiRuntime db ∧
      RoutesOrder asciiRuntime db := by
  obtain ⟨seeded, hseed, -⟩ := exists_seeding defaultSeedSettings
    createMetadataSchema_constraints.uniqueConstraints
  have hrun : Run Gateway.Step (Gateway.idle exampleDeployment seeded)
      ([] ++ [.opened 0 (.checkSql exampleRequest)]) _ := Run.nil.snoc (.opened _ _)
  obtain ⟨first, rest, heq, huser, horder⟩ :=
    @seededRouting_of_run exampleDeployment _ _ hseed _ _
    hrun (by simp [GatewayEvent.KeepsImport]) ⟨0, .checkSql exampleRequest, seeded⟩
    List.mem_cons_self
  have hfirst : first = [] := by
    have hlength := congrArg List.length heq
    simp at hlength
    exact List.eq_nil_of_length_eq_zero (by omega)
  subst hfirst
  exact ⟨seeded, hseed, huser fun q hq => absurd hq List.not_mem_nil,
    horder fun q hq => absurd hq List.not_mem_nil⟩

end SqlGatekeeper
