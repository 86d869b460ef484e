import SqlGatekeeper.Services.Resolution

/-!
# Tables that are routed by a remainder

A logical table with one factor `col`, taken from a predicate, and the rule `int(col) % n`.

* `ModRouted`: such a table.
* `evaluateRouteRule_mod`: the value of the rule.
* `resolveTable_mod`: when a reference to the table is routed, and where.
-/

namespace SqlGatekeeper

open Py Store

/-- A logical table whose one required factor is the predicate column `col` and whose rule is
`int(col) % n`. -/
structure ModRouted (db : Metadata) (t : LogicalTable) (col : Str) (n : Nat) : Prop where
  table : t ∈ db.logicalTables.rows
  enabled : t.enabled = true
  factor : ∃ f : RouteFactorDef, db.listRequiredEnabledByLogicalTable t.id = [f] ∧
    f.factorName = col ∧ f.sourceType = "sql_predicate" ∧ f.sourceKey = col
  rule : ∃ r : RouteRule, db.getEnabledByLogicalTable t.id = .ok (some r) ∧
    r.expression = "int(" ++ col ++ ") % " ++ natText n ∧ r.outputFormat = "\x7bvalue\x7d"

/-- A route value of a logical table has an enabled route on an enabled datasource. -/
def RouteOpen (db : Metadata) (id : Nat) (v : Str) : Prop :=
  ∃ r d, db.getEnabledByLogicalTableAndRouteValue id v = .ok (some r) ∧
    db.getEnabledByCode (datasourceCodeFromId db r.datasourceId) = .ok (some d)

/-- The rule can be evaluated: its column is none of the names that the evaluator gives a meaning
of its own, and Python reads its modulus. -/
structure RuleEvaluates (rt : Runtime) (col : Str) (n : Nat) : Prop where
  notInt : col ≠ "int"
  notValue : col ≠ "value"
  modulus : rt.digitsFit (natText n).length = true

section Rule

variable {rt : Runtime} {col : Str} {n : Nat}

theorem lookup_single {x : Str} (s : Str)
    (hne : col ≠ x) : ([(col, s)] : Env).lookup x = none := by
  have : (x == col) = false := by simpa using Ne.symm hne
  rw [List.lookup_cons, this]
  rfl

/-- A factor named `int` hides the builtin. -/
theorem eval_intMod_int (rt : Runtime) (s : Str) (e : Expr) :
    ∃ err, (Expr.mod (.call "int" (.name "int")) e).eval rt [("int", s)] = .error err := by
  have hlookup : ([(("int" : Str), s)] : Env).lookup ("int" : Str) = some s := by
    rw [List.lookup_cons, beq_self_eq_true]
  refine ⟨.typeError, ?_⟩
  simp only [Expr.eval, lookupName, hlookup]
  rfl

/-- The value of the rule. -/
theorem evaluateRouteRule_mod {rule : RouteRule} (hcol : isVariable col = true) (hn : n ≠ 0)
    (hexpr : rule.expression = "int(" ++ col ++ ") % " ++ natText n)
    (hformat : rule.outputFormat = "\x7bvalue\x7d") {s v : Str} :
    evaluateRouteRule rt rule [(col, s)] = .ok v ↔
      RuleEvaluates rt col n ∧ ∃ k, rt.int s = .ok k ∧ v = intText (k.fmod n) := by
  have hself : ([(col, s)] : Env).lookup col = some s := by
    rw [List.lookup_cons, beq_self_eq_true]
  rw [evaluateRouteRule, hexpr, hformat]
  by_cases hint : col = "int"
  · refine iff_of_false ?_ fun h => h.1.notInt hint
    subst hint
    intro h
    obtain ⟨x, hx, -⟩ := bind_eq_ok.1 h
    obtain ⟨e, he⟩ := eval_intMod_int rt s (.num n)
    rw [Runtime.eval, parseExpr_intMod hcol] at hx
    simp only at hx
    split at hx
    · exact absurd (he.symm.trans hx) (by simp)
    · exact absurd hx (by simp)
  rw [Runtime.eval_intMod rt hcol hself (lookup_single s hint)]
  by_cases hfit : rt.digitsFit (natText n).length = true
  · rw [if_pos hfit]
    by_cases hvalue : col = "value"
    · refine iff_of_false ?_ fun h => h.1.notValue hvalue
      intro h
      obtain ⟨x, -, hx⟩ := bind_eq_ok.1 h
      rw [Runtime.format_keyword_twice _ _ _ (by rw [← hvalue, hself]; rfl)] at hx
      exact absurd hx (by simp)
    · have hstr : ∀ k : Int, rt.strValue (.int (k.fmod n)) = .ok (intText (k.fmod n)) := by
        intro k
        have h0 := Int.fmod_nonneg_of_pos k (b := n) (by omega)
        have h1 := Int.fmod_lt_of_pos k (b := n) (by omega)
        rw [Runtime.strValue, Runtime.strInt, if_pos (rt.digitsFit_natText (by omega) hfit)]
      constructor
      · intro h
        obtain ⟨x, hx, hformat⟩ := bind_eq_ok.1 h
        obtain ⟨k, hk, hx⟩ := bind_eq_ok.1 hx
        rw [if_neg hn] at hx
        injection hx with hx
        subst hx
        rw [Runtime.format_value rt _ (lookup_single s hvalue), hstr k] at hformat
        exact ⟨⟨hint, hvalue, hfit⟩, k, hk, (Except.ok.inj hformat).symm⟩
      · rintro ⟨-, k, hk, rfl⟩
        refine bind_eq_ok.2 ⟨.int (k.fmod n), bind_eq_ok.2 ⟨k, hk, by rw [if_neg hn]⟩, ?_⟩
        rw [Runtime.format_value rt _ (lookup_single s hvalue), hstr k]
  · rw [if_neg hfit]
    refine iff_of_false ?_ fun h => hfit h.1.modulus
    intro h
    obtain ⟨x, hx, -⟩ := bind_eq_ok.1 h
    exact absurd hx (by simp)

end Rule

section Table

variable {rt : Runtime} {db : Metadata} {parsed : ParsedSql} {routeContext : JsonDict}
  {t : LogicalTable} {col : Str} {n : Nat}

/-- The value of the factor: the predicate's, or what the legacy derivation gives for a factor
named `route_suffix`. -/
def modFactorValue (rt : Runtime) (db : Metadata) (t : LogicalTable) (parsed : ParsedSql)
    (routeContext : JsonDict) (col : Str) (table : ParsedTable) : Option Str :=
  match columnValue rt.toUnicodeData parsed table col with
  | some s => some s
  | none =>
      if col = "route_suffix" then deriveLegacyRouteSuffix rt db t parsed table routeContext
        else none

theorem factorValue_mod {f : RouteFactorDef} (htype : f.sourceType = "sql_predicate")
    (hkey : f.sourceKey = col) (table : ParsedTable) :
    factorValue rt db t parsed table routeContext f =
      .ok (modFactorValue rt db t parsed routeContext col table) := by
  have hlower : lower rt.toUnicodeData f.sourceType = "sql_predicate" := by
    rw [htype, lower_ascii _ (by decide)]
    decide
  rw [factorValue, extractFactorValue]
  simp only [hlower, if_true, hkey, modFactorValue]
  cases columnValue rt.toUnicodeData parsed table col with
  | some s => rfl
  | none =>
    by_cases hcol : col = "route_suffix"
    · simp only [hcol, if_true]
      rfl
    · simp only [hcol, if_false, and_false]
      rfl

theorem resolveRoute_target {table : ParsedTable} {factors : List RouteFactorDef}
    {rule : RouteRule} {values : Env} {v : Str}
    (hv : evaluateRouteRule rt rule values = .ok v) :
    (∃ target d, resolveRoute rt db table t factors rule values = .ok (.target target d) ∧
      target.routeValue = v) ↔ RouteOpen db t.id v := by
  constructor
  · rintro ⟨target, d, h, rfl⟩
    obtain ⟨w, hw, h⟩ := bind_eq_ok.1 h
    obtain rfl := Except.ok.inj (hv.symm.trans hw)
    obtain ⟨route, hroute, h⟩ := bind_eq_ok.1 h
    cases route with
    | none => exact absurd h (by simp [pure, Except.pure])
    | some route =>
      obtain ⟨ds, hds, -⟩ := bind_eq_ok.1 h
      cases ds with
      | none =>
        obtain ⟨ds', hds', h⟩ := bind_eq_ok.1 h
        obtain rfl := Except.ok.inj (hds.symm.trans hds')
        exact absurd h (by simp [pure, Except.pure])
      | some ds => exact ⟨route, ds, hroute, hds⟩
  · rintro ⟨route, ds, hroute, hds⟩
    obtain ⟨target, d, h, hvalue, -⟩ := resolveRoute_found table factors hv hroute hds
    exact ⟨target, d, h, hvalue⟩

/-- A reference to the table, by a name that no route has, is routed exactly when its factor has a
value, the rule evaluates, and the route is open. -/
theorem resolveTable_mod (hdb : db.Constraints) (ht : ModRouted db t col n)
    (hcol : isVariable col = true) (hn : n ≠ 0) {table : ParsedTable}
    (hname : table.tableName = t.tableName)
    (hphys : db.getEnabledByPhysicalTableName table.tableName = .ok none) {v : Str} :
    (∃ target d, resolveTable rt db parsed routeContext table = .ok (.target target d) ∧
      target.routeValue = v) ↔
      RuleEvaluates rt col n ∧ RouteOpen db t.id v ∧
        ∃ s k, modFactorValue rt db t parsed routeContext col table = some s ∧
          rt.int s = .ok k ∧ v = intText (k.fmod n) := by
  obtain ⟨f, hfactors, hfname, htype, hkey⟩ := ht.factor
  obtain ⟨rule, hrule, hexpr, hformat⟩ := ht.rule
  have hlogical : db.getEnabledByName table.tableName = .ok (some t) :=
    hname ▸ hdb.getEnabledByName_of_mem ht.table ht.enabled
  have hvalue : factorValue rt db t parsed table routeContext f =
      .ok (modFactorValue rt db t parsed routeContext col table) := factorValue_mod htype hkey table
  have hstep : resolveTable rt db parsed routeContext table =
      resolveLogicalTable rt db parsed routeContext table t := by
    simp only [resolveTable, hphys, hlogical, bind, Except.bind]
  rw [hstep]
  cases hs : modFactorValue rt db t parsed routeContext col table with
  | none =>
    obtain ⟨code, message, diagnostic, hreject⟩ :=
      resolveLogicalTable_missing hfactors hrule (hvalue.trans (by rw [hs]))
    rw [hreject]
    refine iff_of_false ?_ fun h => ?_
    · rintro ⟨target, d, h, -⟩
      exact absurd h (by simp)
    · obtain ⟨-, -, s, k, h, -⟩ := h
      exact absurd h (by simp)
  | some s =>
    rw [resolveLogicalTable_one hfactors hrule (hvalue.trans (by rw [hs])), hfname]
    constructor
    · rintro ⟨target, d, h, rfl⟩
      have hv := resolveRoute_value h
      obtain ⟨heval, k, hk, hv'⟩ := (evaluateRouteRule_mod hcol hn hexpr hformat).1 hv
      exact ⟨heval, (resolveRoute_target hv).1 ⟨target, d, h, rfl⟩, s, k, rfl, hk, hv'⟩
    · rintro ⟨heval, hopen, s', k, hs', hk, hv'⟩
      obtain rfl := Option.some.inj hs'
      exact (resolveRoute_target ((evaluateRouteRule_mod hcol hn hexpr hformat).2
        ⟨heval, k, hk, hv'⟩)).2 hopen

/-- A reference by a name that a route has is read from that route. -/
theorem resolveTable_physical {table : ParsedTable} {r : PhysicalTableRoute}
    (hphys : db.getEnabledByPhysicalTableName table.tableName = .ok (some r)) {v : Str} :
    (∃ target d, resolveTable rt db parsed routeContext table = .ok (.target target d) ∧
      target.routeValue = v) ↔
      v = r.routeValue ∧ ∃ d, db.getEnabledByCode (datasourceCodeFromId db r.datasourceId) =
        .ok (some d) := by
  constructor
  · rintro ⟨target, d, h, rfl⟩
    obtain ⟨route, hroute, h⟩ := bind_eq_ok.1 h
    obtain rfl := Except.ok.inj (hphys.symm.trans hroute)
    obtain ⟨o, ho, h⟩ := bind_eq_ok.1 h
    obtain ⟨ds, hds, ho⟩ := bind_eq_ok.1 ho
    cases ds with
    | none =>
      injection ho with ho
      subst ho
      exact absurd h (by simp [pure, Except.pure])
    | some ds =>
      injection ho with ho
      subst ho
      injection h with h
      injection h with h
      subst h
      exact ⟨rfl, ds, hds⟩
  · rintro ⟨rfl, ds, hds⟩
    refine ⟨_, _, bind_eq_ok.2 ⟨some r, hphys, bind_eq_ok.2 ⟨some _,
      bind_eq_ok.2 ⟨some ds, hds, rfl⟩, rfl⟩⟩, rfl⟩

end Table

end SqlGatekeeper
