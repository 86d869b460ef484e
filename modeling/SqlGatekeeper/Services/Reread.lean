import SqlGatekeeper.Services.RenamedGuard
import SqlGatekeeper.Services.SwitchedOff

/-!
# The rewritten statement

* `PlainRoutes`: metadata whose physical tables can be told from each other and from a limit.
* `ParsedSql.ReadsAs`, `CheckResult.Repeats`: a statement and a check that say the same again.
* `parse_renamed`: a text under other names is parsed alike.
* `RouteTarget.Via.again`: a physical table is resolved to the target that chose it.
* `check_rewritten`: so what an allowed check has rewritten passes the check as it is.
-/

namespace SqlGatekeeper

open Py Regex Store

/-- The names of enabled physical tables are plain and distinct, and nothing is called `limit`. -/
structure PlainRoutes (db : Metadata) : Prop where
  identifier : ∀ route ∈ db.physicalRoutes.rows, route.enabled = true →
    isIdentifier route.physicalTableName = true
  distinct : Unique (·.physicalTableName) (db.physicalRoutes.rows.filter (·.enabled))
  logicalNotLimit : ∀ table ∈ db.logicalTables.rows,
    table.tableName.map Char.toLower ≠ "limit"
  physicalNotLimit : ∀ route ∈ db.physicalRoutes.rows,
    route.physicalTableName.map Char.toLower ≠ "limit"

/-- A statement reads as another one with these names for its tables. -/
structure ParsedSql.ReadsAs (parsed' parsed : ParsedSql) (physicalTables : List Str) : Prop where
  sqlType : parsed'.sqlType = parsed.sqlType
  isMultiStatement : parsed'.isMultiStatement = parsed.isMultiStatement
  hasLimit : parsed'.hasLimit = parsed.hasLimit
  limitValue : parsed'.limitValue = parsed.limitValue
  tableNames : parsed'.tables.map (·.tableName) = physicalTables
  aliasNames : parsed'.tables.map (·.aliasName) = parsed.tables.map (·.aliasName)

/-- A check allows what another one has rewritten, and comes to the same tables. -/
structure CheckResult.Repeats (result' result : CheckResult) : Prop where
  allowed : result'.allowed = true
  rewrittenSql : result'.rewrittenSql = result.rewrittenSql
  logicalTables : result'.logicalTables = result.logicalTables
  physicalTables : result'.physicalTables = result.physicalTables
  datasourceCodes : result'.datasourceCodes = result.datasourceCodes

/-! ## The text -/

section Text

variable {ps : List (TableRead × Str)} {names : List Str}

theorem forall₂_renamed (hlength : names.length = ps.length)
    (hnames : ∀ x ∈ names, IsName x) :
    List.Forall₂ Renamed ps (renameReads ps names) := by
  induction ps generalizing names with
  | nil => exact .nil
  | cons p ps ih =>
    obtain ⟨x, names, rfl⟩ := List.exists_cons_of_length_eq_add_one hlength
    rw [List.forall_mem_cons] at hnames
    exact .cons ⟨x, hnames.1, rfl⟩ (ih (Nat.succ.inj hlength) hnames.2)

theorem map_name_renameReads (hlength : names.length = ps.length) :
    (renameReads ps names).map (fun p => p.1.name) = names := by
  induction ps generalizing names with
  | nil => exact (List.length_eq_zero_iff.1 hlength).symm
  | cons p ps ih =>
    obtain ⟨x, names, rfl⟩ := List.exists_cons_of_length_eq_add_one hlength
    rw [renameReads_cons p.1 p.2, List.map_cons, ih (Nat.succ.inj hlength)]
    rfl

theorem map_aliasName_renamed {qs : List (TableRead × Str)} (h : List.Forall₂ Renamed ps qs)
    (pos pos' : Nat) : (readTables qs pos').map (·.aliasName) =
      (readTables ps pos).map (·.aliasName) := by
  induction h generalizing pos pos' with
  | nil => rfl
  | cons hpq _ ih =>
    obtain ⟨x, -, rfl⟩ := hpq
    rw [readTables, readTables, List.map_cons, List.map_cons, ih]
    rfl

theorem mem_readsText {p : TableRead × Str} (hp : p ∈ ps) {c : Char} (hc : c ∈ p.1.name) :
    c ∈ readsText ps := by
  induction ps with
  | nil => exact absurd hp List.not_mem_nil
  | cons q ps ih =>
    rcases List.mem_cons.1 hp with rfl | hp
    · simp [readsText, TableRead.text, hc]
    · simp [readsText, ih hp]

/-- A text under ASCII names is ASCII. -/
theorem ascii_renamed {qs : List (TableRead × Str)} (h : List.Forall₂ Renamed ps qs)
    (hps : Ascii (readsText ps)) (hqs : ∀ q ∈ qs, Ascii q.1.name) : Ascii (readsText qs) := by
  induction h with
  | nil => exact hps
  | @cons p q ps qs hpq _ ih =>
    obtain ⟨x, -, rfl⟩ := hpq
    rw [List.forall_mem_cons] at hqs
    have hpiece : ∀ {w : Str}, (∀ c ∈ w, c ∈ readsText (p :: ps)) → Ascii w :=
      fun hw c hc =>
      hps c (hw c hc)
    have hlead : Ascii p.1.lead := hpiece fun c hc => by simp [readsText, TableRead.text, hc]
    have halias : Ascii p.1.aliasText := hpiece fun c hc => by simp [readsText, TableRead.text, hc]
    have hgap : Ascii p.2 := hpiece fun c hc => by simp [readsText, hc]
    have hrest : Ascii (readsText ps) := hpiece fun c hc => by simp [readsText, hc]
    have hread : Ascii (p.1.rename x).text := hlead.append (.append hqs.1 halias)
    exact hread.append (hgap.append (ih hrest hqs.2))

/-- A text under other names than `limit` is parsed alike, if the guard allows both. -/
theorem parse_renamed {rt : Runtime} {gap : Str} {qs : List (TableRead × Str)} {parsed : ParsedSql}
    (hscan : Scanned rt.toUnicodeData none gap ps) (h : List.Forall₂ Renamed ps qs)
    (hnot : ∀ p ∈ ps, foldsToWord "limit" p.1.name = false)
    (hnot' : ∀ q ∈ qs, foldsToWord "limit" q.1.name = false)
    (hguard : (BasicSqlGuard.evaluate rt.toUnicodeData (gap ++ readsText ps)).allowed = true)
    (hguard' : (BasicSqlGuard.evaluate rt.toUnicodeData (gap ++ readsText qs)).allowed = true)
    (hparse : parse rt (gap ++ readsText ps) = .ok parsed) :
    ∃ parsed', parse rt (gap ++ readsText qs) = .ok parsed' ∧
      parsed'.ReadsAs parsed (qs.map fun q => q.1.name) := by
  obtain ⟨hvalue, hpresent⟩ := parse_limit hparse
  have hfirst : firstLimit rt.toUnicodeData none (gap ++ readsText ps) =
      firstLimit rt.toUnicodeData none (gap ++ readsText qs) :=
    firstLimit_renamed hscan.fits h hnot hnot' gap rfl
  have hvalue' : parseLimitValue rt (gap ++ readsText qs) = .ok parsed.limitValue := by
    rw [parseLimitValue_eq, ← hfirst, ← parseLimitValue_eq, hvalue]
  obtain ⟨parsed', hparse'⟩ : ∃ parsed', parse rt (gap ++ readsText qs) = .ok parsed' :=
    ⟨_, bind_eq_ok.2 ⟨_, hvalue', rfl⟩⟩
  obtain ⟨hlimit, hpresent'⟩ := parse_limit hparse'
  obtain ⟨htype, hmulti⟩ := BasicSqlGuard.parse_of_evaluate_allowed hguard hparse
  obtain ⟨htype', hmulti'⟩ := BasicSqlGuard.parse_of_evaluate_allowed hguard' hparse'
  have htables := hscan.parsed_tables hparse
  have htables' := (hscan.renamed h rfl).parsed_tables hparse'
  refine ⟨parsed', hparse', htype'.trans htype.symm, hmulti'.trans hmulti.symm, ?_,
    Except.ok.inj (hlimit.symm.trans hvalue'), ?_, ?_⟩
  · rw [hpresent', hpresent, hfirst]
  · rw [htables', map_tableName_readTables]
  · rw [htables', htables, map_aliasName_renamed h]

end Text

/-! ## The tables -/

/-- A target without a plan that agrees with another one. -/
structure RouteTarget.Agrees (target' target : RouteTarget) : Prop where
  logicalTableName : target'.logicalTableName = target.logicalTableName
  physicalTableName : target'.physicalTableName = target.physicalTableName
  datasourceCode : target'.datasourceCode = target.datasourceCode
  plan : target'.rewritePlan = none

section Again

variable {rt : Runtime} {db : Metadata}

theorem PlainRoutes.getEnabledByPhysicalTableName_eq (hdb : PlainRoutes db)
    {route : PhysicalTableRoute} (hroute : route ∈ db.physicalRoutes.rows)
    (henabled : route.enabled = true) :
    db.getEnabledByPhysicalTableName route.physicalTableName = .ok (some route) := by
  have hfound := hdb.distinct.oneOrNone_filter (k := route.physicalTableName)
    (p := fun r => decide (r.physicalTableName = route.physicalTableName ∧ r.enabled = true))
    (fun r _ h => by simp only [decide_eq_true_eq] at h; exact h.1) PyError.multipleResultsFound
  have hfilter : ((db.physicalRoutes.rows.filter (·.enabled)).filter fun r =>
      decide (r.physicalTableName = route.physicalTableName ∧ r.enabled = true)) =
        db.physicalRoutes.rows.filter fun r =>
          decide (r.physicalTableName = route.physicalTableName ∧ r.enabled = true) := by
    rw [List.filter_filter]
    refine List.filter_congr fun r _ => ?_
    cases r.enabled <;> simp
  rw [hfilter] at hfound
  exact oneOrNone_filter_of_mem hfound hroute (by simpa using henabled)

/-- A table with the physical name of a target is resolved to a target that agrees with it, in any
statement and context. -/
theorem RouteTarget.Via.again (hdb : db.Constraints) (hplain : PlainRoutes db) {table : ParsedTable}
    {target : RouteTarget} (h : target.Via db table) (parsed : ParsedSql) (routeContext : JsonDict)
    {table' : ParsedTable} (hname : table'.tableName = target.physicalTableName) :
    ∃ target', (∃ d, resolveTable rt db parsed routeContext table' =
      .ok (.target target' d)) ∧ target'.Agrees target := by
  obtain ⟨route, owner, datasource, hthrough, henabled, hdenabled, -⟩ := h.through hdb
  have hfound : db.getEnabledByPhysicalTableName table'.tableName = .ok (some route) := by
    rw [hname, ← hthrough.physical]
    exact hplain.getEnabledByPhysicalTableName_eq hthrough.registered henabled
  have hcode : datasourceCodeFromId db route.datasourceId = datasource.datasourceCode := by
    rw [datasourceCodeFromId, ← hthrough.placed.2, hdb.datasourceById_eq hthrough.placed.1]
  have hplaced : db.getEnabledByCode (datasourceCodeFromId db route.datasourceId) =
      .ok (some datasource) := by
    rw [hcode]
    exact Metadata.getEnabledByCode_of_mem (Metadata.getEnabledByCode_ok hdb.datasourceCode)
      hthrough.placed.1 hdenabled
  have hbuild : buildPhysicalTarget db table' route =
      .ok (some (physicalTarget db table' route datasource)) :=
    buildPhysicalTarget_eq_some.2 ⟨datasource, hplaced, rfl⟩
  refine ⟨physicalTarget db table' route datasource, ⟨none, ?_⟩, ?_, hthrough.physical,
    hthrough.coded, rfl⟩
  · exact bind_eq_ok.2 ⟨_, hfound, bind_eq_ok.2 ⟨_, hbuild, rfl⟩⟩
  · rw [physicalTarget, ← hthrough.owns.2, hdb.logicalTableById_eq hthrough.owns.1]
    exact hthrough.named

/-- Tables with the physical names of targets are resolved to targets that agree with them. -/
theorem exists_targets_again (rt : Runtime) (hdb : db.Constraints) (hplain : PlainRoutes db)
    (parsed : ParsedSql) (routeContext : JsonDict) {targets : List RouteTarget}
    (hvia : ∀ target ∈ targets, ∃ table, target.Via db table) {tables : List ParsedTable}
    (hnames : tables.map (·.tableName) = targets.map (·.physicalTableName)) :
    ∃ targets', List.Forall₂ (fun table target =>
        ∃ d, resolveTable rt db parsed routeContext table = .ok (.target target d)) tables
          targets' ∧
      List.Forall₂ (fun target (target' : RouteTarget) => target'.Agrees target) targets
        targets' := by
  induction targets generalizing tables with
  | nil =>
    rw [List.map_nil, List.map_eq_nil_iff] at hnames
    rw [hnames]
    exact ⟨[], .nil, .nil⟩
  | cons target targets ih =>
    rw [List.map_cons, List.map_eq_cons_iff] at hnames
    obtain ⟨table', tables, rfl, hname, hrest⟩ := hnames
    rw [List.forall_mem_cons] at hvia
    obtain ⟨⟨table, hhead⟩, hvia⟩ := hvia
    obtain ⟨target', hout, hsame⟩ := hhead.again hdb hplain parsed routeContext hname
    obtain ⟨targets', houts, hsames⟩ := ih hvia hrest
    exact ⟨target' :: targets', .cons hout houts, .cons hsame hsames⟩

/-- Targets that agree with others have no plans and the same names. -/
theorem agrees_all {targets targets' : List RouteTarget}
    (h : List.Forall₂ (fun target (target' : RouteTarget) => target'.Agrees target)
      targets targets') :
    targets'.filterMap (·.rewritePlan) = [] ∧
      targets'.map (·.logicalTableName) = targets.map (·.logicalTableName) ∧
      targets'.map (·.physicalTableName) = targets.map (·.physicalTableName) ∧
      targets'.map (·.datasourceCode) = targets.map (·.datasourceCode) := by
  induction h with
  | nil => exact ⟨rfl, rfl, rfl, rfl⟩
  | cons hsame _ ih =>
    obtain ⟨hplans, hlogical, hphysical, hcode⟩ := ih
    rw [List.filterMap_cons_none hsame.plan]
    simp only [List.map_cons, hsame.logicalTableName, hsame.physicalTableName, hsame.datasourceCode,
      hlogical, hphysical, hcode, hplans, and_self]

theorem RouteTarget.Via.not_limit (hplain : PlainRoutes db) {table : ParsedTable}
    {target : RouteTarget} (h : target.Via db table) :
    table.tableName.map Char.toLower ≠ "limit" := by
  cases h with
  | physical route datasource found placed eq =>
    obtain ⟨hmem, hname, -⟩ := Metadata.getEnabledByPhysicalTableName_eq_some found
    rw [← hname]
    exact hplain.physicalNotLimit route hmem
  | logical owner value route datasource notPhysical named found placed eq =>
    obtain ⟨hmem, hname, -⟩ := Metadata.getEnabledByName_eq_some named
    rw [← hname]
    exact hplain.logicalNotLimit owner hmem

/-- The physical name of a target is plain, and not `limit`. -/
theorem RouteTarget.Resolved.plain (hplain : PlainRoutes db) {table : ParsedTable}
    {target : RouteTarget} (h : target.Resolved db table) :
    isIdentifier target.physicalTableName = true ∧
      target.physicalTableName.map Char.toLower ≠ "limit" := by
  obtain ⟨route, hroute, henabled, hname, -⟩ := h.route
  rw [← hname]
  exact ⟨hplain.identifier route hroute henabled, hplain.physicalNotLimit route hroute⟩

theorem foldsToWord_limit {x : Str} (hx : Ascii x) (hnot : x.map Char.toLower ≠ "limit") :
    foldsToWord "limit" x = false := by
  by_contra h
  exact hnot (toLower_of_foldsToWord hx (by simpa using h))

/-- Targets that agree with those of an allowed decision are as acceptable, for a statement that
reads alike and is not rewritten. -/
theorem acceptable_again {evaluate : Evaluator} {sql sql' : Str}
    {routeContext routeContext' : JsonDict} {parsed parsed' : ParsedSql}
    {decision decision' : RouteDecision} {policy : PolicySet}
    {names : List Str} (hread : parsed'.ReadsAs parsed names)
    (hagree : List.Forall₂ (fun target (target' : RouteTarget) => target'.Agrees target)
      decision.targets decision'.targets)
    (hrewrite : rewrite parsed' decision'.rewritePlans = rewrite parsed decision.rewritePlans)
    (h : (freshContext sql routeContext parsed decision).Acceptable db evaluate policy) :
    (freshContext sql' routeContext' parsed' decision').Acceptable db evaluate policy := by
  have hback : ∀ target' ∈ decision'.targets, ∃ target ∈ decision.targets,
      target'.Agrees target :=
    fun target' ht' => exists_of_forall₂_right hagree ht'
  refine ⟨⟨fun hnil => ?_, h.policyEnabled, fun t' ht' => ?_, ?_, fun t' ht' u' hu' => ?_,
    fun hrequire => ?_, fun n hn => ?_⟩, fun t' ht' d hd => ?_⟩
  · have hnil' : decision'.targets = [] := hnil
    rw [hnil', List.forall₂_nil_right_iff] at hagree
    exact h.targets hagree
  · obtain ⟨t, ht, hsame⟩ := hback t' ht'
    rw [hsame.datasourceCode]
    exact h.datasources t ht
  · exact (congrArg (fun sqlType => policy.allowsSqlType sqlType) hread.sqlType).trans h.sqlType
  · obtain ⟨t, ht, hsame⟩ := hback t' ht'
    obtain ⟨u, hu, husame⟩ := hback u' hu'
    rw [hsame.datasourceCode, husame.datasourceCode]
    exact h.oneDatasource t ht u hu
  · exact hread.hasLimit.trans (h.limitPresent hrequire)
  · exact h.limitValue n (hread.limitValue.symm.trans hn)
  · obtain ⟨t, ht, hsame⟩ := hback t' ht'
    rw [hsame.datasourceCode] at hd
    have hsql : (freshContext sql' routeContext' parsed' decision').rewrittenSql =
        (freshContext sql routeContext parsed decision).rewrittenSql := hrewrite
    rw [hsql, hsame.physicalTableName]
    exact h.explain t ht d hd

end Again

/-! ## The check -/

section Check

variable {rt : Runtime} {db : Metadata} {evaluate : Evaluator} {sql : Str}
  {routeContext : JsonDict} {parsed : ParsedSql} {decision : RouteDecision}
    {context : FilterContext}

/-- A text with references, and what an allowed check makes of it under the physical names. -/
structure RewrittenText (rt : Runtime) (sql : Str) (parsed : ParsedSql) (decision : RouteDecision)
    (gap : Str) (ps qs : List (TableRead × Str)) : Prop where
  text : sql = gap ++ readsText ps
  scanned : Scanned rt.toUnicodeData none gap ps
  renamed : List.Forall₂ Renamed ps qs
  rewritten : rewrite parsed decision.rewritePlans = gap ++ readsText qs
  names : qs.map (fun q => q.1.name) = decision.targets.map (·.physicalTableName)
  notLimit : ∀ p ∈ ps, foldsToWord "limit" p.1.name = false
  plain : ∀ q ∈ qs, Ascii q.1.name ∧ foldsToWord "limit" q.1.name = false

/-- An allowed check puts the physical names in place. -/
theorem SqlCheckService.AllowedRun.rewrittenText (hsql : Ascii sql) (hplain : PlainRoutes db)
    (hrun : SqlCheckService.AllowedRun rt db evaluate sql routeContext parsed decision context) :
    ∃ gap ps qs, RewrittenText rt sql parsed decision gap ps qs := by
  obtain ⟨gap, ps, htext, hscan⟩ := exists_scanned rt.toUnicodeData none sql
  have horiginal := (parse_eq_ok hrun.read).1
  have hread : parsed.tables = readTables ps gap.length := hscan.parsed_tables (htext ▸ hrun.read)
  obtain ⟨-, hall⟩ := resolve_allowed hrun.resolved hrun.routed
  have hresolved : ∀ target ∈ decision.targets, isIdentifier target.physicalTableName = true ∧
      target.physicalTableName.map Char.toLower ≠ "limit" := fun target ht => by
    obtain ⟨table, -, hres⟩ := resolve_targets_resolved hrun.resolved hrun.routed target ht
    exact hres.plain hplain
  have hlength : (decision.targets.map (·.physicalTableName)).length = ps.length := by
    rw [List.length_map, ← hall.length_eq, hread, ← List.length_map (f := (·.tableName)),
      map_tableName_readTables, List.length_map]
  have hnames := map_name_renameReads hlength
  refine ⟨gap, ps, _, htext, hscan, forall₂_renamed hlength fun x hx => ?_,
    rewrite_allowed hrun.resolved hrun.routed (horiginal.trans htext) hread hscan.fits, hnames,
    fun p hp => ?_, fun q hq => ?_⟩
  · obtain ⟨target, ht, rfl⟩ := List.mem_map.1 hx
    exact isName_of_isIdentifier (hresolved target ht).1
  · have hname : p.1.name ∈ parsed.tables.map (·.tableName) := by
      rw [hread, map_tableName_readTables]
      exact List.mem_map_of_mem hp
    obtain ⟨table, htable, hsame⟩ := List.mem_map.1 hname
    obtain ⟨target, -, d, hd⟩ := exists_of_forall₂_left hall htable
    have hascii : Ascii p.1.name := fun c hc =>
      hsql c (htext ▸ List.mem_append_right _ (mem_readsText hp hc))
    exact foldsToWord_limit hascii (hsame ▸ (resolveTable_via hd).not_limit hplain)
  · have hname : q.1.name ∈ decision.targets.map (·.physicalTableName) :=
      hnames ▸ List.mem_map_of_mem hq
    obtain ⟨target, ht, hsame⟩ := List.mem_map.1 hname
    obtain ⟨hidentifier, hnot⟩ := hresolved target ht
    have hascii := ascii_of_isIdentifier hidentifier
    exact ⟨hsame ▸ hascii, hsame ▸ foldsToWord_limit hascii hnot⟩

/-- What an allowed check has rewritten passes the check as it is: the guard allows it, the parser
reads the same in it under the physical names, and the check allows it in any context with the same
logical tables, physical tables and datasources. -/
theorem check_rewritten (rt : Runtime) (db : Metadata) (evaluate : Evaluator) (sql : Str)
    (routeContext : JsonDict) (hsql : Ascii sql) (hdb : db.Constraints) (hplain : PlainRoutes db)
    {result : CheckResult}
    (hresult : SqlCheckService.check rt db evaluate sql routeContext = .ok result)
    (hallowed : result.allowed = true) :
    (BasicSqlGuard.evaluate rt.toUnicodeData result.rewrittenSql).allowed = true ∧
      (∃ parsed parsed', parse rt sql = .ok parsed ∧ parse rt result.rewrittenSql =
        .ok parsed' ∧ parsed'.ReadsAs parsed result.physicalTables) ∧
      ∀ routeContext', ∃ result',
        SqlCheckService.check rt db evaluate result.rewrittenSql routeContext' = .ok result' ∧
          result'.Repeats result := by
  obtain ⟨parsed, decision, context, hrun, rfl⟩ :=
    SqlCheckService.check_allowed_iff.1 ⟨hresult, hallowed⟩
  obtain ⟨gap, ps, qs, htext⟩ := hrun.rewrittenText hsql hplain
  have hsql' : Ascii (gap ++ readsText qs) := by
    rw [htext.text] at hsql
    exact .append (fun c hc => hsql c (List.mem_append_left _ hc))
      (ascii_renamed htext.renamed (fun c hc => hsql c (List.mem_append_right _ hc))
        fun q hq => (htext.plain q hq).1)
  have hguard := hrun.guarded
  rw [htext.text] at hguard
  have hguard' := evaluate_renamed htext.scanned.fits htext.renamed (htext.text ▸ hsql)
    hsql' hguard
  obtain ⟨parsed', hparse', hreads⟩ := parse_renamed htext.scanned htext.renamed htext.notLimit
    (fun q hq => (htext.plain q hq).2) hguard hguard' (htext.text ▸ hrun.read)
  rw [htext.names] at hreads
  have hrewritten : (SqlCheckService.allowResult parsed decision context).rewrittenSql =
      gap ++ readsText qs := htext.rewritten
  rw [hrewritten]
  refine ⟨hguard', ⟨parsed, parsed', hrun.read, hparse', hreads⟩, fun routeContext' => ?_⟩
  obtain ⟨-, hall⟩ := resolve_allowed hrun.resolved hrun.routed
  obtain ⟨targets', hfound, hagree⟩ := exists_targets_again rt hdb hplain parsed' routeContext'
    (fun target ht => (exists_of_forall₂_right hall ht).elim fun table h =>
      ⟨table, h.2.elim fun _ hd => resolveTable_via hd⟩) hreads.tableNames
  obtain ⟨hplans, hlogical, hphysical, hcode⟩ := agrees_all hagree
  have hne : parsed'.tables ≠ [] := by
    intro hnil
    have hnames := hreads.tableNames
    rw [hnil, List.map_nil, eq_comm, List.map_eq_nil_iff] at hnames
    exact resolve_targets_ne_nil hrun.resolved hrun.routed hnames
  obtain ⟨decision', hresolved, hrouted, rfl⟩ := resolve_of_targets hne hfound
  have hsame : rewrite parsed' decision'.rewritePlans = gap ++ readsText qs := by
    rw [RouteDecision.rewritePlans, hplans, rewrite_nil, (parse_eq_ok hparse').1]
  obtain ⟨policy, hacceptable⟩ := hrun.acceptable
  have hagain : (freshContext (gap ++ readsText qs) routeContext' parsed' decision').Acceptable db
      evaluate policy :=
    acceptable_again hreads hagree (hsame.trans htext.rewritten.symm) hacceptable
  obtain ⟨context', hfiltered⟩ := (FilterChain.run_allows_iff rfl).2 ⟨policy, hagain⟩
  have hcheck := SqlCheckService.check_allowed_iff.2 ⟨parsed', decision', context',
    ⟨hguard', hparse', hresolved, hrouted, hfiltered⟩, rfl⟩
  exact ⟨_, hcheck.1, hcheck.2, hsame.trans htext.rewritten.symm, hlogical, hphysical, hcode⟩

end Check

/-- The example's routes are plain. -/
theorem exampleMetadata_plainRoutes : PlainRoutes exampleMetadata where
  identifier := by decide
  distinct := by decide
  logicalNotLimit := by decide
  physicalNotLimit := by decide

/-- The statement on the example's logical table is rewritten to one on a shard, and that passes
the check again. -/
theorem check_rewritten_example : ∃ result,
    SqlCheckService.check asciiRuntime exampleMetadata SqlCheckService.acceptPlans
        SqlCheckService.exampleSql [] = .ok result ∧
      result.rewrittenSql = "select * from user_1 where uid = 3 limit 10" ∧
      ∃ result', SqlCheckService.check asciiRuntime exampleMetadata SqlCheckService.acceptPlans
          "select * from user_1 where uid = 3 limit 10" [] = .ok result' ∧
            result'.Repeats result := by
  have hrun : (SqlCheckService.check asciiRuntime exampleMetadata SqlCheckService.acceptPlans
      SqlCheckService.exampleSql []).map (fun result => (result.allowed, result.rewrittenSql)) =
        .ok (true, "select * from user_1 where uid = 3 limit 10") := by decide +kernel
  obtain ⟨result, hresult, heq⟩ := map_eq_ok.1 hrun
  have hallowed : result.allowed = true := (Prod.ext_iff.1 heq).1
  have hrewritten : result.rewrittenSql = "select * from user_1 where uid = 3 limit 10" :=
    (Prod.ext_iff.1 heq).2
  obtain ⟨-, -, hagain⟩ := check_rewritten asciiRuntime exampleMetadata
    SqlCheckService.acceptPlans
    SqlCheckService.exampleSql [] (by decide) exampleMetadata_constraints
      exampleMetadata_plainRoutes
    hresult hallowed
  exact ⟨result, hresult, hrewritten, hrewritten ▸ hagain []⟩

end SqlGatekeeper
