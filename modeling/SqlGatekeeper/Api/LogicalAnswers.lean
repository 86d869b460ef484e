import SqlGatekeeper.Api.Auditing
import SqlGatekeeper.Services.ShardedConditions

/-!
# Answers about logical tables

`execute_sql` from the request to the rows: the rows come from one datasource, but they answer the
statement that was asked, over all shards of its tables.

* `ServesTables`: a server answers statements over the tables that it holds.
* `executed_of_serve`: what is behind an allowed answer of the endpoint.
* `executedAnswers_of_kept`: if the conditions keep the rows of every table in the shard that is
  read, the rows of the response are an answer to the statement over the logical tables.
-/

namespace SqlGatekeeper

open Py Store Sharding SqlExecutionService

/-- The servers answer the statement over any tables by what they hold; the dictionary of a row that
they return shows a tuple of rows, so that joined tables have no column name in common. -/
def ServesTables (backend : Backend) (contents : Str × Str → List (Str → Int))
    (decode : JsonDict → List (Str → Int)) (q : RowSelect) : Prop :=
  ∀ (datasource : DatasourceInstance) (names : List Str) (rows : List Row),
    backend.query datasource (guardedSql (q.select.rename names).text) = .ok rows →
      (q.select.rename names).Answers (fun name =>
        contents (datasource.datasourceCode, name)) q.asks
        (rows.map fun row => decode (dictRow row))

/-- A result within the cap is the whole result. -/
theorem capped_allowed {all : List Row} {maxLimit executionMs : Int}
    (h : (capped ((all.take (maxLimit + 1).toNat).map dictRow) maxLimit executionMs).allowed =
      true) :
    (capped ((all.take (maxLimit + 1).toNat).map dictRow) maxLimit executionMs).rows =
      all.map dictRow := by
  unfold capped at h ⊢
  by_cases hrows : (((all.take (maxLimit + 1).toNat).map dictRow).length : Int) > maxLimit
  · rw [if_pos hrows] at h
    cases h
  · rw [if_neg hrows]
    rw [List.length_map, List.length_take] at hrows
    exact congrArg (List.map dictRow) (List.take_of_length_le (by omega))

section Rows

variable {rt : Runtime} {db : Metadata} {backend : Backend} {q : RowSelect} {col : Str → Str}
  {n : Str → Nat} {contents : Str × Str → List (Str → Int)}
    {decode : JsonDict → List (Str → Int)}

/-- What the datasource of an allowed check returns for its rewritten statement answers the
statement over the logical tables, if the conditions keep the rows in the shards that are read. -/
theorem RowSelect.answers_of_query {evaluate : Evaluator} {routeContext : JsonDict}
    {result : CheckResult} {datasource : DatasourceInstance} {rows : List Row}
    (hdb : db.Constraints) (hq : q.Plain) (hfirst : q.joins = [] ∨ q.first.aliasPart ≠ none)
    (hlimit : 0 < q.limit) (hall : ∀ t ∈ q.select.tables, db.AllRemainders n t.name)
    (hdistinct : db.DistinctPlaces (q.select.tables.map (·.name)))
    (hserves : ServesTables backend contents decode q)
    (hplaced : ∀ t ∈ q.select.tables, db.RowsPlaced (remainderKey col n) contents t.name)
    (hkept : ∀ parsed decision, parse rt q.select.text = .ok parsed →
      resolve rt db parsed routeContext = .ok decision → decision.allowed = true →
      List.Forall₂ (fun (t : JoinTable) (target : RouteTarget) =>
        KeptIn q.whole t.rowName (col t.name) (n t.name) target.routeValue)
        q.select.tables decision.targets)
    (hcheck : SqlCheckService.check rt db evaluate q.select.text routeContext = .ok result)
    (ha : result.allowed = true)
    (hcode : ∀ code, (∀ c ∈ result.datasourceCodes, c = code) →
      datasource.datasourceCode = code)
    (hquery : backend.query datasource (guardedSql result.rewrittenSql) = .ok rows) :
    q.select.Answers (db.rowsOf contents) q.asks (rows.map fun row => decode (dictRow row)) := by
  obtain ⟨rewritten, decision, code, hsent, hrewritten⟩ := exists_rewrittenAs
    (hq.select rt.toUnicodeData) (q.select_joined hfirst) hcheck ha
  obtain ⟨parsed, hparsed, hresolved⟩ := hrewritten.resolved
  have hmeaning := (RowSelect.answers_iff_kept hdb hq hfirst hlimit hrewritten hall hdistinct).2
    (hkept parsed decision hparsed hresolved hrewritten.routed)
  rw [hsent.text, hrewritten.tables] at hquery
  have hanswers := hserves datasource _ _ hquery
  rw [hcode code hsent.only, ← hrewritten.tables] at hanswers
  exact (hmeaning contents hplaced _).1 hanswers

end Rows

section Serving

variable {env : Deployment} {db : Metadata} {request : SqlRequest env.rt}
  {response : SqlDecisionResponse}

/-- What is behind an allowed answer of `execute_sql`: an allowed check, and all rows that the
datasource of the check returns for its rewritten statement. -/
theorem executed_of_serve
    (hserve : (serve env db (.executeSql request)).map Prod.fst = .ok (.sql response))
    (hallowed : response.allowed = true) :
    ∃ decision datasource rows, runCheck env db request = .ok decision ∧
      decision.allowed = true ∧
      (∀ code, (∀ c ∈ decision.datasourceCodes, c = code) →
        datasource.datasourceCode = code) ∧
      env.backend.query datasource (guardedSql decision.rewrittenSql) = .ok rows ∧
      response.rows = rows.map dictRow := by
  obtain ⟨⟨answer, written⟩, hserve, hanswer⟩ := map_eq_ok.1 hserve
  obtain ⟨⟨r, written'⟩, h, heq⟩ := map_eq_ok.1 hserve
  cases heq
  cases hanswer
  obtain ⟨decision, hcheck, h⟩ := bind_eq_ok.1 h
  by_cases ha : decision.allowed = true
  · rw [if_pos ha] at h
    obtain ⟨result, hexecute, h⟩ := bind_eq_ok.1 h
    cases h
    rcases @execute_cases db env.backend env.executionMs decision with
      ⟨datasource, policy, hreaches, -⟩ | ⟨-, hnone⟩
    · obtain ⟨-, all, hquery, rfl⟩ := hreaches.result_eq_ok.1 hexecute
      obtain ⟨hne, hcodes⟩ := sortStrings_dedup_eq_singleton.1 hreaches.code
      refine ⟨decision, datasource, all, hcheck, ha, fun code hcode => ?_, hquery,
        capped_allowed hallowed⟩
      obtain ⟨c, hc⟩ := List.exists_mem_of_ne_nil _ hne
      rw [← hcodes c hc, hcode c hc]
    · exact absurd hallowed (by simp [executeResponse, (hnone result hexecute).1])
  · rw [if_neg ha] at h
    cases h
    exact absurd hallowed ha

/-- The rows of an allowed answer of `execute_sql` answer the statement over the logical tables, if
the servers answer by what they hold, the rows are placed by their remainders, and the conditions
keep the rows of every table in the shard that is read for it. -/
theorem executedAnswers_of_kept {q : RowSelect} {col : Str → Str} {n : Str → Nat}
    {contents : Str × Str → List (Str → Int)} {decode : JsonDict → List (Str → Int)}
    (hdb : db.Constraints) (hq : q.Plain) (hfirst : q.joins = [] ∨ q.first.aliasPart ≠ none)
    (hlimit : 0 < q.limit) (hall : ∀ t ∈ q.select.tables, db.AllRemainders n t.name)
    (hdistinct : db.DistinctPlaces (q.select.tables.map (·.name)))
    (hserves : ServesTables env.backend contents decode q)
    (hplaced : ∀ t ∈ q.select.tables, db.RowsPlaced (remainderKey col n) contents t.name)
    (hsql : request.sql.1 = q.select.text)
    (hkept : ∀ parsed decision, parse env.rt q.select.text = .ok parsed →
      resolve env.rt db parsed request.routeContext.1 = .ok decision → decision.allowed = true →
      List.Forall₂ (fun (t : JoinTable) (target : RouteTarget) =>
        KeptIn q.whole t.rowName (col t.name) (n t.name) target.routeValue)
        q.select.tables decision.targets)
    (hserve : (serve env db (.executeSql request)).map Prod.fst = .ok (.sql response))
    (hallowed : response.allowed = true) :
    q.select.Answers (db.rowsOf contents) q.asks (response.rows.map decode) := by
  obtain ⟨result, datasource, rows, hcheck, ha, hcode, hquery, hrows⟩ :=
    executed_of_serve hserve hallowed
  unfold runCheck at hcheck
  rw [hsql] at hcheck
  rw [hrows, List.map_map]
  exact RowSelect.answers_of_query hdb hq hfirst hlimit hall hdistinct hserves hplaced
    hkept hcheck ha
    hcode hquery

end Serving

/-! ## One table -/

section Single

variable {q : RowSelect}

theorem RowSelect.tables_rename (hjoins : q.joins = []) (x : Str) (names : List Str) :
    (q.select.rename (x :: names)).tables = [q.first.rename x] := by
  show q.first.rename x :: (List.zipWith JoinClause.rename (q.joins.map _) names).map _ = _
  rw [hjoins]
  rfl

/-- The text of a renamed statement tells the table. -/
theorem RowSelect.name_of_text (hjoins : q.joins = []) (halias : q.first.aliasPart = none)
    {names : List Str} {x : Str}
    (h : (q.select.rename names).text = (q.select.rename [x]).text) :
    (q.select.rename names).first.name = x := by
  have hplain : ∀ names : List Str, (q.select.rename names).joins = [] ∧
      (q.select.rename names).first.aliasPart = none ∧
      (q.select.rename names).condition = condText q.condition ∧
      (q.select.rename names).limit = q.limit := by
    intro names
    cases names with
    | nil => exact ⟨List.map_eq_nil_iff.2 hjoins, halias, rfl, rfl⟩
    | cons y names =>
      refine ⟨?_, halias, rfl, rfl⟩
      show List.zipWith JoinClause.rename (q.joins.map _) names = []
      rw [hjoins]
      rfl
  obtain ⟨hjoins₁, halias₁, hcondition₁, hlimit₁⟩ := hplain names
  obtain ⟨hjoins₂, halias₂, hcondition₂, hlimit₂⟩ := hplain [x]
  rw [JoinSelect.text_plain hjoins₁ halias₁, JoinSelect.text_plain hjoins₂ halias₂,
    hcondition₁, hcondition₂, hlimit₁, hlimit₂] at h
  exact List.append_cancel_right (List.append_cancel_left h)

/-- Servers that answer the statement over one table, and know no other. -/
theorem servesTables_of_single {backend : Backend} {contents : Str × Str → List (Str → Int)}
    {decode : JsonDict → List (Str → Int)} {x : Str} {rows : List Row} {e : PyError}
    (hjoins : q.joins = []) (halias : q.first.aliasPart = none) (hx : q.first.name ≠ x)
    (hcolon : ':' ∉ guardedSql (q.select.rename [x]).text)
    (hquery : ∀ datasource sent, backend.queryReply datasource sent =
      if sent = guardedSql (q.select.rename [x]).text then .ok rows else .error e)
    (hanswer : ∀ code, Limited q.limit (((contents (code, x)).map fun row => [row]).filter q.asks)
      (rows.map fun row => decode (dictRow row))) : ServesTables backend contents decode q := by
  intro datasource names found hfound
  rw [Backend.query, hquery] at hfound
  split at hfound
  · rename_i hasked
    injection hfound with hfound
    subst hfound
    have hname := RowSelect.name_of_text hjoins halias
      (List.append_cancel_left (eq_of_unescapeColons hasked hcolon))
    cases names with
    | nil => exact absurd hname hx
    | cons y names =>
      obtain rfl : y = x := hname
      unfold JoinSelect.Answers
      rw [RowSelect.tables_rename hjoins, List.map_singleton, product_singleton]
      exact hanswer datasource.datasourceCode
  · cases hfound

end Single

/-! ## An example -/

/-- A user in each shard: number two in the even one, number three in the odd one. -/
def userRows (place : Str × Str) : List (Str → Int) :=
  if place.2 = "user_0" then [fun _ => 2] else if place.2 = "user_1" then [fun _ => 3] else []

/-- The tuple that a row of users shows. -/
def decodeUser (row : JsonDict) : List (Str → Int) :=
  [fun _ => match row with
    | [(_, .int uid)] => uid
    | _ => 0]

/-- Servers that can be asked for the third user in the odd shard. -/
def userBackend : Backend where
  __ := exampleBackend
  queryReply _ sql :=
    if sql = guardedSql "select * from user_1 where uid = 3 limit 10" then .ok [[("uid", .int 3)]]
    else .error (.serverError "no such table")

/-- A deployment in front of them. -/
def userDeployment : Deployment := { exampleDeployment with backend := userBackend }

theorem userBackend_serves : ServesTables userBackend userRows decodeUser uidThree := by
  refine @servesTables_of_single uidThree _ _ _ "user_1" [[("uid", .int 3)]]
    (.serverError "no such table") rfl rfl (by decide) (by decide) (fun datasource sql => ?_)
    fun code => ?_
  · have htext : (uidThree.select.rename ["user_1"]).text =
        "select * from user_1 where uid = 3 limit 10" := by decide
    rw [htext]
    rfl
  · have hasks : uidThree.asks [fun _ => 3] = true := by decide
    show Limited 10 (List.filter _ [[fun _ => 3]]) [[fun _ => 3]]
    rw [List.filter_cons_of_pos hasks, List.filter_nil]
    exact ⟨List.Subperm.refl _, rfl⟩

theorem userRows_placed : exampleMetadata.RowsPlaced
    (remainderKey (fun _ => "uid") fun _ => 2) userRows "user" := by
  unfold Metadata.RowsPlaced
  have hroutes : exampleMetadata.routesOf "user" =
      [⟨1, 1, "0", "user_0", 1, true, .dict []⟩,
        ⟨2, 1, "1", "user_1", 1, true, .dict []⟩] := rfl
  rw [hroutes]
  refine List.forall_mem_cons.2 ⟨?_, List.forall_mem_singleton.2 ?_⟩
  · exact List.forall_mem_singleton.2 (by decide)
  · exact List.forall_mem_singleton.2 (by decide)

/-- The third user is found, through the shard of the odd ones. -/
theorem executedAnswers_uidThree : ∃ response : SqlDecisionResponse, response.allowed = true ∧
    uidThree.select.Answers (exampleMetadata.rowsOf userRows) uidThree.asks
      (response.rows.map decodeUser) := by
  have hrun : (executeSql userDeployment exampleMetadata exampleRequest).map (fun answer =>
      answer.1.allowed) = .ok true := by decide +kernel
  obtain ⟨⟨response, written⟩, hexecute, hallowed⟩ := map_eq_ok.1 hrun
  refine ⟨response, hallowed, ?_⟩
  refine @executedAnswers_of_kept userDeployment exampleMetadata exampleRequest response uidThree
    (fun _ => "uid") (fun _ => 2) userRows decodeUser exampleMetadata_constraints uidThree_plain
    (Or.inl rfl) (by decide) ?_ ?_ userBackend_serves ?_ rfl ?_ ?_ hallowed
  · exact List.forall_mem_singleton.2 example_allRemainders
  · exact exampleMetadata_distinctPlaces
  · exact List.forall_mem_singleton.2 userRows_placed
  · intro parsed decision hparsed hresolved hrouted
    exact RowSelect.allKept_of_conjunctive exampleMetadata_constraints uidThree_plain rfl rfl
      trivial exampleTable_modRouted rfl (by decide) (by decide) (by decide) rfl hparsed hresolved
      hrouted
  · show ((executeSql userDeployment exampleMetadata exampleRequest).map _).map _ = _
    rw [hexecute]
    rfl

end SqlGatekeeper
