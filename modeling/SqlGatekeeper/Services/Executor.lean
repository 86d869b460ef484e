import SqlGatekeeper.Services.Checker

/-!
# Execution

`SqlExecutionService.execute` runs the rewritten statement of an allowed check on its
datasource, under the row cap of the policy.

* `dictRow`: a row as the dictionary of its columns.
* `Statement`: what is sent; `execute` is traced by the statements it sends.
* `Reaches.trace_eq`: when something is sent, and what.
* `Reaches.result_eq_ok`: the row cap: all rows or none.
* `Reaches.sentAsChecked`, `execute_exact`: a check and its execution together.
-/

namespace SqlGatekeeper

open Py Store

/-- The outcome of an execution. -/
structure ExecuteResult where
  allowed : Bool
  reasonCode : Str
  message : Str
  rows : List JsonDict
  rowCount : Nat
  executionMs : Int

/-- `dict(row)`: of columns with one name, the place of the first and the value of the last. -/
def dictRow (row : Row) : JsonDict := row.foldl (fun d column => dictSet column.1 column.2 d) []

/-- A row whose columns have distinct names loses nothing. -/
theorem dictRow_of_nodup {row : Row} (h : (row.map Prod.fst).Nodup) : dictRow row = row := by
  have hset : ∀ (rest : Row) (d : JsonDict), ((d ++ rest).map Prod.fst).Nodup →
      rest.foldl (fun d column => dictSet column.1 column.2 d) d = d ++ rest := by
    intro rest
    induction rest with
    | nil => exact fun d _ => (List.append_nil d).symm
    | cons column rest ih =>
      intro d hd
      have hnew : column.1 ∉ d.map Prod.fst := by
        rw [List.map_append, List.map_cons, List.nodup_append] at hd
        exact fun hmem => hd.2.2 _ hmem _ List.mem_cons_self rfl
      have happend : d ++ column :: rest = (d ++ [column]) ++ rest := by simp
      rw [List.foldl_cons, dictSet_of_not_mem hnew, happend, ih _ (happend ▸ hd)]
  exact hset row [] h

/-- A statement sent to a datasource. -/
structure Statement where
  datasource : DatasourceInstance
  sql : Str

namespace SqlExecutionService

/-- A result without rows. -/
def refuse (reasonCode message : Str) (executionMs : Int) : ExecuteResult :=
  ⟨false, reasonCode, message, [], 0, executionMs⟩

/-- The statement that is executed: a hint, then the rewritten statement. -/
def guardedSql (rewrittenSql : Str) : Str := "/*+ MAX_EXECUTION_TIME(5000) */ " ++ rewrittenSql

/-- `_fetch_rows`: one row more than the cap is fetched. -/
def fetchRows (backend : Backend) (datasource : DatasourceInstance) (rewrittenSql : Str)
    (maxLimit : Int) : Traced Statement PyError (List JsonDict) := do
  Traced.lift (backend.createEngine datasource)
  Traced.lift (backend.checkText (guardedSql rewrittenSql))
  let rows ← Traced.send ⟨datasource, backend.sentText (guardedSql rewrittenSql)⟩
    (backend.query datasource (guardedSql rewrittenSql))
  pure ((rows.take (maxLimit + 1).toNat).map dictRow)

/-- What is made of the fetched rows. -/
def capped (rows : List JsonDict) (maxLimit executionMs : Int) : ExecuteResult :=
  if rows.length > maxLimit then
    refuse "RESULT_ROWS_EXCEEDED" ("Execution returned " ++ intText rows.length ++
      " rows, exceeding max " ++ intText maxLimit) executionMs
  else ⟨true, "EXECUTED", "SQL executed successfully", rows, rows.length, executionMs⟩

/-- `SqlExecutionService.execute`; `executionMs` is what the clock says about the fetch. -/
def execute (db : Metadata) (backend : Backend) (executionMs : Int) (checkResult : CheckResult) :
    Traced Statement PyError ExecuteResult :=
  if checkResult.allowed = false then pure (refuse checkResult.reasonCode checkResult.message 0)
  else
    match sortStrings checkResult.datasourceCodes.dedup with
    | [code] => do
        match ← Traced.lift (db.getEnabledByCode code) with
        | none => pure (refuse "DATASOURCE_NOT_FOUND" "Execution datasource was not found" 0)
        | some datasource => do
            match ← Traced.lift (db.getEnabledPolicyByCode defaultPolicyCode) with
            | none => pure (refuse "POLICY_NOT_FOUND" "Execution policy was not found" 0)
            | some policy => do
                let rows ←
                  fetchRows backend datasource checkResult.rewrittenSql policy.maxLimit
                pure (capped rows policy.maxLimit executionMs)
    | _ => pure (refuse "CROSS_DATASOURCE_UNSUPPORTED"
        "Execution currently supports exactly one datasource per request" 0)

/-! ## The row cap -/

/-- Fetching one row more than the cap is enough to see whether the set is within it. -/
theorem capped_take (rows : List Row) {maxLimit : Int} (hmax : 0 ≤ maxLimit) (executionMs : Int) :
    if rows.length ≤ maxLimit then
      capped ((rows.take (maxLimit + 1).toNat).map dictRow) maxLimit executionMs =
        ⟨true, "EXECUTED", "SQL executed successfully", rows.map dictRow, rows.length,
          executionMs⟩
    else
      (capped ((rows.take (maxLimit + 1).toNat).map dictRow) maxLimit executionMs).allowed =
          false ∧
        (capped ((rows.take (maxLimit + 1).toNat).map dictRow) maxLimit executionMs).rows = [] := by
  split
  · rename_i h
    have htake : rows.take (maxLimit + 1).toNat = rows := List.take_of_length_le (by omega)
    rw [htake, capped, if_neg (by rw [List.length_map]; omega), List.length_map]
  · rename_i h
    have hlen : (((rows.take (maxLimit + 1).toNat).map dictRow).length : Int) > maxLimit := by
      rw [List.length_map, List.length_take]
      omega
    rw [capped, if_pos hlen]
    exact ⟨rfl, rfl⟩

/-! ## What is sent -/

variable {db : Metadata} {backend : Backend} {executionMs : Int} {result : CheckResult}

/-- The run of an execution that gets to its datasource. -/
structure Reaches (db : Metadata) (result : CheckResult) (d : DatasourceInstance)
    (policy : PolicySet) : Prop where
  allowed : result.allowed = true
  code : sortStrings result.datasourceCodes.dedup = [d.datasourceCode]
  datasource : db.getEnabledByCode d.datasourceCode = .ok (some d)
  policy : db.getEnabledPolicyByCode defaultPolicyCode = .ok (some policy)

/-- An execution either gets to a datasource, where it fetches the rows of the rewritten
statement, or sends nothing and returns no rows. -/
theorem execute_cases :
    (∃ d policy, Reaches db result d policy ∧ execute db backend executionMs result =
      fetchRows backend d result.rewrittenSql policy.maxLimit >>= fun rows =>
        pure (capped rows policy.maxLimit executionMs)) ∨
    ((execute db backend executionMs result).trace = [] ∧
      ∀ x, (execute db backend executionMs result).result = .ok x →
        x.allowed = false ∧ x.rows = []) := by
  by_cases ha : result.allowed = false
  · right
    rw [execute, if_pos ha]
    refine ⟨rfl, fun x hx => ?_⟩
    injection hx with hx
    subst hx
    exact ⟨rfl, rfl⟩
  rw [execute, if_neg ha]
  split
  · rename_i code hcode
    rcases hd : db.getEnabledByCode code with e | _ | d
    · right
      rw [Traced.bind_error (e := e) rfl]
      exact ⟨rfl, fun x hx => absurd hx (by simp)⟩
    · right
      rw [Traced.bind_ok (a := none) rfl]
      refine ⟨rfl, fun x hx => ?_⟩
      injection hx with hx
      subst hx
      exact ⟨rfl, rfl⟩
    · obtain ⟨-, hdc, -⟩ := Metadata.getEnabledByCode_eq_some hd
      rw [Traced.bind_ok (a := some d) rfl]
      simp only [Traced.lift_trace, List.nil_append]
      rcases hp : db.getEnabledPolicyByCode defaultPolicyCode with e | _ | p
      · right
        rw [Traced.bind_error (e := e) rfl]
        exact ⟨rfl, fun x hx => absurd hx (by simp)⟩
      · right
        rw [Traced.bind_ok (a := none) rfl]
        refine ⟨rfl, fun x hx => ?_⟩
        injection hx with hx
        subst hx
        exact ⟨rfl, rfl⟩
      · left
        refine ⟨d, p, ⟨by simpa using ha, by rw [hcode, hdc], by rw [hdc]; exact hd,
          hp⟩, ?_⟩
        rw [Traced.bind_ok (a := some p) rfl]
        rfl
  · right
    refine ⟨rfl, fun x hx => ?_⟩
    injection hx with hx
    subst hx
    exact ⟨rfl, rfl⟩

/-- Does the client library send the executed statement? -/
def Sendable (backend : Backend) (d : DatasourceInstance) (sql : Str) : Prop :=
  backend.engineError d = none ∧ backend.textError (guardedSql sql) = none

/-- A fetch sends its one statement if the client library does not refuse it. -/
theorem fetchRows_trace (d : DatasourceInstance) (sql : Str) (maxLimit : Int) :
    (Sendable backend d sql ∧
      (fetchRows backend d sql maxLimit).trace = [⟨d, backend.sentText (guardedSql sql)⟩]) ∨
    (¬ Sendable backend d sql ∧ (fetchRows backend d sql maxLimit).trace = []) := by
  rw [fetchRows, Sendable]
  rcases hd : backend.engineError d with _ | e
  · rw [Traced.bind_ok (a := ()) (by rw [Traced.lift_result, Backend.createEngine, hd]; rfl)]
    rcases ht : backend.textError (guardedSql sql) with _ | e
    · rw [Traced.bind_ok (a := ()) (by rw [Traced.lift_result, Backend.checkText, ht]; rfl)]
      refine Or.inl ⟨⟨rfl, rfl⟩, ?_⟩
      rcases hq : backend.query d (guardedSql sql) with e | rows
      · rw [Traced.bind_error (e := e) rfl]
        rfl
      · rw [Traced.bind_ok (a := rows) rfl]
        rfl
    · rw [Traced.bind_error (e := e) (by rw [Traced.lift_result, Backend.checkText, ht]; rfl)]
      exact Or.inr ⟨by simp, rfl⟩
  · rw [Traced.bind_error (e := e) (by rw [Traced.lift_result, Backend.createEngine, hd]; rfl)]
    exact Or.inr ⟨by simp, rfl⟩

/-- A fetch returns the first rows of the result set. -/
theorem fetchRows_eq_ok {d : DatasourceInstance} {sql : Str} {maxLimit : Int}
    {rows : List JsonDict} :
    (fetchRows backend d sql maxLimit).result = .ok rows ↔
      Sendable backend d sql ∧ ∃ all, backend.query d (guardedSql sql) = .ok all ∧
        rows = (all.take (maxLimit + 1).toNat).map dictRow := by
  simp only [fetchRows, Traced.bind_result, Traced.lift_result, Traced.send_result,
    Traced.pure_result, bind_eq_ok, Backend.createEngine, Backend.checkText, proceed_eq_ok]
  constructor
  · rintro ⟨-, he, -, ht, all, hall, h⟩
    injection h with h
    exact ⟨⟨he, ht⟩, all, hall, h.symm⟩
  · rintro ⟨⟨he, ht⟩, all, hall, rfl⟩
    exact ⟨(), he, (), ht, all, hall, rfl⟩

/-- A list with one distinct element. -/
theorem sortStrings_dedup_eq_singleton {l : List Str} {c : Str} :
    sortStrings l.dedup = [c] ↔ l ≠ [] ∧ ∀ a ∈ l, a = c := by
  have hperm : (sortStrings l.dedup).Perm l.dedup := List.perm_insertionSort _ _
  constructor
  · intro h
    rw [h] at hperm
    have hmem : ∀ a, a ∈ l ↔ a = c := by
      intro a
      rw [← List.mem_dedup, ← hperm.mem_iff, List.mem_singleton]
    exact ⟨List.ne_nil_of_mem ((hmem c).2 rfl), fun a ha => (hmem a).1 ha⟩
  · rintro ⟨hne, hall⟩
    have hone : l.dedup.length ≤ 1 :=
      length_dedup_le_one_iff.2 fun a ha b hb => (hall a ha).trans (hall b hb).symm
    rcases hl : l.dedup with _ | ⟨x, _ | ⟨y, rest⟩⟩
    · exact absurd ((List.dedup_eq_nil l).1 hl) hne
    · have hx : x ∈ l := List.mem_dedup.1 (by rw [hl]; exact List.mem_cons_self)
      rw [hall x hx]
      rfl
    · rw [hl] at hone
      simp at hone

/-! ## Check and execution -/

variable {rt : Runtime} {evaluate : Evaluator} {sql : Str} {routeContext : JsonDict}

/-- Every physical table of a result was explained with the result's statement, and accepted. -/
def Explained (db : Metadata) (evaluate : Evaluator) (result : CheckResult) : Prop :=
  ∃ policy ∈ db.policies.rows, policy.policyCode = "default_select_guard" ∧
    policy.enabled = true ∧ ∀ name ∈ result.physicalTables, ∃ d ∈ db.datasources.rows,
      d.datasourceCode ∈ result.datasourceCodes ∧ d.enabled = true ∧
        ∃ e, evaluate d result.rewrittenSql name policy = .ok e ∧ e.allowed = true

/-- What an allowed check has established about its result. -/
theorem check_allowed_facts
    (hcheck : SqlCheckService.check rt db evaluate sql routeContext = .ok result)
    (ha : result.allowed = true) :
    (∃ d policy, Reaches db result d policy) ∧ Explained db evaluate result := by
  obtain ⟨parsed, decision, context, hrun, rfl⟩ :=
    SqlCheckService.check_allowed_iff.1 ⟨hcheck, ha⟩
  obtain ⟨policy, hacc⟩ := hrun.acceptable
  constructor
  · obtain ⟨t, ts, hts⟩ := List.exists_cons_of_ne_nil hacc.targets
    have hmem : t ∈ decision.targets := by
      have : decision.targets = t :: ts := hts
      rw [this]
      exact List.mem_cons_self
    obtain ⟨d, hd⟩ := hacc.datasources t hmem
    obtain ⟨-, hcode, -⟩ := Metadata.getEnabledByCode_eq_some hd
    refine ⟨d, policy, ha, sortStrings_dedup_eq_singleton.2 ⟨?_, ?_⟩, by rw [hcode]; exact hd,
      hacc.policyEnabled⟩
    · exact List.ne_nil_of_mem (List.mem_map_of_mem hmem)
    · intro c hc
      obtain ⟨u, hu, rfl⟩ := List.mem_map.1 hc
      rw [hcode]
      exact hacc.oneDatasource u hu t hmem
  · obtain ⟨hmem, hcode, henabled⟩ :=
      Metadata.getEnabledPolicyByCode_eq_some hacc.policyEnabled
    refine ⟨policy, hmem, hcode, henabled, fun name hname => ?_⟩
    obtain ⟨t, ht, rfl⟩ := List.mem_map.1 hname
    obtain ⟨d, hd⟩ := hacc.datasources t ht
    obtain ⟨hmem, hcode, henabled⟩ := Metadata.getEnabledByCode_eq_some hd
    obtain ⟨e, he, hallowed⟩ := hacc.explain t ht d hd
    exact ⟨d, hmem, by rw [hcode]; exact List.mem_map_of_mem ht, henabled, e, he, hallowed⟩

/-- A statement sent for a check result: the one that was sent behind `EXPLAIN`, to the one
datasource the result names, with datasource and policy enabled at execution time; and the answer
is the complete result set if it keeps within the policy's cap, and no row otherwise. -/
structure SentAsChecked (db db' : Metadata) (evaluate : Evaluator) (backend : Backend)
    (result : CheckResult) (answer : Except PyError ExecuteResult) (s : Statement) : Prop where
  allowed : result.allowed = true
  named : ∀ code, code ∈ result.datasourceCodes ↔ code = s.datasource.datasourceCode
  enabled : s.datasource ∈ db'.datasources.rows ∧ s.datasource.enabled = true
  text : s.sql = "/*+ MAX_EXECUTION_TIME(5000) */ " ++ backend.sentText result.rewrittenSql
  /-- Without a backslash that is the rewritten statement itself. -/
  plain : '\\' ∉ result.rewrittenSql →
    s.sql = "/*+ MAX_EXECUTION_TIME(5000) */ " ++ result.rewrittenSql
  explained : Explained db evaluate result
  planned : backend.sentText ("EXPLAIN " ++ result.rewrittenSql) =
    "EXPLAIN " ++ backend.sentText result.rewrittenSql
  cap : ∃ policy ∈ db'.policies.rows, policy.policyCode = "default_select_guard" ∧
    policy.enabled = true ∧ ∀ rows, backend.queryReply s.datasource s.sql = .ok rows →
      ∃ x, answer = .ok x ∧ if rows.length ≤ policy.maxLimit then x.allowed = true ∧
        x.rows = rows.map dictRow
        else x.allowed = false ∧ x.rows = []

/-- The outcomes of an execution that is refused before anything is sent. -/
def unreachableReasons : List Str :=
  ["CROSS_DATASOURCE_UNSUPPORTED", "DATASOURCE_NOT_FOUND", "POLICY_NOT_FOUND"]

theorem Reaches.execute_eq {d : DatasourceInstance} {policy : PolicySet}
    (hr : Reaches db result d policy) : execute db backend executionMs result =
      fetchRows backend d result.rewrittenSql policy.maxLimit >>= fun rows =>
        pure (capped rows policy.maxLimit executionMs) := by
  rw [execute, if_neg (by rw [hr.allowed]; decide), hr.code]
  simp only
  rw [Traced.bind_ok (a := some d) hr.datasource]
  simp only
  rw [Traced.bind_ok (a := some policy) hr.policy]
  rfl

section Reached

variable {d : DatasourceInstance} {policy : PolicySet} (hr : Reaches db result d policy)

include hr

theorem Reaches.trace_eq : (execute db backend executionMs result).trace =
    (fetchRows backend d result.rewrittenSql policy.maxLimit).trace := by
  rw [hr.execute_eq]
  rcases ok_or_error (fetchRows backend d result.rewrittenSql policy.maxLimit).result with
    ⟨rows, h⟩ | ⟨e, h⟩
  · rw [Traced.bind_ok h, Traced.pure_trace, List.append_nil]
  · rw [Traced.bind_error h]

theorem Reaches.result_eq_ok {x : ExecuteResult} :
    (execute db backend executionMs result).result = .ok x ↔
      Sendable backend d result.rewrittenSql ∧
      ∃ all, backend.query d (guardedSql result.rewrittenSql) = .ok all ∧
        x = capped ((all.take (policy.maxLimit + 1).toNat).map dictRow) policy.maxLimit
          executionMs := by
  rw [hr.execute_eq, Traced.bind_result, bind_eq_ok]
  simp only [fetchRows_eq_ok, Traced.pure_result]
  constructor
  · rintro ⟨rows, ⟨he, all, hall, rfl⟩, h⟩
    injection h with h
    exact ⟨he, all, hall, h.symm⟩
  · rintro ⟨he, all, hall, rfl⟩
    exact ⟨_, ⟨he, all, hall, rfl⟩, rfl⟩

/-- The answer of an execution that reaches its datasource is not one of the refusals. -/
theorem Reaches.reason_not_mem {x : ExecuteResult}
    (hx : (execute db backend executionMs result).result = .ok x) :
    x.reasonCode ∉ unreachableReasons := by
  obtain ⟨-, all, -, rfl⟩ := hr.result_eq_ok.1 hx
  rw [capped]
  split
  · exact (by decide : ("RESULT_ROWS_EXCEEDED" : Str) ∉ unreachableReasons)
  · exact (by decide : ("EXECUTED" : Str) ∉ unreachableReasons)

end Reached

/-- What is sent for an execution, and for the plan of the statement. -/
theorem sentText_guardedSql (sql : Str) : backend.sentText (guardedSql sql) =
    "/*+ MAX_EXECUTION_TIME(5000) */ " ++ backend.sentText sql :=
  unescapeColons_append _ (by decide) sql

theorem sentText_explain (sql : Str) :
    backend.sentText ("EXPLAIN " ++ sql) = "EXPLAIN " ++ backend.sentText sql :=
  unescapeColons_append _ (by decide) sql

/-- An execution that reaches its datasource, with a statement that the library sends, sends it. -/
theorem Reaches.sent {d : DatasourceInstance} {policy : PolicySet}
    (hr : Reaches db result d policy) (hsendable : Sendable backend d result.rewrittenSql) :
    (execute db backend executionMs result).trace = [⟨d, "/*+ MAX_EXECUTION_TIME(5000) */ " ++
      backend.sentText result.rewrittenSql⟩] := by
  rw [hr.trace_eq, ← sentText_guardedSql]
  rcases @fetchRows_trace backend d result.rewrittenSql policy.maxLimit with
    ⟨-, htrace⟩ | ⟨hnot, -⟩
  · exact htrace
  · exact absurd hsendable hnot

/-- The statement sent by an execution that reaches its datasource is the checked one. -/
theorem Reaches.sentAsChecked {db' : Metadata} {d : DatasourceInstance} {policy : PolicySet}
    (hcheck : SqlCheckService.check rt db evaluate sql routeContext = .ok result)
    (hr : Reaches db' result d policy) (hmax : 0 ≤ policy.maxLimit)
    (hsendable : Sendable backend d result.rewrittenSql) :
    SentAsChecked db db' evaluate backend result (execute db' backend executionMs result).result
      ⟨d, "/*+ MAX_EXECUTION_TIME(5000) */ " ++ backend.sentText result.rewrittenSql⟩ := by
  obtain ⟨hpmem, hpcode, hpenabled⟩ := Metadata.getEnabledPolicyByCode_eq_some hr.policy
  obtain ⟨hdmem, -, hdenabled⟩ := Metadata.getEnabledByCode_eq_some hr.datasource
  obtain ⟨hne, hcodes⟩ := sortStrings_dedup_eq_singleton.1 hr.code
  refine ⟨hr.allowed, fun code => ⟨hcodes code, ?named⟩, ⟨hdmem, hdenabled⟩, rfl,
    fun hplain => ?_, (check_allowed_facts hcheck hr.allowed).2, sentText_explain _, policy, hpmem,
      hpcode, hpenabled,
    fun rows hrows => ?cap⟩
  case named =>
    rintro rfl
    obtain ⟨c, hc⟩ := List.exists_mem_of_ne_nil _ hne
    exact hcodes c hc ▸ hc
  case cap =>
    have hquery : backend.query d (guardedSql result.rewrittenSql) = .ok rows := by
      rw [Backend.query, sentText_guardedSql]
      exact hrows
    refine ⟨_, hr.result_eq_ok.2 ⟨hsendable, rows, hquery, rfl⟩, ?_⟩
    have hcap := capped_take rows hmax executionMs
    split at hcap
    · rename_i hle
      rw [if_pos hle, hcap]
      exact ⟨rfl, rfl⟩
    · rename_i hle
      rw [if_neg hle]
      exact hcap
  · rw [Backend.sentText, unescapeColons_plain _ hplain]

/-- What is executed is what was checked, completely or not at all.  For a check result and any
metadata at execution time: at most one statement is sent, and it is the checked one; it is sent
if the execution gets to the datasource and the library takes the statement; when nothing is sent
no rows come back; and with unchanged metadata an allowed check gets to its datasource. -/
theorem execute_exact (rt : Runtime) (db db' : Metadata) (evaluate : Evaluator) (backend : Backend)
    (sql : Str) (routeContext : JsonDict) (executionMs : Int) (result : CheckResult)
    (hcheck : SqlCheckService.check rt db evaluate sql routeContext = .ok result)
    (hmax : ∀ p ∈ db'.policies.rows, 0 ≤ p.maxLimit) :
    (execute db' backend executionMs result).trace.length ≤ 1 ∧
    (∀ s ∈ (execute db' backend executionMs result).trace,
      SentAsChecked db db' evaluate backend result (execute db' backend executionMs result).result
        s) ∧
    (∀ d policy, Reaches db' result d policy → Sendable backend d result.rewrittenSql →
      (execute db' backend executionMs result).trace = [⟨d, "/*+ MAX_EXECUTION_TIME(5000) */ " ++
        backend.sentText result.rewrittenSql⟩]) ∧
    ((execute db' backend executionMs result).trace = [] →
      ∀ x, (execute db' backend executionMs result).result = .ok x →
        x.allowed = false ∧ x.rows = []) ∧
    (db' = db → result.allowed = true → (∃ d policy, Reaches db' result d policy) ∧ ∀ x,
      (execute db' backend executionMs result).result = .ok x →
        x.reasonCode ∉ unreachableReasons) := by
  have hunchanged : db' = db → result.allowed = true →
      (∃ d policy, Reaches db' result d policy) ∧ ∀ x,
        (execute db' backend executionMs result).result = .ok x →
          x.reasonCode ∉ unreachableReasons := by
    rintro rfl ha
    obtain ⟨⟨d, policy, hr⟩, -⟩ := check_allowed_facts hcheck ha
    exact ⟨⟨d, policy, hr⟩, fun x hx => hr.reason_not_mem hx⟩
  have hsent : ∀ d policy, Reaches db' result d policy →
    Sendable backend d result.rewrittenSql →
      (execute db' backend executionMs result).trace = [⟨d, "/*+ MAX_EXECUTION_TIME(5000) */ " ++
        backend.sentText result.rewrittenSql⟩] := fun d policy hr => hr.sent
  refine ⟨?one, ?checked, hsent, ?none, hunchanged⟩ <;>
    rcases @execute_cases db' backend executionMs result with ⟨d, policy, hr, -⟩ |
      ⟨htrace, hnone⟩
  case one.inl =>
    rw [hr.trace_eq]
    rcases @fetchRows_trace backend d result.rewrittenSql policy.maxLimit with
      ⟨-, htrace⟩ | ⟨-, htrace⟩ <;> simp [htrace]
  case one.inr => simp [htrace]
  case checked.inl =>
    intro s hs
    rw [hr.trace_eq] at hs
    rcases @fetchRows_trace backend d result.rewrittenSql policy.maxLimit with
      ⟨hsendable, htrace⟩ | ⟨-, htrace⟩
    · rw [htrace, List.mem_singleton, sentText_guardedSql] at hs
      rw [hs]
      exact hr.sentAsChecked hcheck
        (hmax policy (Metadata.getEnabledPolicyByCode_eq_some hr.policy).1) hsendable
    · rw [htrace] at hs
      cases hs
  case checked.inr =>
    intro s hs
    rw [htrace] at hs
    cases hs
  case none.inl =>
    intro hnil x hx
    rw [hr.sent (hr.result_eq_ok.1 hx).1] at hnil
    cases hnil
  case none.inr => exact fun _ => hnone

theorem exampleBackend_sendable (d : DatasourceInstance) (sql : Str) :
    Sendable exampleBackend d sql := ⟨rfl, rfl⟩

/-- The example's statement, checked and executed on unchanged metadata: it is sent as it is, and
its row comes back. -/
theorem execute_exact_example : ∃ result d x, result.allowed = true ∧
    (execute exampleMetadata exampleBackend 0 result).trace =
      [⟨d, "/*+ MAX_EXECUTION_TIME(5000) */ select * from user_1 where uid = 3 limit 10"⟩] ∧
    SentAsChecked exampleMetadata exampleMetadata SqlCheckService.acceptPlans exampleBackend
      result (execute exampleMetadata exampleBackend 0 result).result
      ⟨d, "/*+ MAX_EXECUTION_TIME(5000) */ select * from user_1 where uid = 3 limit 10"⟩ ∧
    (execute exampleMetadata exampleBackend 0 result).result = .ok x ∧ x.allowed = true ∧
      x.rows = [([("uid", .int 3)] : JsonDict)] := by
  obtain ⟨result, hcheck, hresult⟩ := map_eq_ok.1 (by decide +kernel :
    (SqlCheckService.check asciiRuntime exampleMetadata SqlCheckService.acceptPlans
      SqlCheckService.exampleSql []).map (fun r => (r.allowed, r.rewrittenSql)) =
    .ok (true, "select * from user_1 where uid = 3 limit 10"))
  obtain ⟨ha, hrewritten⟩ := Prod.mk.inj hresult
  obtain ⟨-, hchecked, hsends, -, hunchanged⟩ := execute_exact asciiRuntime exampleMetadata
    exampleMetadata SqlCheckService.acceptPlans exampleBackend SqlCheckService.exampleSql [] 0
    result hcheck (by decide)
  obtain ⟨⟨d, policy, hr⟩, -⟩ := hunchanged rfl ha
  have htrace := hsends d policy hr (exampleBackend_sendable d _)
  have htext : exampleBackend.sentText result.rewrittenSql =
      "select * from user_1 where uid = 3 limit 10" := by
    rw [hrewritten]
    decide +kernel
  rw [htext] at htrace
  have hsent := hchecked _ (htrace ▸ List.mem_singleton_self _)
  obtain ⟨p, hp, -, -, hcap⟩ := hsent.cap
  obtain ⟨x, hx, hrows⟩ := hcap _ rfl
  have hmax := (by decide : ∀ p ∈ exampleMetadata.policies.rows, (1 : Int) ≤ p.maxLimit) p hp
  rw [if_pos (by simpa using hmax)] at hrows
  exact ⟨result, d, x, ha, htrace, hsent, hx, hrows.1, hrows.2⟩

/-- A join whose condition has a backslash in front of a colon. -/
def escapedSql : Str :=
  "select * from user a join user b on a.id = b.id where a.uid = 3 and b.uid = 5 " ++
    "and a.note = '\\:x' limit 1"

/-- A pair of users, in two columns of one name. -/
def pairRow : Row := [("uid", .int 3), ("uid", .int 5)]

/-- A backend that finds the pair. -/
def pairBackend : Backend := { exampleBackend with queryReply := fun _ _ => .ok [pairRow] }

/-- The statement that is sent differs from the rewritten one by its backslash, and the row that
comes back from the row found by its first column. -/
theorem execute_escapedSql : ∃ result d sent x,
    SqlCheckService.check asciiRuntime exampleMetadata SqlCheckService.acceptPlans escapedSql [] =
      .ok result ∧ result.allowed = true ∧
    (execute exampleMetadata pairBackend 0 result).trace = [⟨d, sent⟩] ∧
    sent ≠ "/*+ MAX_EXECUTION_TIME(5000) */ " ++ result.rewrittenSql ∧
    pairBackend.queryReply d sent = .ok [pairRow] ∧
    (execute exampleMetadata pairBackend 0 result).result = .ok x ∧ x.allowed = true ∧
      x.rows ≠ [pairRow] := by
  obtain ⟨result, hcheck, hresult⟩ := map_eq_ok.1 (by decide +kernel :
    (SqlCheckService.check asciiRuntime exampleMetadata SqlCheckService.acceptPlans
      escapedSql []).map (fun r => (r.allowed, pairBackend.sentText r.rewrittenSql ==
        r.rewrittenSql)) = .ok (true, false))
  obtain ⟨ha, hdiffers⟩ := Prod.mk.inj hresult
  obtain ⟨⟨d, policy, hr⟩, -⟩ := check_allowed_facts hcheck ha
  refine ⟨result, d, _, _, hcheck, ha, hr.sent ⟨rfl, rfl⟩, fun hsame => ?_, rfl,
    hr.result_eq_ok.2 ⟨⟨rfl, rfl⟩, [pairRow], rfl, rfl⟩, ?_⟩
  · rw [beq_eq_false_iff_ne] at hdiffers
    exact hdiffers (List.append_cancel_left hsame)
  · have hpolicy := (Metadata.getEnabledPolicyByCode_eq_some hr.policy).1
    have hmax : 1 ≤ policy.maxLimit :=
      (by decide : ∀ p ∈ exampleMetadata.policies.rows, (1 : Int) ≤ p.maxLimit) policy hpolicy
    have hcap := capped_take [pairRow] (by omega : 0 ≤ policy.maxLimit) 0
    rw [if_pos (by simpa using hmax)] at hcap
    rw [hcap]
    -- One column is left of two.
    exact ⟨rfl, fun hsame => absurd (congrArg (List.map List.length) hsame) (by decide)⟩

end SqlExecutionService

end SqlGatekeeper
