import SqlGatekeeper.Python.Eval
import SqlGatekeeper.Db.Repositories

/-!
# The EXPLAIN check

`ExplainRiskEvaluator` asks the datasource for the size of a target table and for the plan
of the rewritten statement, and holds the first plan row against the policy.

* `Backend`: the business databases, by what the services ask of them; `unescapeColons`: what the
  client library makes of a text before it sends it.
* `judge`: a plan row against a policy; `evaluate`: the evaluator.
* `evaluate_eq_ok`: what an evaluation that returns has asked and found.
-/

namespace SqlGatekeeper

open Py

/-! ## The business databases -/

/-- A plan row; a null column is `none`. -/
structure PlanRow where
  table : Option Str
  type : Option Str
  key : Option Str
  rows : Option Int
  extra : Option Str
  deriving DecidableEq, Repr

/-- A result row. -/
abbrev Row := List (Str × Json)

/-- A colon, the name behind it, and neither a colon nor more of the name: what a backslash in front
of it escapes. -/
def startsBind (isWord : Char → Bool) : Str → Bool
  | ':' :: rest => (rest.dropWhile fun c => isWord c || c == '$').head? != some ':'
  | _ => false

/-- The text that `text(sql)` sends: an escaped colon loses its backslash. -/
def unescapeColons (isWord : Char → Bool) : Str → Str
  | [] => []
  | c :: rest =>
    if c = '\\' ∧ startsBind isWord rest = true then unescapeColons isWord rest
    else c :: unescapeColons isWord rest

theorem unescapeColons_append (isWord : Char → Bool) {u : Str} (hu : '\\' ∉ u) (s : Str) :
    unescapeColons isWord (u ++ s) = u ++ unescapeColons isWord s := by
  induction u with
  | nil => rfl
  | cons c u ih =>
    rw [List.mem_cons, not_or] at hu
    rw [List.cons_append, unescapeColons, if_neg fun h => hu.1 h.1.symm, ih hu.2,
      List.cons_append]

/-- A text without a backslash is sent as it is. -/
theorem unescapeColons_plain (isWord : Char → Bool) {s : Str} (hs : '\\' ∉ s) :
    unescapeColons isWord s = s := by
  have h := unescapeColons_append isWord hs []
  rwa [List.append_nil, unescapeColons, List.append_nil] at h

/-- A text without a colon has been sent as it was written. -/
theorem eq_of_unescapeColons {isWord : Char → Bool} {s t : Str}
    (h : unescapeColons isWord s = t) (ht : ':' ∉ t) : s = t := by
  induction s generalizing t with
  | nil => exact h
  | cons c rest ih =>
    rw [unescapeColons] at h
    split at h
    · rename_i hescaped
      -- The colon behind the backslash is sent.
      obtain ⟨more, rfl⟩ : ∃ more, rest = ':' :: more := by
        obtain ⟨-, hbind⟩ := hescaped
        unfold startsBind at hbind
        split at hbind
        · exact ⟨_, rfl⟩
        · cases hbind
      rw [unescapeColons, if_neg (by simp)] at h
      exact absurd (h ▸ List.mem_cons_self) ht
    · subst h
      rw [List.mem_cons, not_or] at ht
      exact congrArg (c :: ·) (ih rfl ht.2)

/-- The business databases and the client library in front of them.  The library may refuse a
connection or the text of a statement before anything is sent; a server may reply with an error.
The replies are to the statements that are sent. -/
structure Backend where
  /-- The word characters of the library's patterns. -/
  isWord : Char → Bool
  /-- Why the library cannot make an engine for a datasource: its connection URL does not parse. -/
  engineError : DatasourceInstance → Option PyError
  /-- Why the library refuses a text: it finds a bind parameter (`:name`) without a value. -/
  textError : Str → Option PyError
  /-- `table_rows` of `information_schema.tables`, for a table of the datasource's schema. -/
  tableRows : DatasourceInstance → Str → Except PyError (Option Int)
  /-- The reply to a `select count(*)` statement. -/
  countReply : DatasourceInstance → Str → Except PyError Int
  /-- The reply to an `EXPLAIN` statement. -/
  explainReply : DatasourceInstance → Str → Except PyError (List PlanRow)
  /-- The reply to any other statement: all rows of the result. -/
  queryReply : DatasourceInstance → Str → Except PyError (List Row)

/-- What is sent for `text(sql)`. -/
def Backend.sentText (backend : Backend) (sql : Str) : Str := unescapeColons backend.isWord sql

/-- `connection.execute(text(sql))` for a `select count(*)` statement. -/
def Backend.countRows (backend : Backend) (datasource : DatasourceInstance) (sql : Str) :
    Except PyError Int := backend.countReply datasource (backend.sentText sql)

/-- `connection.execute(text(sql))` for an `EXPLAIN` statement. -/
def Backend.explain (backend : Backend) (datasource : DatasourceInstance) (sql : Str) :
    Except PyError (List PlanRow) := backend.explainReply datasource (backend.sentText sql)

/-- `connection.execute(text(sql))` for any other statement. -/
def Backend.query (backend : Backend) (datasource : DatasourceInstance) (sql : Str) :
    Except PyError (List Row) := backend.queryReply datasource (backend.sentText sql)

/-- Go on unless something is wrong. -/
def proceed : Option PyError → Except PyError Unit
  | none => .ok ()
  | some e => .error e

theorem proceed_eq_ok {o : Option PyError} {u : Unit} : proceed o = .ok u ↔ o = none := by
  cases o <;> simp [proceed]

/-- `create_runtime_engine(datasource)`. -/
def Backend.createEngine (backend : Backend) (datasource : DatasourceInstance) :
    Except PyError Unit := proceed (backend.engineError datasource)

/-- `text(sql)`, when it is executed. -/
def Backend.checkText (backend : Backend) (sql : Str) : Except PyError Unit :=
  proceed (backend.textError sql)

/-- A backend on which every statement finds one row by its key. -/
def exampleBackend : Backend where
  isWord c := c.isAlphanum || c == '_'
  engineError _ := none
  textError _ := none
  tableRows _ _ := .ok (some 10)
  countReply _ _ := .ok 10
  explainReply _ _ := .ok [⟨some "user_1", some "const", some "PRIMARY", some 1, none⟩]
  queryReply _ _ := .ok [[("uid", .int 3)]]

/-! ## The evaluator -/

/-- What is reported about a plan. -/
structure ExplainPlanSummary where
  accessType : Str
  key : Option Str
  rowsExamined : Int
  extra : Str
  tableName : Str
  estimatedTableRows : Int
  deriving DecidableEq, Repr

/-- The evaluator's decision. -/
structure ExplainRiskDecision where
  allowed : Bool
  reasonCode : Str
  message : Str
  summary : Option ExplainPlanSummary
  deriving DecidableEq, Repr

/-- What the services know of the evaluator: a function of datasource, statement, table and
policy. -/
abbrev Evaluator :=
  DatasourceInstance → Str → Str → PolicySet → Except PyError ExplainRiskDecision

/-- `x or default` for an optional string. -/
def textOr (x : Option Str) (default : Str) : Str :=
  match x with
  | some (c :: cs) => c :: cs
  | _ => default

namespace ExplainRiskEvaluator

/-- The summary of a plan row. -/
def summarize (row : PlanRow) (physicalTableName : Str) (rowCount : Int) : ExplainPlanSummary where
  accessType := textOr row.type []
  key := row.key
  rowsExamined := row.rows.getD 0
  extra := textOr row.extra []
  tableName := textOr row.table physicalTableName
  estimatedTableRows := rowCount

/-- A plan row against the policy. -/
def judge (U : UnicodeData) (row : PlanRow) (physicalTableName : Str) (rowCount : Int)
    (policy : PolicySet) : ExplainRiskDecision :=
  let summary := summarize row physicalTableName rowCount
  if summary.rowsExamined > policy.maxScanRows then
    ⟨false, "EXPLAIN_SCAN_ROWS_EXCEEDED",
      "Explain rows " ++ intText summary.rowsExamined ++ " exceeded limit " ++
        intText policy.maxScanRows, some summary⟩
  else if policy.rejectFullScanOnLargeTable ∧ upper U summary.accessType = "ALL" ∧
      rowCount ≥ policy.largeTableRowThreshold then
    ⟨false, "FULL_SCAN_ON_LARGE_TABLE",
      "Full scan detected on table '" ++ physicalTableName ++ "' with estimated rows " ++
        intText rowCount, some summary⟩
  else if policy.rejectUsingTemporary ∧ contains summary.extra "Using temporary" then
    ⟨false, "USING_TEMPORARY", "Explain extra contains Using temporary", some summary⟩
  else if policy.rejectUsingFilesort ∧ contains summary.extra "Using filesort" then
    ⟨false, "USING_FILESORT", "Explain extra contains Using filesort", some summary⟩
  else ⟨true, "ALLOW", "Explain plan passed", some summary⟩

/-- The size of a table: the statistics, or a count when they say nothing. -/
def tableRowCount (backend : Backend) (datasource : DatasourceInstance) (physicalTableName : Str) :
    Except PyError Int := do
  let rowCount ← (backend.tableRows datasource physicalTableName).map (·.getD 0)
  if rowCount ≤ 0 then do
    backend.checkText ("select count(*) from " ++ physicalTableName)
    backend.countRows datasource ("select count(*) from " ++ physicalTableName)
  else pure rowCount

/-- `ExplainRiskEvaluator.evaluate`. -/
def evaluate (U : UnicodeData) (backend : Backend) : Evaluator :=
  fun datasource rewrittenSql physicalTableName policy => do
    backend.createEngine datasource
    let rowCount ← tableRowCount backend datasource physicalTableName
    backend.checkText ("EXPLAIN " ++ rewrittenSql)
    match ← backend.explain datasource ("EXPLAIN " ++ rewrittenSql) with
    | [] => pure ⟨false, "EXPLAIN_EMPTY", "EXPLAIN returned no rows", none⟩
    | explainRow :: _ => pure (judge U explainRow physicalTableName rowCount policy)

/-- A plan row keeps within the policy, for the size of the table it reads. -/
structure Within (U : UnicodeData) (policy : PolicySet) (row : PlanRow) (large : Prop) : Prop where
  scanRows : row.rows.getD 0 ≤ policy.maxScanRows
  fullScan : policy.rejectFullScanOnLargeTable = true → upper U (textOr row.type []) = "ALL" →
    ¬ large
  temporary : policy.rejectUsingTemporary = true →
    contains (textOr row.extra []) "Using temporary" = false
  filesort : policy.rejectUsingFilesort = true →
    contains (textOr row.extra []) "Using filesort" = false

variable {U : UnicodeData} {backend : Backend}

/-- The four checks of a plan row. -/
theorem judge_allowed_iff (name : Str) {row : PlanRow} {rowCount : Int} {policy : PolicySet} :
    (judge U row name rowCount policy).allowed = true ↔
      Within U policy row (policy.largeTableRowThreshold ≤ rowCount) := by
  simp only [judge]
  constructor
  · intro h
    split_ifs at h with h1 h2 h3 h4
    exact ⟨not_lt.1 h1, fun hr ht hl => h2 ⟨hr, ht, hl⟩,
      fun hr => Bool.eq_false_of_not_eq_true fun hc => h3 ⟨hr, hc⟩,
      fun hr => Bool.eq_false_of_not_eq_true fun hc => h4 ⟨hr, hc⟩⟩
  · intro h
    have h1 : ¬ (summarize row name rowCount).rowsExamined > policy.maxScanRows :=
      not_lt.2 h.scanRows
    have h2 : ¬ (policy.rejectFullScanOnLargeTable = true ∧
        upper U (summarize row name rowCount).accessType = "ALL" ∧
        rowCount ≥ policy.largeTableRowThreshold) := fun h2 => h.fullScan h2.1 h2.2.1 h2.2.2
    have h3 : ¬ (policy.rejectUsingTemporary = true ∧
        contains (summarize row name rowCount).extra "Using temporary" = true) := fun h3 =>
      Bool.false_ne_true ((h.temporary h3.1).symm.trans h3.2)
    have h4 : ¬ (policy.rejectUsingFilesort = true ∧
        contains (summarize row name rowCount).extra "Using filesort" = true) := fun h4 =>
      Bool.false_ne_true ((h.filesort h4.1).symm.trans h4.2)
    rw [if_neg h1, if_neg h2, if_neg h3, if_neg h4]

/-- An evaluation that returns has seen a size and a plan, and judged the first row. -/
theorem evaluate_eq_ok {datasource : DatasourceInstance} {sql name : Str} {policy : PolicySet}
    {decision : ExplainRiskDecision} :
    evaluate U backend datasource sql name policy = .ok decision ↔
      backend.engineError datasource = none ∧ backend.textError ("EXPLAIN " ++ sql) = none ∧
      ∃ rowCount plan, tableRowCount backend datasource name = .ok rowCount ∧
        backend.explain datasource ("EXPLAIN " ++ sql) = .ok plan ∧
        decision = match plan with
          | [] => ⟨false, "EXPLAIN_EMPTY", "EXPLAIN returned no rows", none⟩
          | row :: _ => judge U row name rowCount policy := by
  constructor
  · intro h
    obtain ⟨_, hengine, h⟩ := bind_eq_ok.1 h
    obtain ⟨rowCount, hcount, h⟩ := bind_eq_ok.1 h
    obtain ⟨_, htext, h⟩ := bind_eq_ok.1 h
    obtain ⟨plan, hplan, h⟩ := bind_eq_ok.1 h
    refine ⟨proceed_eq_ok.1 hengine, proceed_eq_ok.1 htext, rowCount, plan, hcount, hplan, ?_⟩
    cases plan <;> (injection h with h; exact h.symm)
  · rintro ⟨hengine, htext, rowCount, plan, hcount, hplan, rfl⟩
    refine bind_eq_ok.2 ⟨(), proceed_eq_ok.2 hengine, bind_eq_ok.2 ⟨rowCount, hcount,
      bind_eq_ok.2 ⟨(), proceed_eq_ok.2 htext, bind_eq_ok.2 ⟨plan, hplan, ?_⟩⟩⟩⟩
    cases plan <;> rfl

end ExplainRiskEvaluator

end SqlGatekeeper
