import SqlGatekeeper.Bootstrap.Lifecycle
import SqlGatekeeper.Services.SwitchedOff
import SqlGatekeeper.Services.TablePolicies
import SqlGatekeeper.Tools.RouteKeys

/-!
# What an answer goes through

Operators can switch records off, give a table a policy of its own, or clear `read_only`; the two
programs that write metadata never do.  So in a store that only they have written, none of these
can be passed by.

* `Metadata.Open`: every record is switched on, and every policy is the default one.
* `Metadata.Open.step`: every step of the gateway keeps a store open.
* `ReadsGuarded`: what an answer to a statement has gone through.
* `readsGuarded_of_run`: every allowed answer of a run from the empty store has.
-/

namespace SqlGatekeeper

open Py Store Runs

/-! ## Open stores -/

/-- Every record is switched on, datasources are read-only, and every policy is the default one. -/
structure Metadata.Open (db : Metadata) : Prop where
  datasources : ∀ d ∈ db.datasources.rows, d.enabled = true ∧ d.readOnly = true
  logicalTables : ∀ t ∈ db.logicalTables.rows,
    t.enabled = true ∧ t.defaultPolicyCode = "default_select_guard"
  physicalRoutes : ∀ r ∈ db.physicalRoutes.rows, r.enabled = true
  policies : ∀ p ∈ db.policies.rows, p = policyRow p.id

theorem createMetadataSchema_open : createMetadataSchema.Open := by
  constructor <;>
  · intro r hr
    exact absurd hr List.not_mem_nil

section Rows

variable {ρ κ σ : Type} {P : ρ → Prop}

/-- What holds of the rows and of the meant one holds behind an upsert. -/
theorem Got.forall {key : ρ → κ} {k : κ} {mk : Nat → ρ} {t t' : Table ρ} {r : ρ}
    (h : Table.Got key k mk t r t') (ht : ∀ s ∈ t.rows, P s) (hmk : ∀ n, P (mk n)) :
    ∀ s ∈ t'.rows, P s := by
  intro s hs
  rcases h.eq_or_insert with rfl | ⟨-, rfl⟩
  · exact ht s hs
  · rcases List.mem_append.1 hs with hs | hs
    · exact ht s hs
    · rw [List.mem_singleton.1 hs]
      exact hmk _

/-- What holds of the rows and of those of the records holds behind an insertion. -/
theorem forall_of_insertAll [DecidableEq κ] {key : ρ → κ}
    {make : σ → Except PyError (Nat → ρ)}
    {records : List σ} {t t' : Table ρ} (h : insertAll key make records t = .ok t')
    (ht : ∀ s ∈ t.rows, P s)
    (hmake : ∀ record ∈ records, ∀ row, make record = .ok row → ∀ n, P (row n)) :
    ∀ s ∈ t'.rows, P s := by
  obtain ⟨added, hrows, hadded, -⟩ := insertAll_ok h
  intro s hs
  rw [hrows] at hs
  rcases List.mem_append.1 hs with hs | hs
  · exact ht s hs
  · obtain ⟨record, hrecord, row, n, hrow, rfl⟩ := exists_of_forall₂_left hadded.forall₂ hs
    exact hmake record hrecord row hrow n

end Rows

section Writers

variable {rt : Runtime} {settings : SeedSettings rt} {db db' : Metadata}

/-- An upsert of a datasource switches it on. -/
theorem Put.open {seed : DatasourceSeed} {t t' : Table DatasourceInstance} {id : Nat}
    (h : Put seed t id t') (ht : ∀ d ∈ t.rows, d.enabled = true ∧ d.readOnly = true) :
    ∀ d ∈ t'.rows, d.enabled = true ∧ d.readOnly = true := by
  intro d hd
  by_cases hcode : d.datasourceCode = seed.datasourceCode
  · have hwritten := h.written d hd
    unfold DatasourceSeed.put at hwritten
    rw [if_pos hcode] at hwritten
    rw [← hwritten]
    exact ⟨rfl, rfl⟩
  · have hmem : d ∈ t'.rows.filter fun d => decide (d.datasourceCode ≠ seed.datasourceCode) :=
      List.mem_filter.2 ⟨hd, decide_eq_true hcode⟩
    rw [h.frame] at hmem
    exact ht d (List.mem_of_mem_filter hmem)

theorem Metadata.Open.seeding (h : db.Open) (hs : Seeding settings db db') : db'.Open := by
  obtain ⟨p, hpolicy⟩ := hs.policy
  obtain ⟨q₁, hroute₁⟩ := hs.userRoute₀
  obtain ⟨q₂, hroute₂⟩ := hs.userRoute₁
  obtain ⟨q₃, hroute₃⟩ := hs.orderRoute₀
  obtain ⟨q₄, hroute₄⟩ := hs.orderRoute₁
  constructor
  case datasources => exact hs.redisPut.open (hs.orderPut.open (hs.userPut.open h.datasources))
  case logicalTables =>
    have huser := Got.forall hs.userTable h.logicalTables fun n => ⟨rfl, rfl⟩
    exact Got.forall hs.orderTable huser fun n => ⟨rfl, rfl⟩
  case physicalRoutes =>
    have hfirst := Got.forall hroute₁ h.physicalRoutes fun n => rfl
    have hsecond := Got.forall hroute₂ hfirst fun n => rfl
    have hthird := Got.forall hroute₃ hsecond fun n => rfl
    exact Got.forall hroute₄ hthird fun n => rfl
  case policies => exact Got.forall hpolicy h.policies fun n => rfl

/-- The default policy is the same one in both programs. -/
theorem Metadata.Open.ensureDefaultPolicy (h : db.Open)
    (hok : SqlGatekeeper.ensureDefaultPolicy db = .ok db') :
    ∀ p ∈ db'.policies.rows, p = policyRow p.id := by
  obtain ⟨found, -, hok⟩ := bind_eq_ok.1 hok
  cases found with
  | some p =>
    injection hok with hok
    subst hok
    exact h.policies
  | none =>
    injection hok with hok
    subst hok
    intro p hp
    rcases List.mem_append.1 hp with hp | hp
    · exact h.policies p hp
    · rw [List.mem_singleton.1 hp]
      rfl

theorem Metadata.Open.synced (h : db.Open) {rows : List TableConfigRow}
    {target : ImportedDatasourceTarget} {bundle : SyncBundle}
    (hbundle : buildSyncBundle rt rows target = .ok bundle)
    (hsync : syncBundleToLocal db bundle = .ok db') : db'.Open := by
  have hs := synced_of_ok hsync
  constructor
  case datasources =>
    refine forall_of_insertAll hs.datasources
      (fun d hd => h.datasources d (List.mem_of_mem_filter hd)) ?_
    rintro record hrecord row hrow n
    injection hrow with hrow
    subst hrow
    obtain ⟨records, -, hrecords⟩ := bind_eq_ok.1 hbundle
    injection hrecords with hrecords
    subst hrecords
    obtain ⟨e, he, rfl⟩ := List.mem_map.1 ((List.perm_insertionSort _ _).mem_iff.1 hrecord)
    obtain ⟨source, hsource⟩ := exists_source_of_mem (by simp) e he
    unfold DatasourceRecord.row
    rw [hsource]
    exact ⟨rfl, rfl⟩
  case logicalTables =>
    refine forall_of_insertAll hs.logicalTables
      (fun t ht => h.logicalTables t (List.mem_of_mem_filter ht)) ?_
    rintro record hrecord row hrow n
    injection hrow with hrow
    subst hrow
    obtain ⟨records, sample, more, -, -, hsample⟩ := exists_groupOfTable hbundle hrecord
    unfold LogicalTableRecord.row
    rw [hsample]
    exact ⟨rfl, rfl⟩
  case physicalRoutes =>
    refine forall_of_insertAll hs.physicalRoutes
      (fun r hr => h.physicalRoutes r (List.mem_of_mem_filter hr)) ?_
    rintro record hrecord row hrow n
    obtain ⟨logicalTableId, -, hrow⟩ := bind_eq_ok.1 hrow
    obtain ⟨datasourceId, -, hrow⟩ := bind_eq_ok.1 hrow
    injection hrow with hrow
    subst hrow
    exact enabled_of_mem hbundle hrecord
  case policies =>
    have hpolicies := h.ensureDefaultPolicy (policies_of_ok hsync)
    exact hpolicies

end Writers

section Runs

variable {env : Deployment} {g g' : Gateway env} {events : List (GatewayEvent env)}

/-- Every step keeps a store open. -/
theorem Metadata.Open.step {event : GatewayEvent env} (h : g.db.Open) (hdb : g.db.Constraints)
    (hstep : Gateway.Step g event g') : g'.db.Open := by
  rcases hstep.db_cases with ⟨-, logs, heq⟩ | ⟨settings, -, hseed⟩ |
    ⟨rows, target, bundle, -, hbundle, hsync⟩
  · rw [heq]
    exact { h with }
  · obtain ⟨hs⟩ := seeding_of_ok hdb.uniqueConstraints hseed
    exact h.seeding hs
  · exact h.synced hbundle hsync

theorem open_of_run (h : Run Gateway.Step (Gateway.idle env createMetadataSchema) events g) :
    g.db.Constraints ∧ g.db.Open := by
  have hinvariant : g.Sound ∧ g.db.Open := by
    refine h.invariant (P := fun _ g => g.Sound ∧ g.db.Open)
      ⟨Gateway.sound_idle createMetadataSchema_constraints, createMetadataSchema_open⟩ ?_
    rintro events m event g' ⟨hsound, hopen⟩ hstep
    exact ⟨hsound.step hstep, hopen.step hsound.constraints hstep⟩
  exact ⟨hinvariant.1.constraints, hinvariant.2⟩

end Runs

/-! ## Answers -/

section Answers

variable {env : Deployment} {db : Metadata} {response : SqlDecisionResponse}

/-- The statement of a request to one of the SQL endpoints. -/
def ApiRequest.sqlRequest {rt : Runtime} : ApiRequest rt → Option (SqlRequest rt)
  | .checkSql request => some request
  | .executeSql request => some request
  | _ => none

/-- What an answer to a statement has gone through: records that are switched on, a read-only
datasource, and, for every table, the policy that the table names. -/
structure ReadsGuarded (env : Deployment) (db : Metadata) (request : SqlRequest env.rt)
    (response : SqlDecisionResponse) (parsed : ParsedSql) (decision : RouteDecision) : Prop where
  read : parse env.rt request.sql.1 = .ok parsed
  resolved : resolve env.rt db parsed request.routeContext.1 = .ok decision
  routed : decision.allowed = true
  physicalTables : response.physicalTables = decision.targets.map (·.physicalTableName)
  opened : ∀ target ∈ decision.targets, ∃ route owner datasource,
    target.Through db route owner datasource ∧ route.enabled = true ∧ owner.enabled = true ∧
      datasource.enabled = true ∧ datasource.readOnly = true
  policies : ∀ target ∈ decision.targets, ∃ policy, target.OwnPolicy db policy ∧
    policy.AcceptsTarget db (ExplainRiskEvaluator.evaluate env.rt.toUnicodeData env.backend) parsed
      response.rewrittenSql target
  rows : response.rows.length ≤ 1000 ∧ response.rowCount = response.rows.length

/-- An allowed check on an open store goes through it. -/
theorem Metadata.Open.guarded (h : db.Open) (hdb : db.Constraints) {evaluate : Evaluator}
    {sql : Str} {routeContext : JsonDict} {parsed : ParsedSql} {decision : RouteDecision}
    {context : FilterContext}
    (hrun : SqlCheckService.AllowedRun env.rt db evaluate sql routeContext parsed
      decision context) :
    ∀ target ∈ decision.targets,
      (∃ route owner datasource, target.Through db route owner datasource ∧
        route.enabled = true ∧ owner.enabled = true ∧ datasource.enabled = true ∧
        datasource.readOnly = true) ∧
      ∃ policy, target.OwnPolicy db policy ∧ policy.AcceptsTarget db evaluate parsed
        (rewrite parsed decision.rewritePlans) target := by
  intro target htarget
  obtain ⟨-, hall⟩ := resolve_allowed hrun.resolved hrun.routed
  obtain ⟨table, -, diagnostic, htable⟩ := exists_of_forall₂_right hall htarget
  obtain ⟨route, owner, datasource, through, hroute, hdatasource, -⟩ :=
    (resolveTable_via htable).through hdb
  obtain ⟨howner, hcode⟩ := h.logicalTables owner through.owns.1
  refine ⟨⟨route, owner, datasource, through, hroute, howner, hdatasource,
    (h.datasources datasource through.placed.1).2⟩, ?_⟩
  obtain ⟨policy, hacc⟩ := hrun.acceptable
  obtain ⟨hmem, hpcode, henabled⟩ := Metadata.getEnabledPolicyByCode_eq_some hacc.policyEnabled
  exact ⟨policy, ⟨hmem, henabled, owner, through.owns.1, through.named,
    hcode.trans hpcode.symm⟩, loaded_acceptsTarget hacc htarget⟩

/-- A cap of a policy is kept by what is executed. -/
theorem capped_length {rows : List JsonDict} {maxLimit executionMs : Int} (hmax : 0 ≤ maxLimit) :
    ((SqlExecutionService.capped rows maxLimit executionMs).rows.length : Int) ≤ maxLimit ∧
      (SqlExecutionService.capped rows maxLimit executionMs).rowCount =
        (SqlExecutionService.capped rows maxLimit executionMs).rows.length := by
  unfold SqlExecutionService.capped
  split
  · exact ⟨hmax, rfl⟩
  · rename_i hrows
    exact ⟨not_lt.1 hrows, rfl⟩

theorem Metadata.Open.rows_le (h : db.Open) {executionMs : Int} {decision : CheckResult}
    {result : ExecuteResult} (hallowed : result.allowed = true)
    (hresult : (SqlExecutionService.execute db env.backend executionMs decision).result =
      .ok result) : result.rows.length ≤ 1000 ∧ result.rowCount = result.rows.length := by
  rcases @SqlExecutionService.execute_cases db env.backend executionMs decision with
    ⟨d, policy, hreaches, -⟩ | ⟨-, hnone⟩
  · obtain ⟨-, all, -, rfl⟩ := hreaches.result_eq_ok.1 hresult
    obtain ⟨hmem, -⟩ := Metadata.getEnabledPolicyByCode_eq_some hreaches.policy
    have hmax : policy.maxLimit = 1000 := by rw [h.policies policy hmem]; rfl
    rw [hmax]
    obtain ⟨hrows, hcount⟩ := @capped_length
      ((all.take ((1000 : Int) + 1).toNat).map dictRow) 1000 executionMs
      (by omega)
    exact ⟨by omega, hcount⟩
  · exact absurd hallowed (by simp [(hnone result hresult).1])

/-- The check and the execution behind an answer to a statement. -/
inductive SqlAnswer (env : Deployment) (db : Metadata) (request : SqlRequest env.rt) :
    SqlDecisionResponse → Prop where
  | checked {decision : CheckResult} (hcheck : runCheck env db request = .ok decision) :
      SqlAnswer env db request (checkResponse env request decision)
  | executed {decision : CheckResult} {result : ExecuteResult}
      (hcheck : runCheck env db request = .ok decision) (hallowed : decision.allowed = true)
      (hexecute : (SqlExecutionService.execute db env.backend env.executionMs decision).result =
        .ok result) : SqlAnswer env db request (executeResponse env request decision result)

/-- A response to a statement is an answer to one. -/
theorem sqlAnswer_of_serve {request : ApiRequest env.rt}
    (hserve : (serve env db request).map Prod.fst = .ok (.sql response)) :
    ∃ sqlRequest, request.sqlRequest = some sqlRequest ∧
      SqlAnswer env db sqlRequest response := by
  obtain ⟨⟨answer, written⟩, hserve, hanswer⟩ := map_eq_ok.1 hserve
  cases request with
  | checkSql request =>
    obtain ⟨⟨r, written'⟩, h, heq⟩ := map_eq_ok.1 hserve
    cases heq
    cases hanswer
    obtain ⟨decision, hcheck, h⟩ := bind_eq_ok.1 h
    cases h
    exact ⟨request, rfl, .checked hcheck⟩
  | executeSql request =>
    obtain ⟨⟨r, written'⟩, h, heq⟩ := map_eq_ok.1 hserve
    cases heq
    cases hanswer
    obtain ⟨decision, hcheck, h⟩ := bind_eq_ok.1 h
    by_cases ha : decision.allowed = true
    · rw [if_pos ha] at h
      obtain ⟨result, hexecute, h⟩ := bind_eq_ok.1 h
      cases h
      exact ⟨request, rfl, .executed hcheck ha hexecute⟩
    · rw [if_neg ha] at h
      cases h
      exact ⟨request, rfl, .checked hcheck⟩
  | checkRedis request =>
    obtain ⟨⟨r, written'⟩, -, heq⟩ := map_eq_ok.1 hserve
    cases heq
    cases hanswer
  | executeRedis request =>
    obtain ⟨⟨r, written'⟩, -, heq⟩ := map_eq_ok.1 hserve
    cases heq
    cases hanswer

/-- An allowed answer on an open store has gone through what it should. -/
theorem Metadata.Open.readsGuarded (h : db.Open) (hdb : db.Constraints)
    {request : SqlRequest env.rt} (hallowed : response.allowed = true)
    (hanswer : SqlAnswer env db request response) :
    ∃ parsed decision, ReadsGuarded env db request response parsed decision := by
  cases hanswer with
  | checked hcheck =>
    obtain ⟨parsed, decision, context, hrun, rfl⟩ :=
      SqlCheckService.check_allowed_iff.1 ⟨hcheck, hallowed⟩
    have hguarded := h.guarded hdb hrun
    exact ⟨parsed, decision, hrun.read, hrun.resolved, hrun.routed, rfl,
      fun target htarget => (hguarded target htarget).1,
      fun target htarget => (hguarded target htarget).2, Nat.zero_le _, rfl⟩
  | executed hcheck ha hexecute =>
    obtain ⟨parsed, decision, context, hrun, rfl⟩ :=
      SqlCheckService.check_allowed_iff.1 ⟨hcheck, ha⟩
    have hguarded := h.guarded hdb hrun
    exact ⟨parsed, decision, hrun.read, hrun.resolved, hrun.routed, rfl,
      fun target htarget => (hguarded target htarget).1,
      fun target htarget => (hguarded target htarget).2, h.rows_le hallowed hexecute⟩

variable {events : List (GatewayEvent env)} {g : Gateway env}

/-- In a run from the empty store, every statement that is answered as allowed was read, when it
arrived, through enabled routes of enabled tables on enabled, read-only datasources, under the
policy that each of its tables names, and no answer has more than a thousand rows. -/
theorem readsGuarded_of_run (h : Run Gateway.Step (Gateway.idle env createMetadataSchema) events g)
    {number : Nat} {request : ApiRequest env.rt}
    (hanswered : .answered number request (.sql response) ∈ events)
    (hallowed : response.allowed = true) :
    ∃ first rest m sqlRequest parsed decision,
      events = first ++ .opened number request :: rest ∧
      Run Gateway.Step (Gateway.idle env createMetadataSchema) first m ∧
      request.sqlRequest = some sqlRequest ∧
      ReadsGuarded env m.db sqlRequest response parsed decision := by
  obtain ⟨before, after, rfl⟩ := List.append_of_mem hanswered
  obtain ⟨m, m', hbefore, hstep, -⟩ := h.exists_prefix
  obtain ⟨s, hs, rfl, rfl, hserve⟩ := hstep.exists_session rfl
  obtain ⟨first, rest, o, rfl, hrun, hsnapshot⟩ := Gateway.opened_of_run hbefore s hs
  rw [hsnapshot] at hserve
  obtain ⟨hdb, hopen⟩ := open_of_run hrun
  obtain ⟨sqlRequest, hrequest, hanswer⟩ := sqlAnswer_of_serve hserve
  obtain ⟨parsed, decision, hguarded⟩ := hopen.readsGuarded hdb hallowed hanswer
  exact ⟨first, rest ++ .answered s.number s.request (.sql response) :: after, o, sqlRequest,
    parsed, decision, by simp, hrun, hrequest, hguarded⟩

end Answers

/-! ## A first answer -/

/-- A container starts on an empty database, and a statement is executed. -/
theorem exists_firstAnswer : ∃ response g, response.allowed = true ∧
    Run Gateway.Step (Gateway.idle exampleDeployment createMetadataSchema)
      [.seeded defaultSeedSettings, .opened 0 (.executeSql exampleRequest), .inserted 0,
        .answered 0 (.executeSql exampleRequest) (.sql response)] g := by
  have hrun : ((seedReferenceData defaultSeedSettings createMetadataSchema).bind fun seeded =>
      (executeSql exampleDeployment seeded exampleRequest).map fun answer => answer.1.allowed) =
      .ok true := by
    decide +kernel
  obtain ⟨seeded, hseed, hrun⟩ := bind_eq_ok.1 hrun
  obtain ⟨⟨response, written⟩, hserve, hallowed⟩ := map_eq_ok.1 hrun
  have hserve' : serve exampleDeployment seeded (.executeSql exampleRequest) =
      .ok (.sql response, written) := by
    show (executeSql exampleDeployment seeded exampleRequest).map _ = _
    rw [hserve]
    rfl
  have hfirst : Run Gateway.Step (Gateway.idle exampleDeployment createMetadataSchema)
      ([] ++ [.seeded defaultSeedSettings] ++ [.opened 0 (.executeSql exampleRequest)]) _ :=
    (Run.nil.snoc (.seeded hseed)).snoc (.opened _ _)
  obtain ⟨g, hanswered⟩ := Gateway.exists_answered hfirst (s := ⟨0, _, _⟩)
    List.mem_cons_self
    List.not_mem_nil hserve'
  exact ⟨response, g, hallowed, hanswered⟩

/-- It has gone through what it should. -/
theorem readsGuarded_firstAnswer : ∃ db response parsed decision,
    ReadsGuarded exampleDeployment db exampleRequest response parsed decision := by
  obtain ⟨response, g, hallowed, hrun⟩ := exists_firstAnswer
  obtain ⟨first, rest, m, sqlRequest, parsed, decision, -, -, hrequest, hguarded⟩ :=
    @readsGuarded_of_run exampleDeployment response _ g hrun 0 (.executeSql exampleRequest)
      (by simp) hallowed
  cases hrequest
  exact ⟨m.db, response, parsed, decision, hguarded⟩

end SqlGatekeeper
