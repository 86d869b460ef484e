import SqlGatekeeper.Api.Auditing
import SqlGatekeeper.Bootstrap.Meta
import SqlGatekeeper.Runs.Run
import SqlGatekeeper.Tools.SpyTableConfigSync

/-!
# Concurrent requests

Every request has a session of its own.  The session reads the metadata as they were when it
began.  Its audit row is inserted, under the next id of the log, and committed in two steps; in
between, and before, other requests and the two programs that write metadata may commit.

* `Gateway`: the store, the requests in flight and the rows they have inserted; `Gateway.Step`:
  what may happen next.
* `Metadata.commit`: a commit of what a session added.
* `serve_auditLogs`: the audit log is written and never read.
-/

namespace SqlGatekeeper

open Py Store Runs

/-! ## The gateway -/

/-- A request in flight, and the metadata that its session reads. -/
structure ApiSession (env : Deployment) where
  number : Nat
  request : ApiRequest env.rt
  snapshot : Metadata

/-- The store, the requests in flight, and the sessions whose audit row is inserted and not yet
committed, each with the id that the row was given. -/
structure Gateway (env : Deployment) where
  db : Metadata
  sessions : Table (ApiSession env)
  inserted : List (Nat × Nat)

/-- What can be seen of a step. -/
inductive GatewayEvent (env : Deployment) where
  | opened (number : Nat) (request : ApiRequest env.rt)
  | inserted (number : Nat)
  | answered (number : Nat) (request : ApiRequest env.rt) (response : ApiResponse)
  | failed (number : Nat) (request : ApiRequest env.rt) (error : PyError)
  | dropped (number : Nat) (request : ApiRequest env.rt)
  | seeded (settings : SeedSettings env.rt)
  | imported (rows : List TableConfigRow) (target : ImportedDatasourceTarget)

/-- The end of `session.commit()`: what a session added to the audit log can be seen from now on,
under the id that the log gave it. -/
def Metadata.commit (snapshot written current : Metadata) (id : Nat) : Metadata :=
  { current with auditLogs := { current.auditLogs with
      rows := current.auditLogs.rows ++ (written.auditLogs.rows.drop
        snapshot.auditLogs.rows.length).map fun row => { row with id } } }

namespace Gateway

variable {env : Deployment}

/-- A session begins. -/
def opening (g : Gateway env) (request : ApiRequest env.rt) : Gateway env :=
  { g with sessions := g.sessions.insert fun number => ⟨number, request, g.db⟩ }

/-- The beginning of `session.commit()`: the audit row is inserted under the next id, which is
given to no other row, whatever becomes of this one. -/
def inserting (g : Gateway env) (number : Nat) : Gateway env where
  db := { g.db with auditLogs := { g.db.auditLogs with nextId := g.db.auditLogs.nextId + 1 } }
  sessions := g.sessions
  inserted := g.inserted ++ [(number, g.db.auditLogs.nextId)]

/-- A session ends, and leaves a store behind. -/
def closing (g : Gateway env) (number : Nat) (db : Metadata) : Gateway env :=
  ⟨db, g.sessions.delete fun s => s.number = number, g.inserted.filter fun p => p.1 ≠ number⟩

/-- The steps: a request arrives; its handler returns and its audit row is inserted; it is answered
behind the commit, or its handler raises, or its process ends before the commit; the metadata are
seeded, or a bundle is imported. -/
inductive Step : Gateway env → GatewayEvent env → Gateway env → Prop where
  | opened (g : Gateway env) (request : ApiRequest env.rt) :
      Step g (.opened g.sessions.nextId request) (g.opening request)
  | inserted {g : Gateway env} {s : ApiSession env} {response : ApiResponse} {written : Metadata}
      (hs : s ∈ g.sessions.rows) (honce : s.number ∉ g.inserted.map (·.1))
      (hserve : serve env s.snapshot s.request = .ok (response, written)) :
      Step g (.inserted s.number) (g.inserting s.number)
  | answered {g : Gateway env} {s : ApiSession env} {response : ApiResponse} {written : Metadata}
      {id : Nat} (hs : s ∈ g.sessions.rows) (hserve : serve env s.snapshot s.request =
        .ok (response, written)) (hid : (s.number, id) ∈ g.inserted) :
      Step g (.answered s.number s.request response)
        (g.closing s.number (s.snapshot.commit written g.db id))
  | failed {g : Gateway env} {s : ApiSession env} {error : PyError} (hs : s ∈ g.sessions.rows)
      (hserve : serve env s.snapshot s.request = .error error) :
      Step g (.failed s.number s.request error) (g.closing s.number g.db)
  | dropped {g : Gateway env} {s : ApiSession env} (hs : s ∈ g.sessions.rows) :
      Step g (.dropped s.number s.request) (g.closing s.number g.db)
  | seeded {g : Gateway env} {settings : SeedSettings env.rt} {db' : Metadata}
      (hseed : seedReferenceData settings g.db = .ok db') :
      Step g (.seeded settings) { g with db := db' }
  | imported {g : Gateway env} {rows : List TableConfigRow} {target : ImportedDatasourceTarget}
      {bundle : SyncBundle} {db' : Metadata}
      (hbundle : buildSyncBundle env.rt rows target = .ok bundle)
      (hsync : syncBundleToLocal g.db bundle = .ok db') :
      Step g (.imported rows target) { g with db := db' }

/-- No request is in flight yet. -/
def idle (env : Deployment) (db : Metadata) : Gateway env := ⟨db, ⟨[], 0⟩, []⟩

end Gateway

/-! ## The audit log is not read -/

section AuditLogs

variable {env : Deployment} {db : Metadata} {logs : Table RequestAuditLog}

/-- A session that added one row commits that row. -/
theorem Metadata.commit_addAuditLog (db current : Metadata) (row : RequestAuditLog) (id : Nat) :
    db.commit (db.addAuditLog row) current id =
      { current with auditLogs :=
          ⟨current.auditLogs.rows ++ [{ row with id }], current.auditLogs.nextId⟩ } := by
  unfold commit
  simp [addAuditLog]

/-- What was added to the audit log of a snapshot, added to that of another store. -/
def Metadata.append (snapshot written current : Metadata) : Metadata :=
  (written.auditLogs.rows.drop snapshot.auditLogs.rows.length).foldl Metadata.addAuditLog current

theorem Metadata.append_addAuditLog (db current : Metadata) (row : RequestAuditLog) :
    db.append (db.addAuditLog row) current = current.addAuditLog row := by
  unfold append
  simp [addAuditLog]

theorem PhysicalTableValidateFilter.applyTo_congr {db' : Metadata}
    (h : ∀ code, db'.getEnabledByCode code = db.getEnabledByCode code)
    (targets : List RouteTarget) (context : FilterContext) :
    applyTo db' targets context = applyTo db targets context := by
  induction targets generalizing context with
  | nil => rfl
  | cons target targets ih =>
    unfold applyTo
    simp only [h, ih]

/-- A check reads the metadata through the resolution, the default policy and the datasources. -/
theorem SqlCheckService.check_congr {db' : Metadata} {sql : Str} {routeContext : JsonDict}
    (hresolve : ∀ parsed, parse env.rt sql = .ok parsed →
      resolve env.rt db' parsed routeContext = resolve env.rt db parsed routeContext)
    (hpolicy : db'.getEnabledPolicyByCode defaultPolicyCode =
      db.getEnabledPolicyByCode defaultPolicyCode)
    (hcode : ∀ code, db'.getEnabledByCode code = db.getEnabledByCode code)
    (evaluate : Evaluator) :
    check env.rt db' evaluate sql routeContext = check env.rt db evaluate sql routeContext := by
  have hfilters : filters db' evaluate = filters db evaluate := by
    have hload : PolicyLoadFilter.apply db' = PolicyLoadFilter.apply db := by
      funext context
      simp only [PolicyLoadFilter.apply, hpolicy]
    have hvalidate : PhysicalTableValidateFilter.apply db' =
        PhysicalTableValidateFilter.apply db := by
      funext context
      exact PhysicalTableValidateFilter.applyTo_congr hcode _ context
    simp only [filters, hload, hvalidate]
  unfold check
  cases hparse : parse env.rt sql with
  | error e => rfl
  | ok parsed => simp only [bind, Except.bind, hresolve parsed hparse, hfilters]

theorem resolve_auditLogs (parsed : ParsedSql) (routeContext : JsonDict) :
    resolve env.rt { db with auditLogs := logs } parsed routeContext =
      resolve env.rt db parsed routeContext :=
  resolve_congr fun _ _ => rfl

theorem runCheck_auditLogs (request : SqlRequest env.rt) :
    runCheck env { db with auditLogs := logs } request = runCheck env db request := by
  unfold runCheck
  exact SqlCheckService.check_congr (fun _ _ => resolve_auditLogs _ _) rfl (fun _ => rfl) _

/-- The same response, and the same row behind another log. -/
def recordedIn (db : Metadata) (logs : Table RequestAuditLog) {α : Type}
    (answer : α × Metadata) :
    α × Metadata :=
  (answer.1, db.append answer.2 { db with auditLogs := logs })

theorem recordedIn_addAuditLog {α : Type} (a : α) (row : RequestAuditLog) :
    recordedIn db logs (a, db.addAuditLog row) =
      (a, ({ db with auditLogs := logs } : Metadata).addAuditLog row) := by
  rw [recordedIn, Metadata.append_addAuditLog]

theorem checkSql_auditLogs (request : SqlRequest env.rt) :
    checkSql env { db with auditLogs := logs } request =
      (checkSql env db request).map (recordedIn db logs) := by
  unfold checkSql
  rw [runCheck_auditLogs]
  cases runCheck env db request with
  | error e => rfl
  | ok decision => exact congrArg Except.ok (recordedIn_addAuditLog _ _).symm

theorem executeSql_auditLogs (request : SqlRequest env.rt) :
    executeSql env { db with auditLogs := logs } request =
      (executeSql env db request).map (recordedIn db logs) := by
  unfold executeSql
  rw [runCheck_auditLogs]
  cases runCheck env db request with
  | error e => rfl
  | ok decision =>
    simp only [bind, Except.bind]
    split
    · have hexecute : SqlExecutionService.execute { db with auditLogs := logs } env.backend
          env.executionMs decision =
          SqlExecutionService.execute db env.backend env.executionMs decision := rfl
      rw [hexecute]
      cases (SqlExecutionService.execute db env.backend env.executionMs decision).result with
      | error e => rfl
      | ok executeResult => exact congrArg Except.ok (recordedIn_addAuditLog _ _).symm
    · exact congrArg Except.ok (recordedIn_addAuditLog _ _).symm

theorem checkRedis_auditLogs (request : RedisRequest env.rt) :
    checkRedis env { db with auditLogs := logs } request =
      (checkRedis env db request).map (recordedIn db logs) := by
  unfold checkRedis
  rw [show runRedisCheck env { db with auditLogs := logs } request = runRedisCheck env db request
    from rfl]
  cases runRedisCheck env db request with
  | error e => rfl
  | ok decision => exact congrArg Except.ok (recordedIn_addAuditLog _ _).symm

theorem executeRedis_auditLogs (request : RedisRequest env.rt) :
    executeRedis env { db with auditLogs := logs } request =
      (executeRedis env db request).map (recordedIn db logs) := by
  unfold executeRedis
  rw [show runRedisCheck env { db with auditLogs := logs } request = runRedisCheck env db request
    from rfl]
  cases runRedisCheck env db request with
  | error e => rfl
  | ok decision =>
    simp only [bind, Except.bind]
    split
    · have hexecute : RedisGatekeeperService.execute env.rt env.settings
          (some { db with auditLogs := logs }) env.redis env.executionMs decision =
          RedisGatekeeperService.execute env.rt env.settings (some db) env.redis env.executionMs
            decision := rfl
      rw [hexecute]
      cases (RedisGatekeeperService.execute env.rt env.settings (some db) env.redis
          env.executionMs decision).result with
      | error e => rfl
      | ok executeResult => exact congrArg Except.ok (recordedIn_addAuditLog _ _).symm
    · exact congrArg Except.ok (recordedIn_addAuditLog _ _).symm

/-- A request is served on another audit log as on this one; its row comes behind that log. -/
theorem serve_auditLogs (db : Metadata) (logs : Table RequestAuditLog)
    (request : ApiRequest env.rt) :
    serve env { db with auditLogs := logs } request =
      (serve env db request).map (recordedIn db logs) := by
  have hmap : ∀ {α : Type} (f : α → ApiResponse) (x : Except PyError (α × Metadata)),
      (x.map (recordedIn db logs)).map (Prod.map f id) =
        (x.map (Prod.map f id)).map (recordedIn db logs) := by
    intro α f x
    cases x <;> rfl
  cases request with
  | checkSql request => simp only [serve, checkSql_auditLogs, hmap]
  | executeSql request => simp only [serve, executeSql_auditLogs, hmap]
  | checkRedis request => simp only [serve, checkRedis_auditLogs, hmap]
  | executeRedis request => simp only [serve, executeRedis_auditLogs, hmap]

end AuditLogs

end SqlGatekeeper
