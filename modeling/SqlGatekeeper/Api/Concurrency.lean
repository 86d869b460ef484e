import SqlGatekeeper.Api.Sessions
import SqlGatekeeper.Tools.SyncedStore

/-!
# What concurrent requests leave

* `Gateway.OwnIds`: audit rows have ids of their own; `AuditTrail`: what is added to the audit log;
  `auditTrail_of_run`: one row for every answered request, whatever runs beside it.
* `opened_of_run`: a session reads the metadata of the moment it began.
* `serially`: transactions one behind the other; `serially_of_run`: requests in flight together
  answer what they would one behind the other, and leave the same up to the ids of the audit rows.
-/

namespace SqlGatekeeper

open Py Store Runs

variable {env : Deployment} {g g' : Gateway env} {events : List (GatewayEvent env)}

/-! ## Events -/

namespace GatewayEvent

/-- A request that is answered. -/
def answer : GatewayEvent env → Option (ApiRequest env.rt × ApiResponse)
  | .answered _ request response => some (request, response)
  | _ => none

/-- A request whose handler ended, and how. -/
def verdict : GatewayEvent env → Option (Nat × ApiRequest env.rt × Except PyError ApiResponse)
  | .answered number request response => some (number, request, .ok response)
  | .failed number request error => some (number, request, .error error)
  | _ => none

/-- The metadata are written. -/
def Writes : GatewayEvent env → Prop
  | .seeded _ => True
  | .imported _ _ => True
  | _ => False

end GatewayEvent

/-! ## Commits -/

theorem audited_of_serve {db db' : Metadata} {request : ApiRequest env.rt} {response : ApiResponse}
    (h : serve env db request = .ok (response, db')) :
    Audited db db' (request.auditRequest env) response.outcome := by
  obtain ⟨response', written, h', haudited⟩ := auditedOnce_iff_returns.2 ⟨_, h⟩
  rw [h] at h'
  obtain ⟨rfl, rfl⟩ := Prod.mk.inj (Except.ok.inj h')
  exact haudited

/-- What is audited is one row more. -/
theorem Audited.eq_addAuditLog {db db' : Metadata} {request : AuditRequest} {outcome : Outcome}
    (h : Audited db db' request outcome) :
    ∃ row : RequestAuditLog, row.Records request outcome ∧ db' = db.addAuditLog row := by
  obtain ⟨row, hid, hrecords, rfl⟩ := h
  refine ⟨row, hrecords, ?_⟩
  rw [Metadata.addAuditLog, Table.insert, ← hid]

/-- A commit behind other commits appends this row, under the id it was given. -/
theorem Audited.commit {snapshot written : Metadata} {request : AuditRequest} {outcome : Outcome}
    (h : Audited snapshot written request outcome) (current : Metadata) (id : Nat) :
    ∃ row : RequestAuditLog, row.id = id ∧ row.Records request outcome ∧
      snapshot.commit written current id = { current with auditLogs :=
        ⟨current.auditLogs.rows ++ [row], current.auditLogs.nextId⟩ } := by
  obtain ⟨row, hrecords, rfl⟩ := h.eq_addAuditLog
  exact ⟨{ row with id }, rfl, { hrecords with }, Metadata.commit_addAuditLog ..⟩

/-! ## Writers and the audit log -/

section Writers

variable (logs : Table RequestAuditLog)

/-- A step that does the same, and what comes behind it. -/
theorem bind_map_congr {α β : Type} {f : α → α} {g : β → β} {x x' : Except PyError α}
    {k k' : α → Except PyError β} (hx : x' = x.map f) (hk : ∀ a, k' (f a) = (k a).map g) :
    x' >>= k' = (x >>= k).map g := by
  subst hx
  cases x with
  | error e => rfl
  | ok a => exact hk a

theorem bind_congr_map {α β : Type} {g : β → β} (x : Except PyError α)
    {k k' : α → Except PyError β} (hk : ∀ a, k' a = (k a).map g) :
    x >>= k' = (x >>= k).map g := by
  cases x with
  | error e => rfl
  | ok a => exact hk a

/-- The same metadata with another audit log. -/
def Metadata.withAuditLogs (db : Metadata) : Metadata := { db with auditLogs := logs }

theorem upsertDatasource_auditLogs (seed : DatasourceSeed) (db : Metadata) :
    upsertDatasource seed (db.withAuditLogs logs) =
      (upsertDatasource seed db).map (Prod.map id (Metadata.withAuditLogs logs)) := by
  refine bind_congr_map _ fun found => ?_
  cases found with
  | none => exact bind_congr_map _ fun _ => rfl
  | some d => rfl

theorem upsertPolicy_auditLogs (db : Metadata) :
    upsertPolicy (db.withAuditLogs logs) = (upsertPolicy db).map (Metadata.withAuditLogs logs) :=
  bind_congr_map _ fun _ => rfl

theorem upsertLogicalTable_auditLogs (name description source template : Str) (db : Metadata) :
    upsertLogicalTable name description source template (db.withAuditLogs logs) =
      (upsertLogicalTable name description source template db).map
        (Prod.map id (Metadata.withAuditLogs logs)) :=
  bind_congr_map _ fun _ => rfl

theorem upsertRouteFactor_auditLogs (table : Nat) (name type key : Str) (db : Metadata) :
    upsertRouteFactor table name type key (db.withAuditLogs logs) =
      (upsertRouteFactor table name type key db).map (Metadata.withAuditLogs logs) :=
  bind_congr_map _ fun _ => rfl

theorem upsertRouteRule_auditLogs (table : Nat) (name type expression format : Str)
    (db : Metadata) :
    upsertRouteRule table name type expression format (db.withAuditLogs logs) =
      (upsertRouteRule table name type expression format db).map (Metadata.withAuditLogs logs) :=
  bind_congr_map _ fun _ => rfl

theorem upsertPhysicalRoute_auditLogs (table : Nat) (value name : Str) (datasource : Nat)
    (db : Metadata) :
    upsertPhysicalRoute table value name datasource (db.withAuditLogs logs) =
      (upsertPhysicalRoute table value name datasource db).map (Metadata.withAuditLogs logs) :=
  bind_congr_map _ fun _ => rfl

/-- A seeding does the same on every audit log, and leaves it alone. -/
theorem seedReferenceData_auditLogs {rt : Runtime} (settings : SeedSettings rt) (db : Metadata) :
    seedReferenceData settings (db.withAuditLogs logs) =
      (seedReferenceData settings db).map (Metadata.withAuditLogs logs) := by
  unfold seedReferenceData
  refine bind_map_congr (upsertPolicy_auditLogs logs db) fun db => ?_
  refine bind_map_congr (upsertDatasource_auditLogs logs _ db) fun (userDs, db) => ?_
  refine bind_map_congr (upsertDatasource_auditLogs logs _ db) fun (orderDs, db) => ?_
  refine bind_congr_map _ fun name => ?_
  refine bind_map_congr (upsertDatasource_auditLogs logs _ db) fun (redisDs, db) => ?_
  refine bind_map_congr (upsertLogicalTable_auditLogs logs _ _ _ _ db) fun (user, db) => ?_
  refine bind_map_congr (upsertLogicalTable_auditLogs logs _ _ _ _ db) fun (order, db) => ?_
  refine bind_map_congr (upsertRouteFactor_auditLogs logs _ _ _ _ db) fun db => ?_
  refine bind_map_congr (upsertRouteFactor_auditLogs logs _ _ _ _ db) fun db => ?_
  refine bind_map_congr (upsertRouteRule_auditLogs logs _ _ _ _ _ db) fun db => ?_
  refine bind_map_congr (upsertRouteRule_auditLogs logs _ _ _ _ _ db) fun db => ?_
  refine bind_map_congr (upsertPhysicalRoute_auditLogs logs _ _ _ _ db) fun db => ?_
  refine bind_map_congr (upsertPhysicalRoute_auditLogs logs _ _ _ _ db) fun db => ?_
  refine bind_map_congr (upsertPhysicalRoute_auditLogs logs _ _ _ _ db) fun db => ?_
  exact upsertPhysicalRoute_auditLogs logs _ _ _ _ db

theorem seeding_auditLogs {rt : Runtime} {settings : SeedSettings rt} {db db' : Metadata}
    (h : seedReferenceData settings db = .ok db') : db'.auditLogs = db.auditLogs := by
  have hsame := seedReferenceData_auditLogs db.auditLogs settings db
  have hdb : db.withAuditLogs db.auditLogs = db := rfl
  rw [hdb, h] at hsame
  have heq : db' = db'.withAuditLogs db.auditLogs := Except.ok.inj hsame
  rw [heq]
  rfl

theorem ensureDefaultPolicy_auditLogs (db : Metadata) :
    ensureDefaultPolicy (db.withAuditLogs logs) =
      (ensureDefaultPolicy db).map (Metadata.withAuditLogs logs) := by
  refine bind_congr_map _ fun found => ?_
  cases found <;> rfl

theorem deletePreviousImport_auditLogs (db : Metadata) :
    deletePreviousImport (db.withAuditLogs logs) =
      (deletePreviousImport db).map (Metadata.withAuditLogs logs) := by
  dsimp only [deletePreviousImport]
  rw [apply_ite (Except.map (Metadata.withAuditLogs logs))]
  rfl

/-- So does an import. -/
theorem syncBundleToLocal_auditLogs (db : Metadata) (bundle : SyncBundle) :
    syncBundleToLocal (db.withAuditLogs logs) bundle =
      (syncBundleToLocal db bundle).map (Metadata.withAuditLogs logs) := by
  unfold syncBundleToLocal
  refine bind_map_congr (ensureDefaultPolicy_auditLogs logs db) fun db => ?_
  refine bind_map_congr (deletePreviousImport_auditLogs logs db) fun db => ?_
  exact bind_congr_map _ fun _ => bind_congr_map _ fun _ => bind_congr_map _ fun _ =>
    bind_congr_map _ fun _ => bind_congr_map _ fun _ => rfl

end Writers

/-! ## Ids of their own -/

namespace Gateway

/-- The ids of the audit rows, committed or only inserted. -/
def auditIds (g : Gateway env) : List Nat :=
  g.db.auditLogs.rows.map (·.id) ++ g.inserted.map (·.2)

/-- Every audit row has an id of its own, which the log has given. -/
structure OwnIds (g : Gateway env) : Prop where
  distinct : g.auditIds.Nodup
  given : ∀ id ∈ g.auditIds, id < g.db.auditLogs.nextId

theorem ownIds_idle {db : Metadata} (h : db.auditLogs.Fresh (·.id)) : (idle env db).OwnIds := by
  have hids : (idle env db).auditIds = db.auditLogs.rows.map (·.id) := List.append_nil _
  refine ⟨hids ▸ h.unique, fun id hid => ?_⟩
  obtain ⟨row, hrow, rfl⟩ := List.mem_map.1 (hids ▸ hid)
  exact h.lt_nextId row hrow

theorem OwnIds.fresh (h : g.OwnIds) : g.db.auditLogs.Fresh (·.id) where
  lt_nextId _ hrow := h.given _ (List.mem_append_left _ (List.mem_map_of_mem hrow))
  unique := (List.nodup_append'.1 h.distinct).1

/-- No rows are added. -/
theorem OwnIds.of_subperm (h : g.OwnIds) (hids : g'.auditIds.Subperm g.auditIds)
    (hnextId : g'.db.auditLogs.nextId = g.db.auditLogs.nextId) : g'.OwnIds := by
  refine ⟨?_, fun id hid => hnextId ▸ h.given id (hids.subset hid)⟩
  obtain ⟨l, hperm, hsub⟩ := hids
  exact hperm.nodup_iff.1 (h.distinct.sublist hsub)

/-- A pair, and those with another number. -/
theorem cons_filter_subperm {l : List (Nat × Nat)} {number id : Nat} (hp : (number, id) ∈ l) :
    (id :: (l.filter fun p => p.1 ≠ number).map (·.2)).Subperm (l.map (·.2)) := by
  have hone : [(number, id)].Subperm (l.filter fun p => p.1 = number) :=
    List.singleton_subperm_iff.2 (List.mem_filter.2 ⟨hp, by simp⟩)
  have hall : ((l.filter fun p => p.1 = number) ++ l.filter fun p => p.1 ≠ number).Subperm l := by
    simpa using (List.filter_append_perm (fun p => decide (p.1 = number)) l).subperm
  obtain ⟨l', hperm, hsub⟩ := ((List.subperm_append_right _).2 hone).trans hall
  exact ⟨l'.map (·.2), hperm.map _, hsub.map _⟩

theorem closing_auditIds_subperm (number : Nat) :
    (g.closing number g.db).auditIds.Subperm g.auditIds :=
  ((List.filter_sublist.map _).append_left _).subperm

theorem OwnIds.step {event : GatewayEvent env} (h : g.OwnIds) (hstep : Step g event g') :
    g'.OwnIds := by
  cases hstep with
  | opened request => exact h.of_subperm (List.Subperm.refl _) rfl
  | @inserted s response written hs honce hserve =>
    have hids : (g.inserting s.number).auditIds = g.auditIds ++ [g.db.auditLogs.nextId] := by
      simp [auditIds, inserting]
    refine ⟨?_, fun id hid => ?_⟩
    · rw [hids]
      exact List.nodup_append'.2 ⟨h.distinct, List.nodup_singleton _,
        List.disjoint_singleton.2 fun hid => Nat.lt_irrefl _ (h.given _ hid)⟩
    · rw [hids, List.mem_append, List.mem_singleton] at hid
      rcases hid with hid | rfl
      · exact Nat.lt_succ_of_lt (h.given id hid)
      · exact Nat.lt_succ_self _
  | @answered s response written id hs hserve hid =>
    obtain ⟨row, rfl, -, hdb⟩ := (audited_of_serve hserve).commit g.db id
    refine h.of_subperm ?_ (by rw [closing, hdb])
    have hids : (g.closing s.number (s.snapshot.commit written g.db row.id)).auditIds =
        g.db.auditLogs.rows.map (·.id) ++
          row.id :: (g.inserted.filter fun p => p.1 ≠ s.number).map (·.2) := by
      simp [auditIds, closing, hdb]
    rw [hids]
    exact (List.subperm_append_left _).2 (cons_filter_subperm hid)
  | failed hs hserve => exact h.of_subperm (closing_auditIds_subperm _) rfl
  | dropped hs => exact h.of_subperm (closing_auditIds_subperm _) rfl
  | seeded hseed =>
    have hlogs := seeding_auditLogs hseed
    refine h.of_subperm ?_ (congrArg _ hlogs)
    unfold auditIds
    rw [hlogs]
  | imported hbundle hsync =>
    have hlogs := (synced_of_ok hsync).auditLogs
    refine h.of_subperm ?_ (congrArg _ hlogs)
    unfold auditIds
    rw [hlogs]

end Gateway

/-! ## The audit trail -/

/-- What a run adds to the audit log: one row for every answer, under an id that the log gave to no
other row. -/
structure AuditTrail (before after : Gateway env)
    (answers : List (ApiRequest env.rt × ApiResponse)) (added : List RequestAuditLog) : Prop where
  rows : after.db.auditLogs.rows = before.db.auditLogs.rows ++ added
  records : List.Forall₂
    (fun row answer => row.Records (answer.1.auditRequest env) answer.2.outcome) added answers
  ownIds : after.OwnIds
  newIds : ∀ id ∈ added.map (·.id) ++ after.inserted.map (·.2),
    before.db.auditLogs.nextId ≤ id ∨ id ∈ before.inserted.map (·.2)
  nextId : before.db.auditLogs.nextId ≤ after.db.auditLogs.nextId

namespace AuditTrail

variable {before : Gateway env} {answers : List (ApiRequest env.rt × ApiResponse)}
  {added : List RequestAuditLog}

/-- Nothing is added. -/
theorem kept (h : AuditTrail before g answers added)
    (hrows : g'.db.auditLogs.rows = g.db.auditLogs.rows) (hids : g'.OwnIds)
    (hinserted : ∀ id ∈ g'.inserted.map (·.2), id ∈ g.inserted.map (·.2) ∨
      before.db.auditLogs.nextId ≤ id)
    (hnextId : g.db.auditLogs.nextId ≤ g'.db.auditLogs.nextId) :
    AuditTrail before g' answers added where
  rows := hrows.trans h.rows
  records := h.records
  ownIds := hids
  newIds id hid := by
    rcases List.mem_append.1 hid with hid | hid
    · exact h.newIds id (List.mem_append_left _ hid)
    · rcases hinserted id hid with hid | hid
      · exact h.newIds id (List.mem_append_right _ hid)
      · exact Or.inl hid
  nextId := h.nextId.trans hnextId

/-- One more answer. -/
theorem answered (h : AuditTrail before g answers added) {s : ApiSession env}
    {response : ApiResponse} {written : Metadata} {id : Nat} (hs : s ∈ g.sessions.rows)
    (hserve : serve env s.snapshot s.request = .ok (response, written))
    (hid : (s.number, id) ∈ g.inserted) :
    ∃ row, AuditTrail before (g.closing s.number (s.snapshot.commit written g.db id))
      (answers ++ [(s.request, response)]) (added ++ [row]) := by
  have hids := h.ownIds.step (.answered hs hserve hid)
  obtain ⟨row, rfl, hrecords, hdb⟩ := (audited_of_serve hserve).commit g.db id
  have hold : ∀ n, n ∈ (row.id :: (g.inserted.filter fun p => p.1 ≠ s.number).map (·.2)) →
      n ∈ g.inserted.map (·.2) := fun n hn => (Gateway.cons_filter_subperm hid).subset hn
  refine ⟨row, ⟨?_, List.rel_append h.records (.cons hrecords .nil), hids, fun n hn =>
    ?_, ?_⟩⟩
  · rw [Gateway.closing, hdb, h.rows, List.append_assoc]
  · rw [List.map_append, List.append_assoc] at hn
    rcases List.mem_append.1 hn with hn | hn
    · exact h.newIds n (List.mem_append_left _ hn)
    · exact h.newIds n (List.mem_append_right _ (hold n hn))
  · rw [Gateway.closing, hdb]
    exact h.nextId

/-- The rows under one request id are those of the requests with this id. -/
theorem listByRequestId (h : AuditTrail g g' answers added) (requestId : Str) :
    ∃ found, (g'.db.listByRequestId requestId).Perm (g.db.listByRequestId requestId ++ found) ∧
      List.Forall₂ (fun row answer => row.Records (answer.1.auditRequest env) answer.2.outcome)
        found (answers.filter fun a => (a.1.auditRequest env).requestId = requestId) := by
  refine ⟨added.filter fun r => r.requestId = requestId, ?_, ?_⟩
  · unfold Metadata.listByRequestId
    rw [h.rows, List.filter_append]
  · refine List.rel_filter ?_ h.records
    intro row answer hrecords
    simp [hrecords.requestId]

end AuditTrail

/-- A step adds the row of the answer, if it is one. -/
theorem Gateway.Step.auditTrail {before : Gateway env} {event : GatewayEvent env}
    {answers : List (ApiRequest env.rt × ApiResponse)} {added : List RequestAuditLog}
    (h : AuditTrail before g answers added) (hstep : Step g event g') :
    ∃ added, AuditTrail before g' (answers ++ event.answer.toList) added := by
  have hids := h.ownIds.step hstep
  have hfiltered : ∀ {number id : Nat},
      id ∈ (g.inserted.filter fun p => p.1 ≠ number).map (·.2) →
      id ∈ g.inserted.map (·.2) ∨ before.db.auditLogs.nextId ≤ id := fun hid =>
    Or.inl ((List.filter_sublist.map _).subset hid)
  cases hstep with
  | answered hs hserve hid =>
    obtain ⟨row, htrail⟩ := h.answered hs hserve hid
    exact ⟨added ++ [row], htrail⟩
  | opened request =>
    exact ⟨added, (List.append_nil answers).symm ▸
      h.kept rfl hids (fun id hid => Or.inl hid) (le_refl _)⟩
  | inserted hs honce hserve =>
    refine ⟨added, (List.append_nil answers).symm ▸
      h.kept rfl hids (fun id hid => ?_) (Nat.le_succ _)⟩
    rw [Gateway.inserting, List.map_append] at hid
    rcases List.mem_append.1 hid with hid | hid
    · exact Or.inl hid
    · rw [List.map_singleton, List.mem_singleton] at hid
      exact Or.inr (hid ▸ h.nextId)
  | failed hs hserve =>
    exact ⟨added, (List.append_nil answers).symm ▸
      h.kept rfl hids (fun id hid => hfiltered hid) (le_refl _)⟩
  | dropped hs =>
    exact ⟨added, (List.append_nil answers).symm ▸
      h.kept rfl hids (fun id hid => hfiltered hid) (le_refl _)⟩
  | seeded hseed =>
    have hlogs := seeding_auditLogs hseed
    exact ⟨added, (List.append_nil answers).symm ▸
      h.kept (congrArg _ hlogs) hids (fun id hid => Or.inl hid) (congrArg _ hlogs).ge⟩
  | imported hbundle hsync =>
    have hlogs := (synced_of_ok hsync).auditLogs
    exact ⟨added, (List.append_nil answers).symm ▸
      h.kept (congrArg _ hlogs) hids (fun id hid => Or.inl hid) (congrArg _ hlogs).ge⟩

theorem exists_auditTrail (hg : g.OwnIds) (h : Run Gateway.Step g events g') :
    ∃ added, AuditTrail g g' (events.filterMap GatewayEvent.answer) added := by
  refine h.invariant (P := fun events g' => ∃ added, AuditTrail g g'
    (events.filterMap GatewayEvent.answer) added) ?_ ?_
  · exact ⟨[], (List.append_nil _).symm, .nil, hg, fun id hid => Or.inr hid, le_refl _⟩
  · rintro events m event g' ⟨added, htrail⟩ hstep
    obtain ⟨added, htrail⟩ := hstep.auditTrail htrail
    refine ⟨added, ?_⟩
    rw [List.filterMap_append]
    cases hanswer : event.answer <;> simpa [hanswer] using htrail

/-- Behind any run the audit log is the one before it with one row for every answered request, under
an id of its own; the rows under a request id are those of the requests with this id. -/
theorem auditTrail_of_run (hg : g.OwnIds) (h : Run Gateway.Step g events g') :
    ∃ added, AuditTrail g g' (events.filterMap GatewayEvent.answer) added ∧
      ∀ requestId, ∃ found,
        (g'.db.listByRequestId requestId).Perm (g.db.listByRequestId requestId ++ found) ∧
        List.Forall₂ (fun row answer => row.Records (answer.1.auditRequest env) answer.2.outcome)
          found ((events.filterMap GatewayEvent.answer).filter
            fun answer => (answer.1.auditRequest env).requestId = requestId) := by
  obtain ⟨added, htrail⟩ := exists_auditTrail hg h
  exact ⟨added, htrail, htrail.listByRequestId⟩

/-! ## The moment of a session -/

namespace Gateway

/-- A session reads the metadata of the moment it began. -/
def Opened (db : Metadata) (events : List (GatewayEvent env)) (s : ApiSession env) : Prop :=
  ∃ first rest m, events = first ++ .opened s.number s.request :: rest ∧
    Run Step (idle env db) first m ∧ s.snapshot = m.db

theorem Opened.append {db : Metadata} {s : ApiSession env} (h : Opened db events s)
    (event : GatewayEvent env) : Opened db (events ++ [event]) s := by
  obtain ⟨first, rest, m, rfl, hrun, hsnapshot⟩ := h
  exact ⟨first, rest ++ [event], m, by simp, hrun, hsnapshot⟩

theorem opened_of_run {db : Metadata} (h : Run Step (idle env db) events g) :
    ∀ s ∈ g.sessions.rows, Opened db events s := by
  induction h with
  | nil =>
    intro s hs
    exact absurd hs List.not_mem_nil
  | @snoc m g' events event hrun hstep ih =>
    intro s hs
    have hold : s ∈ m.sessions.rows → Opened db (events ++ [event]) s :=
      fun h => (ih s h).append _
    cases hstep with
    | opened request =>
      rcases List.mem_append.1 hs with hs | hs
      · exact hold hs
      · rw [List.mem_singleton.1 hs]
        exact ⟨events, [], m, rfl, hrun, rfl⟩
    | inserted _ _ _ => exact hold hs
    | answered _ _ _ => exact hold (List.mem_of_mem_filter hs)
    | failed _ _ => exact hold (List.mem_of_mem_filter hs)
    | dropped _ => exact hold (List.mem_of_mem_filter hs)
    | seeded _ => exact hold hs
    | imported _ _ => exact hold hs

/-- A verdict is that of a session in flight. -/
theorem Step.exists_session {event : GatewayEvent env} {number : Nat} {request : ApiRequest env.rt}
    {verdict : Except PyError ApiResponse} (hstep : Step g event g')
    (hverdict : event.verdict = some (number, request, verdict)) :
    ∃ s ∈ g.sessions.rows, s.number = number ∧ s.request = request ∧
      (serve env s.snapshot request).map Prod.fst = verdict := by
  cases hstep with
  | @answered s response written id hs hserve hid =>
    cases hverdict
    exact ⟨s, hs, rfl, rfl, by rw [hserve]; rfl⟩
  | @failed s error hs hserve =>
    cases hverdict
    exact ⟨s, hs, rfl, rfl, by rw [hserve]; rfl⟩
  | opened request => cases hverdict
  | inserted hs honce hserve => cases hverdict
  | dropped hs => cases hverdict
  | seeded hseed => cases hverdict
  | imported hbundle hsync => cases hverdict

/-- A session whose handler returns can insert its row and be answered. -/
theorem exists_answered {g₀ : Gateway env} (h : Run Step g₀ events g) {s : ApiSession env}
    {response : ApiResponse} {written : Metadata} (hs : s ∈ g.sessions.rows)
    (honce : s.number ∉ g.inserted.map (·.1))
    (hserve : serve env s.snapshot s.request = .ok (response, written)) :
    ∃ g', Run Step g₀ (events ++ [.inserted s.number] ++
      [.answered s.number s.request response]) g' :=
  ⟨_, (h.snoc (.inserted hs honce hserve)).snoc (.answered (g := g.inserting s.number) hs hserve
    (List.mem_append_right _ (List.mem_singleton_self _)))⟩

end Gateway

/-! ## One behind the other -/

/-- What is done in one transaction: a request, or one of the programs that write metadata. -/
inductive Transaction (env : Deployment) where
  | serving (request : ApiRequest env.rt)
  | seeding (settings : SeedSettings env.rt)
  | importing (rows : List TableConfigRow) (target : ImportedDatasourceTarget)

/-- A transaction alone; one that raises leaves the store as it was. -/
def Transaction.run (state : List (Except PyError ApiResponse) × Metadata) :
    Transaction env → List (Except PyError ApiResponse) × Metadata
  | .serving request =>
      match serve env state.2 request with
      | .ok (response, written) => (state.1 ++ [.ok response], written)
      | .error e => (state.1 ++ [.error e], state.2)
  | .seeding settings =>
      match seedReferenceData settings state.2 with
      | .ok db' => (state.1, db')
      | .error _ => state
  | .importing rows target =>
      match buildSyncBundle env.rt rows target >>= syncBundleToLocal state.2 with
      | .ok db' => (state.1, db')
      | .error _ => state

/-- Transactions one behind the other, on a store: what the requests come to, and the store. -/
def serially (db : Metadata) (transactions : List (Transaction env)) :
    List (Except PyError ApiResponse) × Metadata :=
  transactions.foldl Transaction.run ([], db)

/-- The transaction that ends with an event. -/
def GatewayEvent.transaction : GatewayEvent env → Option (Transaction env)
  | .answered _ request _ => some (.serving request)
  | .failed _ request _ => some (.serving request)
  | .seeded settings => some (.seeding settings)
  | .imported rows target => some (.importing rows target)
  | _ => none

/-- Two stores that differ in the ids of the audit rows only. -/
structure Metadata.SameUpToAuditIds (db db' : Metadata) : Prop where
  metadata : db = db'.withAuditLogs db.auditLogs
  auditLogs : db.auditLogs.rows.map (fun row => { row with id := 0 }) =
    db'.auditLogs.rows.map fun row => { row with id := 0 }

/-- A writer that does the same on both keeps them so. -/
theorem Metadata.SameUpToAuditIds.written {store db db' : Metadata}
    (h : store.SameUpToAuditIds db) (hlogs : db'.auditLogs = db.auditLogs) :
    (db'.withAuditLogs store.auditLogs).SameUpToAuditIds db' :=
  ⟨rfl, hlogs ▸ h.auditLogs⟩

namespace Gateway

/-- A step where metadata are written only while no request is in flight. -/
def QuietStep (g : Gateway env) (event : GatewayEvent env) (g' : Gateway env) : Prop :=
  Step g event g' ∧ (event.Writes → g.sessions.rows = [])

/-- The sessions see the current metadata, up to the audit log. -/
def Current (g : Gateway env) : Prop :=
  ∀ s ∈ g.sessions.rows, g.db = { s.snapshot with auditLogs := g.db.auditLogs }

theorem Current.auditLogs {sessions : Table (ApiSession env)} (hg : g.Current)
    (hsessions : sessions.rows ⊆ g.sessions.rows) (logs : Table RequestAuditLog)
    (inserted : List (Nat × Nat)) :
    Current ⟨{ g.db with auditLogs := logs }, sessions, inserted⟩ := by
  intro s hs
  show ({ g.db with auditLogs := logs } : Metadata) = { s.snapshot with auditLogs := logs }
  rw [hg s (hsessions hs)]

theorem Current.step {event : GatewayEvent env} (hg : g.Current) (hstep : QuietStep g event g') :
    g'.Current := by
  obtain ⟨hstep, hquiet⟩ := hstep
  have hnone : g.sessions.rows = [] → ∀ db, Current { g with db } := by
    intro hrows db s hs
    exact absurd (hrows ▸ hs) List.not_mem_nil
  cases hstep with
  | opened request =>
    intro s hs
    rcases List.mem_append.1 hs with hs | hs
    · exact hg s hs
    · rw [List.mem_singleton.1 hs]
      rfl
  | inserted hs honce hserve => exact hg.auditLogs (List.Subset.refl _) _ _
  | @answered s response written id hs hserve hid =>
    obtain ⟨row, -, -, hdb⟩ := (audited_of_serve hserve).commit g.db id
    unfold closing
    rw [hdb]
    exact hg.auditLogs (List.filter_subset_self _) _ _
  | failed hs hserve => exact hg.auditLogs (List.filter_subset_self _) g.db.auditLogs _
  | dropped hs => exact hg.auditLogs (List.filter_subset_self _) g.db.auditLogs _
  | seeded hseed => exact hnone (hquiet trivial) _
  | imported hbundle hsync => exact hnone (hquiet trivial) _

/-- A session that sees the current metadata comes to what its request comes to on any store that
differs from the current one in the ids of the audit rows only. -/
theorem Current.serve_eq (hg : g.Current) {s : ApiSession env} (hs : s ∈ g.sessions.rows)
    {store : Metadata} (hstore : store.SameUpToAuditIds g.db) :
    store = { s.snapshot with auditLogs := store.auditLogs } ∧
      serve env store s.request =
        (serve env s.snapshot s.request).map (recordedIn s.snapshot store.auditLogs) := by
  have heq : store = { s.snapshot with auditLogs := store.auditLogs } :=
    hstore.metadata.trans (congrArg (·.withAuditLogs store.auditLogs) (hg s hs))
  have hserve := serve_auditLogs s.snapshot store.auditLogs s.request
  rw [← heq] at hserve
  exact ⟨heq, hserve⟩

/-- A step ends the transaction it is seen as. -/
theorem Step.transaction {event : GatewayEvent env} (hg : g.Current) (hstep : Step g event g')
    {store : Metadata} (hstore : store.SameUpToAuditIds g.db)
    (verdicts : List (Except PyError ApiResponse)) :
    ∃ store', store'.SameUpToAuditIds g'.db ∧
      event.transaction.toList.foldl Transaction.run (verdicts, store) =
        (verdicts ++ (event.verdict.map fun v => v.2.2).toList, store') := by
  cases hstep with
  | opened request => exact ⟨store, hstore, by simp [GatewayEvent.transaction,
      GatewayEvent.verdict]⟩
  | inserted hs honce hserve =>
    exact ⟨store, ⟨hstore.metadata, hstore.auditLogs⟩,
      by simp [GatewayEvent.transaction, GatewayEvent.verdict]⟩
  | @answered s response written id hs hserve hid =>
    obtain ⟨heq, halone⟩ := hg.serve_eq hs hstore
    obtain ⟨row, -, rfl⟩ := (audited_of_serve hserve).eq_addAuditLog
    have hrecorded : serve env store s.request = .ok (response, store.addAuditLog row) := by
      rw [halone, hserve]
      show Except.ok (recordedIn _ _ (response, s.snapshot.addAuditLog row)) = _
      rw [recordedIn_addAuditLog, ← heq]
    refine ⟨store.addAuditLog row, ⟨?_, ?_⟩, ?_⟩
    · rw [closing, Metadata.commit_addAuditLog]
      have hsame := congrArg (Metadata.withAuditLogs (store.addAuditLog row).auditLogs)
        hstore.metadata
      exact hsame
    · rw [closing, Metadata.commit_addAuditLog]
      simp [Metadata.addAuditLog, hstore.auditLogs]
    · simp [GatewayEvent.transaction, GatewayEvent.verdict, Transaction.run, hrecorded]
  | @failed s error hs hserve =>
    obtain ⟨-, halone⟩ := hg.serve_eq hs hstore
    rw [hserve] at halone
    refine ⟨store, hstore, ?_⟩
    simp [GatewayEvent.transaction, GatewayEvent.verdict, Transaction.run, halone, Except.map]
  | dropped hs => exact ⟨store, hstore, by simp [GatewayEvent.transaction,
      GatewayEvent.verdict]⟩
  | @seeded settings db' hseed =>
    refine ⟨db'.withAuditLogs store.auditLogs, hstore.written (seeding_auditLogs hseed), ?_⟩
    have hsame : seedReferenceData settings store = .ok (db'.withAuditLogs store.auditLogs) := by
      rw [hstore.metadata, seedReferenceData_auditLogs, hseed]
      rfl
    simp [GatewayEvent.transaction, GatewayEvent.verdict, Transaction.run, hsame]
  | @imported rows target bundle db' hbundle hsync =>
    refine ⟨db'.withAuditLogs store.auditLogs,
      hstore.written (synced_of_ok hsync).auditLogs, ?_⟩
    have hsame : syncBundleToLocal store bundle = .ok (db'.withAuditLogs store.auditLogs) := by
      rw [hstore.metadata, syncBundleToLocal_auditLogs, hsync]
      rfl
    have hboth := bind_eq_ok.2 ⟨_, hbundle, hsame⟩
    simp [GatewayEvent.transaction, GatewayEvent.verdict, Transaction.run, hboth]

end Gateway

open Gateway in
/-- While metadata are written only when no request is in flight, requests that overlap in any way
come to what they come to one behind the other, in the order of their ends, and leave the same
store up to the ids of the audit rows. -/
theorem serially_of_run {db : Metadata} (h : Run QuietStep (idle env db) events g) :
    ∃ store, serially db (events.filterMap GatewayEvent.transaction) =
        ((events.filterMap GatewayEvent.verdict).map fun v => v.2.2, store) ∧
      store.SameUpToAuditIds g.db := by
  have hboth : g.Current ∧ ∃ store, serially db (events.filterMap GatewayEvent.transaction) =
        ((events.filterMap GatewayEvent.verdict).map fun v => v.2.2, store) ∧
      store.SameUpToAuditIds g.db := by
    induction h with
    | nil => exact ⟨fun s hs => absurd hs List.not_mem_nil, db, rfl, rfl, rfl⟩
    | @snoc m g' events event hrun hstep ih =>
      obtain ⟨hcurrent, store, hserially, hstore⟩ := ih
      obtain ⟨store', hstore', hlast⟩ := hstep.1.transaction hcurrent hstore
        ((events.filterMap GatewayEvent.verdict).map fun v => v.2.2)
      refine ⟨hcurrent.step hstep, store', ?_, hstore'⟩
      unfold serially at hserially ⊢
      have hlist : ∀ {α : Type} (f : GatewayEvent env → Option α),
          [event].filterMap f = (f event).toList := by
        intro α f
        cases hf : f event <;> simp [hf]
      rw [List.filterMap_append, List.foldl_append, hserially, hlist, hlast,
        List.filterMap_append, hlist, List.map_append]
      cases event.verdict <;> rfl
  exact hboth.2

/-! ## Two requests that overlap -/

/-- A statement is checked while another request executes it: the check arrives and inserts its row
later, and ends earlier; a third request does not come to its commit. -/
def overlapping (checked executed : ApiResponse) : List (GatewayEvent exampleDeployment) :=
  [.opened 0 (.executeSql exampleRequest), .opened 1 (.checkSql exampleRequest),
    .opened 2 (.checkSql exampleRequest), .inserted 2, .inserted 0, .inserted 1,
    .dropped 2 (.checkSql exampleRequest), .answered 1 (.checkSql exampleRequest) checked,
    .answered 0 (.executeSql exampleRequest) executed]

theorem exists_overlappingRun : ∃ checked executed g,
    Run Gateway.QuietStep (Gateway.idle exampleDeployment exampleMetadata)
        (overlapping checked executed) g ∧
      g.db.auditLogs.rows.map (·.id) = [3, 2] := by
  have hcheck : (serve exampleDeployment exampleMetadata (.checkSql exampleRequest)).map
      (fun _ => ()) = .ok () := by decide +kernel
  have hexecute : (serve exampleDeployment exampleMetadata (.executeSql exampleRequest)).map
      (fun _ => ()) = .ok () := by decide +kernel
  obtain ⟨⟨checked, afterCheck⟩, hcheck, -⟩ := map_eq_ok.1 hcheck
  obtain ⟨⟨executed, afterExecute⟩, hexecute, -⟩ := map_eq_ok.1 hexecute
  have hopened : Run Gateway.QuietStep (Gateway.idle exampleDeployment exampleMetadata)
      ([] ++ [.opened 0 (.executeSql exampleRequest)] ++
        [.opened 1 (.checkSql exampleRequest)] ++ [.opened 2 (.checkSql exampleRequest)]) _ :=
    ((Run.nil.snoc ⟨.opened _ _, fun h => h.elim⟩).snoc ⟨.opened _ _, fun h => h.elim⟩).snoc
      ⟨.opened _ _, fun h => h.elim⟩
  have hfirst := hopened.snoc ⟨.inserted (s := ⟨2, _, _⟩)
    (List.mem_cons_of_mem _ (List.mem_cons_of_mem _ List.mem_cons_self)) (by decide) hcheck,
    fun h => h.elim⟩
  have hsecond := hfirst.snoc ⟨.inserted (s := ⟨0, _, _⟩) List.mem_cons_self (by decide)
    hexecute, fun h => h.elim⟩
  have hthird := hsecond.snoc ⟨.inserted (s := ⟨1, _, _⟩)
    (List.mem_cons_of_mem _ List.mem_cons_self) (by decide) hcheck, fun h => h.elim⟩
  have hdropped := hthird.snoc ⟨.dropped (s := ⟨2, _, _⟩)
    (List.mem_cons_of_mem _ (List.mem_cons_of_mem _ List.mem_cons_self)), fun h => h.elim⟩
  have hchecked := hdropped.snoc ⟨@Gateway.Step.answered _ _ ⟨1, _, _⟩ _ _ 3
    (List.mem_cons_of_mem _ List.mem_cons_self) hcheck (by decide), fun h => h.elim⟩
  refine ⟨checked, executed, _, hchecked.snoc ⟨@Gateway.Step.answered _ _ ⟨0, _, _⟩ _ _ 2
    List.mem_cons_self hexecute (List.mem_singleton_self (0, 2)), fun h => h.elim⟩, ?_⟩
  obtain ⟨_, -, rfl⟩ := (audited_of_serve hcheck).eq_addAuditLog
  obtain ⟨_, -, rfl⟩ := (audited_of_serve hexecute).eq_addAuditLog
  rfl

/-- The check has its row first and the larger id, and the first id is lost. -/
theorem auditTrail_overlappingRun : ∃ (checked executed : ApiResponse)
    (after : Gateway exampleDeployment) (added : List RequestAuditLog),
    AuditTrail (Gateway.idle exampleDeployment exampleMetadata) after
        [(.checkSql exampleRequest, checked), (.executeSql exampleRequest, executed)] added ∧
      added.map (·.id) = [3, 2] := by
  obtain ⟨checked, executed, g, hrun, hids⟩ := exists_overlappingRun
  obtain ⟨added, htrail, -⟩ := auditTrail_of_run
    (Gateway.ownIds_idle exampleMetadata_constraints.auditLogIds) (hrun.mono fun _ _ _ h => h.1)
  exact ⟨checked, executed, g, added, htrail, by rw [← hids, htrail.rows]; rfl⟩

/-- They come to what they come to one behind the other. -/
theorem serially_overlappingRun : ∃ (checked executed : ApiResponse) (store : Metadata),
    serially exampleMetadata ([.serving (.checkSql exampleRequest),
      .serving (.executeSql exampleRequest)] : List (Transaction exampleDeployment)) =
      ([.ok checked, .ok executed], store) := by
  obtain ⟨checked, executed, g, hrun, -⟩ := exists_overlappingRun
  obtain ⟨store, hserially, -⟩ := serially_of_run hrun
  exact ⟨checked, executed, store, hserially⟩

end SqlGatekeeper
