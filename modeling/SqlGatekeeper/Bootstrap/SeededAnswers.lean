import SqlGatekeeper.Api.LogicalAnswers
import SqlGatekeeper.Bootstrap.SeededRouting

/-!
# What the seeded users answer

From the first start of a container to the rows of a response.

* `SeededPart.routesOf_user`: behind `user` are the two seeded shards.
* `SeededPart.modRouted_user`: they are routed by the remainder of `uid`.
* `ImportsNo`: no import of a run brings a physical table of some name.
* `seededAnswers_of_run`: whatever was served, seeded and imported, a conjunction over `user` that
  is executed has the rows of both shards that satisfy it, up to its limit.
-/

namespace SqlGatekeeper

open Py Store Runs Logic

/-! ## The shards of `user` -/

/-- Where the users with an even `uid` are. -/
def evenUsers : Str × Str := ("biz_user_db", "user_0")

/-- Where the users with an odd `uid` are. -/
def oddUsers : Str × Str := ("biz_user_db", "user_1")

namespace SeededPart

variable {db : Metadata} {userDs orderDs : Nat} (h : SeededPart userDs orderDs db)
  (hdb : db.Constraints)

include h hdb

theorem modRouted_user : ModRouted db userTable "uid" 2 where
  table := h.userTable_mem
  enabled := rfl
  factor := ⟨_, h.listRequired_of_mem hdb List.mem_cons_self, rfl, rfl, rfl⟩
  rule := ⟨_, h.getEnabledByLogicalTable_of_mem hdb List.mem_cons_self, by decide, rfl⟩

/-- Behind `user` are its two shards, if no physical table has that name. -/
theorem routesOf_user (hphys : db.getEnabledByPhysicalTableName "user" = .ok none) :
    db.routesOf "user" =
      [physicalRouteRow 1 "0" "user_0" userDs 1, physicalRouteRow 1 "1" "user_1" userDs 2] := by
  have hname : db.getEnabledByName "user" = .ok (some userTable) :=
    h.getEnabledByName_of_mem hdb (t := userTable) List.mem_cons_self rfl
  unfold Metadata.routesOf
  rw [hphys, hname]
  show db.physicalRoutes.rows.filter _ = _
  rw [filter_own (h.isOwn_of_mem hdb (t := userTable) List.mem_cons_self)
    fun r hr => (of_decide_eq_true hr).1, h.physicalRoutes]
  rfl

omit h in
theorem datasourceCode_of_seeded {id : Nat} {code : Str} (hds : SeededDatasource db id code) :
    datasourceCodeFromId db id = code := by
  obtain ⟨d, hd, rfl, hcode, -⟩ := hds
  unfold datasourceCodeFromId
  rw [hdb.datasourceById_eq hd]
  exact hcode

theorem places_user (hphys : db.getEnabledByPhysicalTableName "user" = .ok none) :
    (db.routesOf "user").map db.place = [evenUsers, oddUsers] := by
  rw [h.routesOf_user hdb hphys]
  unfold Metadata.place evenUsers oddUsers
  simp only [List.map_cons, List.map_nil, physicalRouteRow]
  rw [datasourceCode_of_seeded hdb h.userDatasource]

theorem rowsOf_user (hphys : db.getEnabledByPhysicalTableName "user" = .ok none) {ρ : Type}
    (contents : Str × Str → List ρ) :
    db.rowsOf contents "user" = contents evenUsers ++ contents oddUsers := by
  have hflat : db.rowsOf contents "user" = ((db.routesOf "user").map db.place).flatMap
      contents := by
    rw [List.flatMap_map]
    rfl
  rw [hflat, h.places_user hdb hphys]
  simp

/-- Both remainders have a shard. -/
theorem allRemainders_user (hphys : db.getEnabledByPhysicalTableName "user" = .ok none) :
    db.AllRemainders (fun _ => 2) "user" := by
  refine ⟨Nat.zero_lt_two, fun i hi => ?_⟩
  rw [h.routesOf_user hdb hphys]
  have hlt : i < 2 := hi
  have hcases : i = 0 ∨ i = 1 := by omega
  rcases hcases with rfl | rfl
  · exact List.mem_cons_self
  · exact List.mem_cons_of_mem _ List.mem_cons_self

theorem distinctPlaces_user (hphys : db.getEnabledByPhysicalTableName "user" = .ok none) :
    db.DistinctPlaces ["user"] := by
  intro a ha b hb r hr s hs hplace
  rw [List.mem_singleton.1 ha] at hr ⊢
  rw [List.mem_singleton.1 hb] at hs ⊢
  refine ⟨rfl, ?_⟩
  have hname := congrArg Prod.snd hplace
  rw [h.routesOf_user hdb hphys] at hr hs
  simp only [List.mem_cons, List.not_mem_nil, or_false] at hr hs
  rcases hr with rfl | rfl <;> rcases hs with rfl | rfl
  · rfl
  · exact absurd hname (show ¬ ("user_0" : Str) = "user_1" by decide)
  · exact absurd hname (show ¬ ("user_1" : Str) = "user_0" by decide)
  · rfl

/-- The rows are placed if each shard has one remainder. -/
theorem rowsPlaced_user (hphys : db.getEnabledByPhysicalTableName "user" = .ok none)
    {contents : Str × Str → List (Str → Int)}
    (heven : ∀ row ∈ contents evenUsers, (row "uid").fmod 2 = 0)
    (hodd : ∀ row ∈ contents oddUsers, (row "uid").fmod 2 = 1) :
    db.RowsPlaced (remainderKey (fun _ => "uid") fun _ => 2) contents "user" := by
  have hkey : ∀ row : Str → Int, remainderKey (fun _ => "uid") (fun _ => 2) "user" row =
      intText ((row "uid").fmod 2) := fun _ => rfl
  have hplaces := h.places_user hdb hphys
  intro route hroute row hrow
  rw [hkey]
  rw [h.routesOf_user hdb hphys] at hroute hplaces
  obtain ⟨hplace₀, hrest⟩ := List.cons.inj hplaces
  have hplace₁ := (List.cons.inj hrest).1
  simp only [List.mem_cons, List.not_mem_nil, or_false] at hroute
  rcases hroute with rfl | rfl
  · rw [hplace₀] at hrow
    rw [heven row hrow]
    rfl
  · rw [hplace₁] at hrow
    rw [hodd row hrow]
    rfl

end SeededPart

/-! ## In a run -/

section Runs

variable {env : Deployment} {events : List (GatewayEvent env)} {g : Gateway env}

/-- An event that imports no physical table of a name. -/
def GatewayEvent.ImportsNo (name : Str) : GatewayEvent env → Prop
  | .imported rows target => ∀ bundle, buildSyncBundle env.rt rows target = .ok bundle →
      ∀ q ∈ bundle.physicalRoutes, q.physicalTableName ≠ name
  | _ => True

theorem lastImport_importsNo {name : Str} (h : ∀ event ∈ events, event.ImportsNo name) :
    ∀ q ∈ (lastImport events).physicalRoutes, q.physicalTableName ≠ name := by
  induction events using List.reverseRecOn with
  | nil =>
    intro q hq
    exact absurd hq List.not_mem_nil
  | append_singleton events event ih =>
    have hbefore := ih fun e he => h e (List.mem_append_left _ he)
    have hlast := h event (by simp)
    rw [lastImport_append]
    cases event with
    | imported rows target =>
      show ∀ q ∈ ((buildSyncBundle env.rt rows target).toOption.getD
        (lastImport events)).physicalRoutes, q.physicalTableName ≠ name
      cases hbundle : buildSyncBundle env.rt rows target with
      | ok bundle => exact hlast bundle hbundle
      | error e => exact hbefore
    | _ => exact hbefore

/-- From the first start of a container on, whatever is served, seeded and imported, in whatever
order and overlap: an allowed answer of `execute_sql` to `select * from user where C limit k`, where
`C` is a conjunction of equations `column = integer` and `k` is not zero, has the rows of both
shards that satisfy `C`, up to `k` of them.  The servers answer by what they hold, users are placed
by the remainder of their `uid`, and no import brings a physical table named `user`. -/
theorem seededAnswers_of_run {settings : SeedSettings env.rt} {seeded : Metadata}
    (hseed : seedReferenceData settings createMetadataSchema = .ok seeded)
    (h : Run Gateway.Step (Gateway.idle env seeded) events g)
    (hkeeps : ∀ event ∈ events, event.KeepsImport ∧ event.ImportsNo "user")
    {number : Nat} {request : SqlRequest env.rt} {response : SqlDecisionResponse}
    (hanswered : .answered number (.executeSql request) (.sql response) ∈ events)
    (hallowed : response.allowed = true) {q : RowSelect} (hq : q.Plain)
    (hname : q.first = ⟨"user", none⟩) (hjoins : q.joins = [])
    (hconjunctive : q.condition.Conjunctive) (hlimit : 0 < q.limit)
    (hsql : request.sql.1 = q.select.text) {contents : Str × Str → List (Str → Int)}
    {decode : JsonDict → List (Str → Int)}
    (hserves : ServesTables env.backend contents decode q)
    (heven : ∀ row ∈ contents evenUsers, (row "uid").fmod 2 = 0)
    (hodd : ∀ row ∈ contents oddUsers, (row "uid").fmod 2 = 1) :
    Sharding.Limited q.limit (((contents evenUsers ++ contents oddUsers).map fun row =>
      [row]).filter q.asks) (response.rows.map decode) := by
  obtain ⟨before, after, rfl⟩ := List.append_of_mem hanswered
  obtain ⟨m, m', hbefore, hstep, -⟩ := h.exists_prefix
  obtain ⟨s, hs, rfl, hrequest, hserve⟩ := hstep.exists_session rfl
  obtain ⟨userDs, orderDs, hseeded⟩ := storeIs_of_first hseed
  have hkept : ∀ event ∈ before, event.KeepsImport ∧ event.ImportsNo "user" :=
    fun e he => hkeeps e (List.mem_append_left _ he)
  obtain ⟨first, rest, rfl, hsnapshot⟩ := storeIs_of_session hseeded hbefore
    (fun e he => (hkept e he).1) hs
  have himported := lastImport_importsNo fun e he => (hkept e (List.mem_append_left _ he)).2
  have hdb := hsnapshot.constraints
  have hpart := hsnapshot.seeded
  have hphys : s.snapshot.getEnabledByPhysicalTableName "user" = .ok none :=
    hsnapshot.getEnabledByPhysicalTableName_none
      (by simp [seededRoutes, physicalRouteRow]) himported
  obtain ⟨result, datasource, rows, hcheck, ha, hcode, hquery, hrows⟩ :=
    executed_of_serve hserve hallowed
  unfold runCheck at hcheck
  rw [hsql] at hcheck
  have htables : q.select.tables = [⟨"user", none⟩] := by
    rw [RowSelect.tables_single hjoins, hname]
  have hanswers := @RowSelect.answers_of_query env.rt s.snapshot env.backend q (fun _ => "uid")
    (fun _ => 2) contents decode _ _ _ _ _ hdb hq (Or.inl hjoins) hlimit
    (by rw [htables]; exact List.forall_mem_singleton.2 (hpart.allRemainders_user hdb hphys))
    (by rw [htables]; exact hpart.distinctPlaces_user hdb hphys) hserves
    (htables ▸ List.forall_mem_singleton.2 (hpart.rowsPlaced_user hdb hphys heven hodd))
    (fun parsed decision hparsed hresolved hrouted => RowSelect.allKept_of_conjunctive hdb hq hjoins
      (by rw [hname]) hconjunctive (hpart.modRouted_user hdb) (by rw [hname]; rfl) (by decide)
      (by decide) (by decide) hphys hparsed hresolved hrouted)
    hcheck ha hcode hquery
  unfold JoinSelect.Answers at hanswers
  rw [htables, List.map_singleton, hpart.rowsOf_user hdb hphys,
    Sharding.product_singleton] at hanswers
  rw [hrows, List.map_map]
  exact hanswers

end Runs

/-- The first user that is asked for after the first start is found. -/
theorem seededAnswers_uidThree : ∃ response : SqlDecisionResponse, response.allowed = true ∧
    Sharding.Limited 10 (((userRows evenUsers ++ userRows oddUsers).map fun row => [row]).filter
      uidThree.asks) (response.rows.map decodeUser) := by
  have hrun : ((seedReferenceData defaultSeedSettings createMetadataSchema).bind fun seeded =>
      (executeSql userDeployment seeded exampleRequest).map fun answer => answer.1.allowed) =
      .ok true := by
    decide +kernel
  obtain ⟨seeded, hseed, hrun⟩ := bind_eq_ok.1 hrun
  obtain ⟨⟨response, written⟩, hexecute, hallowed⟩ := map_eq_ok.1 hrun
  have hserve : serve userDeployment seeded (.executeSql exampleRequest) =
      .ok (.sql response, written) := by
    show (executeSql userDeployment seeded exampleRequest).map _ = _
    rw [hexecute]
    rfl
  have hopened : Run Gateway.Step (Gateway.idle userDeployment seeded)
      ([] ++ [.opened 0 (.executeSql exampleRequest)]) _ := Run.nil.snoc (.opened _ _)
  obtain ⟨g, hanswered⟩ := Gateway.exists_answered hopened (s := ⟨0, _, _⟩)
    List.mem_cons_self
    List.not_mem_nil hserve
  refine ⟨response, hallowed, ?_⟩
  refine @seededAnswers_of_run userDeployment _ _ _ _ hseed hanswered ?_ 0 exampleRequest response
    (by simp) hallowed uidThree uidThree_plain rfl rfl trivial (by decide) rfl userRows decodeUser
    userBackend_serves ?_ ?_
  · intro event hevent
    simp only [List.nil_append, List.cons_append, List.mem_cons, List.not_mem_nil,
      or_false] at hevent
    rcases hevent with rfl | rfl | rfl <;> exact ⟨trivial, trivial⟩
  · exact List.forall_mem_singleton.2 (by decide)
  · exact List.forall_mem_singleton.2 (by decide)

end SqlGatekeeper
