import SqlGatekeeper.Bootstrap.Lifecycle
import SqlGatekeeper.Services.DatasourceRuntime
import SqlGatekeeper.Services.RedisGatekeeper

/-!
# How the seeded datasources are connected to

* `ConnectsAs`: the seeded codes lead to the servers of some settings.
* `Written.connectsAs`: so they do where the datasources are those of these settings.
* `connections_of_run`: every request connects with the settings of the last seeding before it.
-/

namespace SqlGatekeeper

open Py Store Runs DatasourceRuntime

/-- The MySQL datasources and the Redis datasource of some settings are found under their codes, and
are connected to as the settings say.  A Redis code that is also a MySQL one takes its place. -/
structure ConnectsAs {rt : Runtime} (settings : SeedSettings rt) (db : Metadata) : Prop where
  user : settings.redisDatasourceCode ≠ "biz_user_db" →
    ∃ d, db.getEnabledByCode "biz_user_db" = .ok (some d) ∧ buildRuntimeDsn d =
      mysqlUrl settings.demoUserDbUser settings.demoUserDbPassword settings.demoUserDbHost
        settings.demoUserDbPort settings.demoUserDbName
  order : settings.redisDatasourceCode ≠ "biz_order_db" →
    ∃ d, db.getEnabledByCode "biz_order_db" = .ok (some d) ∧ buildRuntimeDsn d =
      mysqlUrl settings.demoOrderDbUser settings.demoOrderDbPassword settings.demoOrderDbHost
        settings.demoOrderDbPort settings.demoOrderDbName
  redis : ∃ d, db.getEnabledByCode settings.redisDatasourceCode = .ok (some d) ∧
    RedisGatekeeperService.client rt d = ⟨settings.redisHost, settings.redisPort,
      settings.redisDb, if settings.redisPassword = [] then none else some settings.redisPassword⟩

section Written

variable {rt : Runtime} {settings : SeedSettings rt} {db : Metadata}

/-- A datasource that a seed wrote, and nothing after it, is what the seed says. -/
theorem buildRuntimeDsn_overwrite {seed : DatasourceSeed} {d : DatasourceInstance} {password : Str}
    (hseed : seed.passwordSecretRef = "local:" ++ password) (hd : seed.overwrite d = d) :
    buildRuntimeDsn d = mysqlUrl seed.username password seed.host seed.port seed.databaseName := by
  rw [← hd]
  unfold buildRuntimeDsn DatasourceSeed.overwrite
  simp only [hseed]
  rw [resolvePassword_local]

theorem Written.exists_enabled (h : Written settings db) (hdb : db.Constraints) {code : Str}
    (hcode : code ∈ seededDatasourceCodes settings) :
    ∃ d, db.getEnabledByCode code = .ok (some d) ∧ d.datasourceCode = code ∧
      writeDatasources settings (intText settings.redisDb) d = d := by
  obtain ⟨d, hd, rfl⟩ := h.exists_row code hcode
  have henabled := (writeDatasources_eq hcode (h.written d hd)).1
  exact ⟨d, Metadata.getEnabledByCode_of_mem (Metadata.getEnabledByCode_ok hdb.datasourceCode) hd
    henabled, rfl, h.written d hd⟩

/-- The client of the Redis datasource is made from the settings. -/
theorem client_redisDatasource {d : DatasourceInstance}
    (hd : (redisDatasource settings (intText settings.redisDb)).overwrite d = d) :
    RedisGatekeeperService.client rt d = ⟨settings.redisHost, settings.redisPort,
      settings.redisDb, if settings.redisPassword = [] then none
        else some settings.redisPassword⟩ := by
  have hname : d.databaseName = intText settings.redisDb := by
    rw [← hd]
    rfl
  have hsecret : d.passwordSecretRef =
      if settings.redisPassword = [] then [] else "local:".toList ++ settings.redisPassword := by
    rw [← hd]
    rfl
  have hdb : RedisGatekeeperService.redisDb rt d = settings.redisDb := by
    have hne : intText settings.redisDb ≠ [] := by
      unfold intText
      split
      · simp
      · exact natText_ne_nil _
    have hint : rt.int (intText settings.redisDb) = .ok settings.redisDb := by
      rw [Runtime.int_intText, if_pos settings.redisDb_fits]
    unfold RedisGatekeeperService.redisDb
    rw [hname, if_neg hne, hint]
  have hpassword : RedisGatekeeperService.resolvePassword d.passwordSecretRef =
      if settings.redisPassword = [] then none else some settings.redisPassword := by
    rw [hsecret]
    by_cases hnil : settings.redisPassword = []
    · rw [if_pos hnil, if_pos hnil]
      rfl
    · have hprefix : startsWith ("local:".toList ++ settings.redisPassword) "local:" = true :=
        List.isPrefixOf_iff_prefix.2 (List.prefix_append _ _)
      have hdrop : ("local:".toList ++ settings.redisPassword).drop "local:".length =
          settings.redisPassword := List.drop_left' rfl
      rw [if_neg hnil, if_neg hnil]
      unfold RedisGatekeeperService.resolvePassword
      rw [if_neg (by simp), if_pos hprefix]
      simp only [hdrop, if_neg hnil]
  unfold RedisGatekeeperService.client
  rw [hdb, hpassword, ← hd]
  rfl

/-- The datasource of the users is written by their seed only. -/
theorem writeDatasources_user {name : Str} {d : DatasourceInstance}
    (hredis : settings.redisDatasourceCode ≠ "biz_user_db")
    (hcode : d.datasourceCode = "biz_user_db") :
    writeDatasources settings name d = (userDatasource settings).overwrite d := by
  have hne : ("biz_user_db" : Str) ≠ "biz_order_db" := by decide
  have huser : (userDatasource settings).put d = (userDatasource settings).overwrite d :=
    if_pos hcode
  have horder : ((userDatasource settings).put d).datasourceCode ≠
      (orderDatasource settings).datasourceCode := by
    rw [DatasourceSeed.put_datasourceCode, hcode]
    exact hne
  unfold writeDatasources
  rw [DatasourceSeed.put_of_ne horder, ← huser]
  refine DatasourceSeed.put_of_ne ?_
  rw [DatasourceSeed.put_datasourceCode, hcode]
  exact hredis.symm

theorem writeDatasources_order {name : Str} {d : DatasourceInstance}
    (hredis : settings.redisDatasourceCode ≠ "biz_order_db")
    (hcode : d.datasourceCode = "biz_order_db") :
    writeDatasources settings name d = (orderDatasource settings).overwrite d := by
  have hne : ("biz_order_db" : Str) ≠ "biz_user_db" := by decide
  have huser : d.datasourceCode ≠ (userDatasource settings).datasourceCode := by
    rw [hcode]
    exact hne
  have horder : (orderDatasource settings).put d = (orderDatasource settings).overwrite d :=
    if_pos hcode
  unfold writeDatasources
  rw [DatasourceSeed.put_of_ne huser, ← horder]
  refine DatasourceSeed.put_of_ne ?_
  rw [DatasourceSeed.put_datasourceCode, hcode]
  exact hredis.symm

/-- The Redis datasource is written last, so what the others write there does not matter. -/
theorem writeDatasources_redis {name : Str} {d : DatasourceInstance}
    (hcode : d.datasourceCode = settings.redisDatasourceCode) :
    writeDatasources settings name d = (redisDatasource settings name).overwrite d := by
  have hput : ∀ e : DatasourceInstance, e.datasourceCode = settings.redisDatasourceCode →
      (redisDatasource settings name).put e = (redisDatasource settings name).overwrite e :=
    fun _ he => if_pos he
  unfold writeDatasources
  rw [hput _ (by simpa using hcode)]
  exact DatasourceSeed.overwrite_congr (by simp) (by simp)

/-- Where the datasources are those of some settings, they are connected to as these say. -/
theorem Written.connectsAs (h : Written settings db) (hdb : db.Constraints) :
    ConnectsAs settings db := by
  have hseeded : ∀ code ∈ seededDatasourceCodes settings, ∃ d,
      db.getEnabledByCode code = .ok (some d) ∧ d.datasourceCode = code ∧
        writeDatasources settings (intText settings.redisDb) d = d :=
    fun _ hcode => h.exists_enabled hdb hcode
  simp only [seededDatasourceCodes, List.forall_mem_cons] at hseeded
  obtain ⟨⟨user, huser, hucode, huwritten⟩, ⟨order, horder, hocode, howritten⟩,
    ⟨redis, hredis, hrcode, hrwritten⟩, -⟩ := hseeded
  constructor
  · intro hne
    rw [writeDatasources_user hne hucode] at huwritten
    exact ⟨user, huser, buildRuntimeDsn_overwrite rfl huwritten⟩
  · intro hne
    rw [writeDatasources_order hne hocode] at howritten
    exact ⟨order, horder, buildRuntimeDsn_overwrite rfl howritten⟩
  · rw [writeDatasources_redis hrcode] at hrwritten
    exact ⟨redis, hredis, client_redisDatasource hrwritten⟩

end Written

/-! ## In a run -/

section Runs

variable {env : Deployment} {events : List (GatewayEvent env)} {g : Gateway env}

/-- Whatever was served, seeded and imported before a request arrived, it connects to the seeded
datasources as the settings of the last seeding before it say: with its users, passwords, servers
and databases. -/
theorem connections_of_run {settings : SeedSettings env.rt} {seeded : Metadata}
    (hseed : seedReferenceData settings createMetadataSchema = .ok seeded)
    (h : Run Gateway.Step (Gateway.idle env seeded) events g) {s : ApiSession env}
    (hs : s ∈ g.sessions.rows) :
    ∃ first rest, events = first ++ .opened s.number s.request :: rest ∧
      ConnectsAs (lastSettings settings first) s.snapshot := by
  obtain ⟨first, rest, m, rfl, hfirst, hsnapshot⟩ := Gateway.opened_of_run h s hs
  obtain ⟨userDs, orderDs, hdb, -, hwritten⟩ := written_of_run hseed hfirst
  refine ⟨first, rest, rfl, ?_⟩
  rw [hsnapshot]
  exact hwritten.connectsAs hdb

end Runs

/-- The defaults, with the user database on another server. -/
def movedSettings : SeedSettings asciiRuntime :=
  { defaultSeedSettings with demoUserDbHost := "10.0.0.7", demoUserDbPort := 3306 }

/-- A request that arrived before a second seeding connects as the defaults say, and one that
arrives after it connects to the other server. -/
theorem connections_reseeded : ∃ db db', seedReferenceData defaultSeedSettings
    createMetadataSchema = .ok db ∧ seedReferenceData movedSettings db = .ok db' ∧
      ConnectsAs defaultSeedSettings db ∧ ConnectsAs movedSettings db' := by
  obtain ⟨seeded, hseed, ⟨hs⟩⟩ := exists_seeding defaultSeedSettings
    createMetadataSchema_constraints.uniqueConstraints
  have hseeded := hs.constraints createMetadataSchema_constraints
  obtain ⟨moved, hmoved, -⟩ := exists_seeding movedSettings hseeded.uniqueConstraints
  have hopened : Run Gateway.Step (Gateway.idle exampleDeployment seeded)
      ([] ++ [.opened 0 (.checkSql exampleRequest)]) _ := Run.nil.snoc (.opened _ _)
  have hreseeded : Run Gateway.Step (Gateway.idle exampleDeployment seeded)
      ([] ++ [.opened 0 (.checkSql exampleRequest)] ++ [.seeded movedSettings]) _ :=
    hopened.snoc (.seeded hmoved)
  have hrun : Run Gateway.Step (Gateway.idle exampleDeployment seeded)
      ([] ++ [.opened 0 (.checkSql exampleRequest)] ++ [.seeded movedSettings] ++
        [.opened 1 (.checkSql exampleRequest)]) _ := hreseeded.snoc (.opened _ _)
  obtain ⟨first, rest, heq, hconnects⟩ :=
    @connections_of_run exampleDeployment _ _ _ _ hseed hrun
    ⟨0, .checkSql exampleRequest, seeded⟩ List.mem_cons_self
  obtain ⟨first', rest', heq', hconnects'⟩ :=
    @connections_of_run exampleDeployment _ _ _ _ hseed hrun
    ⟨1, .checkSql exampleRequest, moved⟩ (List.mem_cons_of_mem _ List.mem_cons_self)
  -- Both arrivals stand once in the run, so that what is before each is known.
  have hfirst : first = [] := by
    rcases first with _ | ⟨a, _ | ⟨b, _ | ⟨c, first⟩⟩⟩ <;> simp at heq ⊢
  have hfirst' : first' = [.opened 0 (.checkSql exampleRequest), .seeded movedSettings] := by
    rcases first' with _ | ⟨a, _ | ⟨b, _ | ⟨c, first'⟩⟩⟩ <;> simp at heq' ⊢
    exact ⟨heq'.1.symm, heq'.2.1.symm⟩
  subst hfirst hfirst'
  exact ⟨seeded, moved, hseed, hmoved, hconnects, hconnects'⟩

end SqlGatekeeper
