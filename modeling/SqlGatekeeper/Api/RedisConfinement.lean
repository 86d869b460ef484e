import SqlGatekeeper.Api.Auditing
import SqlGatekeeper.Services.RedisBounds
import SqlGatekeeper.Services.RedisRouting

/-!
# What a Redis answer depends on

* `RedisServer.AgreesOn`: servers that answer some calls alike.
* `InScope`: the read calls that some enabled Redis datasource admits.
* `serve_confined`: no endpoint tells apart servers that agree on these, whatever else they hold.
* `executeDirectly`: the execution without its probe of the size.
* `execute_probed`: on a server whose sizes are those of what it returns, the probe changes no
  answer but the text of a refusal.
-/

namespace SqlGatekeeper

open Py Store RedisGatekeeperService

/-! ## Servers that agree -/

/-- Two servers answer some calls alike. -/
structure RedisServer.AgreesOn (P : RedisCall → Prop) (server server' : RedisServer) : Prop where
  text : ∀ call, P call → server'.text call = server.text call
  int : ∀ call, P call → server'.int call = server.int call
  values : ∀ call, P call → server'.values call = server.values call
  items : ∀ call, P call → server'.items call = server.items call
  hash : ∀ call, P call → server'.hash call = server.hash call

section Agreement

variable {P Q : RedisCall → Prop} {rt : Runtime} {settings : Settings} {session : Option Metadata}
  {server server' : RedisServer} {c : RedisClient}

theorem RedisServer.AgreesOn.mono (h : server.AgreesOn P server')
    (hQ : ∀ call, Q call → P call) :
    server.AgreesOn Q server' where
  text call hc := h.text call (hQ call hc)
  int call hc := h.int call (hQ call hc)
  values call hc := h.values call (hQ call hc)
  items call hc := h.items call (hQ call hc)
  hash call hc := h.hash call (hQ call hc)

/-- Going on with an argument matters for the argument that is there only. -/
theorem argAt_congr {α : Type} {args : List Str} {i : Nat}
    {f g : Str → Traced RedisCall PyError α}
    (h : ∀ a, args[i]? = some a → f a = g a) : argAt args i >>= f = argAt args i >>= g := by
  unfold argAt
  cases harg : args[i]? with
  | none => rfl
  | some a =>
    have hsame := h a harg
    show Traced.lift (.ok a) >>= f = Traced.lift (.ok a) >>= g
    rw [Traced.bind_ok (a := a) rfl, Traced.bind_ok (a := a) rfl, hsame]

/-- A call on the first argument reads a key argument. -/
theorem reads_head {command called : Str} {args : List Str} {key : Str} {fields : List Str}
    {range : Option (Int × Int)} (hcalled : called ∈ readCalls) (hkey : args[0]? = some key) :
    Reads c (keyArgs command args) ⟨c, called, [key], fields, range⟩ := by
  cases args with
  | nil => cases hkey
  | cons k rest =>
    cases hkey
    refine ⟨rfl, hcalled, fun x hx => ?_⟩
    rw [List.mem_singleton.1 hx]
    exact head_mem_keyArgs command key rest

theorem reads_all {command : Str} {args : List Str}
    (hcommand : command ∈ (["MGET", "EXISTS"] : List String).map String.toList)
    (hcalled : command ∈ readCalls) :
    Reads c (keyArgs command args) ⟨c, command, args, [], none⟩ := by
  refine ⟨rfl, hcalled, fun key hkey => ?_⟩
  unfold keyArgs
  rw [if_pos hcommand]
  exact hkey

variable {command : Str} {args : List Str}

theorem runRange_congr (h : server.AgreesOn (Reads c (keyArgs command args)) server') {called : Str}
    (hcalled : called ∈ readCalls) :
    runRange rt server' c called args = runRange rt server c called args := by
  unfold runRange
  refine argAt_congr fun key hkey => ?_
  have hsend : ∀ range, sendItems server' ⟨c, called, [key], [], some range⟩ =
      sendItems server ⟨c, called, [key], [], some range⟩ := by
    intro range
    unfold sendItems
    rw [h.items _ (reads_head hcalled hkey)]
  simp only [hsend]

/-- A command runs alike on servers that agree on reads of its keys. -/
theorem runCommand_congr (h : server.AgreesOn (Reads c (keyArgs command args)) server') :
    runCommand rt server' c command args = runCommand rt server c command args := by
  have htext : ∀ {called key : Str} {fields : List Str}, called ∈ readCalls →
      args[0]? = some key → sendText server' ⟨c, called, [key], fields, none⟩ =
        sendText server ⟨c, called, [key], fields, none⟩ := by
    intro called key fields hcalled hkey
    unfold sendText
    rw [h.text _ (reads_head hcalled hkey)]
  have hint : ∀ {called key : Str}, called ∈ readCalls → args[0]? = some key →
      sendInt server' (keyCall c called key) = sendInt server (keyCall c called key) := by
    intro called key hcalled hkey
    unfold sendInt keyCall
    rw [h.int _ (reads_head hcalled hkey)]
  unfold runCommand
  refine ite_congr rfl (fun _ => argAt_congr fun key hkey => htext (by decide) hkey) fun _ => ?_
  refine ite_congr rfl (fun hc => ?mget) fun _ => ?_
  case mget =>
    subst hc
    unfold sendValues
    rw [h.values _ (reads_all (by decide) (by decide))]
  refine ite_congr rfl (fun _ => argAt_congr fun key hkey => ?hget) fun _ => ?_
  case hget => exact argAt_congr fun field _ => htext (by decide) hkey
  refine ite_congr rfl (fun _ => argAt_congr fun key hkey => ?hmget) fun _ => ?_
  case hmget =>
    unfold sendValues
    rw [h.values _ (reads_head (by decide) hkey)]
  refine ite_congr rfl (fun _ => argAt_congr fun key hkey => ?hgetall) fun _ => ?_
  case hgetall =>
    unfold sendHash keyCall
    rw [h.hash _ (reads_head (by decide) hkey)]
  refine ite_congr rfl (fun hc => ?exist) fun _ => ?_
  case exist =>
    subst hc
    unfold sendInt
    rw [h.int _ (reads_all (by decide) (by decide))]
  refine ite_congr rfl (fun _ => argAt_congr fun key hkey => hint (by decide) hkey) fun _ => ?_
  refine ite_congr rfl (fun _ => argAt_congr fun key hkey => hint (by decide) hkey) fun _ => ?_
  refine ite_congr rfl (fun _ => argAt_congr fun key hkey => htext (by decide) hkey) fun _ => ?_
  refine ite_congr rfl (fun _ => argAt_congr fun key hkey => hint (by decide) hkey) fun _ => ?_
  refine ite_congr rfl (fun _ => argAt_congr fun key hkey => hint (by decide) hkey) fun _ => ?_
  refine ite_congr rfl (fun _ => argAt_congr fun key hkey => hint (by decide) hkey) fun _ => ?_
  refine ite_congr rfl (fun _ => runRange_congr h (by decide)) fun _ => ?_
  refine ite_congr rfl (fun _ => runRange_congr h (by decide)) fun _ => ?_
  refine ite_congr rfl (fun _ => argAt_congr fun key hkey => ?smembers) fun _ => rfl
  case smembers =>
    unfold sendItems keyCall
    rw [h.items _ (reads_head (by decide) hkey)]

theorem preflight_congr {decision : RedisDecision}
    (h : server.AgreesOn (Reads c (keyArgs decision.command decision.args)) server') :
    preflightResultSize settings server' c decision =
      preflightResultSize settings server c decision := by
  unfold preflightResultSize
  refine argAt_congr fun key hkey => ?_
  refine ite_congr rfl (fun _ => ?_) fun _ => ite_congr rfl (fun _ => ?_) fun _ => rfl
  · unfold keyCall
    rw [h.int _ (reads_head (by decide) hkey)]
  · unfold keyCall
    rw [h.int _ (reads_head (by decide) hkey)]

/-- An established decision is executed alike on servers that agree on reads of its keys. -/
theorem execute_congr {decision : RedisDecision} {d : DatasourceInstance} (executionMs : Int)
    (hest : Established rt settings session decision d)
    (h : server.AgreesOn (Reads (client rt d) (keyArgs decision.command decision.args)) server') :
    execute rt settings session server' executionMs decision =
      execute rt settings session server executionMs decision := by
  unfold execute
  rw [hest.lookup]
  by_cases ha : decision.allowed = false
  · rw [if_pos ha, if_pos ha]
  · rw [if_neg ha, if_neg ha]
    have hlift : ∀ f : Option DatasourceInstance → Traced RedisCall PyError RedisExecuteResult,
        Traced.lift (.ok (some d)) >>= f = f (some d) := fun _ => rfl
    rw [hlift, hlift]
    simp only [preflight_congr h, runCommand_congr h]

end Agreement

/-! ## The calls in scope -/

/-- A read call that some enabled Redis datasource admits: on its connection, and on keys inside its
prefixes only. -/
def InScope (rt : Runtime) (settings : Settings) (db : Metadata) (call : RedisCall) : Prop :=
  ∃ d ∈ db.datasources.rows, d.enabled = true ∧ lower rt.toUnicodeData d.dbType = "redis" ∧
    call.client = client rt d ∧ call.command ∈ readCalls ∧
    ∃ prefixes, allowedPrefixes rt settings d = .ok prefixes ∧
      ∀ key ∈ call.keys, KeyAllowed settings prefixes key

/-- The reads of an established decision are in scope. -/
theorem inScope_of_established {rt : Runtime} {settings : Settings} {db : Metadata}
    {decision : RedisDecision} {d : DatasourceInstance}
    (hest : Established rt settings (some db) decision d) {call : RedisCall}
    (hcall : Reads (client rt d) (keyArgs decision.command decision.args) call) :
    InScope rt settings db call := by
  have hmem : d ∈ db.datasources.rows := (Metadata.getEnabledByCode_eq_some hest.lookup).1
  obtain ⟨prefixes, hprefixes, hkeys⟩ := hest.keys
  refine ⟨d, hmem, hest.enabled, hest.redis, hcall.client, hcall.command, prefixes,
    hprefixes, ?_⟩
  intro key hkey
  exact hkeys key (hcall.keys key hkey)

section Confinement

variable {env : Deployment} {db : Metadata} {server : RedisServer}

/-- The deployment with other Redis servers. -/
abbrev Deployment.withRedis (env : Deployment) (server : RedisServer) : Deployment :=
  { env with redis := server }

/-- Reading a command is the same on servers that agree in scope. -/
theorem executeRedis_confined (hdb : db.Constraints)
    (h : env.redis.AgreesOn (InScope env.rt env.settings db) server)
    (request : RedisRequest env.rt) :
    executeRedis (env.withRedis server) db request = executeRedis env db request := by
  have hcheck : runRedisCheck (env.withRedis server) db request = runRedisCheck env db request :=
    rfl
  unfold executeRedis
  rw [hcheck]
  cases hdecision : runRedisCheck env db request with
  | error e => rfl
  | ok decision =>
    by_cases ha : decision.allowed = true
    · obtain ⟨-, -, route, d, -, -, hest⟩ :=
        check_allowed (by simpa using hdb.datasourceCode) hdecision ha
      have hsame : execute env.rt env.settings (some db) server env.executionMs decision =
          execute env.rt env.settings (some db) env.redis env.executionMs decision :=
        execute_congr env.executionMs hest (h.mono fun call hcall =>
          inScope_of_established hest hcall)
      simp only [bind, Except.bind, if_pos ha, Deployment.withRedis, hsame]
      rfl
    · simp only [bind, Except.bind, if_neg ha]
      rfl

/-- No endpoint tells servers apart that agree on the calls in scope: every request gets the same
response and leaves the same metadata, or raises the same, whatever the servers hold under other
keys, on other connections or for other commands. -/
theorem serve_confined (env : Deployment) (db : Metadata) (hdb : db.Constraints)
    (server : RedisServer) (h : env.redis.AgreesOn (InScope env.rt env.settings db) server)
    (request : ApiRequest env.rt) :
    serve (env.withRedis server) db request = serve env db request := by
  cases request with
  | checkSql request => rfl
  | executeSql request => rfl
  | checkRedis request => rfl
  | executeRedis request =>
    exact congrArg (Except.map (Prod.map ApiResponse.redis id))
      (executeRedis_confined hdb h request)

end Confinement

/-- A server that has lost every key outside a prefix. -/
def RedisServer.keeping (server : RedisServer) (kept : Str) : RedisServer where
  text call := if call.keys.all fun key => startsWith key kept then server.text call else .ok none
  int call := if call.keys.all fun key => startsWith key kept then server.int call else .ok 0
  values call := if call.keys.all fun key => startsWith key kept then server.values call else .ok []
  items call := if call.keys.all fun key => startsWith key kept then server.items call else .ok []
  hash call := if call.keys.all fun key => startsWith key kept then server.hash call else .ok []

/-- Such a server agrees on calls whose keys have the prefix. -/
theorem RedisServer.agreesOn_keeping (server : RedisServer) {kept : Str} {P : RedisCall → Prop}
    (h : ∀ call, P call → call.keys.all (fun key => startsWith key kept) = true) :
    server.AgreesOn P (server.keeping kept) where
  text call hc := if_pos (h call hc)
  int call hc := if_pos (h call hc)
  values call hc := if_pos (h call hc)
  items call hc := if_pos (h call hc)
  hash call hc := if_pos (h call hc)

/-- The example's metadata with a cache for users beside the database. -/
def cachedMetadata : Metadata :=
  { exampleMetadata with
    datasources := ⟨[exampleDatasource, exampleCache 2 "cache_user" ["user:"]], 3⟩ }

theorem cachedMetadata_constraints : cachedMetadata.Constraints :=
  { exampleMetadata_constraints with
    datasourceIds := ⟨by decide, by decide⟩
    datasourceCode := by decide
    routeDatasource := by decide
    statsDatasource := by decide }

/-- What is in scope there has the prefix of the cache. -/
theorem cachedMetadata_scope (call : RedisCall)
    (h : InScope asciiRuntime exampleSettings cachedMetadata call) :
    call.keys.all (fun key => startsWith key "user:") = true := by
  obtain ⟨d, hd, -, hredis, -, -, prefixes, hprefixes, hkeys⟩ := h
  rcases List.mem_cons.1 hd with rfl | hd
  · exact absurd hredis (by decide)
  · obtain rfl := List.mem_singleton.1 hd
    obtain rfl : ["user:".toList] = prefixes := Except.ok.inj hprefixes
    rw [List.all_eq_true]
    intro key hkey
    rcases (hkeys key hkey).inside with hnil | hstar | ⟨p, hp, hprefix⟩
    · exact absurd hnil (by simp)
    · exact absurd hstar (by decide)
    · rw [List.mem_singleton.1 hp] at hprefix
      exact List.isPrefixOf_iff_prefix.2 hprefix

/-- A request for a user. -/
def userRequest : RedisRequest asciiRuntime :=
  ⟨exampleRequest.requestId, exampleRequest.operator, exampleRequest.scene,
    ⟨"get", by decide⟩, ⟨["user:1"], by decide⟩, exampleRequest.routeContext⟩

/-- Users are read alike from a server that has lost everything else. -/
theorem serve_confined_user :
    (exampleServer.keeping "user:").text (keyCall (client asciiRuntime exampleDatasource) "GET"
        "order:1") ≠
      exampleServer.text (keyCall (client asciiRuntime exampleDatasource) "GET" "order:1") ∧
    serve (exampleDeployment.withRedis (exampleServer.keeping "user:")) cachedMetadata
        (.executeRedis userRequest) =
      serve exampleDeployment cachedMetadata (.executeRedis userRequest) := by
  refine ⟨by simp [RedisServer.keeping, exampleServer, keyCall, startsWith], ?_⟩
  exact serve_confined exampleDeployment cachedMetadata cachedMetadata_constraints _
    (exampleServer.agreesOn_keeping cachedMetadata_scope) (.executeRedis userRequest)

/-! ## The probe of the size -/

/-- A server that counts what it returns. -/
structure RedisServer.Sizes (server : RedisServer) : Prop where
  hlen : ∀ c key, server.int (keyCall c "HLEN" key) =
    (server.hash (keyCall c "HGETALL" key)).map fun fields => (fields.length : Int)
  scard : ∀ c key, server.int (keyCall c "SCARD" key) =
    (server.items (keyCall c "SMEMBERS" key)).map fun members => (members.length : Int)

theorem sizes_storeServer (store : Keyspace) : (storeServer store).Sizes where
  hlen _ _ := rfl
  scard _ _ := rfl

/-- The result of a reply: its rows, or a refusal if they are too many. -/
def resultOf (settings : Settings) (decision : RedisDecision) (executionMs : Int)
    (reply : RedisReply) : RedisExecuteResult :=
  let rows := formatRows decision.command decision.args reply
  if (rows.length : Int) > settings.redisMaxResultItems then
    refuse "REDIS_RESULT_LIMIT_EXCEEDED" ("Redis result returned " ++ intText rows.length ++
      " items, exceeding max " ++ intText settings.redisMaxResultItems) executionMs
  else ⟨true, "EXECUTED", "Redis command executed successfully", rows, rows.length, executionMs⟩

/-- The execution that reads first and counts then. -/
def executeDirectly (rt : Runtime) (settings : Settings) (session : Option Metadata)
    (server : RedisServer) (executionMs : Int) (decision : RedisDecision) :
    Except PyError RedisExecuteResult :=
  if decision.allowed = false then .ok (refuse decision.reasonCode decision.message 0)
  else do
    match ← datasource settings session decision.datasourceCode with
    | none => pure (refuse "REDIS_DATASOURCE_NOT_FOUND" ("Redis datasource '" ++
        decision.datasourceCode ++ "' was not found") executionMs)
    | some d =>
        (runCommand rt server (client rt d) decision.command decision.args).result.map
          (resultOf settings decision executionMs)

/-- A result without the text of a refusal for the size; any other result is itself. -/
def RedisExecuteResult.silent (r : RedisExecuteResult) : RedisExecuteResult :=
  if r.reasonCode = "REDIS_RESULT_LIMIT_EXCEEDED" then { r with message := [] } else r

section Probe

variable {rt : Runtime} {settings : Settings} {session : Option Metadata} {server : RedisServer}
  {c : RedisClient} {decision : RedisDecision} {executionMs : Int}

/-- What becomes of a reply behind a probe: the refusal of the probe comes first. -/
def settle (settings : Settings) (decision : RedisDecision) (executionMs : Int)
    (run : Except PyError RedisReply) : Option (Str × Str) → Except PyError RedisExecuteResult
  | some (reasonCode, message) => .ok (refuse reasonCode message executionMs)
  | none => run.map (resultOf settings decision executionMs)

/-- An execution is the lookup, the probe and the command. -/
theorem execute_result (ha : decision.allowed = true) :
    (execute rt settings session server executionMs decision).result =
      (datasource settings session decision.datasourceCode >>= fun found =>
        found.elim (.ok (refuse "REDIS_DATASOURCE_NOT_FOUND" ("Redis datasource '" ++
          decision.datasourceCode ++ "' was not found") executionMs))
          fun d => (preflightResultSize settings server (client rt d) decision).result >>=
            settle settings decision executionMs
              (runCommand rt server (client rt d) decision.command decision.args).result) := by
  unfold execute
  rw [if_neg (by simp [ha]), Traced.bind_result, Traced.lift_result]
  refine bind_congr fun found => ?_
  cases found with
  | none => rfl
  | some d =>
    simp only [Option.elim_some, Traced.bind_result]
    refine bind_congr fun probed => ?_
    cases probed with
    | some refusal => rfl
    | none =>
      simp only [Traced.bind_result]
      cases (runCommand rt server (client rt d) decision.command decision.args).result with
      | error e => rfl
      | ok reply =>
        unfold settle resultOf
        simp only [bind, Except.bind, Except.map]
        split <;> rfl

/-- The refusal of a size, if it is over the limit. -/
def overLimit (settings : Settings) (message : Str) (size : Int) : Option (Str × Str) :=
  if size > settings.redisMaxResultItems then some ("REDIS_RESULT_LIMIT_EXCEEDED", message)
    else none

/-- A size is refused alike before the items are read and behind. -/
theorem settle_probed {α : Type} {reply : Except PyError (List α)} {f : List α → RedisReply}
    (message : Str)
    (hrows : ∀ items, (formatRows decision.command decision.args (f items)).length =
      items.length) :
    ((reply.map fun items => (items.length : Int)) >>= fun size =>
      settle settings decision executionMs (reply.map f) (overLimit settings message size)).map
        RedisExecuteResult.silent =
    ((reply.map f).map (resultOf settings decision executionMs)).map RedisExecuteResult.silent := by
  cases reply with
  | error e => rfl
  | ok items =>
    simp only [Except.map, bind, Except.bind, overLimit]
    by_cases hlong : (items.length : Int) > settings.redisMaxResultItems
    · have hresult : resultOf settings decision executionMs (f items) =
          refuse "REDIS_RESULT_LIMIT_EXCEEDED" ("Redis result returned " ++
            intText items.length ++ " items, exceeding max " ++
            intText settings.redisMaxResultItems) executionMs := by
        unfold resultOf
        simp only [hrows]
        rw [if_pos hlong]
      rw [if_pos hlong, hresult]
      rfl
    · rw [if_neg hlong]
      rfl

/-- The probe in front of a command changes no answer but the text of a refusal. -/
theorem preflight_settle (hserver : server.Sizes) {key : Str} {rest : List Str}
    (hargs : decision.args = key :: rest) :
    ((preflightResultSize settings server c decision).result >>=
      settle settings decision executionMs
        (runCommand rt server c decision.command decision.args).result).map
          RedisExecuteResult.silent =
    ((runCommand rt server c decision.command decision.args).result.map
      (resultOf settings decision executionMs)).map RedisExecuteResult.silent := by
  have hkey : argAt decision.args 0 = Traced.lift (.ok key) := by
    unfold argAt
    rw [hargs]
    rfl
  have hprobe : ∀ {called kind : Str},
      (preflightResultSize settings server c decision).result =
        (server.int (keyCall c called key) >>= fun size => .ok (overLimit settings kind size)) →
      ((preflightResultSize settings server c decision).result >>= settle settings decision
        executionMs (runCommand rt server c decision.command decision.args).result) =
      (server.int (keyCall c called key) >>= fun size => settle settings decision executionMs
        (runCommand rt server c decision.command decision.args).result
          (overLimit settings kind size)) := by
    intro called kind h
    rw [h]
    cases server.int (keyCall c called key) <;> rfl
  by_cases hhash : decision.command = "HGETALL"
  · have hrun : (runCommand rt server c decision.command decision.args).result =
        (server.hash (keyCall c "HGETALL" key)).map .hash := by
      unfold runCommand
      rw [hhash, hkey]
      rfl
    rw [@hprobe "HLEN" ("HGETALL result exceeds max " ++ intText settings.redisMaxResultItems ++
      " fields") ?hgetall, hserver.hlen c key, hrun]
    case hgetall =>
      unfold preflightResultSize
      simp only [hkey, if_pos hhash, Traced.bind_result, Traced.lift_result, Traced.send_result]
      rfl
    refine settle_probed _ fun fields => ?_
    rw [formatRows, List.length_map, List.length_insertionSort]
  by_cases hset : decision.command = "SMEMBERS"
  · have hrun : (runCommand rt server c decision.command decision.args).result =
        (server.items (keyCall c "SMEMBERS" key)).map fun members => .items
          (sortStrings members) := by
      unfold runCommand
      rw [hset, hkey]
      show (sendItems server (keyCall c "SMEMBERS" key) >>= _).result = _
      unfold sendItems
      rw [Traced.bind_result, Traced.send_result]
      cases server.items (keyCall c "SMEMBERS" key) <;> rfl
    rw [@hprobe "SCARD" ("SMEMBERS result exceeds max " ++ intText settings.redisMaxResultItems ++
      " members") ?smembers, hserver.scard c key, hrun]
    case smembers =>
      unfold preflightResultSize
      simp only [hkey, if_neg hhash, if_pos hset, Traced.bind_result, Traced.lift_result,
        Traced.send_result]
      rfl
    refine settle_probed _ fun members => ?_
    rw [formatRows, List.length_map, List.length_zipIdx, length_sortStrings]
  · have hnone : (preflightResultSize settings server c decision).result = .ok none := by
      unfold preflightResultSize
      simp only [hkey, if_neg hhash, if_neg hset]
      rfl
    rw [hnone]
    rfl

/-- The probe is an optimisation: on a server that counts what it returns, a checked command is
answered, refused or raises as if it were read first and counted then; only the text of a refusal
for the size is another. -/
theorem execute_probed (rt : Runtime) (settings : Settings) (session : Option Metadata)
    (server : RedisServer) (hserver : server.Sizes) (command : Str) (args : List Str)
    (redisContext : JsonDict) (decision : RedisDecision)
    (hcheck : check rt settings session command args redisContext = .ok decision)
    (executionMs : Int) :
    (execute rt settings session server executionMs decision).result.map RedisExecuteResult.silent =
      (executeDirectly rt settings session server executionMs decision).map
        RedisExecuteResult.silent := by
  by_cases ha : decision.allowed = true
  · obtain ⟨hmem, code, -, hfit, hroute⟩ := check_inv hcheck ha
    obtain ⟨-, hargs, -⟩ := checkRoute_inv hroute ha
    obtain ⟨key, rest, hkey⟩ : ∃ key rest, decision.args = key :: rest := by
      rw [hargs]
      exact List.exists_cons_of_ne_nil (validateArgs_eq_none hmem hfit).key
    rw [execute_result ha]
    unfold executeDirectly
    rw [if_neg (by simp [ha])]
    cases datasource settings session decision.datasourceCode with
    | error e => rfl
    | ok found =>
      cases found with
      | none => rfl
      | some d => exact preflight_settle hserver hkey
  · have hrefused : decision.allowed = false := by simpa using ha
    unfold execute executeDirectly
    rw [if_pos hrefused, if_pos hrefused]
    rfl

/-- A hash with a hundred and one fields under every key. -/
def largeHashes : Keyspace := fun _ _ =>
  some (.hash ((List.range 101).map fun i => (intText i, "x")) (by decide +kernel))

/-- A hash over the limit is refused either way. -/
theorem execute_probed_large : ∃ decision,
    check asciiRuntime exampleSettings none "HGETALL" ["user:1"] [] = .ok decision ∧
    (executeDirectly asciiRuntime exampleSettings none (storeServer largeHashes) 0 decision).map
      RedisExecuteResult.reasonCode = .ok "REDIS_RESULT_LIMIT_EXCEEDED" ∧
    (execute asciiRuntime exampleSettings none (storeServer largeHashes) 0 decision).result.map
        RedisExecuteResult.silent =
      (executeDirectly asciiRuntime exampleSettings none (storeServer largeHashes) 0 decision).map
        RedisExecuteResult.silent := by
  obtain ⟨decision, hcheck, hcode⟩ := bind_eq_ok.1 (by decide +kernel :
    (do
      let decision ← check asciiRuntime exampleSettings none "HGETALL" ["user:1"] []
      (executeDirectly asciiRuntime exampleSettings none (storeServer largeHashes) 0 decision).map
        RedisExecuteResult.reasonCode) = .ok "REDIS_RESULT_LIMIT_EXCEEDED".toList)
  exact ⟨decision, hcheck, hcode, execute_probed asciiRuntime exampleSettings none _
    (sizes_storeServer largeHashes) "HGETALL" ["user:1"] [] decision hcheck 0⟩

end Probe

end SqlGatekeeper
