import SqlGatekeeper.Db.Repositories

/-!
# The Redis gatekeeper

`RedisGatekeeperService` checks a Redis command and executes it.

* `RedisServer`: the servers behind the client, by the calls the service makes.
* `check`: command lists, argument validation, datasource, key validation.
* `execute`: preflight, the call, the rows; traced by the calls it makes.

The service has a metadata session or none; without one the settings describe its one
datasource.
-/

namespace SqlGatekeeper

open Py Store

/-! ## Settings, decisions, calls -/

/-- The settings the service reads. -/
structure Settings where
  redisHost : Str
  redisPort : Int
  redisDb : Int
  redisPassword : Str
  redisDatasourceCode : Str
  redisAllowedKeyPrefixes : Str
  redisMaxKeysPerRequest : Int
  redisMaxResultItems : Int
  redisMaxKeyLength : Int

/-- The commands the service executes. -/
def readonlyCommands : List Str :=
  ["GET", "MGET", "HGET", "HMGET", "HGETALL", "EXISTS", "TTL", "PTTL", "TYPE", "LLEN", "SCARD",
    "ZCARD", "LRANGE", "ZRANGE", "SMEMBERS"]

/-- The commands that are denied by name. -/
def deniedCommands : List Str :=
  ["SET", "MSET", "DEL", "UNLINK", "EXPIRE", "PEXPIRE", "PERSIST", "RENAME", "FLUSHDB", "FLUSHALL",
    "EVAL", "EVALSHA", "CONFIG", "KEYS", "SCAN", "HSET", "HMSET", "HDEL", "LPUSH", "RPUSH", "LPOP",
    "RPOP", "SADD", "SREM", "ZADD", "ZREM"]

/-- The outcome of a check. -/
structure RedisDecision where
  allowed : Bool
  reasonCode : Str
  message : Str
  command : Str
  args : List Str
  datasourceCode : Str
  diagnostics : List Json

/-- The outcome of an execution. -/
structure RedisExecuteResult where
  allowed : Bool
  reasonCode : Str
  message : Str
  rows : List JsonDict
  rowCount : Nat
  executionMs : Int

/-- The datasource of a request, or why there is none. -/
structure RedisRouteResolution where
  datasource : Option DatasourceInstance
  reasonCode : Str
  message : Str

/-- The connection a client is made for. -/
structure RedisClient where
  host : Str
  port : Int
  db : Int
  password : Option Str
  deriving DecidableEq, Repr

/-- A call of a client: the Redis command, its keys, and its other arguments. -/
structure RedisCall where
  client : RedisClient
  command : Str
  keys : List Str
  fields : List Str
  range : Option (Int × Int)
  deriving DecidableEq, Repr

/-- The servers, by the kind of reply the client returns.  Every call may raise. -/
structure RedisServer where
  text : RedisCall → Except PyError (Option Str)
  int : RedisCall → Except PyError Int
  values : RedisCall → Except PyError (List (Option Str))
  items : RedisCall → Except PyError (List Str)
  hash : RedisCall → Except PyError (List (Str × Str))

/-- What a command returns, before it is made into rows. -/
inductive RedisReply where
  | text (value : Option Str)
  | int (value : Int)
  | values (values : List (Option Str))
  | items (items : List Str)
  | hash (fields : List (Str × Str))

/-- The kinds of replies. -/
inductive ReplyKind where
  | text
  | int
  | values
  | items
  | hash
  deriving DecidableEq

/-- The kind of the reply to a command. -/
def replyKind (command : Str) : ReplyKind :=
  if command ∈ (["GET", "HGET", "TYPE"] : List String).map String.toList then .text
  else if command ∈ (["MGET", "HMGET"] : List String).map String.toList then .values
  else if command ∈ (["LRANGE", "ZRANGE", "SMEMBERS"] : List String).map String.toList then .items
  else if command = "HGETALL" then .hash
  else .int

/-- A call has a reply that the client can read. -/
def RedisServer.Answers (server : RedisServer) (call : RedisCall) : Prop :=
  match replyKind call.command with
  | .text => Returns (server.text call)
  | .int => Returns (server.int call)
  | .values => Returns (server.values call)
  | .items => Returns (server.items call)
  | .hash => Returns (server.hash call)

/-- A comprehension with a condition that may raise. -/
def filterE {α : Type} (p : α → Except PyError Bool) : List α → Except PyError (List α)
  | [] => .ok []
  | a :: as => do
      let keep ← p a
      let rest ← filterE p as
      pure (if keep then a :: rest else rest)

/-- A comprehension with a value that may raise. -/
def mapE {α β : Type} (f : α → Except PyError β) : List α → Except PyError (List β)
  | [] => .ok []
  | a :: as => do
      let b ← f a
      let rest ← mapE f as
      pure (b :: rest)

namespace RedisGatekeeperService

variable (rt : Runtime) (settings : Settings) (session : Option Metadata)

/-! ## Context and prefixes -/

/-- `str(redis_context.get("datasource_code") or "")`. -/
def contextDatasourceCode (redisContext : JsonDict) : Except PyError Str :=
  rt.strJson ((redisContext.get "datasource_code").orElse (.str ""))

/-- `_catalog_name`. -/
def catalogName (redisContext : JsonDict) : Except PyError Str :=
  rt.strJson ((redisContext.get "catlog_name").orElse ((redisContext.get "catalog_name").orElse
    ((redisContext.get "catalog").orElse (.str ""))))

/-- `_datasource_catalog`. -/
def datasourceCatalog (datasource : DatasourceInstance) : Except PyError Str :=
  match datasource.extra with
  | .dict extra => rt.strJson ((JsonDict.get extra "catlog_name").orElse
      ((JsonDict.get extra "catalog_name").orElse
        ((JsonDict.get extra "redis_catalog").orElse (.str ""))))
  | _ => .ok []

/-- The items of a comma-separated list, stripped, without empty ones. -/
def splitPrefixes (text : Str) : List Str := ((splitOn ',' text).map strip).filter (· ≠ [])

/-- `_allowed_prefixes`. -/
def allowedPrefixes (datasource : DatasourceInstance) : Except PyError (List Str) :=
  let rawPrefixes : Json :=
    match datasource.extra with
    | .dict extra => JsonDict.get extra "allowed_key_prefixes"
    | _ => .null
  match rawPrefixes with
  | .list items => (mapE rt.strJson items).map fun texts => (texts.map strip).filter (· ≠ [])
  | .str text => .ok (splitPrefixes text)
  | _ => .ok (splitPrefixes settings.redisAllowedKeyPrefixes)

/-- Is a key inside a list of prefixes?  An empty list and `*` are no restriction. -/
def insidePrefixes (prefixes : List Str) (key : Str) : Bool :=
  prefixes.isEmpty || prefixes.contains "*" || prefixes.any fun p => startsWith key p

/-- `_key_allowed_by_datasource`. -/
def keyAllowedByDatasource (key : Str) (datasource : DatasourceInstance) : Except PyError Bool :=
  (allowedPrefixes rt settings datasource).map fun prefixes => insidePrefixes prefixes key

/-- `_key_args`. -/
def keyArgs (command : Str) (args : List Str) : List Str :=
  if command ∈ (["MGET", "EXISTS"] : List String).map String.toList then args else args.take 1

/-! ## Datasources -/

/-- `_datasource`: by code, in the metadata or in the settings. -/
def datasource (datasourceCode : Str) : Except PyError (Option DatasourceInstance) :=
  match session with
  | some db => db.getEnabledByCode datasourceCode
  | none =>
      if datasourceCode ≠ settings.redisDatasourceCode then .ok none
      else .ok (some {
        id := 0
        datasourceCode := settings.redisDatasourceCode
        displayName := "Configured Redis"
        dbType := "redis"
        host := settings.redisHost
        port := settings.redisPort
        databaseName := intText settings.redisDb
        username := []
        passwordSecretRef :=
          if settings.redisPassword = [] then [] else "local:" ++ settings.redisPassword
        readOnly := true
        enabled := true
        extra := .dict [] })

/-- The datasources that serve a catalog. -/
def matchingCatalog (db : Metadata) (catalog : Str) : Except PyError (List DatasourceInstance) :=
  filterE (fun d => (datasourceCatalog rt d).map fun c =>
      decide (lower rt.toUnicodeData c = lower rt.toUnicodeData catalog))
    (db.datasources.rows.filter fun d => d.dbType = "redis" ∧ d.enabled)

/-- The datasources that also admit a key; without a key, all of them. -/
def matchingKey (routeKey : Str) (candidates : List DatasourceInstance) :
    Except PyError (List DatasourceInstance) :=
  filterE (fun d => if routeKey = [] then .ok true
    else keyAllowedByDatasource rt settings routeKey d)
    candidates

/-- `_resolve_datasource`. -/
def resolveDatasource (command : Str) (args : List Str) (redisContext : JsonDict) :
    Except PyError RedisRouteResolution := do
  let datasourceCode ← contextDatasourceCode rt redisContext
  if datasourceCode ≠ [] then
    match ← datasource settings session datasourceCode with
    | none => pure ⟨none, "REDIS_DATASOURCE_NOT_FOUND",
        "Redis datasource '" ++ datasourceCode ++ "' was not found"⟩
    | some d => pure ⟨some d, [], []⟩
  else
    match session with
    | none => do
        match ← datasource settings none settings.redisDatasourceCode with
        | none => pure ⟨none, "REDIS_DATASOURCE_NOT_FOUND",
            "Redis datasource '" ++ settings.redisDatasourceCode ++ "' was not found"⟩
        | some d => pure ⟨some d, [], []⟩
    | some db => do
        let catalog ← catalogName rt redisContext
        if catalog = [] then
          pure ⟨none, "REDIS_ROUTE_CONTEXT_REQUIRED", "Redis routing requires " ++
            "redis_context.catlog_name/catalog_name or redis_context.datasource_code"⟩
        else do
          let routeKey := (keyArgs command args).headD []
          match ← matchingCatalog rt db catalog with
          | [] => pure ⟨none, "REDIS_ROUTE_NOT_FOUND",
              "No Redis datasource matched catalog '" ++ catalog ++ "'"⟩
          | candidates => do
              match ← matchingKey rt settings routeKey candidates with
              | [d] => pure ⟨some d, [], []⟩
              | [] => pure ⟨none, "REDIS_ROUTE_NOT_FOUND",
                  "No Redis datasource matched catalog '" ++
                  catalog ++ "' and key '" ++ routeKey ++ "'"⟩
              | _ => pure ⟨none, "REDIS_ROUTE_AMBIGUOUS",
                  "Multiple Redis datasources matched catalog '" ++
                  catalog ++ "' and key '" ++ routeKey ++ "'"⟩

/-! ## Validation -/

/-- `_reject`. -/
def reject (reasonCode message command : Str) (args : List Str) (datasourceCode : Str) :
    RedisDecision :=
  ⟨false, reasonCode, message, command, args, datasourceCode, []⟩

/-- The commands that take one key and nothing else. -/
def singleArgCommands : List Str :=
  ["GET", "HGETALL", "TTL", "PTTL", "TYPE", "LLEN", "SCARD", "ZCARD", "SMEMBERS"]

/-- The commands that take any number of keys. -/
def multiKeyCommands : List Str := ["MGET", "EXISTS"]

/-- The commands that take a key and a range. -/
def rangeCommands : List Str := ["LRANGE", "ZRANGE"]

/-- The range part of `_validate_args`. -/
def validateRange (command : Str) (args : List Str) (datasourceCode : Str) :
    Option RedisDecision :=
  match rt.int (args.getD 1 []), rt.int (args.getD 2 []) with
  | .ok start, .ok stop =>
      if start < 0 ∨ stop < start then
        some (reject "REDIS_RANGE_INVALID" (command ++ " requires 0 <= start <= stop") command args
          datasourceCode)
      else if stop - start + 1 > settings.redisMaxResultItems then
        some (reject "REDIS_RANGE_LIMIT_EXCEEDED" (command ++ " range exceeds max " ++
          intText settings.redisMaxResultItems ++ " items") command args datasourceCode)
      else none
  | _, _ => some (reject "REDIS_RANGE_INVALID" (command ++ " start and stop must be integers")
      command args datasourceCode)

/-- `_validate_args`. -/
def validateArgs (command : Str) (args : List Str) (datasourceCode : Str) :
    Option RedisDecision :=
  let argCount := args.length
  if command ∈ singleArgCommands ∧ argCount ≠ 1 then
    some (reject "REDIS_ARG_COUNT_INVALID" (command ++ " requires exactly 1 argument") command args
      datasourceCode)
  else if command ∈ (["HGET"] : List String).map String.toList ∧ argCount ≠ 2 then
    some (reject "REDIS_ARG_COUNT_INVALID" (command ++ " requires exactly 2 arguments") command args
      datasourceCode)
  else if command ∈ multiKeyCommands ∧
      ¬ (1 ≤ argCount ∧ (argCount : Int) ≤ settings.redisMaxKeysPerRequest) then
    some (reject "REDIS_TOO_MANY_KEYS" (command ++ " requires 1 to " ++
      intText settings.redisMaxKeysPerRequest ++ " keys") command args datasourceCode)
  else if command = "HMGET" ∧ argCount < 2 then
    some (reject "REDIS_ARG_COUNT_INVALID" "HMGET requires a key and at least one field" command
      args datasourceCode)
  else if command ∈ rangeCommands ∧ argCount ≠ 3 then
    some (reject "REDIS_ARG_COUNT_INVALID" (command ++ " requires key, start, and stop") command
      args datasourceCode)
  else if command ∈ rangeCommands then validateRange rt settings command args datasourceCode
  else none

/-- The characters of key patterns. -/
def hasPattern (key : Str) : Bool := key.contains '*' || key.contains '?' || key.contains '['

/-- The loop of `_validate_keys`. -/
def validateKeysFrom (prefixes : List Str) (command : Str) (args : List Str)
    (datasourceCode : Str) : List Str → Option RedisDecision
  | [] => none
  | key :: keys =>
      if key = [] then
        some (reject "REDIS_KEY_EMPTY" "Redis key must not be empty" command args datasourceCode)
      else if (key.length : Int) > settings.redisMaxKeyLength then
        some (reject "REDIS_KEY_TOO_LONG" ("Redis key length exceeded max " ++
          intText settings.redisMaxKeyLength) command args datasourceCode)
      else if hasPattern key then
        some (reject "REDIS_KEY_PATTERN_DENIED" "Redis wildcard key patterns are not allowed"
          command args datasourceCode)
      else if ¬ insidePrefixes prefixes key then
        some (reject "REDIS_KEY_SCOPE_DENIED" ("Redis key '" ++ key ++
          "' is outside allowed prefixes") command args datasourceCode)
      else validateKeysFrom prefixes command args datasourceCode keys

/-- `_validate_keys`. -/
def validateKeys (command : Str) (args : List Str) (d : DatasourceInstance) :
    Except PyError (Option RedisDecision) :=
  (allowedPrefixes rt settings d).map fun prefixes =>
    validateKeysFrom settings prefixes command args d.datasourceCode (keyArgs command args)

/-! ## The check -/

/-- The diagnostics of an allowed request. -/
def allowDiagnostics (d : DatasourceInstance) (prefixes : List Str) (catalog : Str) : Json :=
  .dict [
    ("datasource", .dict [("code", .str d.datasourceCode), ("host", .str d.host),
      ("port", .int d.port), ("database", .str d.databaseName)]),
    ("allowed_commands", .list ((sortStrings readonlyCommands).map .str)),
    ("max_keys_per_request", .int settings.redisMaxKeysPerRequest),
    ("max_result_items", .int settings.redisMaxResultItems),
    ("allowed_key_prefixes", .list (prefixes.map .str)),
    ("route_context", .dict [("catlog_name", .str catalog)])]

/-- The part of `check` behind the argument validation. -/
def checkRoute (command : Str) (args : List Str) (redisContext : JsonDict) :
    Except PyError RedisDecision := do
  let route ← resolveDatasource rt settings session command args redisContext
  let routeCode :=
    match route.datasource with
    | some d => d.datasourceCode
    | none => []
  let datasourceCode ← rt.strJson ((redisContext.get "datasource_code").orElse (.str routeCode))
  match route.datasource with
  | none => pure (reject route.reasonCode route.message command args datasourceCode)
  | some d =>
      if lower rt.toUnicodeData d.dbType ≠ "redis" then
        pure (reject "REDIS_DATASOURCE_TYPE_INVALID" ("Datasource '" ++ datasourceCode ++
          "' is not a Redis datasource") command args datasourceCode)
      else do
        match ← validateKeys rt settings command args d with
        | some decision => pure decision
        | none => do
            let prefixes ← allowedPrefixes rt settings d
            let catalog ← catalogName rt redisContext
            pure ⟨true, "ALLOW",
              "Redis command passed readonly command, key scope, and result limit checks", command,
              args, datasourceCode, [allowDiagnostics settings d prefixes catalog]⟩

/-- `RedisGatekeeperService.check`. -/
def check (command : Str) (args : List Str) (redisContext : JsonDict) :
    Except PyError RedisDecision :=
  let normalized := upper rt.toUnicodeData (strip command)
  if normalized = [] then
    .ok (reject "EMPTY_REDIS_COMMAND" "Redis command must not be empty" normalized args [])
  else if normalized ∈ deniedCommands then do
    let code ← contextDatasourceCode rt redisContext
    pure (reject "REDIS_COMMAND_DENIED" ("Redis command '" ++ normalized ++ "' is not allowed")
      normalized args code)
  else if normalized ∉ readonlyCommands then do
    let code ← contextDatasourceCode rt redisContext
    pure (reject "REDIS_COMMAND_UNSUPPORTED" ("Redis command '" ++ normalized ++
      "' is not supported by the safe Redis gatekeeper") normalized args code)
  else do
    let code ← contextDatasourceCode rt redisContext
    match validateArgs rt settings normalized args code with
    | some decision => pure decision
    | none => checkRoute rt settings session normalized args redisContext

/-! ## The execution -/

/-- `_redis_db`. -/
def redisDb (d : DatasourceInstance) : Int :=
  if d.databaseName = [] then 0
  else
    match rt.int d.databaseName with
    | .ok n => n
    | .error _ => 0

/-- `_resolve_password`. -/
def resolvePassword (secretRef : Str) : Option Str :=
  if secretRef = [] then none
  else if startsWith secretRef "local:" then
    let password := secretRef.drop "local:".length
    if password = [] then none else some password
  else some secretRef

/-- `_client`. -/
def client (d : DatasourceInstance) : RedisClient :=
  ⟨d.host, d.port, redisDb rt d, resolvePassword d.passwordSecretRef⟩

/-- `args[i]`. -/
def argAt (args : List Str) (i : Nat) : Traced RedisCall PyError Str :=
  Traced.lift (match args[i]? with
    | some arg => .ok arg
    | none => .error .indexError)

variable (server : RedisServer)

/-- A call with one key. -/
def keyCall (c : RedisClient) (command key : Str) : RedisCall := ⟨c, command, [key], [], none⟩

/-- `_preflight_result_size`. -/
def preflightResultSize (c : RedisClient) (decision : RedisDecision) :
    Traced RedisCall PyError (Option (Str × Str)) := do
  let key ← argAt decision.args 0
  let maxItems := settings.redisMaxResultItems
  if decision.command = "HGETALL" then do
    let size ← Traced.send (keyCall c "HLEN" key) (server.int (keyCall c "HLEN" key))
    pure (if size > maxItems then some ("REDIS_RESULT_LIMIT_EXCEEDED",
      "HGETALL result exceeds max " ++ intText maxItems ++ " fields") else none)
  else if decision.command = "SMEMBERS" then do
    let size ← Traced.send (keyCall c "SCARD" key) (server.int (keyCall c "SCARD" key))
    pure (if size > maxItems then some ("REDIS_RESULT_LIMIT_EXCEEDED",
      "SMEMBERS result exceeds max " ++ intText maxItems ++ " members") else none)
  else pure none

/-- A call whose reply is a text. -/
def sendText (call : RedisCall) : Traced RedisCall PyError RedisReply :=
  Traced.send call ((server.text call).map .text)

/-- A call whose reply is a number. -/
def sendInt (call : RedisCall) : Traced RedisCall PyError RedisReply :=
  Traced.send call ((server.int call).map .int)

/-- A call whose reply is a list with gaps. -/
def sendValues (call : RedisCall) : Traced RedisCall PyError RedisReply :=
  Traced.send call ((server.values call).map .values)

/-- A call whose reply is a list. -/
def sendItems (call : RedisCall) : Traced RedisCall PyError RedisReply :=
  Traced.send call ((server.items call).map .items)

/-- A call whose reply is a hash. -/
def sendHash (call : RedisCall) : Traced RedisCall PyError RedisReply :=
  Traced.send call ((server.hash call).map .hash)

/-- The two range commands. -/
def runRange (c : RedisClient) (command : Str) (args : List Str) :
    Traced RedisCall PyError RedisReply := do
  let key ← argAt args 0
  let start ← argAt args 1
  let start ← Traced.lift (rt.int start)
  let stop ← argAt args 2
  let stop ← Traced.lift (rt.int stop)
  sendItems server ⟨c, command, [key], [], some (start, stop)⟩

/-- `_run_command`. -/
def runCommand (c : RedisClient) (command : Str) (args : List Str) :
    Traced RedisCall PyError RedisReply :=
  if command = "GET" then do sendText server (keyCall c "GET" (← argAt args 0))
  else if command = "MGET" then sendValues server ⟨c, "MGET", args, [], none⟩
  else if command = "HGET" then do
    let key ← argAt args 0
    let field ← argAt args 1
    sendText server ⟨c, "HGET", [key], [field], none⟩
  else if command = "HMGET" then do
    let key ← argAt args 0
    sendValues server ⟨c, "HMGET", [key], args.drop 1, none⟩
  else if command = "HGETALL" then do sendHash server (keyCall c "HGETALL" (← argAt args 0))
  else if command = "EXISTS" then sendInt server ⟨c, "EXISTS", args, [], none⟩
  else if command = "TTL" then do sendInt server (keyCall c "TTL" (← argAt args 0))
  else if command = "PTTL" then do sendInt server (keyCall c "PTTL" (← argAt args 0))
  else if command = "TYPE" then do sendText server (keyCall c "TYPE" (← argAt args 0))
  else if command = "LLEN" then do sendInt server (keyCall c "LLEN" (← argAt args 0))
  else if command = "SCARD" then do sendInt server (keyCall c "SCARD" (← argAt args 0))
  else if command = "ZCARD" then do sendInt server (keyCall c "ZCARD" (← argAt args 0))
  else if command = "LRANGE" then runRange rt server c "LRANGE" args
  else if command = "ZRANGE" then runRange rt server c "ZRANGE" args
  else if command = "SMEMBERS" then do
    match ← sendItems server (keyCall c "SMEMBERS" (← argAt args 0)) with
    | .items members => pure (.items (sortStrings members))
    | reply => pure reply
  else Traced.lift (.error .valueError)

/-- A text or `None` as JSON. -/
def optText : Option Str → Json
  | some s => .str s
  | none => .null

/-- A result row: a labelled value and the value that goes with it. -/
def pairRow (label : Str) (x value : Json) : JsonDict := [(label, x), ("value", value)]

/-- `_format_rows`, by the kind of the reply. -/
def formatRows (command : Str) (args : List Str) : RedisReply → List JsonDict
  | .values values =>
      if command = "MGET" then
        (args.zip values).map fun (key, value) => pairRow "key" (.str key) (optText value)
      else
        ((args.drop 1).zip values).map fun (field, value) =>
          pairRow "field" (.str field) (optText value)
  | .hash fields => (fields.insertionSort fun a b => strLe a.1 b.1 = true).map fun (field, value) =>
      pairRow "field" (.str field) (.str value)
  | .items items => items.zipIdx.map fun (value, index) =>
      pairRow "index" (.int index) (.str value)
  | .text value => [pairRow "key" (.str (args.headD [])) (optText value)]
  | .int value => [pairRow "key" (.str (args.headD [])) (.int value)]

/-- A result without rows. -/
def refuse (reasonCode message : Str) (executionMs : Int) : RedisExecuteResult :=
  ⟨false, reasonCode, message, [], 0, executionMs⟩

/-- `RedisGatekeeperService.execute`; `executionMs` is what the clock says. -/
def execute (executionMs : Int) (decision : RedisDecision) :
    Traced RedisCall PyError RedisExecuteResult :=
  if decision.allowed = false then pure (refuse decision.reasonCode decision.message 0)
  else do
    match ← Traced.lift (datasource settings session decision.datasourceCode) with
    | none => pure (refuse "REDIS_DATASOURCE_NOT_FOUND" ("Redis datasource '" ++
        decision.datasourceCode ++ "' was not found") executionMs)
    | some d => do
        match ← preflightResultSize settings server (client rt d) decision with
        | some (reasonCode, message) => pure (refuse reasonCode message executionMs)
        | none => do
            let reply ← runCommand rt server (client rt d) decision.command decision.args
            let rows := formatRows decision.command decision.args reply
            if (rows.length : Int) > settings.redisMaxResultItems then
              pure (refuse "REDIS_RESULT_LIMIT_EXCEEDED" ("Redis result returned " ++
                intText rows.length ++ " items, exceeding max " ++
                intText settings.redisMaxResultItems) executionMs)
            else pure ⟨true, "EXECUTED", "Redis command executed successfully", rows, rows.length,
              executionMs⟩

end RedisGatekeeperService

end SqlGatekeeper
