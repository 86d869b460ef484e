import SqlGatekeeper.Services.RedisGatekeeper

/-!
# What Redis stores

The documented replies of a Redis server to the commands whose size the gatekeeper bounds.

* `RedisValue`, `Keyspace`: typed values under the keys of each connection.
* `RedisServer.Serves`: a server that answers from a keyspace, when it answers.
* `storeServer`, `serves_storeServer`: a server that always does.
-/

namespace SqlGatekeeper

open Py RedisGatekeeperService

/-! ## Values -/

/-- A value of Redis; a sorted set is listed by score. -/
inductive RedisValue where
  | string (text : Str)
  | list (items : List Str)
  | set (members : List Str) (distinct : members.Nodup)
  | sortedSet (members : List Str) (distinct : members.Nodup)
  | hash (fields : List (Str × Str)) (distinct : (fields.map Prod.fst).Nodup)

/-- The values under the keys, for each connection. -/
abbrev Keyspace := RedisClient → Str → Option RedisValue

/-- The string of `MGET`: other values count as missing. -/
def stringAt : Option RedisValue → Option Str
  | some (.string text) => some text
  | _ => none

/-- The items of a list; a missing key is an empty one. -/
def listAt : Option RedisValue → Option (List Str)
  | none => some []
  | some (.list items) => some items
  | _ => none

/-- The members of a set. -/
def setAt : Option RedisValue → Option (List Str)
  | none => some []
  | some (.set members _) => some members
  | _ => none

/-- The members of a sorted set. -/
def sortedSetAt : Option RedisValue → Option (List Str)
  | none => some []
  | some (.sortedSet members _) => some members
  | _ => none

/-- The fields of a hash. -/
def hashAt : Option RedisValue → Option (List (Str × Str))
  | none => some []
  | some (.hash fields _) => some fields
  | _ => none

/-- The items from `start` to `stop`, both included and neither negative. -/
def slice (items : List Str) (start stop : Int) : List Str :=
  (items.drop start.toNat).take (stop - start + 1).toNat

theorem length_slice_le (items : List Str) {start stop : Int} (h : start ≤ stop) :
    ((slice items start stop).length : Int) ≤ stop - start + 1 := by
  have hle := List.length_take_le (stop - start + 1).toNat (items.drop start.toNat)
  rw [slice]
  omega

/-! ## Servers -/

/-- A server that answers from a keyspace.  It may refuse any call: for a value of another type, or
because the connection fails. -/
structure RedisServer.Serves (server : RedisServer) (store : Keyspace) : Prop where
  hlen : ∀ c key size, server.int (keyCall c "HLEN" key) = .ok size →
    ∃ fields, hashAt (store c key) = some fields ∧ size = fields.length
  hgetall : ∀ c key reply, server.hash (keyCall c "HGETALL" key) = .ok reply →
    ∃ fields, hashAt (store c key) = some fields ∧ reply.Perm fields
  scard : ∀ c key size, server.int (keyCall c "SCARD" key) = .ok size →
    ∃ members, setAt (store c key) = some members ∧ size = members.length
  smembers : ∀ c key reply, server.items (keyCall c "SMEMBERS" key) = .ok reply →
    ∃ members, setAt (store c key) = some members ∧ reply.Perm members
  lrange : ∀ c key start stop reply, 0 ≤ start → start ≤ stop →
    server.items ⟨c, "LRANGE", [key], [], some (start, stop)⟩ = .ok reply →
    ∃ items, listAt (store c key) = some items ∧ reply = slice items start stop
  zrange : ∀ c key start stop reply, 0 ≤ start → start ≤ stop →
    server.items ⟨c, "ZRANGE", [key], [], some (start, stop)⟩ = .ok reply →
    ∃ members, sortedSetAt (store c key) = some members ∧ reply = slice members start stop
  mget : ∀ c keys reply, server.values ⟨c, "MGET", keys, [], none⟩ = .ok reply →
    reply = keys.map fun key => stringAt (store c key)
  hmget : ∀ c key fields reply, server.values ⟨c, "HMGET", [key], fields, none⟩ =
    .ok reply → ∃ stored, hashAt (store c key) = some stored ∧ reply = fields.map fun field =>
      stored.lookup field

/-- The error reply for a value of another type. -/
def wrongType : PyError :=
  .serverError "WRONGTYPE Operation against a key holding the wrong kind of value"

/-- A value of the right type, or the error reply. -/
def typed {α : Type} : Option α → Except PyError α
  | some a => .ok a
  | none => .error wrongType

theorem typed_eq_ok {α : Type} {o : Option α} {a : α} : typed o = .ok a ↔ o = some a := by
  cases o <;> simp [typed]

/-- The name of a type. -/
def typeName : Option RedisValue → Str
  | none => "none"
  | some (.string _) => "string"
  | some (.list _) => "list"
  | some (.set _ _) => "set"
  | some (.sortedSet _ _) => "zset"
  | some (.hash _ _) => "hash"

/-- A server that always answers; no key expires. -/
def storeServer (store : Keyspace) : RedisServer where
  text call :=
    let value := store call.client (call.keys.headD [])
    if call.command = "TYPE" then .ok (some (typeName value))
    else if call.command = "HGET" then
      (typed (hashAt value)).map fun fields => fields.lookup (call.fields.headD [])
    else
      match value with
      | none => .ok none
      | some (.string text) => .ok (some text)
      | _ => .error wrongType
  int call :=
    let value := store call.client (call.keys.headD [])
    if call.command = "HLEN" then (typed (hashAt value)).map fun fields => (fields.length : Int)
    else if call.command = "SCARD" then (typed (setAt value)).map fun members =>
      (members.length : Int)
    else if call.command = "LLEN" then (typed (listAt value)).map fun items => (items.length : Int)
    else if call.command = "ZCARD" then
      (typed (sortedSetAt value)).map fun members => (members.length : Int)
    else if call.command = "EXISTS" then
      .ok (call.keys.countP fun key => (store call.client key).isSome)
    else .ok (if value.isSome then -1 else -2)
  values call :=
    if call.command = "MGET" then .ok (call.keys.map fun key => stringAt (store call.client key))
    else (typed (hashAt (store call.client (call.keys.headD [])))).map fun stored =>
      call.fields.map fun field => stored.lookup field
  items call :=
    let value := store call.client (call.keys.headD [])
    if call.command = "SMEMBERS" then typed (setAt value)
    else (typed (if call.command = "LRANGE" then listAt value else sortedSetAt value)).map
      fun items => call.range.elim items fun r => slice items r.1 r.2
  hash call := typed (hashAt (store call.client (call.keys.headD [])))

theorem serves_storeServer (store : Keyspace) : (storeServer store).Serves store where
  hlen _ _ _ h := by
    obtain ⟨fields, hfields, rfl⟩ := map_eq_ok.1 h
    exact ⟨fields, typed_eq_ok.1 hfields, rfl⟩
  hgetall _ _ reply h := ⟨reply, typed_eq_ok.1 h, .refl _⟩
  scard _ _ _ h := by
    obtain ⟨members, hmembers, rfl⟩ := map_eq_ok.1 h
    exact ⟨members, typed_eq_ok.1 hmembers, rfl⟩
  smembers _ _ reply h := ⟨reply, typed_eq_ok.1 h, .refl _⟩
  lrange _ _ _ _ _ _ _ h := by
    obtain ⟨items, hitems, rfl⟩ := map_eq_ok.1 h
    exact ⟨items, typed_eq_ok.1 hitems, rfl⟩
  zrange _ _ _ _ _ _ _ h := by
    obtain ⟨members, hmembers, rfl⟩ := map_eq_ok.1 h
    exact ⟨members, typed_eq_ok.1 hmembers, rfl⟩
  mget _ _ _ h := (Except.ok.inj h).symm
  hmget _ _ _ _ h := by
    obtain ⟨stored, hstored, rfl⟩ := map_eq_ok.1 h
    exact ⟨stored, typed_eq_ok.1 hstored, rfl⟩

end SqlGatekeeper
