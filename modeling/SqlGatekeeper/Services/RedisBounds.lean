import SqlGatekeeper.Services.RedisSoundness
import SqlGatekeeper.Services.RedisStore

/-!
# The size of Redis reads

* `itemCount`: the items of a reply; `ReadBounded`: what an execution reads is within the limit.
* `requested_le`: the argument validation bounds what a command asks for, but for `HMGET`.
* `preflight_bounds`: the preflight bounds the collections that are read whole.
* `runCommand_fits`: so the reply to every command is bounded.
* `readBounded_iff`: reads are bounded exactly if no `HMGET` with too many fields is answered.
-/

namespace SqlGatekeeper

open Py Store

namespace RedisGatekeeperService

/-! ## Items -/

/-- The keys or fields that a command asks for. -/
def requested (command : Str) (args : List Str) : Nat :=
  if command ∈ multiKeyCommands then args.length
  else if command = "HMGET" then args.length - 1
  else 1

/-- The items of a reply: the entries of a collection, or one for each key or field. -/
def itemCount (command : Str) (args : List Str) : RedisReply → Nat
  | .items items => items.length
  | .hash fields => fields.length
  | _ => requested command args

/-- When the preflight lets a command pass, the reply to it has no more items than the limit, and
the execution is not refused for its size. -/
def ReadBounded (rt : Runtime) (settings : Settings) (session : Option Metadata)
    (server : RedisServer) (executionMs : Int) (decision : RedisDecision) : Prop :=
  ∀ d, datasource settings session decision.datasourceCode = .ok (some d) →
    (preflightResultSize settings server (client rt d) decision).result = .ok none →
    (∀ reply, (runCommand rt server (client rt d) decision.command decision.args).result =
      .ok reply → (itemCount decision.command decision.args reply : Int) ≤
        settings.redisMaxResultItems) ∧
    ∀ r, (execute rt settings session server executionMs decision).result = .ok r →
      r.allowed = true

/-- No `HMGET` with more fields than the limit is answered. -/
def FieldsFit (rt : Runtime) (settings : Settings) (session : Option Metadata)
    (server : RedisServer) (decision : RedisDecision) : Prop :=
  decision.command = "HMGET" → ∀ d, datasource settings session decision.datasourceCode =
    .ok (some d) → Returns (server.values ⟨client rt d, "HMGET", decision.args.take 1,
      decision.args.drop 1, none⟩) →
    ((decision.args.length - 1 : Nat) : Int) ≤ settings.redisMaxResultItems

variable {rt : Runtime} {settings : Settings} {session : Option Metadata} {server : RedisServer}
  {store : Keyspace} {c : RedisClient}

/-! ## What is asked for -/

/-- The argument validation bounds the number of keys. -/
theorem length_le_of_multi {command : Str} {args : List Str} {code : Str}
    (hcommand : command ∈ multiKeyCommands)
    (h : validateArgs rt settings command args code = none) :
    (args.length : Int) ≤ settings.redisMaxKeysPerRequest := by
  simp only [validateArgs] at h
  split_ifs at h with h1 h2 h3 h4 h5 h6
  · by_contra hlong
    exact h3 ⟨hcommand, fun hcount => hlong hcount.2⟩
  · by_contra hlong
    exact h3 ⟨hcommand, fun hcount => hlong hcount.2⟩

/-- The limits bound what a command asks for, if it is not `HMGET`. -/
theorem requested_le (hkeys : 1 ≤ settings.redisMaxKeysPerRequest)
    (hitems : settings.redisMaxKeysPerRequest ≤ settings.redisMaxResultItems) {command : Str}
    {args : List Str} {code : Str} (h : validateArgs rt settings command args code = none)
    (hfields : command = "HMGET" →
      ((args.length - 1 : Nat) : Int) ≤ settings.redisMaxResultItems) :
    (requested command args : Int) ≤ settings.redisMaxResultItems := by
  rw [requested]
  split
  · rename_i hmulti
    exact (length_le_of_multi hmulti h).trans hitems
  · split
    · rename_i hmget
      exact hfields hmget
    · exact hkeys.trans hitems

/-! ## What is probed -/

/-- A probe that lets pass has seen a size within the limit. -/
theorem size_le_of_probe {call : RedisCall} {reply : Except PyError Int} {message : Str × Str}
    {maxItems : Int}
    (h : (Traced.send call reply >>= fun size =>
      (pure (if size > maxItems then some message else none) :
        Traced RedisCall PyError (Option (Str × Str)))).result = .ok none) :
    ∃ size, reply = .ok size ∧ size ≤ maxItems := by
  rw [Traced.bind_result] at h
  obtain ⟨size, hreply, h⟩ := bind_eq_ok.1 h
  refine ⟨size, hreply, ?_⟩
  by_contra hlong
  rw [if_pos (by omega)] at h
  exact absurd (Except.ok.inj h) (by simp)

/-- A command that reads a hash or a set whole passes the preflight if that is within the limit. -/
theorem preflight_bounds (hserver : server.Serves store) {decision : RedisDecision} {key : Str}
    {rest : List Str} (hargs : decision.args = key :: rest)
    (h : (preflightResultSize settings server c decision).result = .ok none) :
    (decision.command = "HGETALL" → ∃ fields, hashAt (store c key) = some fields ∧
      (fields.length : Int) ≤ settings.redisMaxResultItems) ∧
    (decision.command = "SMEMBERS" → ∃ members, setAt (store c key) = some members ∧
      (members.length : Int) ≤ settings.redisMaxResultItems) := by
  have hkey : (argAt decision.args 0).result = .ok key := by
    rw [argAt, hargs]
    rfl
  rw [preflightResultSize, Traced.bind_result] at h
  obtain ⟨k, hk, h⟩ := bind_eq_ok.1 h
  obtain rfl : key = k := Except.ok.inj (hkey.symm.trans hk)
  constructor
  · intro hcommand
    simp only [if_pos hcommand] at h
    obtain ⟨size, hsize, hle⟩ := size_le_of_probe h
    obtain ⟨fields, hfields, rfl⟩ := hserver.hlen c key size hsize
    exact ⟨fields, hfields, hle⟩
  · intro hcommand
    have hnot : ¬ decision.command = "HGETALL" := by
      rw [hcommand]
      decide
    simp only [if_neg hnot, if_pos hcommand] at h
    obtain ⟨size, hsize, hle⟩ := size_le_of_probe h
    obtain ⟨members, hmembers, rfl⟩ := hserver.scard c key size hsize
    exact ⟨members, hmembers, hle⟩

/-! ## What is read -/

/-- A reply within the limit, also as rows. -/
structure ReplyFits (settings : Settings) (command : Str) (args : List Str) (reply : RedisReply) :
    Prop where
  items : (itemCount command args reply : Int) ≤ settings.redisMaxResultItems
  rows : ((formatRows command args reply).length : Int) ≤ settings.redisMaxResultItems

variable {command : Str} {args : List Str}

theorem replyFits_items {items : List Str}
    (h : (items.length : Int) ≤ settings.redisMaxResultItems) :
    ReplyFits settings command args (.items items) :=
  ⟨h, by rw [formatRows, List.length_map, List.length_zipIdx]; exact h⟩

theorem replyFits_hash {fields : List (Str × Str)}
    (h : (fields.length : Int) ≤ settings.redisMaxResultItems) :
    ReplyFits settings command args (.hash fields) :=
  ⟨h, by rw [formatRows, List.length_map, List.length_insertionSort]; exact h⟩

theorem replyFits_text (hone : 1 ≤ settings.redisMaxResultItems)
    (h : (requested command args : Int) ≤ settings.redisMaxResultItems) (value : Option Str) :
    ReplyFits settings command args (.text value) :=
  ⟨h, hone⟩

theorem replyFits_int (hone : 1 ≤ settings.redisMaxResultItems)
    (h : (requested command args : Int) ≤ settings.redisMaxResultItems) (value : Int) :
    ReplyFits settings command args (.int value) :=
  ⟨h, hone⟩

/-- The rows of keys or fields are no more than those asked for. -/
theorem replyFits_values (hcommand : command = "MGET" ∨ command = "HMGET")
    (h : (requested command args : Int) ≤ settings.redisMaxResultItems)
    (values : List (Option Str)) :
    ReplyFits settings command args (.values values) := by
  refine ⟨h, le_trans (Int.ofNat_le.2 ?_) h⟩
  rcases hcommand with rfl | rfl
  · rw [formatRows, if_pos rfl, List.length_map, List.length_zip, requested, if_pos (by decide)]
    exact Nat.min_le_left _ _
  · rw [formatRows, if_neg (by decide), List.length_map, List.length_zip, List.length_drop,
      requested, if_neg (by decide), if_pos rfl]
    exact Nat.min_le_left _ _

theorem argAt_yields {i : Nat} {a : Str} (h : args[i]? = some a) :
    (argAt args i).Yields (· = a) := by
  intro b hb
  rw [argAt, h] at hb
  exact (Except.ok.inj hb).symm

theorem length_sortStrings (items : List Str) : (sortStrings items).length = items.length :=
  List.length_insertionSort _ _

/-- A range within the limit. -/
theorem runRange_fits {called : Str} {key start stop : Str} {m n : Int} (hm : rt.int start = .ok m)
    (hn : rt.int stop = .ok n) (hmn : m ≤ n) (hlimit : n - m + 1 ≤ settings.redisMaxResultItems)
    (hreply : ∀ reply, server.items ⟨c, called, [key], [], some (m, n)⟩ = .ok reply →
      ∃ items, reply = slice items m n) :
    (runRange rt server c called [key, start, stop]).Yields
      (ReplyFits settings command args) := by
  refine (argAt_yields (a := key) rfl).bind fun _ hk => ?_
  refine (argAt_yields (a := start) rfl).bind fun _ hs => ?_
  subst hk hs
  refine Traced.Yields.bind (Q := (· = m)) (fun _ h => Except.ok.inj (h.symm.trans hm))
    fun _ hm' => ?_
  refine (argAt_yields (a := stop) rfl).bind fun _ hs => ?_
  subst hs hm'
  refine Traced.Yields.bind (Q := (· = n)) (fun _ h => Except.ok.inj (h.symm.trans hn))
    fun _ hn' => ?_
  subst hn'
  refine .send_map fun reply h => ?_
  obtain ⟨items, rfl⟩ := hreply reply h
  exact replyFits_items ((length_slice_le items hmn).trans hlimit)

/-- The reply to every readonly command is within the limit, if what it asks for is and the
collections that it reads whole are. -/
theorem runCommand_fits (hserver : server.Serves store) (hone : 1 ≤ settings.redisMaxResultItems)
    {key : Str} {rest : List Str} (hcommand : command ∈ readonlyCommands)
    (hargs : ArgsFit rt settings command (key :: rest))
    (hrequested : (requested command (key :: rest) : Int) ≤ settings.redisMaxResultItems)
    (hhash : command = "HGETALL" → ∃ fields, hashAt (store c key) = some fields ∧
      (fields.length : Int) ≤ settings.redisMaxResultItems)
    (hset : command = "SMEMBERS" → ∃ members, setAt (store c key) = some members ∧
      (members.length : Int) ≤ settings.redisMaxResultItems) :
    (runCommand rt server c command (key :: rest)).Yields
      (ReplyFits settings command (key :: rest)) := by
  have hkey : (argAt (key :: rest) 0).Yields (· = key) := argAt_yields rfl
  have hvalues : command = "MGET" ∨ command = "HMGET" → ∀ call,
      (sendValues server call).Yields (ReplyFits settings command (key :: rest)) :=
    fun h _ => .send_map fun values _ => replyFits_values h hrequested values
  refine runCommand_cases hcommand ?text ?int ?mget ?exist ?hget ?hmget ?hgetall ?range ?smembers
  case text =>
    exact fun _ _ _ => hkey.bind fun _ _ => .send_map fun value _ =>
      replyFits_text hone hrequested value
  case int =>
    exact fun _ _ _ => hkey.bind fun _ _ => .send_map fun value _ =>
      replyFits_int hone hrequested value
  case mget => exact fun h => hvalues (Or.inl h) _
  case exist => exact fun _ => .send_map fun value _ => replyFits_int hone hrequested value
  case hget =>
    intro _
    refine hkey.bind fun _ _ => Traced.Yields.bind (Q := fun _ => True) (fun _ _ => trivial)
      fun _ _ => .send_map fun value _ => replyFits_text hone hrequested value
  case hmget => exact fun h => hkey.bind fun _ _ => hvalues (Or.inr h) _
  case hgetall =>
    refine fun h => hkey.bind fun k hk => ?_
    subst hk
    refine .send_map fun reply hreply => ?_
    obtain ⟨fields, hfields, hle⟩ := hhash h
    obtain ⟨stored, hstored, hperm⟩ := hserver.hgetall c k reply hreply
    obtain rfl : fields = stored := Option.some.inj (hfields.symm.trans hstored)
    exact replyFits_hash (hperm.length_eq ▸ hle)
  case range =>
    intro called hcalled h
    obtain ⟨k, start, stop, m, n, hlist, hm, hn, h0, hmn, hlimit⟩ := hargs.range (h ▸ hcalled)
    rw [hlist]
    refine runRange_fits hm hn hmn hlimit fun reply hreply => ?_
    have hranges : called = "LRANGE" ∨ called = "ZRANGE" := by
      simpa [rangeCommands] using hcalled
    rcases hranges with rfl | rfl
    · obtain ⟨items, -, hslice⟩ := hserver.lrange c k m n reply h0 hmn hreply
      exact ⟨items, hslice⟩
    · obtain ⟨members, -, hslice⟩ := hserver.zrange c k m n reply h0 hmn hreply
      exact ⟨members, hslice⟩
  case smembers =>
    refine fun h => hkey.bind fun k hk => ?_
    subst hk
    obtain ⟨members, hmembers, hle⟩ := hset h
    have hsend : (sendItems server (keyCall c "SMEMBERS" k)).Yields fun reply =>
        ∃ items, reply = .items items ∧ (items.length : Int) ≤ settings.redisMaxResultItems :=
      .send_map fun items hitems => by
        obtain ⟨stored, hstored, hperm⟩ := hserver.smembers c k items hitems
        obtain rfl : members = stored := Option.some.inj (hmembers.symm.trans hstored)
        exact ⟨items, rfl, hperm.length_eq ▸ hle⟩
    refine hsend.bind fun reply hreply => ?_
    obtain ⟨items, rfl, hitems⟩ := hreply
    exact .pure (replyFits_items ((length_sortStrings items).symm ▸ hitems))

/-! ## The bound -/

/-- The execution of a decision whose reply is within the limit is not refused behind the
preflight. -/
theorem allowed_of_fits {decision : RedisDecision} {executionMs : Int} {d : DatasourceInstance}
    (ha : decision.allowed = true)
    (hd : datasource settings session decision.datasourceCode = .ok (some d))
    (hpre : (preflightResultSize settings server (client rt d) decision).result = .ok none)
    (hfits : (runCommand rt server (client rt d) decision.command decision.args).Yields
      (ReplyFits settings decision.command decision.args)) {r : RedisExecuteResult}
    (h : (execute rt settings session server executionMs decision).result = .ok r) :
    r.allowed = true := by
  rw [execute, if_neg (by rw [ha]; decide), Traced.bind_result, Traced.lift_result, hd] at h
  obtain ⟨pre, hpre', h⟩ := bind_eq_ok.1 ((Traced.bind_result _ _).symm.trans h)
  obtain rfl : none = pre := Except.ok.inj (hpre.symm.trans hpre')
  obtain ⟨reply, hreply, h⟩ := bind_eq_ok.1 ((Traced.bind_result _ _).symm.trans h)
  have hrows := (hfits reply hreply).rows
  simp only [if_neg (not_lt.2 hrows)] at h
  rw [← Except.ok.inj h]

/-- The reads of an allowed request are bounded before they are made, exactly if it is no `HMGET`
with more fields than the limit that the server answers. -/
theorem readBounded_iff (rt : Runtime) (settings : Settings) (session : Option Metadata)
    (hkeys : 1 ≤ settings.redisMaxKeysPerRequest)
    (hitems : settings.redisMaxKeysPerRequest ≤ settings.redisMaxResultItems) (command : Str)
    (args : List Str) (redisContext : JsonDict) (decision : RedisDecision)
    (hcheck : check rt settings session command args redisContext = .ok decision)
    (ha : decision.allowed = true) (server : RedisServer) (store : Keyspace)
    (hserver : server.Serves store) (executionMs : Int) :
    ReadBounded rt settings session server executionMs decision ↔
      FieldsFit rt settings session server decision := by
  obtain ⟨hreadonly, code, -, hvalid, hroute⟩ := check_inv hcheck ha
  obtain ⟨hcommand, hargs, -⟩ := checkRoute_inv hroute ha
  rw [← hcommand] at hreadonly hvalid
  rw [← hargs] at hvalid
  have hfit := validateArgs_eq_none hreadonly hvalid
  obtain ⟨key, rest, hlist⟩ := List.exists_cons_of_ne_nil hfit.key
  constructor
  · intro hbounded hmget d hd hanswered
    have hpre : (preflightResultSize settings server (client rt d) decision).result = .ok none := by
      rw [preflightResultSize, hmget, hlist]
      rfl
    obtain ⟨values, hvalues⟩ := hanswered
    have hrun : (runCommand rt server (client rt d) decision.command decision.args).result =
        .ok (.values values) := by
      rw [hlist] at hvalues
      rw [hmget, hlist]
      exact map_eq_ok.2 ⟨values, hvalues, rfl⟩
    have hcount := (hbounded d hd hpre).1 _ hrun
    rw [hmget] at hcount
    exact hcount
  · intro hfields d hd hpre
    obtain ⟨hhash, hset⟩ := preflight_bounds hserver hlist hpre
    have hfits : (runCommand rt server (client rt d) decision.command decision.args).Yields
        (ReplyFits settings decision.command decision.args) := by
      by_cases hanswered : decision.command = "HMGET" → Returns (server.values
          ⟨client rt d, "HMGET", decision.args.take 1, decision.args.drop 1, none⟩)
      · have hrequested := requested_le hkeys hitems hvalid
          fun hmget => hfields hmget d hd (hanswered hmget)
        rw [hlist] at hfit hrequested ⊢
        exact runCommand_fits hserver (hkeys.trans hitems) hreadonly hfit hrequested hhash hset
      · -- An `HMGET` without an answer has no reply.
        obtain ⟨hmget, hunanswered⟩ := Classical.not_imp.1 hanswered
        intro reply hreply
        rw [hmget, hlist] at hreply
        obtain ⟨values, hvalues, -⟩ := map_eq_ok.1 hreply
        rw [hlist] at hunanswered
        exact absurd ⟨values, hvalues⟩ hunanswered
    exact ⟨fun reply hreply => (hfits reply hreply).items,
      fun r hr => allowed_of_fits ha hd hpre hfits hr⟩

/-- A server without any keys. -/
def emptyServer : RedisServer := storeServer fun _ _ => none

/-- Two fields of a hash are bounded. -/
theorem readBounded_twoFields : ∃ decision,
    check asciiRuntime exampleSettings none "HMGET" ["user:1", "name", "mail"] [] = .ok decision ∧
      ReadBounded asciiRuntime exampleSettings none emptyServer 0 decision := by
  obtain ⟨decision, hcheck, hdecision⟩ := map_eq_ok.1 (by decide +kernel :
    (check asciiRuntime exampleSettings none "HMGET" ["user:1", "name", "mail"] []).map
      (fun decision => (decision.allowed, decision.args)) = .ok (true, ["user:1", "name", "mail"]))
  obtain ⟨ha, hargs⟩ := Prod.mk.inj hdecision
  refine ⟨decision, hcheck, (readBounded_iff asciiRuntime exampleSettings none (by decide)
    (by decide) "HMGET" ["user:1", "name", "mail"] [] decision hcheck ha emptyServer _
    (serves_storeServer _) 0).2 fun _ _ _ _ => ?_⟩
  rw [hargs]
  decide

/-- With ninety-nine items in a result or more, no request has too many fields: the API takes a
hundred arguments at most. -/
theorem fieldsFit_of_received {decision : RedisDecision} (hargs : decision.args.length ≤ 100)
    (hitems : 99 ≤ settings.redisMaxResultItems) :
    FieldsFit rt settings session server decision := fun _ _ _ _ => by
  omega

/-- Twenty keys in a request and twenty items in a result at most. -/
def tightSettings : Settings :=
  { exampleSettings with redisMaxKeysPerRequest := 20, redisMaxResultItems := 20 }

/-- A key with twenty-one fields behind it. -/
def manyFields : List Str := "user:1" :: List.replicate 21 "name"

/-- A request that the API takes, with no more than a hundred arguments: the check allows its
`HMGET` of twenty-one fields, and the server answers each of them. -/
theorem manyFields_not_readBounded : manyFields.length ≤ 100 ∧
    1 ≤ tightSettings.redisMaxKeysPerRequest ∧
    tightSettings.redisMaxKeysPerRequest ≤ tightSettings.redisMaxResultItems ∧
    emptyServer.Serves (fun _ _ => none) ∧ ∃ decision,
      check asciiRuntime tightSettings none "HMGET" manyFields [] = .ok decision ∧
      decision.allowed = true ∧
      ¬ ReadBounded asciiRuntime tightSettings none emptyServer 0 decision := by
  obtain ⟨decision, hcheck, hdecision⟩ := map_eq_ok.1 (by decide +kernel :
    (check asciiRuntime tightSettings none "HMGET" manyFields []).map
      (fun decision => (decision.allowed, decision.command, decision.args,
        decision.datasourceCode)) = .ok (true, "HMGET", manyFields, "demo_redis"))
  obtain ⟨ha, hrest⟩ := Prod.mk.inj hdecision
  obtain ⟨hcommand, hrest⟩ := Prod.mk.inj hrest
  obtain ⟨hargs, hcode⟩ := Prod.mk.inj hrest
  refine ⟨by decide, by decide, by decide, serves_storeServer _, decision, hcheck, ha,
    fun hbounded => ?_⟩
  obtain ⟨d, hd⟩ : ∃ d, datasource tightSettings none decision.datasourceCode =
      .ok (some d) := by
    rw [hcode]
    exact ⟨_, rfl⟩
  have hpre : (preflightResultSize tightSettings emptyServer (client asciiRuntime d)
      decision).result = .ok none := by
    rw [preflightResultSize, hcommand, hargs]
    rfl
  have hrun : (runCommand asciiRuntime emptyServer (client asciiRuntime d) decision.command
      decision.args).result = .ok (.values (List.replicate 21 none)) := by
    rw [hcommand, hargs]
    rfl
  have hcount := (hbounded d hd hpre).1 _ hrun
  rw [hcommand, hargs] at hcount
  exact absurd hcount (by decide)

end RedisGatekeeperService

end SqlGatekeeper
