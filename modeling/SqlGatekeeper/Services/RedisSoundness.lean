import SqlGatekeeper.Services.RedisGatekeeper

/-!
# The Redis gate from check through execution

* `KeyAllowed`: what the key validation ensures of a key.
* `ArgsFit`: what the argument validation ensures of the arguments of a readonly command.
* `checkRoute_inv`, `check_inv`: what an allowed check has gone through.
* `checkRoute_allowed`, `check_allowed`: what an allowed check has established; the datasource
  that the execution will look up is the one that was validated.
* `runCommand_cases`: the ways in which a readonly command runs.
* `runCommand_sound`, `preflight_sound`: with fitting arguments a command makes read calls on its
  key arguments, and fails only if the server does.
* `check_execute_sound`: check and execution together.
-/

namespace SqlGatekeeper

open Py Store

namespace RedisGatekeeperService

variable {rt : Runtime} {settings : Settings} {session : Option Metadata}

/-! ## Keys -/

/-- A key the gatekeeper lets through, for the prefixes of its datasource. -/
structure KeyAllowed (settings : Settings) (prefixes : List Str) (key : Str) : Prop where
  nonempty : key ≠ []
  short : (key.length : Int) ≤ settings.redisMaxKeyLength
  noPattern : '*' ∉ key ∧ '?' ∉ key ∧ '[' ∉ key
  inside : prefixes = [] ∨ ("*" : Str) ∈ prefixes ∨ ∃ p ∈ prefixes, p <+: key

theorem insidePrefixes_iff {prefixes : List Str} {key : Str} :
    insidePrefixes prefixes key = true ↔
      prefixes = [] ∨ ("*" : Str) ∈ prefixes ∨ ∃ p ∈ prefixes, p <+: key := by
  rw [insidePrefixes, Bool.or_eq_true, Bool.or_eq_true, List.isEmpty_iff, List.contains_iff_mem,
    List.any_eq_true, or_assoc]
  simp only [startsWith, List.isPrefixOf_iff_prefix]

theorem hasPattern_eq_false_iff {key : Str} :
    hasPattern key = false ↔ '*' ∉ key ∧ '?' ∉ key ∧ '[' ∉ key := by
  simp [hasPattern, and_assoc]

/-- The key loop lets pass exactly the lists of allowed keys. -/
theorem validateKeysFrom_eq_none_iff {prefixes : List Str} {command : Str} {args : List Str}
    {code : Str} {keys : List Str} :
    validateKeysFrom settings prefixes command args code keys = none ↔
      ∀ key ∈ keys, KeyAllowed settings prefixes key := by
  induction keys with
  | nil => simp [validateKeysFrom]
  | cons key keys ih =>
    rw [List.forall_mem_cons, validateKeysFrom]
    constructor
    · intro h
      split_ifs at h with h1 h2 h3 h4
      exact ⟨⟨h1, not_lt.1 h2, hasPattern_eq_false_iff.1 (Bool.eq_false_of_not_eq_true h3),
        insidePrefixes_iff.1 h4⟩, ih.1 h⟩
    · rintro ⟨hk, hrest⟩
      rw [if_neg hk.nonempty, if_neg (not_lt.2 hk.short),
        if_neg (by rw [hasPattern_eq_false_iff.2 hk.noPattern]; decide),
        if_neg (not_not.2 (insidePrefixes_iff.2 hk.inside))]
      exact ih.2 hrest

/-- What the key loop returns is a rejection. -/
theorem validateKeysFrom_rejects {prefixes : List Str} {command : Str} {args : List Str}
    {code : Str} {keys : List Str} {r : RedisDecision}
    (h : validateKeysFrom settings prefixes command args code keys = some r) :
    r.allowed = false := by
  induction keys with
  | nil => exact absurd h (by simp [validateKeysFrom])
  | cons key keys ih =>
    rw [validateKeysFrom] at h
    split_ifs at h with h1 h2 h3 h4
    · injection h with h
      exact h ▸ rfl
    · injection h with h
      exact h ▸ rfl
    · injection h with h
      exact h ▸ rfl
    · exact ih h
    · injection h with h
      exact h ▸ rfl

/-! ## Arguments -/

/-- The arguments of a command that passed the validation. -/
structure ArgsFit (rt : Runtime) (settings : Settings) (command : Str) (args : List Str) :
    Prop where
  key : args ≠ []
  field : command = "HGET" → args.length = 2
  range : command ∈ rangeCommands → ∃ key start stop m n, args = [key, start, stop] ∧
    rt.int start = .ok m ∧ rt.int stop = .ok n ∧ 0 ≤ m ∧ m ≤ n ∧
    n - m + 1 ≤ settings.redisMaxResultItems

theorem validateRange_eq_none {command : Str} {args : List Str} {code : Str}
    (h : validateRange rt settings command args code = none) (hlen : args.length = 3) :
    ∃ key start stop m n, args = [key, start, stop] ∧ rt.int start = .ok m ∧
      rt.int stop = .ok n ∧ 0 ≤ m ∧ m ≤ n ∧
        n - m + 1 ≤ settings.redisMaxResultItems := by
  obtain ⟨key, start, stop, rfl⟩ := List.length_eq_three.1 hlen
  rw [validateRange] at h
  split at h
  · rename_i m n hm hn
    split_ifs at h with h1 h2
    exact ⟨key, start, stop, m, n, rfl, hm, hn, by omega, by omega, by omega⟩
  · exact absurd h (by simp)

/-- What the argument validation returns is a rejection. -/
theorem validateArgs_rejects {command : Str} {args : List Str} {code : Str} {r : RedisDecision}
    (h : validateArgs rt settings command args code = some r) : r.allowed = false := by
  have hreject : ∀ {reason message : Str}, some (reject reason message command args code) =
      some r → r.allowed = false := fun h => Option.some.inj h ▸ rfl
  simp only [validateArgs] at h
  split_ifs at h
  · exact hreject h
  · exact hreject h
  · exact hreject h
  · exact hreject h
  · exact hreject h
  · rw [validateRange] at h
    split at h
    · split_ifs at h
      · exact hreject h
      · exact hreject h
    · exact hreject h

/-- The argument validation of a readonly command. -/
theorem validateArgs_eq_none {command : Str} {args : List Str} {code : Str}
    (hcommand : command ∈ readonlyCommands)
    (h : validateArgs rt settings command args code = none) : ArgsFit rt settings command args := by
  simp only [validateArgs] at h
  split_ifs at h with h1 h2 h3 h4 h5 h6
  · have hlen : args.length = 3 := by
      by_contra hne
      exact h5 ⟨h6, hne⟩
    refine ⟨fun hnil => by simp [hnil] at hlen, fun hc => ?_, fun _ =>
      validateRange_eq_none h hlen⟩
    subst hc
    exact absurd h6 (by decide)
  · refine ⟨fun hnil => ?_, fun hc => ?_, fun hc => absurd hc h6⟩
    · subst hnil
      have hcases : ∀ c ∈ readonlyCommands, c ∈ singleArgCommands ∨
          c ∈ (["HGET"] : List String).map String.toList ∨ c ∈ multiKeyCommands ∨
            c = "HMGET" ∨
          c ∈ rangeCommands := by decide
      rcases hcases command hcommand with hc | hc | hc | hc | hc
      · exact h1 ⟨hc, by decide⟩
      · exact h2 ⟨hc, by decide⟩
      · exact h3 ⟨hc, by simp⟩
      · exact h4 ⟨hc, by decide⟩
      · exact h6 hc
    · by_contra hne
      exact h2 ⟨by rw [hc]; decide, hne⟩

/-! ## The datasource -/

theorem orElse_of_truthy {a b : Json} (h : a.truthy = true) : a.orElse b = a := by
  rw [Json.orElse, if_pos h]

theorem orElse_of_not_truthy {a b : Json} (h : ¬ a.truthy = true) : a.orElse b = b := by
  rw [Json.orElse, if_neg h]

theorem mem_of_mem_filterE {α : Type} {p : α → Except PyError Bool} {l l' : List α}
    (h : filterE p l = .ok l') {a : α} (ha : a ∈ l') : a ∈ l := by
  induction l generalizing l' with
  | nil =>
    injection h with h
    rw [← h] at ha
    exact ha
  | cons b l ih =>
    obtain ⟨keep, -, h⟩ := bind_eq_ok.1 h
    obtain ⟨rest, hrest, h⟩ := bind_eq_ok.1 h
    injection h with h
    subst h
    split at ha
    · rcases List.mem_cons.1 ha with rfl | ha
      · exact List.mem_cons_self
      · exact List.mem_cons_of_mem _ (ih hrest ha)
    · exact List.mem_cons_of_mem _ (ih hrest ha)

/-- A datasource found by code is enabled. -/
theorem datasource_enabled {code : Str} {d : DatasourceInstance}
    (h : datasource settings session code = .ok (some d)) : d.enabled = true := by
  cases session with
  | some db => exact (Metadata.getEnabledByCode_eq_some h).2.2
  | none =>
    rw [datasource] at h
    split at h
    · exact absurd h (by simp)
    · injection h with h
      injection h with h
      subst h
      rfl

/-- A datasource found by code is found again by its own code. -/
theorem datasource_own_code {code : Str} {d : DatasourceInstance}
    (h : datasource settings session code = .ok (some d)) : d.datasourceCode = code := by
  cases session with
  | some db => exact (Metadata.getEnabledByCode_eq_some h).2.1
  | none =>
    rw [datasource] at h
    split at h
    · exact absurd h (by simp)
    · rename_i hc
      injection h with h
      injection h with h
      subst h
      exact (not_not.1 hc).symm

/-- The resolved datasource is the one that its own code, and a code of the context, lead to. -/
theorem resolveDatasource_eq_some
    (hdb : ∀ db ∈ session, Unique (·.datasourceCode) db.datasources.rows) {command : Str}
    {args : List Str} {redisContext : JsonDict} {route : RedisRouteResolution}
    {d : DatasourceInstance}
    (h : resolveDatasource rt settings session command args redisContext = .ok route)
    (hd : route.datasource = some d) :
    d.enabled = true ∧ datasource settings session d.datasourceCode = .ok (some d) ∧
      ∃ code, contextDatasourceCode rt redisContext = .ok code ∧
        (code ≠ [] → d.datasourceCode = code) := by
  obtain ⟨code, hcode, h⟩ := bind_eq_ok.1 h
  split at h
  · rename_i hne
    obtain ⟨found, hfound, h⟩ := bind_eq_ok.1 h
    cases found with
    | none =>
      injection h with h
      subst h
      exact absurd hd (by simp)
    | some f =>
      injection h with h
      subst h
      obtain rfl : f = d := Option.some.inj hd
      have hown := datasource_own_code hfound
      exact ⟨datasource_enabled hfound, by rw [hown]; exact hfound, code, hcode, fun _ => hown⟩
  · rename_i hnil
    rw [not_not] at hnil
    suffices hs : d.enabled = true ∧ datasource settings session d.datasourceCode =
      .ok (some d) from
      ⟨hs.1, hs.2, code, hcode, fun hne => absurd hnil hne⟩
    cases session with
    | none =>
      obtain ⟨found, hfound, h⟩ := bind_eq_ok.1 h
      cases found with
      | none =>
        injection h with h
        subst h
        exact absurd hd (by simp)
      | some f =>
        injection h with h
        subst h
        obtain rfl : f = d := Option.some.inj hd
        have hown := datasource_own_code hfound
        exact ⟨datasource_enabled hfound, by rw [hown]; exact hfound⟩
    | some db =>
      obtain ⟨catalog, -, h⟩ := bind_eq_ok.1 h
      split at h
      · injection h with h
        subst h
        exact absurd hd (by simp)
      obtain ⟨candidates, hcandidates, h⟩ := bind_eq_ok.1 h
      cases hcand : candidates with
      | nil =>
        rw [hcand] at h
        injection h with h
        subst h
        exact absurd hd (by simp)
      | cons c cs =>
        rw [hcand] at h
        obtain ⟨found, hfound, h⟩ := bind_eq_ok.1 h
        rcases found with _ | ⟨f, _ | ⟨g, fs⟩⟩
        · injection h with h
          subst h
          exact absurd hd (by simp)
        · injection h with h
          subst h
          obtain rfl : f = d := Option.some.inj hd
          have hmem := mem_of_mem_filterE hcandidates
            (hcand ▸ mem_of_mem_filterE hfound List.mem_cons_self)
          obtain ⟨hrow, hkind⟩ := List.mem_filter.1 hmem
          have henabled : f.enabled = true := by
            simp only [decide_eq_true_eq] at hkind
            exact hkind.2
          obtain ⟨o, ho⟩ := Metadata.getEnabledByCode_ok (hdb db rfl) f.datasourceCode
          exact ⟨henabled, oneOrNone_filter_of_mem ho hrow (by simpa using henabled)⟩
        · injection h with h
          subst h
          exact absurd hd (by simp)

/-! ## The check -/

/-- What an allowed check has established, for the datasource it resolved to. -/
structure Established (rt : Runtime) (settings : Settings) (session : Option Metadata)
    (decision : RedisDecision) (d : DatasourceInstance) : Prop where
  command : decision.command ∈ readonlyCommands
  enabled : d.enabled = true
  redis : lower rt.toUnicodeData d.dbType = "redis"
  args : ArgsFit rt settings decision.command decision.args
  keys : ∃ prefixes, allowedPrefixes rt settings d = .ok prefixes ∧
    ∀ key ∈ keyArgs decision.command decision.args, KeyAllowed settings prefixes key
  lookup : datasource settings session decision.datasourceCode = .ok (some d)

/-- What a check goes through behind the argument validation when it allows. -/
theorem checkRoute_inv {command : Str} {args : List Str} {redisContext : JsonDict}
    {decision : RedisDecision}
    (h : checkRoute rt settings session command args redisContext = .ok decision)
    (ha : decision.allowed = true) :
    decision.command = command ∧ decision.args = args ∧
      Returns (catalogName rt redisContext) ∧
      ∃ route d, resolveDatasource rt settings session command args redisContext = .ok route ∧
        route.datasource = some d ∧
        rt.strJson ((redisContext.get "datasource_code").orElse (.str d.datasourceCode)) =
          .ok decision.datasourceCode ∧
        lower rt.toUnicodeData d.dbType = "redis" ∧
        ∃ prefixes, allowedPrefixes rt settings d = .ok prefixes ∧
          ∀ key ∈ keyArgs command args, KeyAllowed settings prefixes key := by
  obtain ⟨route, hroute, h⟩ := bind_eq_ok.1 h
  obtain ⟨code, hcode, h⟩ := bind_eq_ok.1 h
  cases hd : route.datasource with
  | none =>
    rw [hd] at h
    injection h with h
    subst h
    exact absurd ha (by simp [reject])
  | some d =>
    rw [hd] at h hcode
    simp only at h hcode
    split at h
    · injection h with h
      subst h
      exact absurd ha (by simp [reject])
    rename_i hredis
    obtain ⟨verdict, hkeys, h⟩ := bind_eq_ok.1 h
    obtain ⟨prefixes, hprefixes, hvalidate⟩ := map_eq_ok.1 hkeys
    cases verdict with
    | some r =>
      injection h with h
      subst h
      exact absurd ha (by rw [validateKeysFrom_rejects hvalidate]; decide)
    | none =>
      obtain ⟨prefixes', -, h⟩ := bind_eq_ok.1 h
      obtain ⟨catalog, hcatalog, h⟩ := bind_eq_ok.1 h
      injection h with h
      subst h
      exact ⟨rfl, rfl, ⟨catalog, hcatalog⟩, route, d, hroute, hd, hcode, not_not.1 hredis,
        prefixes, hprefixes, validateKeysFrom_eq_none_iff.1 hvalidate⟩

/-- An allowed route has a datasource that the execution will find again. -/
theorem checkRoute_allowed
    (hdb : ∀ db ∈ session, Unique (·.datasourceCode) db.datasources.rows) {command : Str}
    {args : List Str} {redisContext : JsonDict} {decision : RedisDecision}
    (h : checkRoute rt settings session command args redisContext = .ok decision)
    (ha : decision.allowed = true) :
    decision.command = command ∧ decision.args = args ∧
      ∃ route d, resolveDatasource rt settings session command args redisContext = .ok route ∧
        route.datasource = some d ∧ d.enabled = true ∧
        lower rt.toUnicodeData d.dbType = "redis" ∧
        (∃ prefixes, allowedPrefixes rt settings d = .ok prefixes ∧
          ∀ key ∈ keyArgs command args, KeyAllowed settings prefixes key) ∧
        datasource settings session decision.datasourceCode = .ok (some d) := by
  obtain ⟨hcommand, hargs, -, route, d, hroute, hd, hcode, hredis, hkeys⟩ := checkRoute_inv h ha
  obtain ⟨henabled, hlookup, ctx, hctx, howns⟩ := resolveDatasource_eq_some hdb hroute hd
  refine ⟨hcommand, hargs, route, d, hroute, hd, henabled, hredis, hkeys, ?_⟩
  -- The decision carries the code of the context, if there is one, else the datasource's.
  by_cases htruthy : (redisContext.get "datasource_code").truthy = true
  · rw [contextDatasourceCode, orElse_of_truthy htruthy] at hctx
    rw [orElse_of_truthy htruthy, hctx] at hcode
    injection hcode with hcode
    rw [← hcode, ← howns (rt.strJson_ne_nil htruthy hctx)]
    exact hlookup
  · rw [orElse_of_not_truthy htruthy] at hcode
    injection hcode with hcode
    rw [← hcode]
    exact hlookup

/-- What a check goes through when it allows. -/
theorem check_inv {command : Str} {args : List Str} {redisContext : JsonDict}
    {decision : RedisDecision}
    (h : check rt settings session command args redisContext = .ok decision)
    (ha : decision.allowed = true) :
    upper rt.toUnicodeData (strip command) ∈ readonlyCommands ∧
      ∃ code, contextDatasourceCode rt redisContext = .ok code ∧
        validateArgs rt settings (upper rt.toUnicodeData (strip command)) args code = none ∧
        checkRoute rt settings session (upper rt.toUnicodeData (strip command)) args redisContext =
          .ok decision := by
  simp only [check] at h
  split at h
  · injection h with h
    subst h
    exact absurd ha (by simp [reject])
  split at h
  · obtain ⟨code, -, h⟩ := bind_eq_ok.1 h
    injection h with h
    subst h
    exact absurd ha (by simp [reject])
  split at h
  · obtain ⟨code, -, h⟩ := bind_eq_ok.1 h
    injection h with h
    subst h
    exact absurd ha (by simp [reject])
  rename_i hreadonly
  obtain ⟨code, hcode, h⟩ := bind_eq_ok.1 h
  cases hargs : validateArgs rt settings (upper rt.toUnicodeData (strip command)) args code with
  | some r =>
    rw [hargs] at h
    injection h with h
    subst h
    exact absurd ha (by rw [validateArgs_rejects hargs]; decide)
  | none =>
    rw [hargs] at h
    exact ⟨not_not.1 hreadonly, code, hcode, hargs, h⟩

/-- What an allowed check has established. -/
theorem check_allowed (hdb : ∀ db ∈ session, Unique (·.datasourceCode) db.datasources.rows)
    {command : Str} {args : List Str} {redisContext : JsonDict} {decision : RedisDecision}
    (h : check rt settings session command args redisContext = .ok decision)
    (ha : decision.allowed = true) :
    decision.command = upper rt.toUnicodeData (strip command) ∧ decision.args = args ∧
      ∃ route d, resolveDatasource rt settings session decision.command args redisContext =
        .ok route ∧ route.datasource = some d ∧ Established rt settings session decision d := by
  obtain ⟨hmem, code, -, hfit, h⟩ := check_inv h ha
  obtain ⟨hcommand, hargs, route, d, hroute, hd, henabled, hredis, hkeys, hlookup⟩ :=
    checkRoute_allowed hdb h ha
  refine ⟨hcommand, hargs, route, d, hcommand.symm ▸ hroute, hd, ?_, henabled, hredis, ?_, ?_,
    hlookup⟩
  · rw [hcommand]
    exact hmem
  · rw [hcommand, hargs]
    exact validateArgs_eq_none hmem hfit
  · rw [hcommand, hargs]
    exact hkeys

/-! ## The execution -/

/-- The commands that only read. -/
def readCalls : List Str := "HLEN" :: readonlyCommands

/-- A read call of a client on keys of a list. -/
structure Reads (c : RedisClient) (keys : List Str) (call : RedisCall) : Prop where
  client : call.client = c
  command : call.command ∈ readCalls
  keys : ∀ key ∈ call.keys, key ∈ keys

/-- Does a server answer a call with this exception? -/
def Raises (server : RedisServer) (call : RedisCall) (e : PyError) : Prop :=
  server.text call = .error e ∨ server.int call = .error e ∨ server.values call = .error e ∨
    server.items call = .error e ∨ server.hash call = .error e

/-- A part of an execution that only makes read calls on the given keys, raises only what the
server raises, and returns if every call has an answer. -/
structure Sound {α : Type} (server : RedisServer) (c : RedisClient) (keys : List Str)
    (x : Traced RedisCall PyError α) : Prop where
  sends : x.Sends (Reads c keys)
  raises : x.RaisesOnly (Raises server)
  returns : x.ReturnsIf server.Answers

section Sound

variable {α β : Type} {server : RedisServer} {c : RedisClient} {keys : List Str}

theorem Sound.pure (a : α) : Sound server c keys (pure a) :=
  ⟨.pure _ a, .pure _ a, .pure _ a⟩

theorem Sound.lift {x : Except PyError α} {a : α} (h : x = .ok a) :
    Sound server c keys (Traced.lift x) :=
  ⟨.lift _ x, .lift_ok h, .lift_ok h⟩

theorem Sound.bind {x : Traced RedisCall PyError α} {f : α → Traced RedisCall PyError β}
    (hx : Sound server c keys x) (hf : ∀ a, x.result = .ok a → Sound server c keys (f a)) :
    Sound server c keys (x >>= f) :=
  ⟨hx.sends.bind fun a ha => (hf a ha).sends, hx.raises.bind fun a ha => (hf a ha).raises,
    hx.returns.bind fun a ha => (hf a ha).returns⟩

theorem Sound.send {call : RedisCall} {reply : Except PyError α} (hreads : Reads c keys call)
    (hraises : ∀ e, reply = .error e → Raises server call e)
    (hreturns : Returns reply ↔ server.Answers call) :
    Sound server c keys (Traced.send call reply) :=
  ⟨.send hreads reply, .send hraises, .send hreturns⟩

theorem sendText_sound {call : RedisCall} (h : Reads c keys call)
    (hkind : replyKind call.command = .text) : Sound server c keys (sendText server call) :=
  .send h (fun _ he => Or.inl (map_eq_error.1 he))
    (by rw [returns_map, RedisServer.Answers, hkind])

theorem sendInt_sound {call : RedisCall} (h : Reads c keys call)
    (hkind : replyKind call.command = .int) : Sound server c keys (sendInt server call) :=
  .send h (fun _ he => Or.inr (Or.inl (map_eq_error.1 he)))
    (by rw [returns_map, RedisServer.Answers, hkind])

theorem sendValues_sound {call : RedisCall} (h : Reads c keys call)
    (hkind : replyKind call.command = .values) : Sound server c keys (sendValues server call) :=
  .send h (fun _ he => Or.inr (Or.inr (Or.inl (map_eq_error.1 he))))
    (by rw [returns_map, RedisServer.Answers, hkind])

theorem sendItems_sound {call : RedisCall} (h : Reads c keys call)
    (hkind : replyKind call.command = .items) : Sound server c keys (sendItems server call) :=
  .send h (fun _ he => Or.inr (Or.inr (Or.inr (Or.inl (map_eq_error.1 he)))))
    (by rw [returns_map, RedisServer.Answers, hkind])

theorem sendHash_sound {call : RedisCall} (h : Reads c keys call)
    (hkind : replyKind call.command = .hash) : Sound server c keys (sendHash server call) :=
  .send h (fun _ he => Or.inr (Or.inr (Or.inr (Or.inr (map_eq_error.1 he)))))
    (by rw [returns_map, RedisServer.Answers, hkind])

/-- Reading an argument that is there, then going on with it. -/
theorem argAt_sound {args : List Str} {i : Nat} {a : Str} (h : args[i]? = some a)
    {f : Str → Traced RedisCall PyError α} (hf : Sound server c keys (f a)) :
    Sound server c keys (argAt args i >>= f) := by
  have hlift : argAt args i = Traced.lift (.ok a) := by rw [argAt, h]
  rw [hlift]
  refine (Sound.lift rfl).bind fun b hb => ?_
  obtain rfl := Except.ok.inj hb
  exact hf

/-- Converting an argument that is an integer, then going on with it. -/
theorem lift_sound {x : Except PyError β} {b : β} (h : x = .ok b)
    {f : β → Traced RedisCall PyError α} (hf : Sound server c keys (f b)) :
    Sound server c keys (Traced.lift x >>= f) := by
  refine (Sound.lift h).bind fun a ha => ?_
  obtain rfl : b = a := Except.ok.inj (h.symm.trans ha)
  exact hf

end Sound

/-- The first argument is a key argument of every command. -/
theorem head_mem_keyArgs (command key : Str) (rest : List Str) :
    key ∈ keyArgs command (key :: rest) := by
  rw [keyArgs]
  split <;> simp

theorem reads_keyCall {c : RedisClient} {command called key : Str} {rest : List Str}
    (hcalled : called ∈ readCalls) :
    Reads c (keyArgs command (key :: rest)) (keyCall c called key) :=
  ⟨rfl, hcalled, fun k hk => by
    rw [List.mem_singleton.1 hk]
    exact head_mem_keyArgs command key rest⟩

variable {server : RedisServer} {c : RedisClient}

/-- The preflight of a command with arguments. -/
theorem preflight_sound {decision : RedisDecision} (hargs : decision.args ≠ []) :
    Sound server c (keyArgs decision.command decision.args)
      (preflightResultSize settings server c decision) := by
  obtain ⟨key, rest, hkey⟩ := List.exists_cons_of_ne_nil hargs
  rw [preflightResultSize, hkey]
  refine argAt_sound (a := key) rfl ?_
  simp only
  split
  · exact (Sound.send (reads_keyCall (by decide)) (fun _ he => Or.inr (Or.inl he)) Iff.rfl).bind
      fun _ _ => .pure _
  · split
    · exact (Sound.send (reads_keyCall (by decide)) (fun _ he => Or.inr (Or.inl he)) Iff.rfl).bind
        fun _ _ => .pure _
    · exact .pure _

/-- A range command with fitting arguments. -/
theorem runRange_sound {command key start stop : Str} {m n : Int}
    (hcommand : command ∈ readCalls) (hkind : replyKind command = .items)
    (hm : rt.int start = .ok m)
    (hn : rt.int stop = .ok n) :
    Sound server c (keyArgs command [key, start, stop])
      (runRange rt server c command [key, start, stop]) := by
  refine argAt_sound (a := key) rfl (argAt_sound (a := start) rfl (lift_sound hm
    (argAt_sound (a := stop) rfl (lift_sound hn (sendItems_sound ⟨rfl, hcommand, fun k hk => ?_⟩
      hkind)))))
  rw [List.mem_singleton.1 hk]
  exact head_mem_keyArgs command key _

/-- A readonly command runs in one of these ways. -/
theorem runCommand_cases {command : Str} {args : List Str} (hcommand : command ∈ readonlyCommands)
    {motive : Traced RedisCall PyError RedisReply → Prop}
    (text : ∀ called ∈ (["GET", "TYPE"] : List String).map String.toList, command = called →
      motive (argAt args 0 >>= fun key => sendText server (keyCall c called key)))
    (int : ∀ called ∈ (["TTL", "PTTL", "LLEN", "SCARD", "ZCARD"] : List String).map
      String.toList, command = called →
        motive (argAt args 0 >>= fun key => sendInt server (keyCall c called key)))
    (mget : command = "MGET" → motive (sendValues server ⟨c, "MGET", args, [], none⟩))
    (exist : command = "EXISTS" → motive (sendInt server ⟨c, "EXISTS", args, [], none⟩))
    (hget : command = "HGET" → motive (argAt args 0 >>= fun key => argAt args 1 >>= fun field =>
      sendText server ⟨c, "HGET", [key], [field], none⟩))
    (hmget : command = "HMGET" → motive (argAt args 0 >>= fun key =>
      sendValues server ⟨c, "HMGET", [key], args.drop 1, none⟩))
    (hgetall : command = "HGETALL" →
      motive (argAt args 0 >>= fun key => sendHash server (keyCall c "HGETALL" key)))
    (range : ∀ called ∈ rangeCommands, command = called →
      motive (runRange rt server c called args))
    (smembers : command = "SMEMBERS" → motive (do
      match ← sendItems server (keyCall c "SMEMBERS" (← argAt args 0)) with
      | .items members => pure (.items (sortStrings members))
      | reply => pure reply)) :
    motive (runCommand rt server c command args) := by
  rw [runCommand]
  -- One case a command, in the order of the source; none is left at the end.
  refine iteInduction (fun h => text "GET" (by decide) h) fun h1 => ?_
  refine iteInduction mget fun h2 => ?_
  refine iteInduction hget fun h3 => ?_
  refine iteInduction hmget fun h4 => ?_
  refine iteInduction hgetall fun h5 => ?_
  refine iteInduction exist fun h6 => ?_
  refine iteInduction (fun h => int "TTL" (by decide) h) fun h7 => ?_
  refine iteInduction (fun h => int "PTTL" (by decide) h) fun h8 => ?_
  refine iteInduction (fun h => text "TYPE" (by decide) h) fun h9 => ?_
  refine iteInduction (fun h => int "LLEN" (by decide) h) fun h10 => ?_
  refine iteInduction (fun h => int "SCARD" (by decide) h) fun h11 => ?_
  refine iteInduction (fun h => int "ZCARD" (by decide) h) fun h12 => ?_
  refine iteInduction (fun h => range "LRANGE" (by decide) h) fun h13 => ?_
  refine iteInduction (fun h => range "ZRANGE" (by decide) h) fun h14 => ?_
  refine iteInduction smembers fun h15 => ?_
  exfalso
  rw [readonlyCommands] at hcommand
  simp only [List.mem_cons, List.not_mem_nil, or_false, h1, h2, h3, h4, h5, h6, h7, h8, h9, h10,
    h11, h12, h13, h14, h15] at hcommand

/-- A readonly command with fitting arguments only reads its key arguments, and fails only if the
server does. -/
theorem runCommand_sound {command : Str} {args : List Str} (hcommand : command ∈ readonlyCommands)
    (hargs : ArgsFit rt settings command args) :
    Sound server c (keyArgs command args) (runCommand rt server c command args) := by
  obtain ⟨key, rest, rfl⟩ := List.exists_cons_of_ne_nil hargs.key
  have hmulti : ∀ called, called ∈ readCalls → command = called →
      called ∈ multiKeyCommands → Reads c (keyArgs command (key :: rest))
        ⟨c, called, key :: rest, [], none⟩ := by
    intro called h hc hm
    refine ⟨rfl, h, fun k hk => ?_⟩
    rw [keyArgs, if_pos (hc ▸ hm)]
    exact hk
  refine runCommand_cases hcommand ?text ?int ?mget ?exist ?hget ?hmget ?hgetall ?range ?smembers
  case text =>
    intro called hcalled _
    have hread : ∀ x ∈ (["GET", "TYPE"] : List String).map String.toList,
        x ∈ readCalls ∧ replyKind x = .text := by decide
    exact argAt_sound rfl (sendText_sound (reads_keyCall (hread called hcalled).1)
      (hread called hcalled).2)
  case int =>
    intro called hcalled _
    have hread : ∀ x ∈ (["TTL", "PTTL", "LLEN", "SCARD", "ZCARD"] : List String).map
        String.toList, x ∈ readCalls ∧ replyKind x = .int := by decide
    exact argAt_sound rfl (sendInt_sound (reads_keyCall (hread called hcalled).1)
      (hread called hcalled).2)
  case mget =>
    exact fun h => sendValues_sound (hmulti "MGET" (by decide) h (by decide)) rfl
  case exist =>
    exact fun h => sendInt_sound (hmulti "EXISTS" (by decide) h (by decide)) rfl
  case hget =>
    intro h
    have hlen := hargs.field h
    obtain ⟨field, rfl⟩ : ∃ field, rest = [field] := by
      rw [List.length_cons, Nat.add_right_cancel_iff] at hlen
      exact List.length_eq_one_iff.1 hlen
    refine argAt_sound (a := key) rfl (argAt_sound (a := field) rfl (sendText_sound
      ⟨rfl, (by decide : ("HGET" : Str) ∈ readCalls), fun k hk => ?_⟩ rfl))
    rw [List.mem_singleton.1 hk]
    exact head_mem_keyArgs command key _
  case hmget =>
    intro _
    refine argAt_sound (a := key) rfl (sendValues_sound
      ⟨rfl, (by decide : ("HMGET" : Str) ∈ readCalls), fun k hk => ?_⟩ rfl)
    rw [List.mem_singleton.1 hk]
    exact head_mem_keyArgs command key _
  case hgetall =>
    exact fun _ => argAt_sound rfl (sendHash_sound (reads_keyCall (by decide)) rfl)
  case range =>
    intro called hcalled h
    obtain ⟨k, start, stop, m, n, hlist, hm, hn, -⟩ := hargs.range (h ▸ hcalled)
    have hread : ∀ x ∈ rangeCommands, x ∈ readCalls ∧ replyKind x = .items := by decide
    rw [hlist, h]
    exact runRange_sound (hread called hcalled).1 (hread called hcalled).2 hm hn
  case smembers =>
    intro _
    refine argAt_sound (a := key) rfl
      ((sendItems_sound (reads_keyCall (by decide)) rfl).bind fun reply _ => ?_)
    cases reply <;> exact .pure _

/-- The execution of an established decision. -/
theorem execute_sound {decision : RedisDecision} {d : DatasourceInstance} (executionMs : Int)
    (ha : decision.allowed = true) (h : Established rt settings session decision d) :
    Sound server (client rt d) (keyArgs decision.command decision.args)
      (execute rt settings session server executionMs decision) := by
  rw [execute, if_neg (by rw [ha]; decide)]
  refine lift_sound h.lookup ?_
  refine (preflight_sound h.args.key).bind fun pre _ => ?_
  cases pre with
  | some p => exact .pure _
  | none =>
    refine (runCommand_sound h.command h.args).bind fun reply _ => ?_
    simp only
    split <;> exact .pure _

/-- The Redis gate is sound from check through execution.  A check that allows has a readonly
command, an enabled Redis datasource and allowed keys; and an execution of its decision on the
same metadata looks up the same datasource, makes only read calls there, on the validated keys
only, and fails only if a server answers a call with an error. -/
theorem check_execute_sound (rt : Runtime) (settings : Settings) (session : Option Metadata)
    (hdb : ∀ db ∈ session, Unique (·.datasourceCode) db.datasources.rows) (command : Str)
    (args : List Str)
    (redisContext : JsonDict) (decision : RedisDecision)
    (hcheck : check rt settings session command args redisContext = .ok decision)
    (ha : decision.allowed = true) (server : RedisServer) (executionMs : Int) :
    decision.command = upper rt.toUnicodeData (strip command) ∧
    decision.command ∈ readonlyCommands ∧ decision.args = args ∧
    ∃ route d, resolveDatasource rt settings session decision.command args redisContext =
      .ok route ∧ route.datasource = some d ∧ d.enabled = true ∧
        lower rt.toUnicodeData d.dbType = "redis" ∧
      (∃ prefixes, allowedPrefixes rt settings d = .ok prefixes ∧
        ∀ key ∈ keyArgs decision.command args, KeyAllowed settings prefixes key) ∧
      datasource settings session decision.datasourceCode = .ok (some d) ∧
      (execute rt settings session server executionMs decision).Sends
        (Reads (client rt d) (keyArgs decision.command args)) ∧
      (execute rt settings session server executionMs decision).RaisesOnly (Raises server) := by
  obtain ⟨hcommand, hargs, route, d, hroute, hd, hest⟩ := check_allowed hdb hcheck ha
  have hsound : Sound server _ _ _ := execute_sound executionMs ha hest
  have hkeys := hest.keys
  rw [hargs] at hsound hkeys
  exact ⟨hcommand, hest.command, hargs, route, d, hroute, hd, hest.enabled, hest.redis, hkeys,
    hest.lookup, hsound.sends, hsound.raises⟩

/-- Settings with three key prefixes. -/
def exampleSettings : Settings :=
  ⟨"127.0.0.1", 6379, 0, [], "demo_redis", "demo:,user:,order:", 20, 100, 256⟩

/-- A server with one value for every key. -/
def exampleServer : RedisServer :=
  ⟨fun _ => .ok (some "x"), fun _ => .ok 1, fun _ => .ok [], fun _ => .ok [], fun _ => .ok []⟩

/-- A cache of a catalog, for the keys with a prefix. -/
def exampleCache (id : Nat) (code : Str) (prefixes : List Str) : DatasourceInstance :=
  ⟨id, code, code, "redis", "127.0.0.1", 6379, "0", [], [], true, true,
    .dict [("catlog_name", .str "demo"), ("allowed_key_prefixes", .list (prefixes.map .str))]⟩

/-- The example's metadata with one cache, for users and for orders. -/
def exampleCached : Metadata :=
  { exampleMetadata with
    datasources := ⟨[exampleCache 1 "cache" ["user:", "order:"]], 2⟩ }

/-- Reading a user and an order from the stored cache. -/
theorem check_execute_sound_mget : ∃ decision d,
    check asciiRuntime exampleSettings (some exampleCached) " mget " ["user:1", "order:2"]
      [("catlog_name", .str "demo")] = .ok decision ∧
    datasource exampleSettings (some exampleCached) decision.datasourceCode = .ok (some d) ∧
    keyArgs decision.command decision.args = ["user:1", "order:2"] ∧
    (execute asciiRuntime exampleSettings (some exampleCached) exampleServer 0 decision).Sends
      (Reads (client asciiRuntime d) (keyArgs decision.command ["user:1", "order:2"])) ∧
    (execute asciiRuntime exampleSettings (some exampleCached) exampleServer 0 decision).RaisesOnly
      (Raises exampleServer) := by
  have hrun : (check asciiRuntime exampleSettings (some exampleCached) " mget "
      ["user:1", "order:2"] [("catlog_name", .str "demo")]).map
        (fun decision => (decision.allowed, keyArgs decision.command decision.args)) =
      .ok (true, ["user:1", "order:2"]) := by decide +kernel
  obtain ⟨decision, hcheck, hview⟩ := map_eq_ok.1 hrun
  obtain ⟨ha, hkeys⟩ := Prod.mk.inj hview
  have hcodes : ∀ db ∈ some exampleCached, Unique (·.datasourceCode) db.datasources.rows :=
    fun db hdb => Option.mem_some_iff.1 hdb ▸ by decide
  obtain ⟨-, -, -, -, d, -, -, -, -, -, hlookup, hsends, hraises⟩ :=
    check_execute_sound asciiRuntime exampleSettings (some exampleCached) hcodes " mget "
      ["user:1", "order:2"] [("catlog_name", .str "demo")] decision hcheck ha exampleServer 0
  exact ⟨decision, d, hcheck, hlookup, hkeys, hsends, hraises⟩

end RedisGatekeeperService

end SqlGatekeeper
