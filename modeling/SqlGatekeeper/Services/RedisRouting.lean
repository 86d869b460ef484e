import SqlGatekeeper.Services.RedisReturns

/-!
# Redis routing by catalog and key

* `OnlyMatch`: the only registered datasource that serves a catalog and admits a key.
* `resolves_iff`: a catalog and a first key lead to a datasource exactly if it is that one.
* `check_catalog_verdict`: the check then goes on as if the request named the datasource by its
  code.
* `catalog_and_code_agree`: routing by catalog and by code agree.
-/

namespace SqlGatekeeper

open Py Store

/-- A decision without its diagnostics. -/
def RedisDecision.verdict (decision : RedisDecision) : RedisDecision :=
  { decision with diagnostics := [] }

namespace RedisGatekeeperService

/-! ## Contexts and matches -/

/-- The context that names a catalog. -/
def catalogContext (catalog : Str) : JsonDict := [("catlog_name", .str catalog)]

/-- The context that names a datasource. -/
def codeContext (datasourceCode : Str) : JsonDict := [("datasource_code", .str datasourceCode)]

section Matches

variable (rt : Runtime) (settings : Settings) (db : Metadata) (catalog key : Str)

/-- A registered, enabled Redis datasource that serves a catalog, in any letter case. -/
structure Serves (d : DatasourceInstance) : Prop where
  registered : d ∈ db.datasources.rows
  redis : d.dbType = "redis"
  enabled : d.enabled = true
  catalog : ∃ c, datasourceCatalog rt d = .ok c ∧
    lower rt.toUnicodeData c = lower rt.toUnicodeData catalog

/-- A datasource admits a key by its prefixes. -/
def Admits (d : DatasourceInstance) : Prop :=
  ∃ prefixes, allowedPrefixes rt settings d = .ok prefixes ∧
    (prefixes = [] ∨ ("*" : Str) ∈ prefixes ∨ ∃ p ∈ prefixes, p <+: key)

/-- The only registered datasource that serves a catalog and admits a key. -/
structure OnlyMatch (d : DatasourceInstance) : Prop where
  serves : Serves rt db catalog d
  admits : Admits rt settings key d
  only : ∀ d', Serves rt db catalog d' → Admits rt settings key d' → d' = d

end Matches

variable {rt : Runtime} {settings : Settings} {db : Metadata} {catalog key : Str}
  {command : Str} {args : List Str}

/-! ## Comprehensions -/

/-- A condition that holds and does not raise. -/
def holds : Except PyError Bool → Bool
  | .ok b => b
  | .error _ => false

theorem holds_iff {x : Except PyError Bool} : holds x = true ↔ x = .ok true := by
  cases x <;> simp [holds]

/-- A comprehension returns if its condition does, and then is a filter. -/
theorem filterE_eq_ok {α : Type} {p : α → Except PyError Bool} {l l' : List α} :
    filterE p l = .ok l' ↔ (∀ a ∈ l, Returns (p a)) ∧ l' = l.filter fun a =>
      holds (p a) := by
  induction l generalizing l' with
  | nil => simp [filterE, eq_comm]
  | cons a l ih =>
    rw [List.forall_mem_cons]
    constructor
    · intro h
      obtain ⟨keep, hkeep, h⟩ := bind_eq_ok.1 h
      obtain ⟨rest, hrest, h⟩ := bind_eq_ok.1 h
      obtain ⟨hall, rfl⟩ := ih.1 hrest
      injection h with h
      refine ⟨⟨⟨keep, hkeep⟩, hall⟩, ?_⟩
      rw [← h, List.filter_cons, hkeep]
      rfl
    · rintro ⟨⟨⟨keep, hkeep⟩, hall⟩, rfl⟩
      refine bind_eq_ok.2 ⟨keep, hkeep, bind_eq_ok.2 ⟨_, ih.2 ⟨hall, rfl⟩, ?_⟩⟩
      rw [List.filter_cons, hkeep]
      rfl

theorem filter_eq_singleton_iff {α : Type} {p : α → Bool} {l : List α}
    (hl : l.Nodup) {a : α} :
    l.filter p = [a] ↔ (a ∈ l ∧ p a = true) ∧ ∀ b ∈ l, p b = true → b = a := by
  constructor
  · intro h
    have hmem : ∀ b, b ∈ l ∧ p b = true ↔ b = a := fun b => by
      rw [← List.mem_filter, h, List.mem_singleton]
    exact ⟨(hmem a).2 rfl, fun b hb hp => (hmem b).1 ⟨hb, hp⟩⟩
  · rintro ⟨ha, honly⟩
    refine List.perm_singleton.1 ((List.perm_ext_iff_of_nodup (hl.filter p)
      (List.nodup_singleton a)).2 fun b => ?_)
    rw [List.mem_filter, List.mem_singleton]
    constructor
    · rintro ⟨hb, hp⟩
      exact honly b hb hp
    · rintro rfl
      exact ha

/-! ## Resolution -/

/-- A request with this context leads to a datasource. -/
def Resolves (rt : Runtime) (settings : Settings) (db : Metadata) (command : Str) (args : List Str)
    (redisContext : JsonDict) (d : DatasourceInstance) : Prop :=
  ∃ route, resolveDatasource rt settings (some db) command args redisContext = .ok route ∧
    route.datasource = some d

/-- The key that a request is routed by. -/
def routeKey (command : Str) (args : List Str) : Str := (keyArgs command args).headD []

theorem contextDatasourceCode_catalog (catalog : Str) :
    contextDatasourceCode rt (catalogContext catalog) = .ok [] := rfl

theorem catalogName_catalog (hcatalog : catalog ≠ []) :
    catalogName rt (catalogContext catalog) = .ok catalog := by
  obtain ⟨c, cs, rfl⟩ := List.exists_cons_of_ne_nil hcatalog
  rfl

theorem resolves_catalog_iff (hcatalog : catalog ≠ []) {d : DatasourceInstance} :
    Resolves rt settings db command args (catalogContext catalog) d ↔
      ∃ candidates, matchingCatalog rt db catalog = .ok candidates ∧
        matchingKey rt settings (routeKey command args) candidates = .ok [d] := by
  constructor
  · rintro ⟨route, h, hd⟩
    obtain ⟨code, hcode, h⟩ := bind_eq_ok.1 h
    obtain rfl : code = [] := (Except.ok.inj hcode).symm
    rw [if_neg (not_not.2 rfl)] at h
    obtain ⟨c, hc, h⟩ := bind_eq_ok.1 h
    obtain rfl : catalog = c := Except.ok.inj ((catalogName_catalog hcatalog).symm.trans hc)
    rw [if_neg hcatalog] at h
    obtain ⟨candidates, hcandidates, h⟩ := bind_eq_ok.1 h
    refine ⟨candidates, hcandidates, ?_⟩
    cases candidates with
    | nil =>
      injection h with h
      rw [← h] at hd
      exact absurd hd (by simp)
    | cons c cs =>
      obtain ⟨found, hfound, h⟩ := bind_eq_ok.1 h
      rw [routeKey, hfound]
      rcases found with _ | ⟨f, _ | ⟨g, fs⟩⟩
      · injection h with h
        rw [← h] at hd
        exact absurd hd (by simp)
      · injection h with h
        rw [← h] at hd
        rw [Option.some.inj hd]
      · injection h with h
        rw [← h] at hd
        exact absurd hd (by simp)
  · rintro ⟨candidates, hcandidates, hfound⟩
    cases candidates with
    | nil => exact absurd hfound (by simp [matchingKey, filterE])
    | cons c cs =>
      refine ⟨⟨some d, [], []⟩, bind_eq_ok.2 ⟨[], rfl, ?_⟩, rfl⟩
      rw [if_neg (not_not.2 rfl)]
      refine bind_eq_ok.2 ⟨catalog, catalogName_catalog hcatalog, ?_⟩
      rw [if_neg hcatalog]
      exact bind_eq_ok.2 ⟨c :: cs, hcandidates, bind_eq_ok.2 ⟨[d], hfound, rfl⟩⟩

/-- The candidates of a catalog are the datasources that serve it. -/
theorem mem_matchingCatalog {candidates : List DatasourceInstance}
    (h : matchingCatalog rt db catalog = .ok candidates) {d : DatasourceInstance} :
    d ∈ candidates ↔ Serves rt db catalog d := by
  obtain ⟨-, rfl⟩ := filterE_eq_ok.1 h
  rw [List.mem_filter, List.mem_filter, holds_iff, map_eq_ok, decide_eq_true_eq]
  constructor
  · rintro ⟨⟨hrow, hredis, henabled⟩, c, hc, hsame⟩
    exact ⟨hrow, hredis, henabled, c, hc, of_decide_eq_true hsame⟩
  · rintro ⟨hrow, hredis, henabled, c, hc, hsame⟩
    exact ⟨⟨hrow, hredis, henabled⟩, c, hc, decide_eq_true hsame⟩

theorem matchingCatalog_nodup (hdb : Unique (·.datasourceCode) db.datasources.rows)
    {candidates : List DatasourceInstance} (h : matchingCatalog rt db catalog = .ok candidates) :
    candidates.Nodup := by
  obtain ⟨-, rfl⟩ := filterE_eq_ok.1 h
  exact ((List.Nodup.of_map _ hdb).filter _).filter _

theorem keyAllowedByDatasource_iff {d : DatasourceInstance} :
    keyAllowedByDatasource rt settings key d = .ok true ↔ Admits rt settings key d := by
  rw [keyAllowedByDatasource, map_eq_ok]
  exact exists_congr fun prefixes => and_congr_right fun _ => insidePrefixes_iff

/-- Of the candidates one admits a key if their prefixes can be read and it is the only one. -/
theorem matchingKey_eq_singleton_iff (hkey : key ≠ []) {candidates : List DatasourceInstance}
    (hnodup : candidates.Nodup) {d : DatasourceInstance} :
    matchingKey rt settings key candidates = .ok [d] ↔
      (∀ c ∈ candidates, Returns (allowedPrefixes rt settings c)) ∧
      (d ∈ candidates ∧ Admits rt settings key d) ∧
      ∀ c ∈ candidates, Admits rt settings key c → c = d := by
  rw [matchingKey, filterE_eq_ok]
  simp only [if_neg hkey]
  rw [eq_comm (a := [d]), filter_eq_singleton_iff hnodup]
  simp only [holds_iff, keyAllowedByDatasource_iff]
  exact and_congr_left fun _ => forall₂_congr fun c _ => returns_map

/-- A catalog and a first key lead to a datasource exactly if it is the only one that serves the
catalog and admits the key. -/
theorem resolves_iff (hdb : Unique (·.datasourceCode) db.datasources.rows) (hjson : db.Decoded rt)
    (hcatalog : catalog ≠ []) (hkey : routeKey command args ≠ []) {d : DatasourceInstance} :
    Resolves rt settings db command args (catalogContext catalog) d ↔
      OnlyMatch rt settings db catalog (routeKey command args) d := by
  rw [resolves_catalog_iff hcatalog]
  constructor
  · rintro ⟨candidates, hcandidates, hfound⟩
    obtain ⟨-, ⟨hmem, hadmits⟩, honly⟩ := (matchingKey_eq_singleton_iff hkey
      (matchingCatalog_nodup hdb hcandidates)).1 hfound
    exact ⟨(mem_matchingCatalog hcandidates).1 hmem, hadmits, fun c hc =>
      honly c ((mem_matchingCatalog hcandidates).2 hc)⟩
  · intro h
    obtain ⟨candidates, hcandidates⟩ : Returns (matchingCatalog rt db catalog) :=
      filterE_returns fun c hc =>
        returns_map.2 (datasourceCatalog_returns (hjson c (List.mem_of_mem_filter hc)))
    refine ⟨candidates, hcandidates, (matchingKey_eq_singleton_iff hkey
      (matchingCatalog_nodup hdb hcandidates)).2 ⟨fun c hc => ?_, ?_, fun c hc => ?_⟩⟩
    · exact allowedPrefixes_returns (hjson c ((mem_matchingCatalog hcandidates).1 hc).registered)
    · exact ⟨(mem_matchingCatalog hcandidates).2 h.serves, h.admits⟩
    · exact h.only c ((mem_matchingCatalog hcandidates).1 hc)

/-! ## The check of a datasource -/

/-- The command as the check reads it. -/
def normalizedCommand (rt : Runtime) (command : Str) : Str := upper rt.toUnicodeData (strip command)

/-- The verdict on a request that has come to a datasource. -/
def datasourceVerdict (rt : Runtime) (settings : Settings) (command : Str) (args : List Str)
    (datasourceCode : Str) (d : DatasourceInstance) : Except PyError RedisDecision :=
  if lower rt.toUnicodeData d.dbType ≠ "redis" then
    .ok (reject "REDIS_DATASOURCE_TYPE_INVALID" ("Datasource '" ++ datasourceCode ++
      "' is not a Redis datasource") command args datasourceCode)
  else (validateKeys rt settings command args d).map fun rejection => rejection.getD
    ⟨true, "ALLOW", "Redis command passed readonly command, key scope, and result limit checks",
      command, args, datasourceCode, []⟩

theorem validateKeysFrom_verdict {prefixes : List Str} {code : Str} {keys : List Str}
    {r : RedisDecision}
    (h : validateKeysFrom settings prefixes command args code keys = some r) : r.verdict = r := by
  induction keys with
  | nil => exact absurd h (by simp [validateKeysFrom])
  | cons key keys ih =>
    rw [validateKeysFrom] at h
    split_ifs at h with h1 h2 h3 h4
    · exact Option.some.inj h ▸ rfl
    · exact Option.some.inj h ▸ rfl
    · exact Option.some.inj h ▸ rfl
    · exact ih h
    · exact Option.some.inj h ▸ rfl

/-- What the check makes of a request depends on its context only by the datasource it leads to and
the code it reports. -/
theorem checkRoute_verdict {redisContext : JsonDict} {d : DatasourceInstance} {code : Str}
    (hd : Resolves rt settings db command args redisContext d)
    (hcode : rt.strJson ((redisContext.get "datasource_code").orElse (.str d.datasourceCode)) =
      .ok code) (hcatalog : Returns (catalogName rt redisContext)) :
    (checkRoute rt settings (some db) command args redisContext).map RedisDecision.verdict =
      datasourceVerdict rt settings command args code d := by
  obtain ⟨route, hroute, hsome⟩ := hd
  obtain ⟨catalog, hcatalog⟩ := hcatalog
  simp only [checkRoute, hroute, hsome, hcode, bind, Except.bind, datasourceVerdict]
  by_cases hredis : lower rt.toUnicodeData d.dbType ≠ "redis"
  · rw [if_pos hredis, if_pos hredis]
    rfl
  rw [if_neg hredis, if_neg hredis, validateKeys]
  cases hprefixes : allowedPrefixes rt settings d with
  | error e => rfl
  | ok prefixes =>
    simp only [Except.map, hcatalog]
    cases hkeys : validateKeysFrom settings prefixes command args d.datasourceCode
        (keyArgs command args) with
    | none => rfl
    | some r =>
      simp only [pure, Except.pure, Option.getD_some]
      rw [validateKeysFrom_verdict hkeys]

/-- On a Redis datasource whose prefixes admit all keys a verdict allows. -/
theorem datasourceVerdict_of_allowed {code : Str} {d : DatasourceInstance} {prefixes : List Str}
    (hredis : lower rt.toUnicodeData d.dbType = "redis")
    (hprefixes : allowedPrefixes rt settings d = .ok prefixes)
    (hkeys : ∀ key ∈ keyArgs command args, KeyAllowed settings prefixes key) :
    ∃ v, datasourceVerdict rt settings command args code d = .ok v ∧ v.allowed = true ∧
      v.datasourceCode = code := by
  rw [datasourceVerdict, if_neg (not_not.2 hredis)]
  refine ⟨_, map_eq_ok.2 ⟨none, map_eq_ok.2 ⟨prefixes, hprefixes, ?_⟩, rfl⟩, rfl, rfl⟩
  exact validateKeysFrom_eq_none_iff.2 hkeys

/-! ## The whole check -/

theorem readonly_not_denied : ∀ c ∈ readonlyCommands, c ≠ [] ∧
    c ∉ deniedCommands := by decide

/-- A readonly command with fitting arguments is checked on the datasource it leads to. -/
theorem check_eq_checkRoute {session : Option Metadata} {redisContext : JsonDict} {code : Str}
    (hcommand : normalizedCommand rt command ∈ readonlyCommands)
    (hcode : contextDatasourceCode rt redisContext = .ok code)
    (hargs : validateArgs rt settings (normalizedCommand rt command) args code = none) :
    check rt settings session command args redisContext =
      checkRoute rt settings session (normalizedCommand rt command) args redisContext := by
  rw [normalizedCommand] at hcommand hargs ⊢
  obtain ⟨hne, hdenied⟩ := readonly_not_denied _ hcommand
  simp only [check]
  rw [if_neg hne, if_neg hdenied, if_neg (not_not.2 hcommand), hcode]
  simp only [bind, Except.bind, hargs]

/-- Whether arguments fit does not depend on the code that is reported. -/
theorem validateArgs_code {code : Str} (h : validateArgs rt settings command args code = none)
    (code' : Str) : validateArgs rt settings command args code' = none := by
  simp only [validateArgs] at h ⊢
  split_ifs at h ⊢
  · rw [validateRange] at h ⊢
    cases hstart : rt.int (args.getD 1 []) with
    | error e => rw [hstart] at h; exact absurd h (by simp)
    | ok start =>
      cases hstop : rt.int (args.getD 2 []) with
      | error e => rw [hstart, hstop] at h; exact absurd h (by simp)
      | ok stop =>
        rw [hstart, hstop] at h
        simp only at h ⊢
        split_ifs at h ⊢
        rfl
  · rfl

theorem routeKey_eq (command : Str) (args : List Str) : routeKey command args = args.headD [] := by
  rw [routeKey, keyArgs]
  split
  · rfl
  · cases args <;> rfl

/-- A check allows a readonly command with fitting arguments on a Redis datasource that its context
leads to and whose prefixes admit its keys. -/
theorem check_allows_iff {redisContext : JsonDict} {code reported : Str}
    (hcode : contextDatasourceCode rt redisContext = .ok code) :
    (∃ decision, check rt settings (some db) command args redisContext = .ok decision ∧
      decision.allowed = true ∧ decision.datasourceCode = reported) ↔
      (normalizedCommand rt command ∈ readonlyCommands ∧
        validateArgs rt settings (normalizedCommand rt command) args code = none) ∧
      Returns (catalogName rt redisContext) ∧
      ∃ d, Resolves rt settings db (normalizedCommand rt command) args redisContext d ∧
        rt.strJson ((redisContext.get "datasource_code").orElse (.str d.datasourceCode)) =
          .ok reported ∧
        lower rt.toUnicodeData d.dbType = "redis" ∧
        ∃ prefixes, allowedPrefixes rt settings d = .ok prefixes ∧
          ∀ key ∈ keyArgs (normalizedCommand rt command) args,
            KeyAllowed settings prefixes key := by
  constructor
  · rintro ⟨decision, h, ha, rfl⟩
    obtain ⟨hcommand, code', hcode', hargs, h⟩ := check_inv h ha
    obtain rfl : code' = code := Except.ok.inj (hcode'.symm.trans hcode)
    obtain ⟨-, -, hcatalog, route, d, hroute, hd, hc, hredis, hkeys⟩ := checkRoute_inv h ha
    exact ⟨⟨hcommand, hargs⟩, hcatalog, d, ⟨route, hroute, hd⟩, hc, hredis, hkeys⟩
  · rintro ⟨⟨hcommand, hargs⟩, hcatalog, d, hresolves, hc, hredis, prefixes,
      hprefixes, hkeys⟩
    obtain ⟨v, hv, ha, hv'⟩ := datasourceVerdict_of_allowed hredis hprefixes hkeys
    rw [← checkRoute_verdict hresolves hc hcatalog, ← check_eq_checkRoute hcommand hcode
      hargs] at hv
    obtain ⟨decision, hdecision, rfl⟩ := map_eq_ok.1 hv
    exact ⟨decision, hdecision, ha, hv'⟩

/-! ## Catalog and code -/

theorem contextDatasourceCode_code {code : Str} (hcode : code ≠ []) :
    contextDatasourceCode rt (codeContext code) = .ok code := by
  obtain ⟨c, cs, rfl⟩ := List.exists_cons_of_ne_nil hcode
  rfl

theorem reportedCode_code {code : Str} (hcode : code ≠ []) :
    rt.strJson (((codeContext code).get "datasource_code").orElse (.str code)) = .ok code := by
  obtain ⟨c, cs, rfl⟩ := List.exists_cons_of_ne_nil hcode
  rfl

/-- A registered datasource is resolved to by its code. -/
theorem resolves_code (hdb : Unique (·.datasourceCode) db.datasources.rows)
    {d : DatasourceInstance} (hd : d ∈ db.datasources.rows) (henabled : d.enabled = true)
    (hcode : d.datasourceCode ≠ []) :
    Resolves rt settings db command args (codeContext d.datasourceCode) d := by
  have hfound : datasource settings (some db) d.datasourceCode = .ok (some d) :=
    Metadata.getEnabledByCode_of_mem (Metadata.getEnabledByCode_ok hdb) hd henabled
  refine ⟨⟨some d, [], []⟩, bind_eq_ok.2 ⟨_, contextDatasourceCode_code hcode, ?_⟩, rfl⟩
  rw [if_pos hcode]
  exact bind_eq_ok.2 ⟨some d, hfound, rfl⟩

/-- The check of a request that a catalog leads to a datasource. -/
theorem check_catalog_verdict (hcommand : normalizedCommand rt command ∈ readonlyCommands)
    (hargs : validateArgs rt settings (normalizedCommand rt command) args [] = none)
    (hcatalog : catalog ≠ []) {d : DatasourceInstance}
    (hd : Resolves rt settings db (normalizedCommand rt command) args (catalogContext catalog) d) :
    (check rt settings (some db) command args (catalogContext catalog)).map RedisDecision.verdict =
      datasourceVerdict rt settings (normalizedCommand rt command) args d.datasourceCode d := by
  rw [check_eq_checkRoute hcommand (contextDatasourceCode_catalog catalog) hargs]
  exact checkRoute_verdict hd rfl ⟨catalog, catalogName_catalog hcatalog⟩

/-- The check of a request that names a datasource. -/
theorem check_code_verdict (hcommand : normalizedCommand rt command ∈ readonlyCommands)
    (hargs : validateArgs rt settings (normalizedCommand rt command) args [] = none)
    {d : DatasourceInstance} (hcode : d.datasourceCode ≠ [])
    (hd : Resolves rt settings db (normalizedCommand rt command) args
      (codeContext d.datasourceCode) d) :
    (check rt settings (some db) command args (codeContext d.datasourceCode)).map
        RedisDecision.verdict =
      datasourceVerdict rt settings (normalizedCommand rt command) args d.datasourceCode d := by
  rw [check_eq_checkRoute hcommand (contextDatasourceCode_code hcode) (validateArgs_code hargs _)]
  exact checkRoute_verdict hd (reportedCode_code hcode) ⟨[], rfl⟩

/-- A request that a catalog leads to no datasource is rejected. -/
theorem check_catalog_rejects {decision : RedisDecision}
    (hnone : ∀ d, ¬ Resolves rt settings db (normalizedCommand rt command) args
      (catalogContext catalog) d)
    (h : check rt settings (some db) command args (catalogContext catalog) = .ok decision) :
    decision.allowed = false := by
  by_contra ha
  rw [Bool.not_eq_false] at ha
  obtain ⟨-, -, d, hd, -⟩ :=
    (check_allows_iff (contextDatasourceCode_catalog catalog)).1 ⟨decision, h, ha, rfl⟩
  exact hnone d hd

/-- Routing by catalog and by code agree: a catalog leads to a datasource exactly if it is the only
registered one that serves the catalog and admits the first key; the check then gives the verdict
that it gives when the request names the datasource; in every other case it rejects. -/
theorem catalog_and_code_agree (rt : Runtime) (settings : Settings) (db : Metadata)
    (hdb : Unique (·.datasourceCode) db.datasources.rows)
    (hcodes : ∀ d ∈ db.datasources.rows, d.datasourceCode ≠ []) (hjson : db.Decoded rt)
    (command : Str) (args : List Str) (catalog : Str)
    (hcommand : normalizedCommand rt command ∈ readonlyCommands)
    (hargs : validateArgs rt settings (normalizedCommand rt command) args [] = none)
    (hkey : args.headD [] ≠ []) (hcatalog : catalog ≠ []) :
    (∀ d, Resolves rt settings db (normalizedCommand rt command) args (catalogContext catalog)
      d ↔ OnlyMatch rt settings db catalog (args.headD []) d) ∧
    (∀ d, OnlyMatch rt settings db catalog (args.headD []) d →
      (check rt settings (some db) command args (catalogContext catalog)).map
          RedisDecision.verdict =
        (check rt settings (some db) command args (codeContext d.datasourceCode)).map
          RedisDecision.verdict) ∧
    ((∀ d, ¬ OnlyMatch rt settings db catalog (args.headD []) d) →
      ∃ decision, check rt settings (some db) command args (catalogContext catalog) =
        .ok decision ∧ decision.allowed = false) := by
  have hresolves : ∀ d, Resolves rt settings db (normalizedCommand rt command) args
      (catalogContext catalog) d ↔ OnlyMatch rt settings db catalog
        (args.headD []) d := fun d => by
    rw [← routeKey_eq (normalizedCommand rt command)] at hkey ⊢
    exact resolves_iff hdb hjson hcatalog hkey
  refine ⟨hresolves, fun d hd => ?_, fun hnone => ?_⟩
  · have hcode := hcodes d hd.serves.registered
    rw [check_catalog_verdict hcommand hargs hcatalog ((hresolves d).2 hd),
      check_code_verdict hcommand hargs hcode
        (resolves_code hdb hd.serves.registered hd.serves.enabled hcode)]
  · have hfits : Json.intsFitDict rt.digitsFit (catalogContext catalog) = true := by
      simp [catalogContext, Json.intsFitDict, Json.intsFit]
    have hreturns : Returns (check rt settings (some db) command args (catalogContext catalog)) :=
      check_returns hdb hjson hfits command args
    obtain ⟨decision, hdecision⟩ := hreturns
    exact ⟨decision, hdecision, check_catalog_rejects
      (fun d hd => hnone d ((hresolves d).1 hd)) hdecision⟩

/-! ## An example -/

/-- The example's metadata with two caches, one for users and one for orders. -/
def exampleCaches : Metadata :=
  { exampleMetadata with
    datasources :=
      ⟨[exampleCache 1 "cache_user" ["user:"], exampleCache 2 "cache_order" ["order:"]], 3⟩ }

/-- The keys that start like an order's are those of the second cache. -/
theorem exampleCaches_order {d : DatasourceInstance} {key : Str}
    (hd : Serves asciiRuntime exampleCaches "demo" d)
    (hadmits : Admits asciiRuntime exampleSettings key d) (hkey : key.head? = some 'o') :
    d = exampleCache 2 "cache_order" ["order:"] := by
  rcases List.mem_cons.1 hd.registered with rfl | hmem
  · obtain ⟨prefixes, hprefixes, hinside⟩ := hadmits
    obtain rfl : ["user:".toList] = prefixes := Except.ok.inj hprefixes
    rcases hinside with h | h | ⟨p, hp, rest, rfl⟩
    · exact absurd h (by simp)
    · exact absurd h (by decide)
    · rw [List.mem_singleton.1 hp] at hkey
      exact absurd hkey (by simp)
  · exact List.mem_singleton.1 hmem

theorem exampleCaches_only : OnlyMatch asciiRuntime exampleSettings exampleCaches "demo" "order:1"
    (exampleCache 2 "cache_order" ["order:"]) where
  serves := ⟨List.mem_cons_of_mem _ List.mem_cons_self, rfl, rfl, "demo", rfl, rfl⟩
  admits := ⟨["order:"], rfl, Or.inr (Or.inr ⟨"order:", List.mem_cons_self, by decide⟩)⟩
  only d hd hadmits := exampleCaches_order hd hadmits rfl

/-- An order is read alike by catalog and by code. -/
theorem catalog_and_code_example :
    (check asciiRuntime exampleSettings (some exampleCaches) "GET" ["order:1"]
        (catalogContext "demo")).map RedisDecision.verdict =
      (check asciiRuntime exampleSettings (some exampleCaches) "GET" ["order:1"]
        (codeContext "cache_order")).map RedisDecision.verdict :=
  (catalog_and_code_agree asciiRuntime exampleSettings exampleCaches (by decide) (by decide)
    (by unfold Metadata.Decoded; decide) "GET" ["order:1"] "demo" (by decide)
    (by decide) (by decide)
    (by decide)).2.1 _ exampleCaches_only

end RedisGatekeeperService

end SqlGatekeeper
