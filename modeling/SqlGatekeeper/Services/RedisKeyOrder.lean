import SqlGatekeeper.Services.RedisRouting

/-!
# The order of the keys of a Redis read

The datasource of a catalog is chosen by the first key, and all keys are validated on it.

* `AllowsOn`: a request is allowed on the datasource with a code.
* `allowsOn_iff`: when a read of several keys is.
* `OrderFree`: no datasource that admits all keys is the only one to admit some of them.
* `check_permuted`: then the order of the keys does not matter, and it never changes the datasource
  of a request that is allowed.
-/

namespace SqlGatekeeper

open Py Store

namespace RedisGatekeeperService

/-- A request with a catalog is allowed on the datasource with a code. -/
def AllowsOn (rt : Runtime) (settings : Settings) (db : Metadata) (catalog command : Str)
    (args : List Str) (datasourceCode : Str) : Prop :=
  ∃ decision, check rt settings (some db) command args (catalogContext catalog) = .ok decision ∧
    decision.allowed = true ∧ decision.datasourceCode = datasourceCode

/-- No datasource of the catalog that admits all the keys is the only one to admit one of them, but
not another one. -/
def OrderFree (rt : Runtime) (settings : Settings) (db : Metadata) (catalog : Str)
    (keys : List Str) : Prop :=
  ∀ d, (∀ key ∈ keys, Admits rt settings key d) → ∀ key ∈ keys, ∀ key' ∈ keys,
    OnlyMatch rt settings db catalog key d → OnlyMatch rt settings db catalog key' d

variable {rt : Runtime} {settings : Settings} {db : Metadata} {catalog command : Str}
  {args args' : List Str}

/-- A read of several keys that is allowed on a datasource. -/
structure ReadsOn (rt : Runtime) (settings : Settings) (db : Metadata) (catalog : Str)
    (args : List Str) (d : DatasourceInstance) : Prop where
  count : 1 ≤ args.length ∧ (args.length : Int) ≤ settings.redisMaxKeysPerRequest
  served : ∃ candidates, matchingCatalog rt db catalog = .ok candidates ∧
    ∀ c ∈ candidates, Returns (allowedPrefixes rt settings c)
  first : OnlyMatch rt settings db catalog (args.headD []) d
  keys : ∃ prefixes, allowedPrefixes rt settings d = .ok prefixes ∧
    ∀ key ∈ args, KeyAllowed settings prefixes key

theorem keyArgs_multi (h : command ∈ multiKeyCommands) (args : List Str) :
    keyArgs command args = args := if_pos h

theorem readonly_of_multi : ∀ c ∈ multiKeyCommands, c ∈ readonlyCommands := by decide

/-- Key validation on a list of prefixes admits the key. -/
theorem KeyAllowed.admits {prefixes : List Str} {key : Str} {d : DatasourceInstance}
    (h : KeyAllowed settings prefixes key)
    (hprefixes : allowedPrefixes rt settings d = .ok prefixes) : Admits rt settings key d :=
  ⟨prefixes, hprefixes, h.inside⟩

/-- No datasource is found without a catalog. -/
theorem not_resolves_nil (d : DatasourceInstance) :
    ¬ Resolves rt settings db command args (catalogContext []) d := by
  rintro ⟨route, h, hd⟩
  injection h with h
  rw [← h] at hd
  exact absurd hd (by simp)

/-- A readonly command is allowed on a datasource that its catalog leads to and that admits its
keys. -/
theorem allowsOn_iff (hcommand : normalizedCommand rt command ∈ readonlyCommands) {code : Str} :
    AllowsOn rt settings db catalog command args code ↔
      validateArgs rt settings (normalizedCommand rt command) args [] = none ∧ catalog ≠ [] ∧
      ∃ d, d.datasourceCode = code ∧
        Resolves rt settings db (normalizedCommand rt command) args (catalogContext catalog) d ∧
        lower rt.toUnicodeData d.dbType = "redis" ∧
        ∃ prefixes, allowedPrefixes rt settings d = .ok prefixes ∧
          ∀ key ∈ keyArgs (normalizedCommand rt command) args,
            KeyAllowed settings prefixes key := by
  rw [AllowsOn, check_allows_iff (contextDatasourceCode_catalog catalog)]
  constructor
  · rintro ⟨⟨-, hargs⟩, -, d, hresolves, hreported, hkeys⟩
    have hcatalog : catalog ≠ [] := by
      rintro rfl
      exact not_resolves_nil d hresolves
    exact ⟨hargs, hcatalog, d, Except.ok.inj hreported, hresolves, hkeys⟩
  · rintro ⟨hargs, hcatalog, d, rfl, hresolves, hkeys⟩
    exact ⟨⟨hcommand, hargs⟩, ⟨catalog, catalogName_catalog hcatalog⟩, d, hresolves,
      rfl, hkeys⟩

/-! ## Several keys -/

/-- The arguments of a read of several keys fit if there are some, and not too many. -/
theorem validateArgs_multi_iff (h : command ∈ multiKeyCommands) {code : Str} :
    validateArgs rt settings command args code = none ↔
      1 ≤ args.length ∧ (args.length : Int) ≤ settings.redisMaxKeysPerRequest := by
  have hcases : ∀ c ∈ multiKeyCommands, c ∉ singleArgCommands ∧
      c ∉ (["HGET"] : List String).map String.toList ∧ c ≠ "HMGET" ∧
        c ∉ rangeCommands := by decide
  obtain ⟨hsingle, hget, hmget, hrange⟩ := hcases command h
  simp only [validateArgs]
  rw [if_neg fun hc => hsingle hc.1, if_neg fun hc => hget hc.1]
  by_cases hcount : 1 ≤ args.length ∧ (args.length : Int) ≤ settings.redisMaxKeysPerRequest
  · rw [if_neg fun hc => hc.2 hcount, if_neg fun hc => hmget hc.1, if_neg fun hc => hrange hc.1,
      if_neg hrange]
    exact iff_of_true rfl hcount
  · rw [if_pos ⟨h, hcount⟩]
    exact iff_of_false (by simp) hcount

theorem headD_mem (h : args ≠ []) : args.headD [] ∈ args := by
  obtain ⟨key, keys, rfl⟩ := List.exists_cons_of_ne_nil h
  exact List.mem_cons_self

theorem ReadsOn.ne_nil {d : DatasourceInstance} (h : ReadsOn rt settings db catalog args d) :
    args ≠ [] :=
  List.length_pos_iff.1 h.count.1

/-- A read of several keys is allowed on the only datasource that serves the catalog and admits the
first key, if its prefixes admit all of them. -/
theorem allowsOn_multi_iff (hdb : Unique (·.datasourceCode) db.datasources.rows)
    (hcommand : normalizedCommand rt command ∈ multiKeyCommands) {code : Str} :
    AllowsOn rt settings db catalog command args code ↔
      catalog ≠ [] ∧ ∃ d, d.datasourceCode = code ∧
        ReadsOn rt settings db catalog args d := by
  rw [allowsOn_iff (readonly_of_multi _ hcommand), validateArgs_multi_iff hcommand]
  simp only [keyArgs_multi hcommand]
  constructor
  · rintro ⟨hcount, hcatalog, d, hcode, hresolves, -, prefixes, hprefixes, hkeys⟩
    have hfirst := headD_mem (List.length_pos_iff.1 hcount.1)
    have hne := (hkeys _ hfirst).nonempty
    rw [← routeKey_eq (normalizedCommand rt command)] at hne
    obtain ⟨candidates, hcandidates, hfound⟩ := (resolves_catalog_iff hcatalog).1 hresolves
    obtain ⟨hreturns, ⟨hmem, hadmits⟩, honly⟩ := (matchingKey_eq_singleton_iff hne
      (matchingCatalog_nodup hdb hcandidates)).1 hfound
    rw [routeKey_eq] at hadmits honly
    refine ⟨hcatalog, d, hcode, hcount, ⟨candidates, hcandidates, hreturns⟩,
      ⟨(mem_matchingCatalog hcandidates).1 hmem, hadmits, fun c hc =>
        honly c ((mem_matchingCatalog hcandidates).2 hc)⟩, prefixes, hprefixes, hkeys⟩
  · rintro ⟨hcatalog, d, hcode, h⟩
    obtain ⟨prefixes, hprefixes, hkeys⟩ := h.keys
    obtain ⟨candidates, hcandidates, hreturns⟩ := h.served
    have hne := (hkeys _ (headD_mem h.ne_nil)).nonempty
    have hfirst := h.first
    rw [← routeKey_eq (normalizedCommand rt command)] at hne hfirst
    refine ⟨h.count, hcatalog, d, hcode, (resolves_catalog_iff hcatalog).2 ⟨candidates,
      hcandidates, (matchingKey_eq_singleton_iff hne (matchingCatalog_nodup hdb hcandidates)).2
        ⟨hreturns, ⟨(mem_matchingCatalog hcandidates).2 hfirst.serves, hfirst.admits⟩,
          fun c hc => hfirst.only c ((mem_matchingCatalog hcandidates).1 hc)⟩⟩, ?_, prefixes,
            hprefixes, hkeys⟩
    rw [hfirst.serves.redis]
    exact lower_ascii _ (by decide)

/-! ## Permutations -/

/-- A datasource that a read is allowed on admits all its keys. -/
theorem ReadsOn.admits {d : DatasourceInstance} (h : ReadsOn rt settings db catalog args d) :
    ∀ key ∈ args, Admits rt settings key d := by
  obtain ⟨prefixes, hprefixes, hkeys⟩ := h.keys
  exact fun key hkey => (hkeys key hkey).admits hprefixes

/-- Two orders of the keys are allowed on the same datasource. -/
theorem ReadsOn.unique (hperm : args.Perm args') {d d' : DatasourceInstance}
    (h : ReadsOn rt settings db catalog args d)
    (h' : ReadsOn rt settings db catalog args' d') : d = d' := by
  have hfirst : args.headD [] ∈ args' := hperm.mem_iff.1 (headD_mem h.ne_nil)
  exact (h.first.only d' h'.first.serves (h'.admits _ hfirst)).symm

/-- Another order of the keys is allowed on the same datasource if that is the only one to admit
each of them. -/
theorem ReadsOn.perm (hperm : args.Perm args') (hfree : OrderFree rt settings db catalog args)
    {d : DatasourceInstance} (h : ReadsOn rt settings db catalog args d) :
    ReadsOn rt settings db catalog args' d where
  count := by
    rw [← hperm.length_eq]
    exact h.count
  served := h.served
  first := by
    have hne : args' ≠ [] := by
      rintro rfl
      exact h.ne_nil hperm.eq_nil
    exact hfree d h.admits _ (headD_mem h.ne_nil) _ (hperm.mem_iff.2 (headD_mem hne)) h.first
  keys := by
    obtain ⟨prefixes, hprefixes, hkeys⟩ := h.keys
    exact ⟨prefixes, hprefixes, fun key hkey => hkeys key (hperm.mem_iff.2 hkey)⟩

theorem OrderFree.perm (hperm : args.Perm args') (h : OrderFree rt settings db catalog args) :
    OrderFree rt settings db catalog args' := fun d hall key hkey key' hkey' =>
  h d (fun k hk => hall k (hperm.mem_iff.1 hk)) key (hperm.mem_iff.2 hkey) key'
    (hperm.mem_iff.2 hkey')

/-- The order of the keys of a read does not change its datasource, and it does not change whether
it is allowed unless a datasource that admits all the keys is the only one to admit some of them,
but not others. -/
theorem check_permuted (rt : Runtime) (settings : Settings) (db : Metadata)
    (hdb : Unique (·.datasourceCode) db.datasources.rows) (catalog command : Str)
    (hcommand : normalizedCommand rt command ∈ multiKeyCommands) (args args' : List Str)
    (hperm : args.Perm args') :
    (∀ code code', AllowsOn rt settings db catalog command args code →
      AllowsOn rt settings db catalog command args' code' → code = code') ∧
    (OrderFree rt settings db catalog args → ∀ code,
      AllowsOn rt settings db catalog command args code ↔
        AllowsOn rt settings db catalog command args' code) := by
  simp only [allowsOn_multi_iff hdb hcommand]
  constructor
  · rintro _ _ ⟨-, d, rfl, hd⟩ ⟨-, d', rfl, hd'⟩
    rw [hd.unique hperm hd']
  · intro hfree code
    refine and_congr_right fun _ => exists_congr fun d => and_congr_right fun _ => ?_
    exact ⟨fun h => h.perm hperm hfree, fun h => h.perm hperm.symm (hfree.perm hperm)⟩

/-- Two orders of two orders' keys are read alike. -/
theorem check_permuted_example : AllowsOn asciiRuntime exampleSettings exampleCaches "demo" "MGET"
    ["order:2", "order:1"] "cache_order" := by
  have hallowed : (check asciiRuntime exampleSettings (some exampleCaches) "MGET"
      ["order:1", "order:2"] (catalogContext "demo")).map (fun r => (r.allowed, r.datasourceCode)) =
        .ok (true, "cache_order") := by decide +kernel
  obtain ⟨decision, hdecision, hfields⟩ := map_eq_ok.1 hallowed
  injection hfields with ha hcode
  have hfree : OrderFree asciiRuntime exampleSettings exampleCaches "demo"
      ["order:1", "order:2"] := by
    intro d hall key hkey key' hkey' honly
    refine ⟨honly.serves, hall key' hkey', fun d' hserves hadmits => ?_⟩
    have horder : ∀ k ∈ [("order:1" : Str), "order:2"], k.head? = some 'o' := by decide
    rw [exampleCaches_order honly.serves (hall key hkey) (horder key hkey),
      exampleCaches_order hserves hadmits (horder key' hkey')]
  exact ((check_permuted asciiRuntime exampleSettings exampleCaches (by decide) "demo" "MGET"
    (by decide) ["order:1", "order:2"] ["order:2", "order:1"] (List.Perm.swap _ _ _)).2 hfree _).1
      ⟨decision, hdecision, ha, hcode⟩

/-- Two caches of a catalog, one for users and one for users and orders. -/
def overlappingCaches : Metadata :=
  { exampleMetadata with
    datasources := ⟨[exampleCache 1 "cache_a" ["user:"],
      exampleCache 2 "cache_b" ["user:", "order:"]], 3⟩ }

/-- With the order first both keys are read from the second cache; with the user first the route is
ambiguous. -/
theorem keyOrder_matters :
    ¬ ∀ args args' : List Str, args.Perm args' → ∀ code,
      AllowsOn asciiRuntime exampleSettings overlappingCaches "demo" "MGET" args code ↔
        AllowsOn asciiRuntime exampleSettings overlappingCaches "demo" "MGET" args' code := by
  intro h
  have hallowed : (check asciiRuntime exampleSettings (some overlappingCaches) "MGET"
      ["order:1", "user:1"] (catalogContext "demo")).map (fun r => (r.allowed, r.datasourceCode)) =
        .ok (true, "cache_b") := by decide +kernel
  have hrejected : (check asciiRuntime exampleSettings (some overlappingCaches) "MGET"
      ["user:1", "order:1"] (catalogContext "demo")).map (·.allowed) =
        .ok false := by decide +kernel
  obtain ⟨decision, hdecision, hfields⟩ := map_eq_ok.1 hallowed
  injection hfields with ha hcode
  obtain ⟨decision', hdecision', ha', -⟩ := (h ["order:1", "user:1"] ["user:1", "order:1"]
    (List.Perm.swap _ _ _) "cache_b").1 ⟨decision, hdecision, ha, hcode⟩
  obtain ⟨r, hr, hfalse⟩ := map_eq_ok.1 hrejected
  obtain rfl : r = decision' := Except.ok.inj (hr.symm.trans hdecision')
  exact absurd (hfalse.symm.trans ha') (by decide)

end RedisGatekeeperService

end SqlGatekeeper
