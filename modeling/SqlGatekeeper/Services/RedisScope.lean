import SqlGatekeeper.Services.RedisRouting

/-!
# Narrowing the key scope of a Redis datasource

* `Metadata.withPrefixes`: a datasource with another list of key prefixes.
* `keyScope`: the prefixes that count, stripped and without blank ones.
* `KeyAllowed.widen`: a key inside a scope is inside a wider one, unless the scope is empty.
* `check_widened`: so is a request that names the datasource.
* `emptyScope_widens`: an empty scope is no restriction.
-/

namespace SqlGatekeeper

open Py Store

/-- The datasource with a list of key prefixes. -/
def DatasourceInstance.withPrefixes (d : DatasourceInstance) (prefixes : List Str) :
    DatasourceInstance :=
  let extra := match d.extra with
    | .dict extra => extra
    | _ => []
  { d with extra := .dict (dictSet "allowed_key_prefixes" (.list (prefixes.map .str)) extra) }

/-- The metadata in which the datasource with a code has a list of key prefixes. -/
def Metadata.withPrefixes (db : Metadata) (datasourceCode : Str) (prefixes : List Str) : Metadata :=
  { db with
    datasources := { db.datasources with
      rows := db.datasources.rows.map fun d =>
        if d.datasourceCode = datasourceCode then d.withPrefixes prefixes else d } }

namespace RedisGatekeeperService

/-- The prefixes of a list that count. -/
def keyScope (prefixes : List Str) : List Str := (prefixes.map strip).filter (· ≠ [])

variable {rt : Runtime} {settings : Settings} {db : Metadata} {code command : Str}
  {args : List Str} {redisContext : JsonDict} {prefixes wider : List Str}

/-! ## Scopes -/

theorem mapE_strJson_str (rt : Runtime) (texts : List Str) :
    mapE rt.strJson (texts.map .str) = .ok texts := by
  induction texts with
  | nil => rfl
  | cons text texts ih => exact bind_eq_ok.2 ⟨text, rfl, bind_eq_ok.2 ⟨texts, ih, rfl⟩⟩

theorem allowedPrefixes_withPrefixes (d : DatasourceInstance) (prefixes : List Str) :
    allowedPrefixes rt settings (d.withPrefixes prefixes) = .ok (keyScope prefixes) := by
  simp only [allowedPrefixes, DatasourceInstance.withPrefixes, JsonDict.get, lookup_dictSet_self,
    Option.getD_some]
  rw [mapE_strJson_str]
  rfl

theorem keyScope_subset (h : ∀ p ∈ prefixes, p ∈ wider) : ∀ p ∈ keyScope prefixes,
    p ∈ keyScope wider := by
  intro p hp
  obtain ⟨hmem, hne⟩ := List.mem_filter.1 hp
  obtain ⟨q, hq, rfl⟩ := List.mem_map.1 hmem
  exact List.mem_filter.2 ⟨List.mem_map_of_mem (h q hq), hne⟩

/-- A wider list of prefixes is a wider scope if it is a restriction only where the narrower one
is. -/
def Widens (prefixes wider : List Str) : Prop :=
  keyScope prefixes ≠ [] ∨ keyScope wider = [] ∨ ("*" : Str) ∈ keyScope wider

/-- A key inside a scope is inside a wider one. -/
theorem KeyAllowed.widen (hsub : ∀ p ∈ prefixes, p ∈ wider) (hwiden : Widens prefixes wider)
    {key : Str} (h : KeyAllowed settings (keyScope prefixes) key) :
    KeyAllowed settings (keyScope wider) key where
  nonempty := h.nonempty
  short := h.short
  noPattern := h.noPattern
  inside := by
    rcases hwiden with hne | hempty | hstar
    · rcases h.inside with hempty | hstar | ⟨p, hp, hprefix⟩
      · exact absurd hempty hne
      · exact Or.inr (Or.inl (keyScope_subset hsub _ hstar))
      · exact Or.inr (Or.inr ⟨p, keyScope_subset hsub _ hp, hprefix⟩)
    · exact Or.inl hempty
    · exact Or.inr (Or.inl hstar)

/-! ## Requests that name the datasource -/

theorem oneOrNone_map {α β : Type} (e : PyError) (f : α → β) (rows : List α) :
    oneOrNone e (rows.map f) = (oneOrNone e rows).map (Option.map f) := by
  rcases rows with _ | ⟨r, _ | ⟨s, rest⟩⟩ <;> rfl

/-- The lookup by code finds the datasource with its prefixes. -/
theorem getEnabledByCode_withPrefixes (code : Str) (prefixes : List Str) :
    (db.withPrefixes code prefixes).getEnabledByCode code =
      (db.getEnabledByCode code).map (Option.map (·.withPrefixes prefixes)) := by
  rw [Metadata.getEnabledByCode, Metadata.getEnabledByCode, ← oneOrNone_map]
  refine congrArg (oneOrNone _) ?_
  simp only [Metadata.withPrefixes, List.filter_map]
  have hfilter : ∀ d : DatasourceInstance,
      ((fun r : DatasourceInstance => decide (r.datasourceCode = code ∧ r.enabled = true)) ∘
        fun d => if d.datasourceCode = code then d.withPrefixes prefixes else d) d =
      decide (d.datasourceCode = code ∧ d.enabled = true) := fun d => by
    simp only [Function.comp_apply]
    split <;> rfl
  rw [List.filter_congr fun d _ => hfilter d]
  refine List.map_congr_left fun d hd => ?_
  have hkind := (List.mem_filter.1 hd).2
  rw [decide_eq_true_eq] at hkind
  exact if_pos hkind.1

/-- A request that names a datasource leads to it. -/
theorem resolves_named_iff (hcode : contextDatasourceCode rt redisContext = .ok code)
    (hne : code ≠ []) {d : DatasourceInstance} :
    Resolves rt settings db command args redisContext d ↔
      db.getEnabledByCode code = .ok (some d) := by
  constructor
  · rintro ⟨route, h, hd⟩
    obtain ⟨c, hc, h⟩ := bind_eq_ok.1 h
    obtain rfl : code = c := Except.ok.inj (hcode.symm.trans hc)
    rw [if_pos hne] at h
    obtain ⟨found, hfound, h⟩ := bind_eq_ok.1 h
    cases found with
    | none =>
      rw [← Except.ok.inj h] at hd
      exact absurd hd (by simp)
    | some f =>
      rw [← Except.ok.inj h] at hd
      exact hd ▸ hfound
  · intro h
    refine ⟨⟨some d, [], []⟩, bind_eq_ok.2 ⟨code, hcode, ?_⟩, rfl⟩
    rw [if_pos hne]
    exact bind_eq_ok.2 ⟨some d, h, rfl⟩

/-- A request that names the datasource and is allowed with a list of prefixes is allowed with a
list that has all of them, unless the first list is no restriction and the other one is. -/
theorem check_widened (rt : Runtime) (settings : Settings) (db : Metadata) (code : Str)
    (prefixes wider : List Str) (hsub : ∀ p ∈ prefixes, p ∈ wider)
    (hwiden : Widens prefixes wider)
    (command : Str) (args : List Str) (redisContext : JsonDict)
    (hcode : contextDatasourceCode rt redisContext = .ok code) (hne : code ≠ [])
    (hallowed : ∃ decision, check rt settings (some (db.withPrefixes code prefixes)) command args
      redisContext = .ok decision ∧ decision.allowed = true) :
    ∃ decision, check rt settings (some (db.withPrefixes code wider)) command args redisContext =
      .ok decision ∧ decision.allowed = true := by
  obtain ⟨decision, hcheck, ha⟩ := hallowed
  obtain ⟨hfit, hcatalog, d, hd, hreported, hredis, scope, hscope, hkeys⟩ :=
    (check_allows_iff hcode).1 ⟨decision, hcheck, ha, rfl⟩
  rw [resolves_named_iff hcode hne, getEnabledByCode_withPrefixes, map_eq_ok] at hd
  obtain ⟨found, hfound, hmap⟩ := hd
  obtain ⟨datasource, rfl, rfl⟩ := Option.map_eq_some_iff.1 hmap
  obtain rfl : keyScope prefixes = scope :=
    Except.ok.inj ((allowedPrefixes_withPrefixes datasource prefixes).symm.trans hscope)
  have hresolves : Resolves rt settings (db.withPrefixes code wider) (normalizedCommand rt command)
      args redisContext (datasource.withPrefixes wider) := by
    rw [resolves_named_iff hcode hne, getEnabledByCode_withPrefixes, hfound]
    rfl
  obtain ⟨decision', hcheck', ha', -⟩ :=
    (check_allows_iff hcode).2 ⟨hfit, hcatalog, _, hresolves,
    hreported, hredis, _, allowedPrefixes_withPrefixes datasource wider, fun key hkey =>
      (hkeys key hkey).widen hsub hwiden⟩
  exact ⟨decision', hcheck', ha'⟩

/-- A wider list of prefixes admits what the narrower one does. -/
theorem check_widened_example : ∃ decision,
    check asciiRuntime exampleSettings
      (some (exampleCaches.withPrefixes "cache_order" ["order:", "cart:"])) "GET" ["order:1"]
      (codeContext "cache_order") = .ok decision ∧ decision.allowed = true :=
  check_widened asciiRuntime exampleSettings exampleCaches "cache_order" ["order:"]
    ["order:", "cart:"]
    (by decide) (Or.inl (by decide)) "GET" ["order:1"] (codeContext "cache_order") rfl (by decide)
    (map_eq_ok.1 (by decide +kernel : (check asciiRuntime exampleSettings
      (some (exampleCaches.withPrefixes "cache_order" ["order:"])) "GET" ["order:1"]
      (codeContext "cache_order")).map (·.allowed) = .ok true))

/-- An empty list of prefixes is no restriction, so that its first prefix makes it one. -/
theorem emptyScope_widens : ¬ ∀ prefixes wider : List Str, (∀ p ∈ prefixes, p ∈ wider) →
    (∃ decision, check asciiRuntime exampleSettings
      (some (exampleCaches.withPrefixes "cache_order" prefixes)) "GET" ["user:1"]
      (codeContext "cache_order") = .ok decision ∧ decision.allowed = true) →
    ∃ decision, check asciiRuntime exampleSettings
      (some (exampleCaches.withPrefixes "cache_order" wider)) "GET" ["user:1"]
      (codeContext "cache_order") = .ok decision ∧ decision.allowed = true := by
  intro h
  have hrejected : (check asciiRuntime exampleSettings
      (some (exampleCaches.withPrefixes "cache_order" ["order:"])) "GET" ["user:1"]
      (codeContext "cache_order")).map (·.allowed) = .ok false := by decide +kernel
  obtain ⟨decision, hdecision, ha⟩ :=
    h [] ["order:"] (by decide) (map_eq_ok.1 (by decide +kernel :
    (check asciiRuntime exampleSettings (some (exampleCaches.withPrefixes "cache_order" []))
      "GET" ["user:1"] (codeContext "cache_order")).map (·.allowed) = .ok true))
  obtain ⟨r, hr, hfalse⟩ := map_eq_ok.1 hrejected
  obtain rfl : r = decision := Except.ok.inj (hr.symm.trans hdecision)
  exact absurd (hfalse.symm.trans ha) (by decide)

end RedisGatekeeperService

end SqlGatekeeper
