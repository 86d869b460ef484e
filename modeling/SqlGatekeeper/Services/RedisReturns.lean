import SqlGatekeeper.Services.RedisSoundness

/-!
# A Redis check always returns

With a metadata session whose datasource codes are unique, and values that `json.loads` has
returned, no step of a Redis check raises.

* `Metadata.Decoded`: the JSON columns that are read come from `json.loads`.
* `check_returns`: the check; `execute_returns_iff`: its execution returns if the calls it makes
  are answered.
-/

namespace SqlGatekeeper

open Py Store

/-- The JSON of the datasources was read by `json.loads`. -/
def Metadata.Decoded (rt : Runtime) (db : Metadata) : Prop :=
  ∀ d ∈ db.datasources.rows, d.extra.intsFit rt.digitsFit = true

namespace RedisGatekeeperService

variable {rt : Runtime} {settings : Settings} {db : Metadata}

/-! ## Comprehensions -/

theorem filterE_returns {α : Type} {p : α → Except PyError Bool} {l : List α}
    (h : ∀ a ∈ l, Returns (p a)) : Returns (filterE p l) := by
  induction l with
  | nil => exact returns_ok _
  | cons a l ih =>
    rw [List.forall_mem_cons] at h
    exact h.1.bind fun _ _ => (ih h.2).bind fun _ _ => returns_ok _

theorem mapE_returns {α β : Type} {f : α → Except PyError β} {l : List α}
    (h : ∀ a ∈ l, Returns (f a)) : Returns (mapE f l) := by
  induction l with
  | nil => exact returns_ok _
  | cons a l ih =>
    rw [List.forall_mem_cons] at h
    exact h.1.bind fun _ _ => (ih h.2).bind fun _ _ => returns_ok _

/-! ## Context and datasources -/

section Context

variable {redisContext : JsonDict} (hctx : Json.intsFitDict rt.digitsFit redisContext = true)

include hctx

theorem contextDatasourceCode_returns : Returns (contextDatasourceCode rt redisContext) :=
  rt.strJson_returns (Json.intsFit_orElse (Json.intsFit_get hctx _) rfl)

theorem catalogName_returns : Returns (catalogName rt redisContext) :=
  rt.strJson_returns (Json.intsFit_orElse (Json.intsFit_get hctx _)
    (Json.intsFit_orElse (Json.intsFit_get hctx _)
      (Json.intsFit_orElse (Json.intsFit_get hctx _) rfl)))

end Context

section Datasource

variable {d : DatasourceInstance} (hd : d.extra.intsFit rt.digitsFit = true)

include hd

theorem datasourceCatalog_returns : Returns (datasourceCatalog rt d) := by
  rw [datasourceCatalog]
  cases hextra : d.extra with
  | dict extra =>
    rw [hextra, Json.intsFit] at hd
    exact rt.strJson_returns (Json.intsFit_orElse (Json.intsFit_get hd _)
      (Json.intsFit_orElse (Json.intsFit_get hd _)
        (Json.intsFit_orElse (Json.intsFit_get hd _) rfl)))
  | _ => exact returns_ok _

theorem allowedPrefixes_returns : Returns (allowedPrefixes rt settings d) := by
  rw [allowedPrefixes]
  cases hextra : d.extra with
  | dict extra =>
    rw [hextra, Json.intsFit] at hd
    have hraw := Json.intsFit_get hd "allowed_key_prefixes"
    cases hget : JsonDict.get extra "allowed_key_prefixes" with
    | list items =>
      rw [hget, Json.intsFit] at hraw
      simp only [hget]
      exact returns_map.2 (mapE_returns fun x hx =>
        rt.strJson_returns (Json.intsFit_of_mem hraw x hx))
    | _ =>
      simp only [hget]
      exact returns_ok _
  | _ => exact returns_ok _

end Datasource

section Check

variable {redisContext : JsonDict} (hdb : Unique (·.datasourceCode) db.datasources.rows)
  (hjson : db.Decoded rt) (hctx : Json.intsFitDict rt.digitsFit redisContext = true)

include hdb hjson hctx

theorem resolveDatasource_returns (command : Str) (args : List Str) :
    Returns (resolveDatasource rt settings (some db) command args redisContext) := by
  refine (contextDatasourceCode_returns hctx).bind fun code _ => ?_
  split
  · refine Returns.bind (Metadata.getEnabledByCode_ok hdb code) fun d _ => ?_
    cases d <;> exact returns_ok _
  · refine (catalogName_returns hctx).bind fun catalog _ => ?_
    split
    · exact returns_ok _
    · have hserving : Returns (matchingCatalog rt db catalog) := filterE_returns fun d hd =>
        returns_map.2 (datasourceCatalog_returns (hjson d (List.mem_of_mem_filter hd)))
      refine hserving.bind fun candidates hcandidates => ?_
      cases candidates with
      | nil => exact returns_ok _
      | cons c cs =>
        have hkey : Returns (matchingKey rt settings ((keyArgs command args).headD [])
            (c :: cs)) := by
          refine filterE_returns fun d hd => ?_
          split
          · exact returns_ok _
          · exact returns_map.2 (allowedPrefixes_returns
              (hjson d (List.mem_of_mem_filter (mem_of_mem_filterE hcandidates hd))))
        refine hkey.bind fun found _ => ?_
        rcases found with _ | ⟨f, _ | ⟨g, fs⟩⟩ <;> exact returns_ok _

theorem checkRoute_returns (command : Str) (args : List Str) :
    Returns (checkRoute rt settings (some db) command args redisContext) := by
  refine (resolveDatasource_returns hdb hjson hctx command args).bind fun route hroute => ?_
  refine (rt.strJson_returns (Json.intsFit_orElse (Json.intsFit_get hctx _) rfl)).bind
    fun code _ => ?_
  cases hd : route.datasource with
  | none => exact returns_ok _
  | some d =>
    obtain ⟨-, hlookup, -⟩ := resolveDatasource_eq_some (fun _ h =>
      Option.some.inj h ▸ hdb) hroute hd
    have hextra := hjson d (Metadata.getEnabledByCode_eq_some hlookup).1
    simp only
    split
    · exact returns_ok _
    · refine (returns_map.2 (allowedPrefixes_returns hextra)).bind fun verdict _ => ?_
      cases verdict with
      | some decision => exact returns_ok _
      | none =>
        exact (allowedPrefixes_returns hextra).bind fun _ _ =>
          (catalogName_returns hctx).bind fun _ _ => returns_ok _

/-- A Redis check always returns. -/
theorem check_returns (command : Str) (args : List Str) :
    Returns (check rt settings (some db) command args redisContext) := by
  have hcode := contextDatasourceCode_returns hctx
  simp only [check]
  split
  · exact returns_ok _
  · split
    · exact hcode.bind fun _ _ => returns_ok _
    · split
      · exact hcode.bind fun _ _ => returns_ok _
      · refine hcode.bind fun code _ => ?_
        split
        · exact returns_ok _
        · exact checkRoute_returns hdb hjson hctx _ args

end Check

/-- The execution of an allowed decision returns if every call it makes is answered. -/
theorem execute_returns_iff (hdb : Unique (·.datasourceCode) db.datasources.rows)
    {command : Str} {args : List Str} {redisContext : JsonDict} {decision : RedisDecision}
    (hcheck : check rt settings (some db) command args redisContext = .ok decision)
    (ha : decision.allowed = true) {server : RedisServer} {executionMs : Int} :
    Returns (execute rt settings (some db) server executionMs decision).result ↔
      ∀ call ∈ (execute rt settings (some db) server executionMs decision).trace,
        server.Answers call := by
  obtain ⟨-, -, route, d, -, -, hest⟩ :=
    check_allowed (fun _ h => Option.some.inj h ▸ hdb) hcheck ha
  exact (execute_sound executionMs ha hest).returns

end RedisGatekeeperService

end SqlGatekeeper
