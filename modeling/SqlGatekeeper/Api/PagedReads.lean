import SqlGatekeeper.Api.RedisConfinement
import SqlGatekeeper.Bootstrap.Lifecycle

/-!
# Lists that are read by pages

No reply may be longer than the limit, so a client reads a long list by ranges, each in a request of
its own.

* `Pages`: ranges that follow each other; `Pages.flatMap_slice`: what they hold together.
* `executeRedis_range`: what an answered range is.
* `pagedRead_of_run`: the pages of a list, read in a run in whatever order, are the list.
-/

namespace SqlGatekeeper

open Py Store Runs RedisGatekeeperService

/-! ## Pages -/

/-- Ranges with both ends included, each of which begins behind the one before it. -/
inductive Pages : Int → Int → List (Int × Int) → Prop where
  | last {start stop : Int} : Pages start stop [(start, stop)]
  | cons {start middle stop : Int} {pages : List (Int × Int)} (h : Pages (middle + 1) stop pages) :
      Pages start stop ((start, middle) :: pages)

/-- Two ranges, one behind the other. -/
theorem slice_append (items : List Str) {start middle stop : Int} (hstart : 0 ≤ start)
    (hmiddle : start ≤ middle) (hstop : middle < stop) :
    slice items start middle ++ slice items (middle + 1) stop = slice items start stop := by
  have hdrop : (middle + 1).toNat = start.toNat + (middle - start + 1).toNat := by omega
  have htake : (stop - start + 1).toNat =
      (middle - start + 1).toNat + (stop - (middle + 1) + 1).toNat := by omega
  unfold slice
  rw [hdrop, htake, List.take_add, List.drop_drop]

theorem Pages.start_le {start stop : Int} {pages : List (Int × Int)} (h : Pages start stop pages)
    (hproper : ∀ page ∈ pages, page.1 ≤ page.2) : start ≤ stop := by
  induction h with
  | last => exact hproper _ List.mem_cons_self
  | @cons start middle stop pages hpages ih =>
    have hfirst : start ≤ middle := hproper _ List.mem_cons_self
    have hrest := ih fun page hpage => hproper page (List.mem_cons_of_mem _ hpage)
    omega

/-- The items of the pages are those from the first to the last. -/
theorem Pages.flatMap_slice {start stop : Int} {pages : List (Int × Int)} (items : List Str)
    (h : Pages start stop pages) (hproper : ∀ page ∈ pages, 0 ≤ page.1 ∧
      page.1 ≤ page.2) :
    (pages.flatMap fun page => slice items page.1 page.2) = slice items start stop := by
  induction h with
  | last => simp
  | @cons start middle stop pages hpages ih =>
    obtain ⟨hstart, hmiddle⟩ := hproper (start, middle) List.mem_cons_self
    have hrest : ∀ page ∈ pages, 0 ≤ page.1 ∧ page.1 ≤ page.2 :=
      fun page hpage => hproper page (List.mem_cons_of_mem _ hpage)
    have hle := hpages.start_le fun page hpage => (hrest page hpage).2
    rw [List.flatMap_cons, ih hrest]
    exact slice_append items hstart hmiddle (by omega)

theorem flatMap_of_forall₂ {α β γ : Type} {f : α → List γ} {f' : β → List γ}
    {l : List α} {l' : List β} (h : List.Forall₂ (fun a b => f' b = f a) l l') : l'.flatMap f' =
    l.flatMap f := by
  induction h with
  | nil => rfl
  | cons hhead _ ih => rw [List.flatMap_cons, List.flatMap_cons, hhead, ih]

/-! ## One range -/

/-- The items of a list or of a sorted set, as the command wants. -/
def itemsAt (command : Str) (value : Option RedisValue) : Option (List Str) :=
  if command = "LRANGE" then listAt value else sortedSetAt value

/-- A request for a range of a key. -/
def RangeRequest (rt : Runtime) (command key : Str) (redisContext : JsonDict) (page : Int × Int)
    (request : RedisRequest rt) : Prop :=
  normalizedCommand rt request.command.1 = command ∧ request.redisContext.1 = redisContext ∧
    ∃ start stop, request.args.1 = [key, start, stop] ∧ rt.int start = .ok page.1 ∧
      rt.int stop = .ok page.2

section Range

variable {rt : Runtime} {settings : Settings} {session : Option Metadata} {server : RedisServer}
  {c : RedisClient} {store : Keyspace} {decision : RedisDecision} {executionMs : Int}
  {command key start stop : Str} {m n : Int}

/-- The resolution of a datasource looks at the first key only. -/
theorem resolveDatasource_congr {args args' : List Str} (redisContext : JsonDict)
    (h : args.headD [] = args'.headD []) :
    resolveDatasource rt settings session command args redisContext =
      resolveDatasource rt settings session command args' redisContext := by
  have hkey : (keyArgs command args).headD [] = (keyArgs command args').headD [] := by
    have heq : routeKey command args = routeKey command args' := by rw [routeKey_eq, routeKey_eq, h]
    exact heq
  unfold resolveDatasource
  simp only [hkey]

/-- A range is read by the call for its numbers. -/
theorem runRange_result (hm : rt.int start = .ok m) (hn : rt.int stop = .ok n) :
    (runRange rt server c command [key, start, stop]).result =
      (server.items ⟨c, command, [key], [], some (m, n)⟩).map .items := by
  unfold runRange argAt sendItems
  simp [hm, hn, bind]

theorem runCommand_range (hcommand : command ∈ rangeCommands) (hm : rt.int start = .ok m)
    (hn : rt.int stop = .ok n) :
    (runCommand rt server c command [key, start, stop]).result =
      (server.items ⟨c, command, [key], [], some (m, n)⟩).map .items := by
  have hrun : runCommand rt server c command [key, start, stop] =
      runRange rt server c command [key, start, stop] := by
    rcases List.mem_pair.1 hcommand with rfl | rfl <;> rfl
  rw [hrun, runRange_result hm hn]

/-- A range is read from the list or the sorted set. -/
theorem items_of_range (hserver : server.Serves store) (hcommand : command ∈ rangeCommands)
    (hm : 0 ≤ m) (hmn : m ≤ n) {reply : List Str}
    (h : server.items ⟨c, command, [key], [], some (m, n)⟩ = .ok reply) :
    ∃ items, itemsAt command (store c key) = some items ∧ reply = slice items m n := by
  rcases List.mem_pair.1 hcommand with rfl | rfl
  · exact hserver.lrange c key m n reply hm hmn h
  · exact hserver.zrange c key m n reply hm hmn h

/-- The rows of items are numbered, and their values are the items. -/
theorem rowValues_items (args items : List Str) :
    (formatRows command args (.items items)).map (fun row => row.get "value") =
      items.map Json.str := by
  have hvalue : ∀ row : Str × Nat, (pairRow "index" (.int row.2) (.str row.1)).get "value" =
      Json.str row.1 := fun _ => rfl
  unfold formatRows
  rw [List.map_map]
  show items.zipIdx.map (fun row => (pairRow "index" (.int row.2) (.str row.1)).get "value") = _
  have hcomp : (fun row : Str × Nat => Json.str row.1) = Json.str ∘ Prod.fst := rfl
  simp only [hvalue]
  rw [hcomp, ← List.map_map, List.zipIdx_map_fst]

/-- The arguments of a range within the limit are valid. -/
theorem validateArgs_range (hcommand : command ∈ rangeCommands) (hm : rt.int start = .ok m)
    (hn : rt.int stop = .ok n) (hstart : 0 ≤ m) (hstop : m ≤ n)
    (hlimit : n - m + 1 ≤ settings.redisMaxResultItems) (code : Str) :
    validateArgs rt settings command [key, start, stop] code = none := by
  have hrange : validateRange rt settings command [key, start, stop] code = none := by
    unfold validateRange
    simp only [List.getD_cons_succ, List.getD_cons_zero, hm, hn]
    rw [if_neg (by omega), if_neg (by omega)]
  have hvalid : validateArgs rt settings command [key, start, stop] code =
      validateRange rt settings command [key, start, stop] code := by
    rcases List.mem_pair.1 hcommand with rfl | rfl <;> rfl
  rw [hvalid, hrange]

/-- If one range of a key may be read, so may every range within the limit. -/
theorem check_range {db : Metadata} {raw raw' start' stop' : Str} {redisContext : JsonDict}
    (hcommand : command ∈ rangeCommands) (hraw : normalizedCommand rt raw = command)
    (hraw' : normalizedCommand rt raw' = command)
    (h : check rt settings (some db) raw [key, start', stop'] redisContext = .ok decision)
    (ha : decision.allowed = true) (hm : rt.int start = .ok m) (hn : rt.int stop = .ok n)
    (hstart : 0 ≤ m) (hstop : m ≤ n) (hlimit : n - m + 1 ≤ settings.redisMaxResultItems) :
    ∃ decision', check rt settings (some db) raw' [key, start, stop] redisContext =
      .ok decision' ∧ decision'.allowed = true := by
  have hkeys : ∀ a b : Str, keyArgs command [key, a, b] = [key] := by
    rcases List.mem_pair.1 hcommand with rfl | rfl <;> exact fun _ _ => rfl
  obtain ⟨-, code, hcode, -, -⟩ := check_inv h ha
  obtain ⟨⟨hreadonly, -⟩, hcatalog, d, ⟨route, hroute, hd⟩, hreported, hredis,
      hallowed⟩ :=
    (check_allows_iff hcode).1 ⟨decision, h, ha, rfl⟩
  rw [hraw] at hreadonly hroute hallowed
  have hroute' : resolveDatasource rt settings (some db) command [key, start, stop] redisContext =
      .ok route := by
    rw [← hroute]
    exact resolveDatasource_congr redisContext rfl
  have hvalid := @validateArgs_range rt settings command key start stop m n hcommand hm hn hstart
    hstop hlimit code
  rw [hkeys] at hallowed
  obtain ⟨decision', hcheck, ha', -⟩ : ∃ decision', check rt settings (some db) raw'
      [key, start, stop] redisContext = .ok decision' ∧ decision'.allowed = true ∧
        decision'.datasourceCode = decision.datasourceCode := by
    refine (check_allows_iff hcode).2 ⟨?_, hcatalog, d, ⟨route, ?_, hd⟩, hreported,
      hredis, ?_⟩
    · rw [hraw']
      exact ⟨hreadonly, hvalid⟩
    · rw [hraw']
      exact hroute'
    · rw [hraw', hkeys]
      exact hallowed
  exact ⟨decision', hcheck, ha'⟩

/-- Ranges are not probed: their arguments say how much they read. -/
theorem preflight_range {rest : List Str} (hcommand : decision.command ∈ rangeCommands)
    (hargs : decision.args = key :: rest) :
    (preflightResultSize settings server c decision).result = .ok none := by
  have hkey : (argAt decision.args 0).result = .ok key := by
    rw [argAt, hargs]
    rfl
  have hhash : decision.command ≠ "HGETALL" := by
    intro heq
    rw [heq] at hcommand
    exact absurd hcommand (by decide)
  have hset : decision.command ≠ "SMEMBERS" := by
    intro heq
    rw [heq] at hcommand
    exact absurd hcommand (by decide)
  rw [preflightResultSize, Traced.bind_result, hkey]
  simp only [if_neg hhash, if_neg hset]
  rfl

/-- A range within the limit is not refused, and its rows are its reply. -/
theorem execute_range (ha : decision.allowed = true) {d : DatasourceInstance}
    (hlookup : datasource settings session decision.datasourceCode = .ok (some d))
    (hserver : server.Serves store) (hcommand : decision.command ∈ rangeCommands)
    (hargs : decision.args = [key, start, stop]) (hm : rt.int start = .ok m)
    (hn : rt.int stop = .ok n) (hstart : 0 ≤ m) (hstop : m ≤ n)
    (hlimit : n - m + 1 ≤ settings.redisMaxResultItems) {result : RedisExecuteResult}
    (h : (execute rt settings session server executionMs decision).result = .ok result) :
    result.allowed = true ∧ ∃ items,
      itemsAt decision.command (store (client rt d) key) = some items ∧
        result.rows.map (fun row => row.get "value") = (slice items m n).map Json.str := by
  have hprobe := @preflight_range settings server (client rt d) decision key [start, stop]
    hcommand hargs
  have hresult : (execute rt settings session server executionMs decision).result =
      ((server.items ⟨client rt d, decision.command, [key], [], some (m, n)⟩).map .items).map
        (resultOf settings decision executionMs) := by
    have hrun := @runCommand_range rt server (client rt d) decision.command key start stop m n
      hcommand hm hn
    rw [← hargs] at hrun
    rw [← hrun, execute_result ha, hlookup]
    show (preflightResultSize settings server (client rt d) decision).result >>= _ = _
    rw [hprobe]
    rfl
  rw [hresult] at h
  obtain ⟨reply, hreply, rfl⟩ := map_eq_ok.1 h
  obtain ⟨found, hfound, rfl⟩ := map_eq_ok.1 hreply
  obtain ⟨items, hitems, rfl⟩ := items_of_range hserver hcommand hstart hstop hfound
  have hlength := length_slice_le items hstop
  have hrows : (formatRows decision.command decision.args (.items (slice items m n))).length =
      (slice items m n).length := by
    unfold formatRows
    simp
  unfold resultOf
  simp only [hrows]
  rw [if_neg (by omega)]
  exact ⟨rfl, items, hitems, @rowValues_items decision.command decision.args _⟩

end Range

section Answers

variable {env : Deployment} {db : Metadata} {store : Keyspace} {command key : Str}
  {redisContext : JsonDict}

/-- The datasource that a context and a key lead to. -/
def RangeSource (env : Deployment) (db : Metadata) (command key : Str) (redisContext : JsonDict)
    (d : DatasourceInstance) : Prop :=
  d ∈ db.datasources.rows ∧ d.enabled = true ∧
    Resolves env.rt env.settings db command [key] redisContext d

theorem RangeSource.eq {d d' : DatasourceInstance}
    (h : RangeSource env db command key redisContext d)
    (h' : RangeSource env db command key redisContext d') : d = d' := by
  obtain ⟨-, -, route, hroute, hd⟩ := h
  obtain ⟨-, -, route', hroute', hd'⟩ := h'
  obtain rfl : route = route' := Except.ok.inj (hroute.symm.trans hroute')
  exact Option.some.inj (hd.symm.trans hd')

/-- If one request for a range of a key passes the check, so does every one within the limit. -/
theorem runRedisCheck_range (hcommand : command ∈ rangeCommands) {page page' : Int × Int}
    {request request' : RedisRequest env.rt}
    (hrequest : RangeRequest env.rt command key redisContext page request)
    (hrequest' : RangeRequest env.rt command key redisContext page' request')
    {decision : RedisDecision} (hcheck : runRedisCheck env db request = .ok decision)
    (ha : decision.allowed = true) (hstart : 0 ≤ page'.1) (hstop : page'.1 ≤ page'.2)
    (hlimit : page'.2 - page'.1 + 1 ≤ env.settings.redisMaxResultItems) :
    ∃ decision', runRedisCheck env db request' = .ok decision' ∧ decision'.allowed = true := by
  obtain ⟨hraw, hcontext, start, stop, hargs, -, -⟩ := hrequest
  obtain ⟨hraw', hcontext', start', stop', hargs', hm, hn⟩ := hrequest'
  unfold runRedisCheck at hcheck ⊢
  rw [hargs, hcontext] at hcheck
  rw [hargs', hcontext']
  exact check_range hcommand hraw hraw' hcheck ha hm hn hstart hstop hlimit

/-- A request for a range that is checked is answered with the items of the range, as they are
stored on the datasource that its context and its key lead to. -/
theorem executeRedis_range (hdb : db.Constraints) (hserver : env.redis.Serves store)
    (hcommand : command ∈ rangeCommands) {page : Int × Int} {request : RedisRequest env.rt}
    (hrequest : RangeRequest env.rt command key redisContext page request)
    {decision : RedisDecision} (hcheck : runRedisCheck env db request = .ok decision)
    (hallowed : decision.allowed = true) {response : RedisDecisionResponse} {written : Metadata}
    (h : executeRedis env db request = .ok (response, written)) :
    response.allowed = true ∧ ∃ d items, RangeSource env db command key redisContext d ∧
      itemsAt command (store (client env.rt d) key) = some items ∧
        response.rows.map (fun row => row.get "value") =
          (slice items page.1 page.2).map Json.str := by
  obtain ⟨hname, hcontext, start, stop, hargs, hm, hn⟩ := hrequest
  obtain ⟨hnamed, hsame, route, d, hroute, hd, hest⟩ :=
    check_allowed (by simpa using hdb.datasourceCode) hcheck hallowed
  obtain rfl : decision.command = command := hnamed.trans hname
  have hargs : decision.args = [key, start, stop] := hsame.trans hargs
  obtain ⟨key', start', stop', m, n, heq, hm', hn', hstart, hstop, hlimit⟩ :=
    hest.args.range hcommand
  rw [hargs] at heq
  obtain ⟨rfl, rfl, rfl⟩ : key = key' ∧ start = start' ∧ stop = stop' := by simpa using heq
  obtain rfl : page.1 = m := Except.ok.inj (hm.symm.trans hm')
  obtain rfl : page.2 = n := Except.ok.inj (hn.symm.trans hn')
  unfold executeRedis at h
  rw [hcheck] at h
  simp only [bind, Except.bind, if_pos hallowed] at h
  obtain ⟨result, hexecute, h⟩ := bind_eq_ok.1 h
  obtain ⟨rfl, -⟩ := Prod.mk.inj (Except.ok.inj h)
  obtain ⟨ha, items, hitems, hrows⟩ :=
    execute_range hallowed hest.lookup hserver hcommand hargs hm hn
    hstart hstop hlimit hexecute
  refine ⟨ha, d, items, ⟨?_, hest.enabled, route, ?_, hd⟩, hitems, hrows⟩
  · exact (Metadata.getEnabledByCode_eq_some hest.lookup).1
  · rw [hcontext] at hroute
    rw [← hroute]
    exact resolveDatasource_congr _ (by rw [← hsame, hargs]; rfl)

/-- An allowed answer has been checked. -/
theorem check_of_executeRedis {request : RedisRequest env.rt} {response : RedisDecisionResponse}
    {written : Metadata} (h : executeRedis env db request = .ok (response, written))
    (ha : response.allowed = true) :
    ∃ decision, runRedisCheck env db request = .ok decision ∧ decision.allowed = true := by
  obtain ⟨decision, hcheck, h⟩ := bind_eq_ok.1 h
  refine ⟨decision, hcheck, ?_⟩
  by_cases hallowed : decision.allowed = true
  · exact hallowed
  · rw [if_neg hallowed] at h
    obtain ⟨rfl, -⟩ := Prod.mk.inj (Except.ok.inj h)
    exact ha

end Answers

/-! ## A run -/

section Runs

variable {env : Deployment} {db : Metadata} {events : List (GatewayEvent env)} {g : Gateway env}

/-- Where the metadata are not written, only the audit log changes. -/
theorem unwritten_of_run (h : Run Gateway.Step (Gateway.idle env db) events g)
    (hquiet : ∀ event ∈ events, ¬ event.Writes) :
    ∃ logs, g.db = { db with auditLogs := logs } := by
  refine h.invariant_of_good (P := fun _ g => ∃ logs, g.db = { db with auditLogs := logs })
    ⟨db.auditLogs, rfl⟩ ?_ hquiet
  rintro events m event g' ⟨logs, hm⟩ hgood hstep
  rcases hstep.db_cases with ⟨-, logs', heq⟩ | ⟨settings, rfl, -⟩ |
    ⟨rows, target, bundle, rfl, -⟩
  · exact ⟨logs', by rw [heq, hm]⟩
  · exact absurd trivial hgood
  · exact absurd trivial hgood

/-- What is answered then is what the handler gives on the first metadata. -/
theorem serve_of_unwritten (h : Run Gateway.Step (Gateway.idle env db) events g)
    (hquiet : ∀ event ∈ events, ¬ event.Writes) {number : Nat} {request : ApiRequest env.rt}
    {response : ApiResponse} (hanswered : .answered number request response ∈ events) :
    ∃ written, serve env db request = .ok (response, written) := by
  obtain ⟨before, after, rfl⟩ := List.append_of_mem hanswered
  obtain ⟨m, m', hbefore, hstep, -⟩ := h.exists_prefix
  obtain ⟨s, hs, rfl, rfl, hserve⟩ := hstep.exists_session rfl
  obtain ⟨first, rest, o, rfl, hfirst, hsnapshot⟩ := Gateway.opened_of_run hbefore s hs
  obtain ⟨logs, hlogs⟩ := unwritten_of_run hfirst fun e he => hquiet e (by simp [he])
  rw [hsnapshot, hlogs, serve_auditLogs] at hserve
  obtain ⟨answer, hanswer, hfst⟩ := map_eq_ok.1 hserve
  obtain ⟨⟨response', written⟩, halone, rfl⟩ := map_eq_ok.1 hanswer
  obtain rfl : response' = response := hfst
  exact ⟨written, halone⟩

/-- A client reads a list or a sorted set by pages within the limit, in a run, in whatever order,
one at a time or all at once, with whatever requests of others between them.  If one page is
allowed, all that are answered are, and together they are the stored items from the first page to
the last: none is lost, none comes twice.  The servers answer from a store, and the metadata are not
written meanwhile. -/
theorem pagedRead_of_run (hdb : db.Constraints) {store : Keyspace}
    (hserver : env.redis.Serves store) (h : Run Gateway.Step (Gateway.idle env db) events g)
    (hquiet : ∀ event ∈ events, ¬ event.Writes) {command key : Str}
    (hcommand : command ∈ rangeCommands) {redisContext : JsonDict} {start stop : Int}
    {pages : List (Int × Int)} (hpages : Pages start stop pages)
    (hfits : ∀ page ∈ pages, 0 ≤ page.1 ∧ page.1 ≤ page.2 ∧
      page.2 - page.1 + 1 ≤ env.settings.redisMaxResultItems)
    {responses : List RedisDecisionResponse}
    (hanswered : List.Forall₂ (fun page response => ∃ number request,
      RangeRequest env.rt command key redisContext page request ∧
        .answered number (.executeRedis request) (.redis response) ∈ events) pages responses)
    (hallowed : ∃ response ∈ responses, response.allowed = true) :
    (∀ response ∈ responses, response.allowed = true) ∧
    ∃ d items, d ∈ db.datasources.rows ∧
      d.enabled = true ∧ itemsAt command (store (client env.rt d) key) = some items ∧
        (responses.flatMap fun response => response.rows.map fun row => row.get "value") =
          (slice items start stop).map Json.str := by
  have hserved : List.Forall₂ (fun page response => page ∈ pages ∧ ∃ request written,
      RangeRequest env.rt command key redisContext page request ∧
        executeRedis env db request = .ok (response, written)) pages responses := by
    refine (List.forall₂_and_left _ _).2 ⟨fun _ hpage => hpage, hanswered.imp ?_⟩
    rintro page response ⟨number, request, hrequest, hmem⟩
    obtain ⟨written, hserve⟩ := serve_of_unwritten h hquiet hmem
    obtain ⟨⟨response', written'⟩, hexecute, heq⟩ := map_eq_ok.1 hserve
    obtain ⟨rfl, rfl⟩ : response' = response ∧ written' = written := by simpa using heq
    exact ⟨request, written', hrequest, hexecute⟩
  -- The check that one page has passed is passed by all of them.
  obtain ⟨response₀, hmem₀, hallowed₀⟩ := hallowed
  obtain ⟨page₀, -, -, request₀, written₀, hrequest₀, hexecute₀⟩ :=
    exists_of_forall₂_right hserved hmem₀
  obtain ⟨decision₀, hcheck₀, ha₀⟩ := check_of_executeRedis hexecute₀ hallowed₀
  have hread : List.Forall₂ (fun page response => response.allowed = true ∧ ∃ d items,
      RangeSource env db command key redisContext d ∧
        itemsAt command (store (client env.rt d) key) = some items ∧
          response.rows.map (fun row => row.get "value") =
            (slice items page.1 page.2).map Json.str) pages responses := by
    refine hserved.imp ?_
    rintro page response ⟨hpage, request, written, hrequest, hexecute⟩
    obtain ⟨hstart, hstop, hlimit⟩ := hfits page hpage
    obtain ⟨decision, hcheck, ha⟩ :=
      runRedisCheck_range hcommand hrequest₀ hrequest hcheck₀ ha₀ hstart
      hstop hlimit
    exact executeRedis_range hdb hserver hcommand hrequest hcheck ha hexecute
  -- They all come to one datasource, so to one list.
  obtain ⟨-, -, -, d, items, hd, hitems, -⟩ := exists_of_forall₂_right hread hmem₀
  have hvalues : List.Forall₂ (fun page response =>
    response.rows.map (fun row => row.get "value") =
      (slice items page.1 page.2).map Json.str) pages responses := by
    refine hread.imp ?_
    rintro page response ⟨-, d', items', hd', hitems', hrows⟩
    obtain rfl := hd.eq hd'
    obtain rfl : items = items' := Option.some.inj (hitems.symm.trans hitems')
    exact hrows
  have hproper : ∀ page ∈ pages, 0 ≤ page.1 ∧ page.1 ≤ page.2 :=
    fun page hpage => ⟨(hfits page hpage).1, (hfits page hpage).2.1⟩
  refine ⟨?_, d, items, hd.1, hd.2.1, hitems, ?_⟩
  · intro response hresponse
    obtain ⟨-, -, ha, -⟩ := exists_of_forall₂_right hread hresponse
    exact ha
  · rw [flatMap_of_forall₂ hvalues, ← List.map_flatMap, hpages.flatMap_slice items hproper]

end Runs

/-! ## Two pages -/

/-- Every key has a list of three items. -/
def threeItems : Keyspace := fun _ _ => some (.list ["a", "b", "c"])

/-- The example's deployment with these lists. -/
def listDeployment : Deployment := exampleDeployment.withRedis (storeServer threeItems)

/-- A request for a page of a list of a user's. -/
def pageRequest (start stop : Str) : RedisRequest asciiRuntime :=
  { userRequest with
    command := ⟨"lrange", by decide⟩
    args := ⟨["user:1", start, stop], by simp⟩
    redisContext := ⟨[("datasource_code", .str "cache_user")], rfl⟩ }

/-- Two pages are asked for at once, and the second is answered first. -/
theorem exists_pagedRun : ∃ first second g, first.allowed = true ∧
    Run Gateway.Step (Gateway.idle listDeployment cachedMetadata)
      [.opened 0 (.executeRedis (pageRequest "0" "1")),
        .opened 1 (.executeRedis (pageRequest "2" "3")), .inserted 0, .inserted 1,
        .answered 1 (.executeRedis (pageRequest "2" "3")) (.redis second),
        .answered 0 (.executeRedis (pageRequest "0" "1")) (.redis first)] g := by
  obtain ⟨⟨first, afterFirst⟩, hfirst, hallowed⟩ := map_eq_ok.1 (by decide +kernel :
    (executeRedis listDeployment cachedMetadata (pageRequest "0" "1")).map
    (·.1.allowed) = .ok true)
  obtain ⟨⟨second, afterSecond⟩, hsecond, -⟩ := map_eq_ok.1 (by decide +kernel :
    (executeRedis listDeployment cachedMetadata (pageRequest "2" "3")).map
    (·.1.allowed) = .ok true)
  have hserve : ∀ {request : RedisRequest listDeployment.rt} {response : RedisDecisionResponse}
      {written : Metadata}, executeRedis listDeployment cachedMetadata request = .ok
        (response, written) →
      serve listDeployment cachedMetadata (.executeRedis request) =
        .ok (.redis response, written) :=
    fun h => congrArg (Except.map (Prod.map ApiResponse.redis id)) h
  have hopened : Run Gateway.Step (Gateway.idle listDeployment cachedMetadata)
      ([] ++ [.opened 0 (.executeRedis (pageRequest "0" "1"))] ++
        [.opened 1 (.executeRedis (pageRequest "2" "3"))]) _ :=
    (Run.nil.snoc (.opened _ _)).snoc (.opened _ _)
  have hinserted := (hopened.snoc (.inserted (s := ⟨0, _, _⟩) List.mem_cons_self (by decide)
    (hserve hfirst))).snoc (.inserted (s := ⟨1, _, _⟩)
    (List.mem_cons_of_mem _ List.mem_cons_self) (by decide) (hserve hsecond))
  have hlast := hinserted.snoc (@Gateway.Step.answered _ _ ⟨1, _, _⟩ _ _ 2
    (List.mem_cons_of_mem _ List.mem_cons_self) (hserve hsecond) (by decide))
  exact ⟨first, second, _, hallowed, hlast.snoc (@Gateway.Step.answered _ _ ⟨0, _, _⟩ _ _ 1
    List.mem_cons_self (hserve hfirst) (List.mem_singleton_self (0, 1)))⟩

/-- Together they are the list. -/
theorem pagedRead_threeItems : ∃ first second : RedisDecisionResponse,
    ([first, second].flatMap fun response => response.rows.map fun row => row.get "value") =
      [.str "a", .str "b", .str "c"] := by
  obtain ⟨first, second, g, hallowed, hrun⟩ := exists_pagedRun
  have hpages : Pages 0 3 [(0, 1), (2, 3)] := .cons .last
  obtain ⟨-, d, items, -, -, hitems, hvalues⟩ :=
    @pagedRead_of_run listDeployment cachedMetadata _ _
    cachedMetadata_constraints threeItems (serves_storeServer threeItems) hrun
    (by simp [GatewayEvent.Writes]) "LRANGE" "user:1" (by decide)
    [("datasource_code", .str "cache_user")] 0 3 _ hpages (by decide) [first, second]
    (.cons ⟨0, pageRequest "0" "1", ⟨rfl, rfl, "0", "1", rfl, rfl, rfl⟩, by simp⟩
      (.cons ⟨1, pageRequest "2" "3", ⟨rfl, rfl, "2", "3", rfl, rfl, rfl⟩, by simp⟩ .nil))
    ⟨first, List.mem_cons_self, hallowed⟩
  obtain rfl : ["a".toList, "b".toList, "c".toList] = items := Option.some.inj hitems
  exact ⟨first, second, hvalues⟩

end SqlGatekeeper
