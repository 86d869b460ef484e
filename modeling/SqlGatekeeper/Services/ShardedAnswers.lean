import SqlGatekeeper.Logic.Sharding
import SqlGatekeeper.Services.JoinText

/-!
# What a rewritten statement answers

A statement over logical tables asks for rows of all their shards; the rewritten one reads one
shard for each reference.  Its conditions and its limit stay.

* `JoinSelect.Answers`: what a statement may answer on given tables.
* `Metadata.rowsOf`: the rows behind a name, those of all its routes.
* `Metadata.shards`: the tables of the metadata as relations in fragments.
* `RewrittenAs`: what an allowed check makes of a statement.
* `checkedAnswers_iff_covers`: the rewritten statement answers what the original asks for, on every
  placement of the rows, exactly if the shards that are read cover its conditions.
-/

namespace SqlGatekeeper

open Py Store Sharding SqlCheckService

/-! ## Tables and their shards -/

section Shards

variable {ρ : Type} {db : Metadata}

/-- What a statement may answer on given tables: its conditions, which name rows by their aliases,
hold of a tuple or not; its limit leaves some of those of which they do. -/
def JoinSelect.Answers (s : JoinSelect) (tables : Str → List ρ) (holds : List ρ → Bool)
    (answer : List (List ρ)) : Prop :=
  Limited s.limit ((product (s.tables.map fun t => tables t.name)).filter holds) answer

/-- The enabled routes behind a name: that of a physical table, or all of a logical table. -/
def Metadata.routesOf (db : Metadata) (name : Str) : List PhysicalTableRoute :=
  match db.getEnabledByPhysicalTableName name with
  | .ok (some route) => [route]
  | _ =>
      match db.getEnabledByName name with
      | .ok (some t) => db.physicalRoutes.rows.filter fun r =>
          decide (r.logicalTableId = t.id ∧ r.enabled = true)
      | _ => []

/-- Where the rows of a route are: a datasource, and a table on it. -/
def Metadata.place (db : Metadata) (route : PhysicalTableRoute) : Str × Str :=
  (datasourceCodeFromId db route.datasourceId, route.physicalTableName)

/-- The rows behind a name, when the servers hold given tables. -/
def Metadata.rowsOf (db : Metadata) (contents : Str × Str → List ρ) (name : Str) : List ρ :=
  (db.routesOf name).flatMap fun route => contents (db.place route)

/-- The rows of one shard. -/
def Metadata.shardRows (db : Metadata) (contents : Str × Str → List ρ) (name value : Str) :
    List ρ :=
  match (db.routesOf name).find? fun route => decide (route.routeValue = value) with
  | some route => contents (db.place route)
  | none => []

/-- The routes behind a name have distinct values. -/
theorem routesOf_nodup (hdb : db.Constraints) (name : Str) :
    ((db.routesOf name).map (·.routeValue)).Nodup := by
  unfold Metadata.routesOf
  split
  · exact List.nodup_singleton _
  · split
    · rename_i t _
      have hkeys := hdb.uqTableRouteValue
      unfold Store.Unique at hkeys
      refine List.Nodup.of_map (fun v => (t.id, v)) ?_
      rw [List.map_map]
      refine List.Nodup.sublist ?_ hkeys
      have hsame : (db.physicalRoutes.rows.filter fun r =>
            decide (r.logicalTableId = t.id ∧ r.enabled = true)).map
            ((fun v => (t.id, v)) ∘ (·.routeValue)) =
          (db.physicalRoutes.rows.filter fun r =>
            decide (r.logicalTableId = t.id ∧ r.enabled = true)).map
            fun r => (r.logicalTableId, r.routeValue) := by
        refine List.map_congr_left fun r hr => ?_
        have hid := (of_decide_eq_true (List.mem_filter.1 hr).2).1
        simp [hid]
      rw [hsame]
      exact List.Sublist.map _ List.filter_sublist
    · exact List.nodup_nil

/-- The tables of the metadata, cut by their routes; a key says where a row should live. -/
def Metadata.shards (db : Metadata) (hdb : db.Constraints) (key : Str → ρ → Str) :
    Scheme Str Str ρ where
  keys name := (db.routesOf name).map (·.routeValue)
  key
  nodup := routesOf_nodup hdb

theorem shardRows_of_mem (hdb : db.Constraints) {contents : Str × Str → List ρ} {name : Str}
    {route : PhysicalTableRoute} (hroute : route ∈ db.routesOf name) :
    db.shardRows contents name route.routeValue = contents (db.place route) := by
  have hfound : ((db.routesOf name).find? fun r => decide (r.routeValue = route.routeValue)) =
      some route := by
    cases hfind : (db.routesOf name).find? fun r => decide (r.routeValue = route.routeValue) with
    | none => exact absurd (List.find?_eq_none.1 hfind route hroute) (by simp)
    | some r =>
      have hvalue : r.routeValue = route.routeValue := by simpa using List.find?_some hfind
      rw [List.inj_on_of_nodup_map (routesOf_nodup hdb name) (List.mem_of_find?_eq_some hfind)
        hroute hvalue]
  unfold Metadata.shardRows
  rw [hfound]

/-- All shards together are the rows behind a name. -/
theorem whole_shardRows (hdb : db.Constraints) (key : Str → ρ → Str)
    (contents : Str × Str → List ρ) (name : Str) :
    (db.shards hdb key).whole (db.shardRows contents) name = db.rowsOf contents name := by
  show ((db.routesOf name).map (·.routeValue)).flatMap (db.shardRows contents name) = _
  rw [List.flatMap_map]
  exact List.flatMap_congr fun route hroute => shardRows_of_mem hdb hroute

/-- Every row behind a name lives where its key says. -/
def Metadata.RowsPlaced (db : Metadata) (key : Str → ρ → Str)
    (contents : Str × Str → List ρ) (name : Str) : Prop :=
  ∀ route ∈ db.routesOf name, ∀ row ∈ contents (db.place route), key name row =
    route.routeValue

theorem placed_shardRows_iff (hdb : db.Constraints) {key : Str → ρ → Str}
    {contents : Str × Str → List ρ} {name : Str} :
    (db.shards hdb key).Placed (db.shardRows contents) name ↔
    db.RowsPlaced key contents name := by
  constructor
  · intro h route hroute row hrow
    have hvalue : route.routeValue ∈ (db.shards hdb key).keys name := List.mem_map_of_mem hroute
    have hsame : db.shardRows contents name route.routeValue = contents (db.place route) :=
      shardRows_of_mem hdb hroute
    rw [← hsame] at hrow
    exact h route.routeValue hvalue row hrow
  · intro h value hvalue row hrow
    obtain ⟨route, hroute, rfl⟩ := List.mem_map.1 hvalue
    rw [shardRows_of_mem hdb hroute] at hrow
    exact h route hroute row hrow

/-- No two shards of some tables share a place. -/
def Metadata.DistinctPlaces (db : Metadata) (names : List Str) : Prop :=
  ∀ a ∈ names, ∀ b ∈ names, ∀ r ∈ db.routesOf a, ∀ s ∈ db.routesOf b,
    db.place r = db.place s → a = b ∧ r.routeValue = s.routeValue

end Shards

/-! ## The shards that are read -/

/-- The target of a table is the place of one of the routes behind its name. -/
theorem RouteTarget.Via.exists_route {db : Metadata} {table : ParsedTable} {target : RouteTarget}
    (h : target.Via db table) : ∃ route ∈ db.routesOf table.tableName,
      route.routeValue = target.routeValue ∧
        db.place route = (target.datasourceCode, target.physicalTableName) := by
  cases h with
  | physical route datasource found placed eq =>
    obtain ⟨-, hcode, -⟩ := Metadata.getEnabledByCode_eq_some placed
    refine ⟨route, ?_, ?_, ?_⟩
    · unfold Metadata.routesOf
      rw [found]
      exact List.mem_singleton_self _
    · rw [eq]
      rfl
    · rw [eq]
      exact congrArg₂ Prod.mk hcode.symm rfl
  | logical logicalTable value route datasource notPhysical named found placed eq =>
    obtain ⟨-, hcode, -⟩ := Metadata.getEnabledByCode_eq_some placed
    obtain ⟨hmem, hid, hvalue, henabled⟩ :=
      Metadata.getEnabledByLogicalTableAndRouteValue_eq_some found
    refine ⟨route, ?_, ?_, ?_⟩
    · unfold Metadata.routesOf
      rw [notPhysical, named]
      exact List.mem_filter.2 ⟨hmem, decide_eq_true ⟨hid, henabled⟩⟩
    · rw [eq]
      exact hvalue
    · rw [eq]
      exact congrArg₂ Prod.mk hcode.symm rfl

/-- For each table of a statement, the shard that a decision reads. -/
def JoinSelect.choice (s : JoinSelect) (decision : RouteDecision) : List (Str × Str) :=
  List.zipWith (fun t target => (t.name, target.routeValue)) s.tables decision.targets

section Statement

variable {ρ : Type} {rt : Runtime} {db : Metadata} {s : JoinSelect} {routeContext : JsonDict}
  {parsed : ParsedSql} {decision : RouteDecision}

/-- A target for each table of a statement. -/
theorem exists_routes_of_join (hs : s.Plain rt.toUnicodeData)
    (hfirst : s.joins = [] ∨ s.first.aliasPart ≠ none) (hparsed : parse rt s.text = .ok parsed)
    (hresolved : resolve rt db parsed routeContext = .ok decision)
    (hrouted : decision.allowed = true) :
    List.Forall₂ (fun (t : JoinTable) (target : RouteTarget) => ∃ route ∈ db.routesOf t.name,
      route.routeValue = target.routeValue ∧
        db.place route = (target.datasourceCode, target.physicalTableName))
      s.tables decision.targets := by
  have hread : List.Forall₂ JoinTable.ReadAs s.tables parsed.tables := by
    rw [(parse_eq_ok hparsed).2.1]
    cases ha : s.first.aliasPart with
    | some a => exact tables_of_aliased hs ha
    | none => exact tables_of_single hs (hfirst.resolve_right (by simp [ha]))
  obtain ⟨-, htargets⟩ := resolve_allowed hresolved hrouted
  refine List.forall₂_iff_get.2 ⟨hread.length_eq.trans htargets.length_eq, fun i h1 h2 => ?_⟩
  have hi : i < parsed.tables.length := hread.length_eq ▸ h1
  have hname := ((List.forall₂_iff_get.1 hread).2 i h1 hi).1
  obtain ⟨d, hd⟩ := (List.forall₂_iff_get.1 htargets).2 i hi h2
  rw [← hname]
  exact (resolveTable_via hd).exists_route

/-- The routes of a decision for the tables of a statement. -/
abbrev RoutesRead (db : Metadata) (s : JoinSelect) (decision : RouteDecision) : Prop :=
  List.Forall₂ (fun (t : JoinTable) (target : RouteTarget) => ∃ route ∈ db.routesOf t.name,
    route.routeValue = target.routeValue ∧
      db.place route = (target.datasourceCode, target.physicalTableName)) s.tables decision.targets

theorem RoutesRead.choice_keys (h : RoutesRead db s decision) (hdb : db.Constraints)
    (key : Str → ρ → Str) : ∀ c ∈ s.choice decision, c.2 ∈
    (db.shards hdb key).keys c.1 := by
  unfold JoinSelect.choice
  unfold RoutesRead at h
  generalize s.tables = tables at h
  generalize decision.targets = targets at h
  induction h with
  | nil => simp
  | @cons t target tables targets hroute hrest ih =>
    obtain ⟨route, hroute, hvalue, -⟩ := hroute
    refine List.forall_mem_cons.2 ⟨?_, ih⟩
    show target.routeValue ∈ (db.routesOf t.name).map (·.routeValue)
    rw [← hvalue]
    exact List.mem_map_of_mem hroute

theorem RoutesRead.map_choice (h : RoutesRead db s decision) :
    (s.choice decision).map Prod.fst = s.tables.map (·.name) := by
  unfold JoinSelect.choice
  unfold RoutesRead at h
  generalize s.tables = tables at h
  generalize decision.targets = targets at h
  induction h with
  | nil => rfl
  | cons hroute hrest ih =>
    rw [List.zipWith_cons_cons, List.map_cons, List.map_cons, ih]

/-- What is meant is asked of all rows behind the names. -/
theorem RoutesRead.meant_eq (h : RoutesRead db s decision) (hdb : db.Constraints)
    (key : Str → ρ → Str) (contents : Str × Str → List ρ) :
    (db.shards hdb key).meant (db.shardRows contents) (s.choice decision) =
      product (s.tables.map fun t => db.rowsOf contents t.name) := by
  have hnames := congrArg (List.map (db.rowsOf contents)) h.map_choice
  rw [List.map_map, List.map_map] at hnames
  unfold Scheme.meant
  refine congrArg product ((List.map_congr_left fun c _ => ?_).trans hnames)
  exact whole_shardRows hdb key contents c.1

/-- What is read is asked of the physical tables. -/
theorem RoutesRead.chosen_eq (h : RoutesRead db s decision) (hdb : db.Constraints) {code : Str}
    (hcode : ∀ target ∈ decision.targets, target.datasourceCode = code)
    (contents : Str × Str → List ρ) :
    chosen (db.shardRows contents) (s.choice decision) =
      product ((s.rename (decision.targets.map (·.physicalTableName))).tables.map
        fun t => contents (code, t.name)) := by
  have hlength : (decision.targets.map (·.physicalTableName)).length = s.tables.length := by
    rw [List.length_map, h.length_eq]
  have hnames := congrArg (List.map fun name => contents (code, name)) (s.tables_rename hlength)
  rw [List.map_map, List.map_map] at hnames
  unfold chosen
  refine congrArg product (Eq.trans ?_ hnames.symm)
  unfold JoinSelect.choice
  unfold RoutesRead at h
  clear hnames hlength
  generalize s.tables = tables at h
  generalize decision.targets = targets at h hcode
  induction h with
  | nil => rfl
  | @cons t target tables targets hroute hrest ih =>
    obtain ⟨route, hroute, hvalue, hplace⟩ := hroute
    have hrows : db.shardRows contents t.name target.routeValue = contents (db.place route) :=
      hvalue ▸ shardRows_of_mem hdb hroute
    have htarget : target.datasourceCode = code := hcode target List.mem_cons_self
    rw [List.zipWith_cons_cons, List.map_cons, List.map_cons,
      ih fun target ht => hcode target (List.mem_cons_of_mem _ ht), hrows, hplace, htarget]
    rfl

/-- Tables that hold the rows of a tuple, each in the place of its key, and nothing else. -/
def Metadata.tupleContents (db : Metadata) (key : Str → ρ → Str) (choice : List (Str × Str))
    (tuple : List ρ) (place : Str × Str) : List ρ :=
  (tuple.zip choice).filterMap fun x =>
    if (db.routesOf x.2.1).any fun route =>
        decide (route.routeValue = key x.2.1 x.1 ∧ db.place route = place) then
      some x.1
    else none

theorem mem_tupleContents {key : Str → ρ → Str} {choice : List (Str × Str)} {tuple : List ρ}
    {place : Str × Str} {row : ρ} : row ∈ db.tupleContents key choice tuple place ↔
      ∃ c, (row, c) ∈ tuple.zip choice ∧ ∃ route ∈ db.routesOf c.1,
        route.routeValue = key c.1 row ∧ db.place route = place := by
  unfold Metadata.tupleContents
  simp only [List.mem_filterMap, Option.ite_none_right_eq_some, Option.some.injEq, List.any_eq_true,
    decide_eq_true_eq]
  constructor
  · rintro ⟨⟨r, c⟩, hmem, hroute, rfl⟩
    exact ⟨c, hmem, hroute⟩
  · rintro ⟨c, hmem, hroute⟩
    exact ⟨(row, c), hmem, hroute, rfl⟩

/-- If no two shards share a place, any tuple of rows can be placed. -/
theorem exists_placed (hdb : db.Constraints) {names : List Str}
    (hdistinct : db.DistinctPlaces names) {key : Str → ρ → Str} {choice : List (Str × Str)}
    (hchoice : choice.map Prod.fst = names)
    {tuple : List ρ} (hfits : (db.shards hdb key).Fits choice tuple) :
    ∃ contents, (∀ name ∈ names, db.RowsPlaced key contents name) ∧
      List.Forall₂ (fun r c => r ∈ db.shardRows contents c.1 (key c.1 r)) tuple choice := by
  have hname : ∀ c ∈ choice, c.1 ∈ names := fun c hc => hchoice ▸ List.mem_map_of_mem hc
  refine ⟨db.tupleContents key choice tuple, fun name hmem route hroute row hrow => ?_, ?_⟩
  · obtain ⟨c, hc, other, hother, hvalue, hplace⟩ := mem_tupleContents.1 hrow
    obtain ⟨rfl, hsame⟩ := hdistinct c.1 (hname c (List.of_mem_zip hc).2) name hmem other
      hother route
      hroute hplace
    rw [← hvalue, hsame]
  · refine List.forall₂_iff_zip.2 ⟨hfits.length_eq, fun {r c} hmem => ?_⟩
    have hkey : key c.1 r ∈ (db.routesOf c.1).map (·.routeValue) :=
      (List.forall₂_iff_zip.1 hfits).2 hmem
    obtain ⟨route, hroute, hvalue⟩ := List.mem_map.1 hkey
    rw [← hvalue, shardRows_of_mem hdb hroute]
    exact mem_tupleContents.2 ⟨c, hmem, route, hroute, hvalue, rfl⟩

/-- What is kept of a statement that is rewritten. -/
structure RewrittenAs (rt : Runtime) (db : Metadata) (s rewritten : JoinSelect)
    (routeContext : JsonDict) (decision : RouteDecision) (code : Str) : Prop where
  resolved : ∃ parsed, parse rt s.text = .ok parsed ∧
    resolve rt db parsed routeContext = .ok decision
  routed : decision.allowed = true
  tables : rewritten = s.rename (decision.targets.map (·.physicalTableName))
  code : ∀ target ∈ decision.targets, target.datasourceCode = code

/-- A check sends a statement to one datasource. -/
structure SentTo (result : CheckResult) (rewritten : JoinSelect) (code : Str) : Prop where
  text : result.rewrittenSql = rewritten.text
  mem : code ∈ result.datasourceCodes
  only : ∀ c ∈ result.datasourceCodes, c = code

/-- An allowed check has rewritten a statement whose tables are found, and sends it to one
datasource. -/
theorem exists_rewrittenAs {evaluate : Evaluator} {result : CheckResult}
    (hs : s.Plain rt.toUnicodeData) (hfirst : s.joins = [] ∨ s.first.aliasPart ≠ none)
    (hcheck : check rt db evaluate s.text routeContext = .ok result)
    (hallowed : result.allowed = true) :
    ∃ rewritten decision code, SentTo result rewritten code ∧
      RewrittenAs rt db s rewritten routeContext decision code := by
  obtain ⟨parsed, decision, context, hrun, rfl⟩ := check_allowed_iff.1 ⟨hcheck, hallowed⟩
  obtain ⟨policy, hacc⟩ := hrun.acceptable
  obtain ⟨target, htarget⟩ := List.exists_mem_of_ne_nil _ hacc.targets
  have hcode : ∀ other ∈ decision.targets, other.datasourceCode = target.datasourceCode :=
    fun other hother => hacc.oneDatasource other hother target htarget
  obtain ⟨-, hrewrite⟩ := rewrite_join hs hfirst hrun.read hrun.resolved hrun.routed
  refine ⟨_, decision, target.datasourceCode,
    ⟨hrewrite, List.mem_map_of_mem htarget, fun c hc => ?_⟩,
    ⟨parsed, hrun.read, hrun.resolved⟩, hrun.routed, rfl, hcode⟩
  obtain ⟨other, hother, rfl⟩ := List.mem_map.1 hc
  exact hcode other hother

/-- A rewritten statement answers on the physical tables what the statement asks of all their rows,
wherever these are placed, exactly if the shards that are read cover its conditions. -/
theorem answers_iff_covers {rewritten : JoinSelect} {code : Str} (hdb : db.Constraints)
    (hs : s.Plain rt.toUnicodeData) (hfirst : s.joins = [] ∨ s.first.aliasPart ≠ none)
    (hlimit : 0 < s.limit) (hrewritten : RewrittenAs rt db s rewritten routeContext decision code)
    (hdistinct : db.DistinctPlaces (s.tables.map (·.name))) (key : Str → ρ → Str)
    (holds : List ρ → Bool) :
    (db.shards hdb key).Covers (s.choice decision) holds ↔
      ∀ contents, (∀ t ∈ s.tables, db.RowsPlaced key contents t.name) → ∀ answer,
        rewritten.Answers (fun name => contents (code, name)) holds answer ↔
          s.Answers (db.rowsOf contents) holds answer := by
  obtain ⟨⟨parsed, hparsed, hresolved⟩, hrouted, rfl, hcode⟩ := hrewritten
  have hroutes : RoutesRead db s decision :=
    exists_routes_of_join hs hfirst hparsed hresolved hrouted
  have hchoice := hroutes.map_choice
  have hlimits : (s.rename (decision.targets.map (·.physicalTableName))).limit = s.limit := by
    cases decision.targets.map (·.physicalTableName) <;> rfl
  have hplacedAll : ∀ contents : Str × Str → List ρ,
      (∀ t ∈ s.tables, db.RowsPlaced key contents t.name) →
      ∀ c ∈ s.choice decision, (db.shards hdb key).Placed (db.shardRows contents) c.1 := by
    intro contents hplaced c hc
    have hmem : c.1 ∈ s.tables.map (·.name) := hchoice ▸ List.mem_map_of_mem hc
    obtain ⟨t, ht, hname⟩ := List.mem_map.1 hmem
    rw [← hname]
    exact (placed_shardRows_iff hdb).2 (hplaced t ht)
  let stores (store : Str → Str → List ρ) : Prop :=
    ∃ contents, (∀ t ∈ s.tables, db.RowsPlaced key contents t.name) ∧
      store = db.shardRows contents
  rw [@covers_iff _ _ _ _ _ _ _ hlimit (hroutes.choice_keys hdb key) stores]
  · unfold JoinSelect.Answers
    constructor
    · intro h contents hplaced answer
      rw [hlimits, ← hroutes.chosen_eq hdb hcode, ← hroutes.meant_eq hdb key]
      exact h _ ⟨contents, hplaced, rfl⟩ answer
    · rintro h store ⟨contents, hplaced, rfl⟩ answer
      have hsame := h contents hplaced answer
      rw [hlimits, ← hroutes.chosen_eq hdb hcode, ← hroutes.meant_eq hdb key] at hsame
      exact hsame
  · rintro store ⟨contents, hplaced, rfl⟩
    exact hplacedAll contents hplaced
  · intro tuple hfits
    obtain ⟨contents, hplaced, hrows⟩ := exists_placed hdb hdistinct hchoice hfits
    exact ⟨_, ⟨contents, fun t ht => hplaced t.name (List.mem_map_of_mem ht), rfl⟩, hrows⟩

/-- An allowed check sends a statement over the physical tables to one datasource; it answers there
what the statement asks of all rows of its tables, wherever these are placed, exactly if the shards
that are read cover the conditions. -/
theorem checkedAnswers_iff_covers {evaluate : Evaluator} {result : CheckResult}
    (hdb : db.Constraints) (hs : s.Plain rt.toUnicodeData)
    (hfirst : s.joins = [] ∨ s.first.aliasPart ≠ none) (hlimit : 0 < s.limit)
    (hdistinct : db.DistinctPlaces (s.tables.map (·.name)))
    (hcheck : check rt db evaluate s.text routeContext = .ok result)
    (hallowed : result.allowed = true) (key : Str → ρ → Str) (holds : List ρ → Bool) :
    ∃ rewritten decision code, SentTo result rewritten code ∧
      RewrittenAs rt db s rewritten routeContext decision code ∧
      ((db.shards hdb key).Covers (s.choice decision) holds ↔
        ∀ contents, (∀ t ∈ s.tables, db.RowsPlaced key contents t.name) → ∀ answer,
          rewritten.Answers (fun name => contents (code, name)) holds answer ↔
            s.Answers (db.rowsOf contents) holds answer) := by
  obtain ⟨rewritten, decision, code, hsent, hrewritten⟩ :=
    exists_rewrittenAs hs hfirst hcheck hallowed
  exact ⟨rewritten, decision, code, hsent, hrewritten,
    answers_iff_covers hdb hs hfirst hlimit hrewritten hdistinct key holds⟩

end Statement

/-! ## An example -/

/-- `select * from user where uid = 3 limit 10` -/
def userThree : JoinSelect := ⟨⟨"user", none⟩, [], "uid = 3", 10⟩

theorem userThree_plain : userThree.Plain asciiData where
  tables := List.forall_mem_singleton.2 ⟨plainName_of (by decide), fun a ha => by cases ha⟩
  joinConditions := by simp [userThree]
  condition := by
    have htext : userThree.condition =
        "uid" ++ ' ' :: ([] ++ '=' :: ([] ++ ' ' :: natText 3)) := by decide
    rw [htext, noWord_append_space, noWord_append_cons (isWord_of_notName (by decide)),
      noWord_append_space]
    exact ⟨noWord_of_keyword (by decide) (by decide), noWord_nil, noWord_nil,
      noWord_natText (by decide) 3⟩

theorem exampleMetadata_distinctPlaces : exampleMetadata.DistinctPlaces ["user"] := by
  unfold Metadata.DistinctPlaces
  decide

/-- Rows are numbers, placed by their remainder: the rows with the number three are read in the
shard of the odd ones. -/
theorem checkedAnswers_userThree : ∃ rewritten decision code,
    RewrittenAs asciiRuntime exampleMetadata userThree rewritten [] decision code ∧
      ((exampleMetadata.shards exampleMetadata_constraints fun _ r => natText (r % 2)).Covers
          (userThree.choice decision) (fun tuple => decide (tuple = [3])) ↔
        ∀ contents, (∀ t ∈ userThree.tables,
          exampleMetadata.RowsPlaced (fun _ r => natText (r % 2)) contents t.name) → ∀ answer,
            rewritten.Answers (fun name => contents (code, name)) (fun tuple =>
              decide (tuple = [3]))
                answer ↔
              userThree.Answers (exampleMetadata.rowsOf contents) (fun tuple =>
                decide (tuple = [3]))
                answer) := by
  have hrun : (SqlCheckService.check asciiRuntime exampleMetadata SqlCheckService.acceptPlans
      userThree.text []).map (·.allowed) = .ok true := by decide +kernel
  obtain ⟨result, hcheck, hallowed⟩ := map_eq_ok.1 hrun
  have hdistinct : exampleMetadata.DistinctPlaces (userThree.tables.map (·.name)) :=
    exampleMetadata_distinctPlaces
  obtain ⟨rewritten, decision, code, -, hrewritten, hiff⟩ := checkedAnswers_iff_covers
    exampleMetadata_constraints userThree_plain (Or.inl rfl) (by decide) hdistinct hcheck hallowed
    (fun _ r => natText (r % 2)) fun tuple => decide (tuple = [3])
  exact ⟨rewritten, decision, code, hrewritten, hiff⟩

end SqlGatekeeper
