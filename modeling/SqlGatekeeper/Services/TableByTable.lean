import SqlGatekeeper.Services.Checker

/-!
# Resolution table by table

* `ParsedSql.alone`: a statement with one of its tables, and the same predicates.
* `extractFactors_split`: the factor loop splits the factors into values and missing ones.
* `resolveTables_append`, `resolveTables_stop`: the loop goes on behind tables that are allowed
  alone, and ends at the first one that is not.
* `resolveTable_splits`: a table that misses factors reports all of its required ones.
* `resolve_tableByTable`: so the decision is made of those for the tables alone.
-/

namespace SqlGatekeeper

open Py Store

/-- The statement with one table. -/
def ParsedSql.alone (parsed : ParsedSql) (table : ParsedTable) : ParsedSql :=
  { parsed with tables := [table] }

/-- A target is the table's own: it has a plan for the table's span exactly if the table is to be
rewritten. -/
structure RouteTarget.Carries (target : RouteTarget) (table : ParsedTable) : Prop where
  original : target.originalTableName = table.tableName
  plan : target.rewritePlan = (if target.requiresRewrite = true then
      some ⟨table.tableName, target.physicalTableName, table.tokenStart, table.tokenEnd⟩
    else none)

/-- A diagnostic splits the names of factors into missing ones, of which there are some, and those
that have a value. -/
structure RouteDiagnostic.Splits (diagnostic : RouteDiagnostic) (factors : List RouteFactorDef) :
    Prop where
  missing : diagnostic.missingFactors ≠ []
  all : (diagnostic.missingFactors ++ diagnostic.extractedValues.map Prod.fst).Perm
    (factors.map (·.factorName))
  disjoint : diagnostic.missingFactors.Disjoint (diagnostic.extractedValues.map Prod.fst)

section Alone

variable (rt : Runtime) (db : Metadata) (parsed : ParsedSql) (routeContext : JsonDict)

/-- A table whose statement alone is allowed, and the decision for it. -/
structure AllowedAlone (table : ParsedTable) (decision : RouteDecision) : Prop where
  resolved : resolve rt db (parsed.alone table) routeContext = .ok decision
  allowed : decision.allowed = true
  target : ∃ target : RouteTarget, decision.targets = [target] ∧ target.Carries table

/-- An allowed decision: the tables are allowed alone, and their targets and diagnostics stand one
behind the other. -/
def AllowedTogether (decision : RouteDecision) : Prop :=
  ∃ alone, List.Forall₂ (AllowedAlone rt db parsed routeContext) parsed.tables alone ∧
    decision.targets = alone.flatMap (·.targets) ∧
    decision.diagnostics = alone.flatMap (·.diagnostics) ∧
    List.Forall₂ (fun table target => RouteTarget.Carries target table) parsed.tables
      decision.targets

/-- A rejected decision: it is that of the first table that is not allowed alone, behind the
diagnostics of the tables in front of it. -/
def StoppedAt (table : ParsedTable) (decision : RouteDecision) : Prop :=
  ∃ before after alone last, parsed.tables = before ++ table :: after ∧
    List.Forall₂ (AllowedAlone rt db parsed routeContext) before alone ∧
    resolve rt db (parsed.alone table) routeContext = .ok last ∧ last.allowed = false ∧
    decision.reasonCode = last.reasonCode ∧ decision.message = last.message ∧
    decision.targets = [] ∧
    decision.diagnostics = alone.flatMap (·.diagnostics) ++ last.diagnostics

/-- The last diagnostic of a decision splits the required factors of a table. -/
def MissingSplit (table : ParsedTable) (decision : RouteDecision) : Prop :=
  ∃ logicalTable diagnostic, db.getEnabledByName table.tableName = .ok (some logicalTable) ∧
    decision.diagnostics.getLast? = some diagnostic ∧
    diagnostic.Splits (db.listRequiredEnabledByLogicalTable logicalTable.id)

/-- An exception is that of the first table that is not allowed alone. -/
def RaisedAt (table : ParsedTable) (e : PyError) : Prop :=
  ∃ before after alone, parsed.tables = before ++ table :: after ∧
    List.Forall₂ (AllowedAlone rt db parsed routeContext) before alone ∧
    resolve rt db (parsed.alone table) routeContext = .error e

end Alone

variable {rt : Runtime} {db : Metadata} {parsed : ParsedSql} {routeContext : JsonDict}

/-! ## One table -/

theorem resolve_alone (table : ParsedTable) : resolve rt db (parsed.alone table) routeContext =
    (resolveTable rt db parsed routeContext table).map TableOutcome.decision :=
  resolve_singleton rfl

theorem RouteTarget.Resolved.carries {table : ParsedTable} {target : RouteTarget}
    (h : target.Resolved db table) : target.Carries table := ⟨h.original, h.plan⟩

theorem allowedAlone_iff {table : ParsedTable} {decision : RouteDecision} :
    AllowedAlone rt db parsed routeContext table decision ↔ ∃ target diagnostic,
      resolveTable rt db parsed routeContext table = .ok (.target target diagnostic) ∧
      decision = (TableOutcome.target target diagnostic).decision := by
  constructor
  · intro h
    have hresolved := h.resolved
    rw [resolve_alone] at hresolved
    obtain ⟨outcome, hout, rfl⟩ := map_eq_ok.1 hresolved
    cases outcome with
    | target target diagnostic => exact ⟨target, diagnostic, hout, rfl⟩
    | reject reasonCode message diagnostic => exact absurd h.allowed Bool.false_ne_true
  · rintro ⟨target, diagnostic, hout, rfl⟩
    exact ⟨by rw [resolve_alone, hout]; rfl, rfl, target, rfl,
      (resolveTable_resolved hout).carries⟩

theorem allowedAlone_of_allowed {table : ParsedTable} {decision : RouteDecision}
    (h : resolve rt db (parsed.alone table) routeContext = .ok decision)
    (ha : decision.allowed = true) : AllowedAlone rt db parsed routeContext table decision := by
  have hresolved := h
  rw [resolve_alone] at h
  obtain ⟨outcome, hout, rfl⟩ := map_eq_ok.1 h
  cases outcome with
  | target target diagnostic => exact allowedAlone_iff.2 ⟨target, diagnostic, hout, rfl⟩
  | reject reasonCode message diagnostic => exact absurd ha Bool.false_ne_true

/-! ## The loop -/

/-- Behind tables that are allowed alone the loop goes on with their targets and diagnostics. -/
theorem resolveTables_append {before : List ParsedTable} {alone : List RouteDecision}
    (h : List.Forall₂ (AllowedAlone rt db parsed routeContext) before alone)
    (after : List ParsedTable) (targets : List RouteTarget) (diagnostics : List RouteDiagnostic) :
    resolveTables rt db parsed routeContext (before ++ after) targets diagnostics =
      resolveTables rt db parsed routeContext after (targets ++ alone.flatMap (·.targets))
        (diagnostics ++ alone.flatMap (·.diagnostics)) := by
  induction h generalizing targets diagnostics with
  | nil => simp only [List.nil_append, List.flatMap_nil, List.append_nil]
  | @cons table decision before alone hhead _ ih =>
    obtain ⟨target, diagnostic, hout, rfl⟩ := allowedAlone_iff.1 hhead
    have hstep : resolveTables rt db parsed routeContext (table :: (before ++ after)) targets
        diagnostics = resolveTables rt db parsed routeContext (before ++ after)
          (targets ++ [target]) (diagnostics ++ diagnostic.toList) := by
      rw [resolveTables, hout]
      rfl
    rw [List.cons_append, hstep, ih, List.flatMap_cons, List.flatMap_cons, ← List.append_assoc,
      ← List.append_assoc]
    rfl

/-- The loop ends at a table that is not allowed alone. -/
theorem resolveTables_stop {table : ParsedTable} (after : List ParsedTable)
    (targets : List RouteTarget) (diagnostics : List RouteDiagnostic)
    (h : ∀ decision, ¬ AllowedAlone rt db parsed routeContext table decision) :
    resolveTables rt db parsed routeContext (table :: after) targets diagnostics =
      (resolve rt db (parsed.alone table) routeContext).map fun last =>
        ⟨false, last.reasonCode, last.message, [], diagnostics ++ last.diagnostics⟩ := by
  rw [resolveTables, resolve_alone]
  cases hout : resolveTable rt db parsed routeContext table with
  | error e => rfl
  | ok outcome =>
    cases outcome with
    | target target diagnostic =>
      exact absurd (allowedAlone_iff.2 ⟨target, diagnostic, hout, rfl⟩) (h _)
    | reject reasonCode message diagnostic => rfl

/-- All tables are allowed alone, or there is a first one that is not. -/
theorem allowedAlone_or_first (tables : List ParsedTable) :
    (∃ alone, List.Forall₂ (AllowedAlone rt db parsed routeContext) tables alone) ∨
      ∃ before table after alone, tables = before ++ table :: after ∧
        List.Forall₂ (AllowedAlone rt db parsed routeContext) before alone ∧
        ∀ decision, ¬ AllowedAlone rt db parsed routeContext table decision := by
  induction tables with
  | nil => exact Or.inl ⟨[], .nil⟩
  | cons table tables ih =>
    by_cases h : ∃ decision, AllowedAlone rt db parsed routeContext table decision
    · obtain ⟨decision, hd⟩ := h
      rcases ih with ⟨alone, hall⟩ | ⟨before, t, after, alone, rfl, hbefore, hnot⟩
      · exact Or.inl ⟨decision :: alone, .cons hd hall⟩
      · exact Or.inr ⟨table :: before, t, after, decision :: alone, rfl,
          .cons hd hbefore, hnot⟩
    · exact Or.inr ⟨[], table, tables, [], rfl, .nil, fun decision hd => h ⟨decision, hd⟩⟩

/-! ## Missing factors -/

theorem map_fst_dictSet {α : Type} {key : Str} (value : α) {d : List (Str × α)}
    (h : key ∉ d.map Prod.fst) : (dictSet key value d).map Prod.fst =
    d.map Prod.fst ++ [key] := by
  induction d with
  | nil => rfl
  | cons entry d ih =>
    obtain ⟨k, v⟩ := entry
    rw [List.map_cons, List.mem_cons, not_or] at h
    rw [dictSet, if_neg (Ne.symm h.1), List.map_cons, ih h.2]
    rfl

/-- The factor loop sorts every name to the missing ones or to those that have a value. -/
theorem extractFactors_split {value : RouteFactorDef → Except PyError (Option Str)}
    {factors : List RouteFactorDef} {extracted values : Env} {missing missing' : List Str}
    (h : extractFactors value factors extracted missing = .ok (values, missing'))
    (hnodup : (factors.map (·.factorName)).Nodup)
    (hfresh : ∀ name ∈ factors.map (·.factorName), name ∉ extracted.map Prod.fst) :
    (missing' ++ values.map Prod.fst).Perm
      ((missing ++ extracted.map Prod.fst) ++ factors.map (·.factorName)) := by
  induction factors generalizing extracted missing with
  | nil =>
    injection h with h
    injection h with hvalues hmissing
    rw [hvalues, hmissing, List.map_nil, List.append_nil]
  | cons factor factors ih =>
    rw [List.map_cons, List.nodup_cons] at hnodup
    rw [List.map_cons, List.forall_mem_cons] at hfresh
    obtain ⟨v, -, h⟩ := bind_eq_ok.1 h
    cases v with
    | none =>
      refine (ih h hnodup.2 hfresh.2).trans ?_
      rw [List.map_cons, List.append_assoc, List.append_assoc, List.append_assoc,
        List.singleton_append]
      exact List.Perm.append_left _ List.perm_middle.symm
    | some v =>
      have hkeys := map_fst_dictSet v hfresh.1
      refine (ih h hnodup.2 fun name hname => ?_).trans ?_
      · rw [hkeys, List.mem_append, List.mem_singleton, not_or]
        refine ⟨hfresh.2 name hname, ?_⟩
        rintro rfl
        exact hnodup.1 hname
      · rw [hkeys, List.map_cons, List.append_assoc, List.append_assoc, List.append_assoc]
        rfl

theorem resolveRoute_ne_missing {table : ParsedTable} {logicalTable : LogicalTable}
    {factors : List RouteFactorDef} {routeRule : RouteRule} {values : Env} (message : Str)
    (d : Option RouteDiagnostic) : resolveRoute rt db table logicalTable factors
    routeRule values ≠
      .ok (.reject "MISSING_ROUTE_FACTOR" message d) := by
  intro h
  obtain ⟨value, -, h⟩ := bind_eq_ok.1 h
  obtain ⟨route, -, h⟩ := bind_eq_ok.1 h
  cases route with
  | none => exact absurd h (by simp [pure, Except.pure])
  | some route =>
    obtain ⟨datasource, -, h⟩ := bind_eq_ok.1 h
    cases datasource <;> exact absurd h (by simp [pure, Except.pure])

theorem listRequiredEnabled_nodup
    (hfactors : Unique (fun f : RouteFactorDef => (f.logicalTableId, f.factorName))
      db.routeFactors.rows) (id : Nat) :
    ((db.listRequiredEnabledByLogicalTable id).map (·.factorName)).Nodup := by
  have hpairs := hfactors.sublist
    (List.filter_sublist (p := fun f : RouteFactorDef =>
      decide (f.logicalTableId = id ∧ f.enabled ∧ f.required)))
  refine List.pairwise_map.2 ((List.pairwise_map.1 hpairs).imp_of_mem fun ha hb hne hname => hne ?_)
  have hida := (List.mem_filter.1 ha).2
  have hidb := (List.mem_filter.1 hb).2
  rw [decide_eq_true_eq] at hida hidb
  rw [hida.1, hidb.1, hname]

/-- A logical table that is rejected for missing factors has a diagnostic that splits its required
factors. -/
theorem resolveLogicalTable_splits
    (hfactors : Unique (fun f : RouteFactorDef => (f.logicalTableId, f.factorName))
      db.routeFactors.rows) {table : ParsedTable} {logicalTable : LogicalTable} {message : Str}
    {d : Option RouteDiagnostic}
    (h : resolveLogicalTable rt db parsed routeContext table logicalTable =
      .ok (.reject "MISSING_ROUTE_FACTOR" message d)) :
    ∃ diagnostic, d = some diagnostic ∧
      diagnostic.Splits (db.listRequiredEnabledByLogicalTable logicalTable.id) := by
  obtain ⟨rule, -, h⟩ := bind_eq_ok.1 h
  cases rule with
  | none => exact absurd h (by simp [pure, Except.pure])
  | some rule =>
    obtain ⟨⟨values, missing⟩, hvalues, h⟩ := bind_eq_ok.1 h
    simp only at h
    split at h
    · rename_i hmissing
      injection h with h
      injection h with _ _ hd
      have hnodup := listRequiredEnabled_nodup hfactors logicalTable.id
      have hperm := extractFactors_split hvalues hnodup fun name _ hmem =>
        absurd hmem List.not_mem_nil
      refine ⟨_, hd.symm, hmissing, hperm, ?_⟩
      exact (List.nodup_append'.1 (hperm.nodup_iff.2 hnodup)).2.2
    · exact absurd h (resolveRoute_ne_missing _ _)

/-- A table that is rejected for missing factors is a logical table. -/
theorem resolveTable_splits
    (hfactors : Unique (fun f : RouteFactorDef => (f.logicalTableId, f.factorName))
      db.routeFactors.rows) {table : ParsedTable} {message : Str} {d : Option RouteDiagnostic}
    (h : resolveTable rt db parsed routeContext table =
      .ok (.reject "MISSING_ROUTE_FACTOR" message d)) :
    ∃ logicalTable diagnostic, db.getEnabledByName table.tableName = .ok (some logicalTable) ∧
      d = some diagnostic ∧
      diagnostic.Splits (db.listRequiredEnabledByLogicalTable logicalTable.id) := by
  obtain ⟨route, -, h⟩ := bind_eq_ok.1 h
  cases route with
  | some route =>
    obtain ⟨target, -, h⟩ := bind_eq_ok.1 h
    cases target <;> exact absurd h (by simp [pure, Except.pure])
  | none =>
    obtain ⟨logicalTable, hnamed, h⟩ := bind_eq_ok.1 h
    cases logicalTable with
    | none =>
      simp only at h
      split at h <;> exact absurd h (by simp [pure, Except.pure])
    | some logicalTable =>
      obtain ⟨diagnostic, hd⟩ := resolveLogicalTable_splits hfactors h
      exact ⟨logicalTable, diagnostic, hnamed, hd⟩

/-! ## The decision -/

theorem resolve_of_ne_nil (hne : parsed.tables ≠ []) :
    resolve rt db parsed routeContext =
      resolveTables rt db parsed routeContext parsed.tables [] [] := if_neg hne

theorem carries_of_alone {tables : List ParsedTable} {alone : List RouteDecision}
    (h : List.Forall₂ (AllowedAlone rt db parsed routeContext) tables alone) :
    List.Forall₂ (fun table target => RouteTarget.Carries target table) tables
      (alone.flatMap (·.targets)) := by
  induction h with
  | nil => exact .nil
  | cons hhead _ ih =>
    obtain ⟨target, htarget, hcarries⟩ := hhead.target
    rw [List.flatMap_cons, htarget]
    exact .cons hcarries ih

/-- Tables that are allowed alone are allowed together. -/
theorem allowedTogether_of_alone (hne : parsed.tables ≠ []) {alone : List RouteDecision}
    (h : List.Forall₂ (AllowedAlone rt db parsed routeContext) parsed.tables alone) :
    ∃ decision, resolve rt db parsed routeContext = .ok decision ∧ decision.allowed = true ∧
      AllowedTogether rt db parsed routeContext decision := by
  have hrun := resolveTables_append h [] [] []
  rw [List.append_nil, ← resolve_of_ne_nil hne] at hrun
  exact ⟨_, hrun, rfl, alone, h, rfl, rfl, carries_of_alone h⟩

/-- A table that is not allowed alone ends the resolution. -/
theorem resolve_stop {before after : List ParsedTable} {table : ParsedTable}
    {alone : List RouteDecision} (htables : parsed.tables = before ++ table :: after)
    (hbefore : List.Forall₂ (AllowedAlone rt db parsed routeContext) before alone)
    (hnot : ∀ decision, ¬ AllowedAlone rt db parsed routeContext table decision) :
    resolve rt db parsed routeContext =
      (resolve rt db (parsed.alone table) routeContext).map fun last =>
        ⟨false, last.reasonCode, last.message, [],
          alone.flatMap (·.diagnostics) ++ last.diagnostics⟩ := by
  have hne : parsed.tables ≠ [] := by
    rw [htables]
    exact List.append_ne_nil_of_right_ne_nil _ (List.cons_ne_nil _ _)
  rw [resolve_of_ne_nil hne, htables, resolveTables_append hbefore,
    resolveTables_stop after _ _ hnot, List.nil_append]

/-- A decision for missing factors is that of a table that splits its required factors. -/
theorem missingSplit_of_alone
    (hfactors : Unique (fun f : RouteFactorDef => (f.logicalTableId, f.factorName))
      db.routeFactors.rows) {table : ParsedTable} {last : RouteDecision}
    (h : resolve rt db (parsed.alone table) routeContext = .ok last)
    (hcode : last.reasonCode = "MISSING_ROUTE_FACTOR") (before : List RouteDiagnostic)
    {decision : RouteDecision} (hdiagnostics : decision.diagnostics = before ++ last.diagnostics) :
    MissingSplit db table decision := by
  rw [resolve_alone] at h
  obtain ⟨outcome, hout, rfl⟩ := map_eq_ok.1 h
  cases outcome with
  | target target d => 
    have hallow : ("ALLOW" : Str) = "MISSING_ROUTE_FACTOR" := hcode
    exact absurd hallow (by decide)
  | reject reasonCode message d =>
    obtain rfl : reasonCode = "MISSING_ROUTE_FACTOR" := hcode
    obtain ⟨logicalTable, diagnostic, hnamed, rfl, hsplits⟩ := resolveTable_splits hfactors hout
    refine ⟨logicalTable, diagnostic, hnamed, ?_, hsplits⟩
    rw [hdiagnostics]
    exact List.getLast?_concat

/-- A resolution is made of those of its tables alone: it is allowed exactly if all of them are, and
then has their targets and diagnostics in order; otherwise it is that of the first table that is not
allowed alone, without targets and behind the diagnostics of those in front of it. -/
theorem resolve_tableByTable (rt : Runtime) (db : Metadata) (parsed : ParsedSql)
    (routeContext : JsonDict) (hdb : db.Unambiguous)
    (hfactors : Unique (fun f : RouteFactorDef => (f.logicalTableId, f.factorName))
      db.routeFactors.rows)
    (hrules : RulesEvaluate rt db parsed routeContext) (hne : parsed.tables ≠ []) :
    ((∃ decision, resolve rt db parsed routeContext = .ok decision ∧
      decision.allowed = true) ↔ ∀ table ∈ parsed.tables, ∃ decision,
        resolve rt db (parsed.alone table) routeContext = .ok decision ∧
          decision.allowed = true) ∧
    (∀ decision, resolve rt db parsed routeContext = .ok decision → decision.allowed = true →
      AllowedTogether rt db parsed routeContext decision) ∧
    (∀ decision, resolve rt db parsed routeContext = .ok decision → decision.allowed = false →
      ∃ table, StoppedAt rt db parsed routeContext table decision ∧
        (decision.reasonCode = "MISSING_ROUTE_FACTOR" → MissingSplit db table decision)) ∧
    (∀ e, resolve rt db parsed routeContext = .error e →
      e = .valueError ∧ ∃ table, RaisedAt rt db parsed routeContext table e) := by
  have hfirst := @allowedAlone_or_first rt db parsed routeContext parsed.tables
  rcases hfirst with ⟨alone, hall⟩ | ⟨before, table, after, alone, htables, hbefore, hnot⟩
  · obtain ⟨decision, hdecision, hallowed, htogether⟩ := allowedTogether_of_alone hne hall
    have halone : ∀ table ∈ parsed.tables, ∃ d,
        resolve rt db (parsed.alone table) routeContext = .ok d ∧ d.allowed = true := by
      intro table htable
      obtain ⟨d, -, hd⟩ := exists_of_forall₂_left hall htable
      exact ⟨d, hd.resolved, hd.allowed⟩
    refine ⟨iff_of_true ⟨decision, hdecision, hallowed⟩ halone, ?_, ?_, ?_⟩
    · rintro d hd -
      obtain rfl : decision = d := Except.ok.inj (hdecision.symm.trans hd)
      exact htogether
    · intro d hd hrejected
      obtain rfl : decision = d := Except.ok.inj (hdecision.symm.trans hd)
      exact absurd (hallowed.symm.trans hrejected) (by decide)
    · intro e he
      exact absurd (hdecision.symm.trans he) (by simp)
  · have hstop := resolve_stop htables hbefore hnot
    have hfirst : ∀ d, resolve rt db (parsed.alone table) routeContext = .ok d →
        d.allowed = false := fun d hd => by
      by_contra hallowed
      rw [Bool.not_eq_false] at hallowed
      exact hnot d (allowedAlone_of_allowed hd hallowed)
    have hrejects : ∀ d, resolve rt db parsed routeContext = .ok d → d.allowed = false := by
      intro d hd
      rw [hstop] at hd
      obtain ⟨last, -, rfl⟩ := map_eq_ok.1 hd
      rfl
    refine ⟨iff_of_false ?_ ?_, ?_, ?_, ?_⟩
    · rintro ⟨d, hd, hallowed⟩
      exact absurd (hallowed.symm.trans (hrejects d hd)) (by decide)
    · intro hall
      obtain ⟨d, hd, hallowed⟩ := hall table (by
        rw [htables]
        exact List.mem_append_right _ List.mem_cons_self)
      exact absurd (hallowed.symm.trans (hfirst d hd)) (by decide)
    · intro d hd hallowed
      exact absurd (hallowed.symm.trans (hrejects d hd)) (by decide)
    · intro d hd _
      rw [hstop] at hd
      obtain ⟨last, hlast, rfl⟩ := map_eq_ok.1 hd
      exact ⟨table, ⟨before, after, alone, last, htables, hbefore, hlast, hfirst last hlast,
        rfl, rfl, rfl, rfl⟩, fun hcode => missingSplit_of_alone hfactors hlast hcode _ rfl⟩
    · intro e he
      refine ⟨resolve_eq_error hdb hrules he, table, before, after, alone, htables, hbefore, ?_⟩
      rw [hstop] at he
      exact map_eq_error.1 he

/-- A join of the example's logical table with one of its shards. -/
def joinedParsed : ParsedSql :=
  ⟨"select * from user a join user_1 b on a.uid = b.uid where a.uid = 3 limit 10", "select",
    [⟨"user", some "a", 14, 18⟩, ⟨"user_1", some "b", 26, 32⟩],
    [⟨some "a", "uid", "3"⟩], true,
    some 10, false⟩

theorem rulesEvaluate_joined : RulesEvaluate asciiRuntime exampleMetadata joinedParsed [] := by
  intro table ht logicalTable routeRule values htable hrule hvalues
  have hcases : table = ⟨"user", some "a", 14, 18⟩ ∨
      table = ⟨"user_1", some "b", 26, 32⟩ := by
    rcases List.mem_cons.1 ht with h | h
    · exact Or.inl h
    · exact Or.inr (List.mem_singleton.1 h)
  rcases hcases with rfl | rfl
  · have h1 : exampleMetadata.getEnabledByName "user" = .ok (some exampleTable) := rfl
    obtain rfl : exampleTable = logicalTable := by simpa using h1.symm.trans htable
    have h2 : exampleMetadata.getEnabledByLogicalTable exampleTable.id = .ok (some exampleRule) :=
      rfl
    obtain rfl : exampleRule = routeRule := by simpa using h2.symm.trans hrule
    have h3 : extractFactors (factorValue asciiRuntime exampleMetadata exampleTable joinedParsed
        ⟨"user", some "a", 14, 18⟩ [])
        (exampleMetadata.listRequiredEnabledByLogicalTable exampleTable.id) [] [] =
          .ok ([("uid", "3")], []) := by decide +kernel
    obtain rfl : [("uid".toList, "3".toList)] = values := by simpa using h3.symm.trans hvalues
    exact ⟨"1", by decide +kernel⟩
  · have h1 : exampleMetadata.getEnabledByName "user_1" = .ok none := rfl
    exact absurd (h1.symm.trans htable) (by simp)

/-- The join is allowed, with the decisions for its two tables one behind the other. -/
theorem resolve_joined : ∃ decision,
    resolve asciiRuntime exampleMetadata joinedParsed [] = .ok decision ∧
      AllowedTogether asciiRuntime exampleMetadata joinedParsed [] decision := by
  have hrun : (resolve asciiRuntime exampleMetadata joinedParsed []).map (·.allowed) =
      .ok true := by
    decide +kernel
  obtain ⟨decision, hdecision, hallowed⟩ := map_eq_ok.1 hrun
  exact ⟨decision, hdecision, (resolve_tableByTable asciiRuntime exampleMetadata joinedParsed []
    exampleMetadata_unambiguous (by decide) rulesEvaluate_joined
      (List.cons_ne_nil _ _)).2.1 decision
      hdecision hallowed⟩

end SqlGatekeeper
