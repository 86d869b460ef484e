import SqlGatekeeper.Services.ModRouting
import SqlGatekeeper.Services.SelectText

/-!
# Rows that a routed statement asks for

`select * from t where C limit 1` over a table that is routed by `int(col) % n`.

* `RoutesAllRows`: every row that satisfies `C` lives in the shard that is read.
* `RowsIn`, `rowsIn_iff`: when all rows of a condition live in one shard, clause by clause.
* `GivenRoute`: the shard that the router takes from the first equation on `col` in the text.
* `routesAllRows_iff`: the router loses no row exactly if each clause that can be satisfied fixes
  the column within the shard that is taken.
-/

namespace SqlGatekeeper

open Py Store Regex Logic

/-! ## The rows of a condition -/

/-- The column that a name stands for: the case of its letters does not matter. -/
def columnKey (column : Str) : Str := column.map Char.toLower

/-- The condition holds of a row. -/
def Satisfies (row : Str → Int) {b : Binding} (c : Cond Atom b) : Prop :=
  c.Holds (EquationHolds (fun a => columnKey a.column) Atom.value row)

/-- A clause without contradiction. -/
def Satisfiable (clause : List (Literal Atom)) : Prop :=
  Consistent (fun a => columnKey a.column) Atom.value clause

instance (clause : List (Literal Atom)) : Decidable (Satisfiable clause) := by
  unfold Satisfiable
  infer_instance

/-- A clause requires a value of the column that has a remainder. -/
def FixesRemainder (col : Str) (n : Nat) (v : Str) (clause : List (Literal Atom)) : Prop :=
  ∃ l ∈ clause, l.positive = true ∧ columnKey l.atom.column = columnKey col ∧
    intText (l.atom.value.fmod n) = v

/-- All rows of a condition have the same remainder. -/
def RowsIn {b : Binding} (c : Cond Atom b) (col : Str) (n : Nat) (v : Str) : Prop :=
  ∀ row : Str → Int, Satisfies row c → intText ((row (columnKey col)).fmod n) = v

/-- Neighbouring values have the same remainder for the modulus one only. -/
theorem modulus_of_neighbours {k : Int} {n : Nat} {v : Str} (h0 : intText (k.fmod n) = v)
    (h1 : intText ((k + 1).fmod n) = v) : n = 1 := by
  have heq := intText_injective (h0.trans h1.symm)
  rw [Int.fmod_eq_emod_of_nonneg _ (by omega), Int.fmod_eq_emod_of_nonneg _ (by omega)] at heq
  have hdvd : (n : Int) ∣ k + 1 - k := Int.modEq_iff_dvd.1 heq
  rw [add_sub_cancel_left] at hdvd
  have := Int.eq_one_of_dvd_one (by omega) hdvd
  omega

theorem intText_fmod_one (k : Int) : intText (k.fmod (1 : Nat)) = "0" := by
  rw [Nat.cast_one, Int.fmod_one]
  rfl

/-- The rows of a condition lie in one shard if there is only one, or every clause that can be
satisfied fixes the column within it. -/
theorem rowsIn_iff {b : Binding} {c : Cond Atom b} {col : Str} {n : Nat} {v : Str} :
    RowsIn c col n v ↔
      (n = 1 ∧ v = "0") ∨
        ∀ clause ∈ c.dnf true, Satisfiable clause → FixesRemainder col n v clause := by
  constructor
  · intro h
    by_contra hnot
    push Not at hnot
    obtain ⟨hone, clause, hclause, hsat, hfix⟩ := hnot
    have hfill : ∀ free, (∀ l ∈ clause, l.atom.value ≠ free) →
        intText ((fill (fun a => columnKey a.column) Atom.value clause free (columnKey col)).fmod
          n) = v := fun free hfree =>
      h _ (c.holds_iff_dnf.2 ⟨clause, hclause, fill_holds hsat hfree⟩)
    obtain ⟨bound, hbound⟩ := exists_free clause Atom.value
    by_cases hopen : ∀ l ∈ clause, l.positive = true →
      columnKey l.atom.column ≠ columnKey col
    · -- The clause leaves the column open, so neighbouring values are in the same shard.
      have h0 := hfill bound (hbound bound le_rfl)
      have h1 := hfill (bound + 1) (hbound _ (by omega))
      rw [fill_of_open hopen] at h0 h1
      obtain rfl : n = 1 := modulus_of_neighbours h0 h1
      rw [intText_fmod_one] at h0
      exact hone rfl h0.symm
    · push Not at hopen
      obtain ⟨l, hl, hpos, hcol⟩ := hopen
      refine hfix ⟨l, hl, hpos, hcol, ?_⟩
      have := hfill bound (hbound bound le_rfl)
      rwa [← hcol, fill_of_positive hsat hl hpos] at this
  · rintro (⟨rfl, rfl⟩ | hclauses) row hrow
    · exact intText_fmod_one _
    · obtain ⟨clause, hclause, hholds⟩ := c.holds_iff_dnf.1 hrow
      obtain ⟨l, hl, hpos, hcol, hv⟩ := hclauses clause hclause (consistent_of_holds hholds)
      have hvalue := hholds l hl
      rw [Literal.Holds, if_pos hpos, EquationHolds, hcol] at hvalue
      rw [hvalue, hv]

/-! ## The shard that is read -/

/-- The first equation on a column, as the router looks it up. -/
def givenAtom (U : UnicodeData) (atoms : List Atom) (column : Str) : Option Atom :=
  atoms.find? fun a => decide (lower U a.column = lower U column)

/-- The integer that the router takes the remainder of: the value of the first equation on the
column.  A column named `route_suffix` has the legacy derivation behind it. -/
def routedInt (rt : Runtime) (db : Metadata) (t : LogicalTable) (routeContext : JsonDict)
    (col : Str) (atoms : List Atom) : Option Int :=
  match givenAtom rt.toUnicodeData atoms col with
  | some a => some a.value
  | none =>
      if col = "route_suffix" then do
        let column ← contextColumn routeContext "shard_column"
        let a ← givenAtom rt.toUnicodeData atoms column
        let routeCount := db.countEnabledByLogicalTable t.id
        if routeCount = 0 then none
        else if rt.digitsFit (natText a.value.natAbs).length then some (a.value.fmod routeCount)
        else none
      else none

/-- The route value that the router takes for a statement over one table. -/
inductive GivenRoute (rt : Runtime) (db : Metadata) (t : LogicalTable) (routeContext : JsonDict)
    (col : Str) (n : Nat) (atoms : List Atom) : Str → Prop where
  /-- The name is that of a registered physical table. -/
  | registered {r : PhysicalTableRoute} {d : DatasourceInstance}
      (hroute : db.getEnabledByPhysicalTableName t.tableName = .ok (some r))
      (hdatasource : db.getEnabledByCode (datasourceCodeFromId db r.datasourceId) = .ok (some d)) :
      GivenRoute rt db t routeContext col n atoms r.routeValue
  /-- The rule gives a value that a route is registered under. -/
  | residue {k : Int} (hroute : db.getEnabledByPhysicalTableName t.tableName = .ok none)
      (hrule : RuleEvaluates rt col n) (hgiven : routedInt rt db t routeContext col atoms = some k)
      (hfit : rt.digitsFit (natText k.natAbs).length = true)
      (hopen : RouteOpen db t.id (intText (k.fmod n))) :
      GivenRoute rt db t routeContext col n atoms (intText (k.fmod n))

section Given

variable {rt : Runtime} {db : Metadata} {parsed : ParsedSql} {routeContext : JsonDict}
  {t : LogicalTable} {col : Str} {n : Nat} {atoms : List Atom} {table : ParsedTable}

/-- Predicates on other columns do not matter for a column. -/
theorem predicateValue_behind {U : UnicodeData} {found : List ParsedPredicate} {column : Str}
    (hpredicates : parsed.predicates = found ++ atoms.map Atom.predicate)
    (hfound : ∀ p ∈ found, lower U p.column ≠ lower U column) (qualifier : Option Str) :
    parsed.predicateValue U column qualifier =
      (atoms.find? fun a => a.predicate.isOn U column qualifier).map fun a => intText a.value := by
  have hnone : found.find? (fun p => p.isOn U column qualifier) = none := by
    rw [List.find?_eq_none]
    intro p hp
    rw [ParsedPredicate.isOn, decide_eq_true_eq]
    exact fun h => hfound p hp h.1
  rw [ParsedSql.predicateValue, hpredicates, List.find?_append, hnone, Option.none_or,
    List.find?_map, Option.map_map]
  rfl

theorem predicateValue_atoms {U : UnicodeData}
    (hpredicates : parsed.predicates = atoms.map Atom.predicate) (column : Str)
    (qualifier : Option Str) :
    parsed.predicateValue U column qualifier =
      (atoms.find? fun a => a.predicate.isOn U column qualifier).map fun a => intText a.value := by
  have hbehind : parsed.predicates = [] ++ atoms.map Atom.predicate := hpredicates
  exact predicateValue_behind hbehind (by simp) qualifier

theorem orElse_intText (o : Option Atom) (x : Option Str) :
    orElse (o.map fun a => intText a.value) x =
      if o = none then x else o.map fun a => intText a.value := by
  cases o with
  | none => rfl
  | some a =>
    obtain ⟨c, cs, hcs, -⟩ := head_intText a.value
    rw [Option.map_some, hcs, if_neg (by simp)]
    rfl

/-- Equations without qualifier are found by their column alone. -/
theorem columnValue_atoms {U : UnicodeData}
    (hpredicates : parsed.predicates = atoms.map Atom.predicate)
    (hatoms : ∀ a ∈ atoms, a.qualifier = none) (halias : table.aliasName = some ("where" : Str))
    (column : Str) :
    columnValue U parsed table column =
      (givenAtom U atoms column).map fun a => intText a.value := by
  have hnone : (atoms.find? fun a => a.predicate.isOn U column (some ("where" : Str))) = none := by
    rw [List.find?_eq_none]
    intro a ha
    have hlower : lower U "where" ≠ lower U [] := by
      rw [lower_ascii U (s := "where") (by decide)]
      exact show ("where" : Str).map Char.toLower ≠ [] by decide
    rw [ParsedPredicate.isOn]
    simp only [Atom.predicate, hatoms a ha, Option.getD_none, Option.mem_def, Option.some.injEq,
      forall_eq', decide_eq_true_eq, not_and]
    exact fun _ h => hlower h.symm
  rw [columnValue, predicateValue_atoms hpredicates, predicateValue_atoms hpredicates, halias,
    hnone, orElse_intText, if_pos rfl]
  refine congrArg _ (congrArg (fun p => List.find? p atoms) (funext fun a => ?_))
  simp [ParsedPredicate.isOn, Atom.predicate]

theorem modFactorValue_atoms (hpredicates : parsed.predicates = atoms.map Atom.predicate)
    (hatoms : ∀ a ∈ atoms, a.qualifier = none)
    (halias : table.aliasName = some ("where" : Str)) {k : Int} :
    (∃ s, modFactorValue rt db t parsed routeContext col table = some s ∧ rt.int s = .ok k) ↔
      routedInt rt db t routeContext col atoms = some k ∧
        rt.digitsFit (natText k.natAbs).length = true := by
  have hint : ∀ x : Int, rt.int (intText x) = .ok k ↔
      x = k ∧ rt.digitsFit (natText k.natAbs).length = true := fun x => by
    rw [rt.int_intText]
    split
    · rename_i hfit
      exact ⟨fun h => Except.ok.inj h ▸ ⟨rfl, hfit⟩, fun h => h.1 ▸ rfl⟩
    · rename_i hfit
      exact ⟨fun h => absurd h (by simp), fun h => absurd (h.1 ▸ h.2) hfit⟩
  rw [modFactorValue, routedInt, columnValue_atoms hpredicates hatoms halias]
  cases hgiven : givenAtom rt.toUnicodeData atoms col with
  | some a => simp [hint]
  | none =>
    simp only [Option.map_none]
    by_cases hcol : col = "route_suffix"
    · rw [if_pos hcol, if_pos hcol, deriveLegacyRouteSuffix]
      cases hcolumn : contextColumn routeContext "shard_column" with
      | none => simp
      | some column =>
        simp only [Option.bind_eq_bind, Option.bind_some,
          columnValue_atoms hpredicates hatoms halias]
        cases hlegacy : givenAtom rt.toUnicodeData atoms column with
        | none => simp
        | some a =>
          simp only [Option.map_some, Option.bind_some]
          by_cases hcount : db.countEnabledByLogicalTable t.id = 0
          · simp [hcount]
          · simp only [hcount, if_false, rt.int_intText]
            by_cases hfit : rt.digitsFit (natText a.value.natAbs).length = true
            · simp only [hfit, if_true, Except.bind, Runtime.strInt]
              by_cases hresult :
                  rt.digitsFit (natText (a.value.fmod
                    (db.countEnabledByLogicalTable t.id)).natAbs).length = true
              · simp only [hresult, if_true, Except.toOption, Option.some.injEq,
                  exists_eq_left', hint]
              · simp only [hresult, Except.toOption, Option.some.injEq]
                exact iff_of_false (by simp) fun h => hresult (by rw [h.1]; exact h.2)
            · simp [hfit, Except.bind, Except.toOption]
    · rw [if_neg hcol, if_neg hcol]
      simp

/-- The route values of the allowed resolutions of a statement over one table. -/
theorem givenRoute_iff (hdb : db.Constraints) (ht : ModRouted db t col n)
    (hcol : isVariable col = true) (hn : n ≠ 0) (hname : table.tableName = t.tableName)
    (halias : table.aliasName = some ("where" : Str)) (htables : parsed.tables = [table])
    (hpredicates : parsed.predicates = atoms.map Atom.predicate)
    (hatoms : ∀ a ∈ atoms, a.qualifier = none) {v : Str} :
    (∃ decision target, resolve rt db parsed routeContext = .ok decision ∧
      decision.allowed = true ∧ target ∈ decision.targets ∧ target.routeValue = v) ↔
      GivenRoute rt db t routeContext col n atoms v := by
  rw [resolve_single (P := fun target => target.routeValue = v) htables]
  constructor
  · rintro ⟨target, d, h, hv⟩
    obtain ⟨route, hroute, -⟩ := bind_eq_ok.1 h
    cases route with
    | some r =>
      obtain ⟨rfl, d', hd'⟩ := (resolveTable_physical hroute).1 ⟨target, d, h, hv⟩
      exact .registered (hname ▸ hroute) hd'
    | none =>
      obtain ⟨hrule, hopen, s, k, hs, hk, rfl⟩ :=
        (resolveTable_mod hdb ht hcol hn hname hroute).1 ⟨target, d, h, hv⟩
      obtain ⟨hgiven, hfit⟩ := (modFactorValue_atoms hpredicates hatoms halias).1
        ⟨s, hs, hk⟩
      exact .residue (hname ▸ hroute) hrule hgiven hfit hopen
  · rintro (⟨hroute, hd⟩ | ⟨hroute, hrule, hgiven, hfit, hopen⟩)
    · exact (resolveTable_physical (hname ▸ hroute)).2 ⟨rfl, _, hd⟩
    · obtain ⟨s, hs, hk⟩ := (modFactorValue_atoms hpredicates hatoms halias).2
        ⟨hgiven, hfit⟩
      exact (resolveTable_mod hdb ht hcol hn hname (hname ▸ hroute)).2
        ⟨hrule, hopen, s, _, hs, hk, rfl⟩

end Given

/-! ## Rows that are lost -/

/-- Every row that the statement asks for lives in the shard that is read. -/
def RoutesAllRows (rt : Runtime) (db : Metadata) (routeContext : JsonDict) (t : LogicalTable)
    (col : Str) (n : Nat) (c : Cond Atom .disj) : Prop :=
  ∀ parsed decision target, parse rt (selectText t.tableName (condText c)) = .ok parsed →
    resolve rt db parsed routeContext = .ok decision → decision.allowed = true →
    target ∈ decision.targets → RowsIn c col n target.routeValue

/-- Routing loses no row exactly if, whenever the statement is routed, there is one shard only or
every clause of the condition that can be satisfied fixes the column within the shard taken. -/
theorem routesAllRows_iff {rt : Runtime} {db : Metadata} {routeContext : JsonDict}
    {t : LogicalTable} {col : Str} {n : Nat} {c : Cond Atom .disj} (hdb : db.Constraints)
    (ht : ModRouted db t col n) (hcol : isVariable col = true) (hn : 0 < n)
    (hname : isIdentifier t.tableName = true)
    (hc : ∀ a ∈ c.atoms, a.qualifier = none ∧ PlainName a.column) :
    RoutesAllRows rt db routeContext t col n c ↔
      ∀ v, GivenRoute rt db t routeContext col n c.atoms v →
        (n = 1 ∧ v = "0") ∨
          ∀ clause ∈ c.dnf true, Satisfiable clause → FixesRemainder col n v clause := by
  have hplain : ∀ a ∈ c.atoms, a.Plain := fun a ha =>
    ⟨fun q hq => absurd hq (by rw [(hc a ha).1]; simp), (hc a ha).2⟩
  obtain ⟨parsed, hparsed, htables, hpredicates⟩ := parse_select rt hname hplain
  have hgiven : ∀ v, (∃ decision target, resolve rt db parsed routeContext = .ok decision ∧
      decision.allowed = true ∧ target ∈ decision.targets ∧ target.routeValue = v) ↔
      GivenRoute rt db t routeContext col n c.atoms v := fun v =>
    givenRoute_iff hdb ht hcol hn.ne' rfl rfl htables hpredicates fun a ha => (hc a ha).1
  simp only [← rowsIn_iff]
  constructor
  · intro h v hv
    obtain ⟨decision, target, hdec, ha, htarget, rfl⟩ := (hgiven v).2 hv
    exact h parsed decision target hparsed hdec ha htarget
  · intro h parsed' decision target hparsed' hdec ha htarget
    obtain rfl := Except.ok.inj (hparsed.symm.trans hparsed')
    exact h _ ((hgiven _).1 ⟨decision, target, hdec, ha, htarget, rfl⟩)

/-! ## An example -/

/-- `uid = k` -/
def uidAtom (k : Int) : Atom := ⟨none, "uid", k⟩

/-- `uid = 1 or uid = 2` -/
def uidOneOrTwo : Cond Atom .disj :=
  .or (.conj (.prim (.atom (uidAtom 1)))) (.prim (.atom (uidAtom 2)))

theorem exampleTable_modRouted : ModRouted exampleMetadata exampleTable "uid" 2 where
  table := List.mem_cons_self
  enabled := rfl
  factor := ⟨_, rfl, rfl, rfl, rfl⟩
  rule := ⟨exampleRule, rfl, by decide, rfl⟩

/-- The rows with `uid = 2` are asked for, but the shard of `uid = 1` is read. -/
theorem uidOneOrTwo_loses_rows :
    condText uidOneOrTwo = "uid = 1 or uid = 2" ∧
      ¬ RoutesAllRows asciiRuntime exampleMetadata [] exampleTable "uid" 2 uidOneOrTwo := by
  refine ⟨by decide, fun h => ?_⟩
  have hrun : ((parse asciiRuntime (selectText exampleTable.tableName (condText uidOneOrTwo))).bind
      fun parsed => resolve asciiRuntime exampleMetadata parsed []).map
        (fun decision => (decision.allowed, decision.targets.map (·.routeValue))) =
      .ok (true, [("1" : Str)]) := by decide +kernel
  obtain ⟨decision, hdec, hvalues⟩ := map_eq_ok.1 hrun
  obtain ⟨parsed, hparsed, hdec⟩ := bind_eq_ok.1 hdec
  simp only [Prod.mk.injEq] at hvalues
  obtain ⟨target, htarget, hv⟩ : ∃ target ∈ decision.targets, target.routeValue =
      ("1" : Str) := by
    rw [← List.mem_map, hvalues.2]
    exact List.mem_singleton_self _
  have hrow := h parsed decision target hparsed hdec hvalues.1 htarget (fun _ => 2) (Or.inr rfl)
  rw [hv] at hrow
  exact absurd hrow (by decide)

theorem plainName_uid : PlainName "uid" := ⟨by decide, by decide⟩

/-- `uid = 1 and not (note = 5) or uid = 3` -/
def uidOneOrThree : Cond Atom .disj :=
  .or (.conj (.and (.prim (.atom (uidAtom 1)))
      (.not (.conj (.prim (.atom ⟨none, "note", 5⟩))))))
    (.prim (.atom (uidAtom 3)))

/-- Both of its clauses fix the shard `1`, which is the one taken. -/
theorem routesAllRows_uidOne :
    condText uidOneOrThree = "uid = 1 and not (note = 5) or uid = 3" ∧
      RoutesAllRows asciiRuntime exampleMetadata [] exampleTable "uid" 2 uidOneOrThree := by
  have hatoms : ∀ a ∈ uidOneOrThree.atoms, a.qualifier = none ∧ PlainName a.column :=
    List.forall_mem_cons.2 ⟨⟨rfl, plainName_uid⟩, List.forall_mem_cons.2
      ⟨⟨rfl, by decide, by decide⟩, List.forall_mem_singleton.2 ⟨rfl, plainName_uid⟩⟩⟩
  have hiff := @routesAllRows_iff asciiRuntime exampleMetadata [] exampleTable "uid" 2 _
    exampleMetadata_constraints exampleTable_modRouted (by decide) (by decide) (by decide) hatoms
  refine ⟨by decide, hiff.2 fun v hv => Or.inr ?_⟩
  have hvalue : v = "1" := by
    cases hv with
    | registered hroute =>
      have hnone : exampleMetadata.getEnabledByPhysicalTableName "user" = .ok none := rfl
      exact absurd (hnone.symm.trans hroute) (by simp)
    | residue _ _ hgiven =>
      have hone : routedInt asciiRuntime exampleMetadata exampleTable [] "uid"
        uidOneOrThree.atoms = some 1 := rfl
      obtain rfl := Option.some.inj (hone.symm.trans hgiven)
      decide
  have hclauses : uidOneOrThree.dnf true =
      [[⟨uidAtom 1, true⟩, ⟨⟨none, "note", 5⟩, false⟩], [⟨uidAtom 3, true⟩]] := rfl
  rw [hvalue, hclauses]
  exact List.forall_mem_cons.2 ⟨fun _ => ⟨_, List.mem_cons_self, rfl, rfl, by decide⟩,
    List.forall_mem_singleton.2 fun _ => ⟨_, List.mem_cons_self, rfl, rfl, by decide⟩⟩

end SqlGatekeeper
