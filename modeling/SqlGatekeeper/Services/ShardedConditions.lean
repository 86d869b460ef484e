import SqlGatekeeper.Services.JoinRouting
import SqlGatekeeper.Services.ShardedAnswers

/-!
# Conditions over sharded tables

Statements whose conditions equate columns with integers, over tables that are cut by the
remainder of a column.

* `RowSelect`: such a statement, joins included; `RowSelect.asks`: the tuples of rows that it asks
  for.
* `remainderKey`: the shard of a row.
* `KeptIn`: a condition keeps the rows of a table in a shard, clause by clause.
* `checkedAnswers_iff_kept`: a rewritten statement answers what the original asks for exactly if its
  conditions keep the rows of every table in the shard that is read.
* `checkedAnswers_of_conjunctive`: so it does for a conjunction over one table.
-/

namespace SqlGatekeeper

open Py Store Logic Sharding

/-! ## The statements -/

/-- `select * from t1 [a1] join t2 [a2] on C2 … where C limit k`. -/
structure RowSelect where
  first : JoinTable
  joins : List (JoinTable × Cond Atom .disj)
  condition : Cond Atom .disj
  limit : Nat

/-- The name of a table's rows in conditions: its alias, or nothing. -/
def JoinTable.rowName (t : JoinTable) : Str := (t.aliasPart.map (·.name)).getD []

/-- The row under a name. -/
def rowAt (names : List Str) (tuple : List (Str → Int)) (name : Str) : Str → Int :=
  ((names.zip tuple).lookup name).getD fun _ => 0

namespace RowSelect

/-- The statement with its conditions as texts. -/
def select (q : RowSelect) : JoinSelect :=
  ⟨q.first, q.joins.map fun j => ⟨j.1, condText j.2⟩, condText q.condition, q.limit⟩

/-- The conditions that a tuple has to satisfy. -/
def conditions (q : RowSelect) : List (Cond Atom .disj) := q.condition :: q.joins.map (·.2)

/-- The conjunction of all conditions. -/
def whole (q : RowSelect) : Cond Atom .conj :=
  q.joins.foldl (fun c j => .and c (.paren j.2)) (.prim (.paren q.condition))

/-- The names of the rows of a tuple. -/
def names (q : RowSelect) : List Str := q.select.tables.map JoinTable.rowName

/-- The tuple satisfies the conditions. -/
def asks (q : RowSelect) (tuple : List (Str → Int)) : Bool :=
  q.conditions.all fun c => decide (c.Holds fun a =>
    rowAt q.names tuple (aliasColumn a).1 (aliasColumn a).2 = a.value)

/-- Names are plain, no two tables share one, and each equation names one of them. -/
structure Plain (q : RowSelect) : Prop where
  tables : ∀ t ∈ q.select.tables, t.Plain
  names : q.names.Nodup
  atoms : ∀ c ∈ q.conditions, ∀ a ∈ c.atoms, a.Plain ∧ (aliasColumn a).1 ∈ q.names

theorem Plain.select {q : RowSelect} (hq : q.Plain) (U : UnicodeData) : q.select.Plain U where
  tables := hq.tables
  joinConditions j hj := by
    obtain ⟨i, hi, rfl⟩ := List.mem_map.1 hj
    have hmem : i.2 ∈ q.conditions := List.mem_cons_of_mem _ (List.mem_map_of_mem hi)
    exact noWord_condText (by decide) (by decide) (by decide) i.2 fun a ha =>
      (hq.atoms _ hmem a ha).1
  condition := noWord_condText (by decide) (by decide) (by decide) q.condition fun a ha =>
    (hq.atoms _ List.mem_cons_self a ha).1

theorem select_joined (q : RowSelect) (hfirst : q.joins = [] ∨ q.first.aliasPart ≠ none) :
    q.select.joins = [] ∨ q.select.first.aliasPart ≠ none := by
  rcases hfirst with h | h
  · exact Or.inl (List.map_eq_nil_iff.2 h)
  · exact Or.inr h

/-- The conjunction of the conditions means all of them. -/
theorem whole_holds (q : RowSelect) (v : Atom → Prop) :
    q.whole.Holds v ↔ ∀ c ∈ q.conditions, c.Holds v := by
  have hjoins : ∀ (joins : List (JoinTable × Cond Atom .disj)) (c : Cond Atom .conj),
      (joins.foldl (fun c j => Cond.and c (.paren j.2)) c).Holds v ↔
        c.Holds v ∧ ∀ j ∈ joins, j.2.Holds v := by
    intro joins
    induction joins with
    | nil => simp
    | cons j joins ih =>
      intro c
      rw [List.foldl_cons, ih, List.forall_mem_cons]
      exact and_assoc
  unfold whole conditions
  rw [hjoins, List.forall_mem_cons, List.forall_mem_map]
  rfl

theorem whole_atoms (q : RowSelect) {a : Atom} (ha : a ∈ q.whole.atoms) :
    ∃ c ∈ q.conditions, a ∈ c.atoms := by
  have hjoins : ∀ (joins : List (JoinTable × Cond Atom .disj)) (c : Cond Atom .conj),
      a ∈ (joins.foldl (fun c j => Cond.and c (.paren j.2)) c).atoms →
        a ∈ c.atoms ∨ ∃ j ∈ joins, a ∈ j.2.atoms := by
    intro joins
    induction joins with
    | nil => simp
    | cons j joins ih =>
      intro c h
      rcases ih _ h with h | ⟨i, hi, h⟩
      · rcases List.mem_append.1 h with h | h
        · exact Or.inl h
        · exact Or.inr ⟨j, List.mem_cons_self, h⟩
      · exact Or.inr ⟨i, List.mem_cons_of_mem _ hi, h⟩
  unfold conditions
  rcases hjoins q.joins _ ha with h | ⟨j, hj, h⟩
  · exact ⟨_, List.mem_cons_self, h⟩
  · exact ⟨_, List.mem_cons_of_mem _ (List.mem_map_of_mem hj), h⟩

theorem asks_iff {q : RowSelect} {tuple : List (Str → Int)} : q.asks tuple = true ↔
    q.whole.Holds (EquationHolds aliasColumn Atom.value fun x => rowAt q.names tuple x.1 x.2) := by
  rw [whole_holds]
  unfold asks EquationHolds
  simp

end RowSelect

/-! ## Rows under names -/

theorem rowAt_get {names : List Str} {tuple : List (Str → Int)} (hnames : names.Nodup) {i : Nat}
    (hi : i < names.length) (hj : i < tuple.length) : rowAt names tuple names[i] = tuple[i] := by
  have hlookup : (names.zip tuple).lookup names[i] = some tuple[i] := by
    induction names generalizing tuple i with
    | nil => exact absurd hi (Nat.not_lt_zero i)
    | cons name names ih =>
      cases tuple with
      | nil => exact absurd hj (Nat.not_lt_zero i)
      | cons row tuple =>
        obtain ⟨hnot, hrest⟩ := List.nodup_cons.1 hnames
        cases i with
        | zero => simp
        | succ i =>
          have hi : i < names.length := Nat.lt_of_succ_lt_succ hi
          have hne : (names[i] == name) = false := by
            rw [beq_eq_false_iff_ne]
            intro heq
            exact hnot (heq ▸ List.getElem_mem hi)
          have hcons : (name :: names)[i + 1] = names[i] := rfl
          rw [List.zip_cons_cons, hcons, List.lookup_cons, hne]
          exact ih hrest hi (Nat.lt_of_succ_lt_succ hj)
  unfold rowAt
  rw [hlookup]
  rfl

/-- The rows that an assignment gives to some names. -/
def rowsOfAssignment (names : List Str) (row : Str × Str → Int) : List (Str → Int) :=
  names.map fun name x => row (name, x)

theorem rowAt_rowsOfAssignment {names : List Str} (row : Str × Str → Int) {name : Str}
    (hname : name ∈ names) :
    rowAt names (rowsOfAssignment names row) name = fun x => row (name, x) := by
  have hlookup : (names.zip (rowsOfAssignment names row)).lookup name =
      some fun x => row (name, x) := by
    unfold rowsOfAssignment
    induction names with
    | nil => exact absurd hname List.not_mem_nil
    | cons other names ih =>
      rw [List.map_cons, List.zip_cons_cons, List.lookup_cons]
      by_cases heq : name = other
      · subst heq
        rw [beq_self_eq_true]
      · rw [beq_eq_false_iff_ne.2 heq]
        exact ih ((List.mem_cons.1 hname).resolve_left heq)
  unfold rowAt
  rw [hlookup]
  rfl

/-! ## Shards by remainder -/

/-- The shard of a row: the remainder of its column. -/
def remainderKey (col : Str → Str) (n : Str → Nat) (name : Str) (row : Str → Int) : Str :=
  intText ((row (columnKey (col name))).fmod (n name))

/-- Every remainder has a route. -/
def Metadata.AllRemainders (db : Metadata) (n : Str → Nat) (name : Str) : Prop :=
  0 < n name ∧ ∀ i < n name, natText i ∈ (db.routesOf name).map (·.routeValue)

theorem Metadata.AllRemainders.mem {db : Metadata} {n : Str → Nat} {name : Str}
    (h : db.AllRemainders n name) (k : Int) :
    intText (k.fmod (n name)) ∈ (db.routesOf name).map (·.routeValue) := by
  have hpos : (0 : Int) < n name := by exact_mod_cast h.1
  have h0 := Int.fmod_nonneg_of_pos k hpos
  have h1 := Int.fmod_lt_of_pos k hpos
  have htext : intText (k.fmod (n name)) = natText (k.fmod (n name)).toNat := by
    unfold intText
    rw [if_neg (by omega)]
    congr 1
    omega
  rw [htext]
  exact h.2 _ (by omega)

/-- Other remainders than a given one come up again and again, unless there is only that one. -/
theorem exists_other_remainder {n : Nat} {v : Str} (h : ¬ (n = 1 ∧ v = "0")) (bound : Int) :
    ∃ k, bound ≤ k ∧ ¬ intText (k.fmod n) = v := by
  by_contra hnot
  push Not at hnot
  have h0 := hnot bound le_rfl
  have h1 := hnot (bound + 1) (by omega)
  obtain rfl : n = 1 := modulus_of_neighbours h0 h1
  rw [intText_fmod_one] at h0
  exact h ⟨rfl, h0.symm⟩

/-- The condition keeps the rows of a name in one shard: there is only that one, or every clause
without contradiction fixes the column within it. -/
def KeptIn {b : Binding} (c : Cond Atom b) (name col : Str) (n : Nat) (v : Str) : Prop :=
  (n = 1 ∧ v = "0") ∨
    ∀ clause ∈ c.dnf true, Consistent aliasColumn Atom.value clause →
      ∃ l ∈ clause, l.positive = true ∧ aliasColumn l.atom = (name, columnKey col) ∧
        intText (l.atom.value.fmod n) = v

theorem keptIn_iff {b : Binding} {c : Cond Atom b} {name col : Str} {n : Nat} {v : Str} :
    KeptIn c name col n v ↔ ∀ row, c.Holds (EquationHolds aliasColumn Atom.value row) →
      intText ((row (name, columnKey col)).fmod n) = v := by
  unfold KeptIn
  by_cases hone : n = 1 ∧ v = "0"
  · obtain ⟨rfl, rfl⟩ := hone
    simp only [true_and, true_or, true_iff]
    exact fun row _ => intText_fmod_one _
  · rw [or_iff_right hone]
    have hforces := @forces_iff Atom (Str × Str) _ aliasColumn Atom.value _ c (name, columnKey col)
      (fun k => intText (k.fmod n) = v) (exists_other_remainder hone)
    exact hforces.symm

section Statement

variable {rt : Runtime} {db : Metadata} {q : RowSelect} {routeContext : JsonDict}
  {decision : RouteDecision} {col : Str → Str} {n : Str → Nat}

/-- The shards that are read cover the conditions exactly if these keep the rows of every table in
the shard of its target. -/
theorem RowSelect.covers_iff_kept (hdb : db.Constraints) (hq : q.Plain)
    (hall : ∀ t ∈ q.select.tables, db.AllRemainders n t.name)
    (hlength : q.select.tables.length = decision.targets.length) :
    (db.shards hdb (remainderKey col n)).Covers (q.select.choice decision) q.asks ↔
      List.Forall₂ (fun (t : JoinTable) (target : RouteTarget) =>
        KeptIn q.whole t.rowName (col t.name) (n t.name) target.routeValue)
        q.select.tables decision.targets := by
  have hchoice : (q.select.choice decision).length = q.select.tables.length := by
    unfold JoinSelect.choice
    rw [List.length_zipWith, ← hlength, Nat.min_self]
  have hget : ∀ i (h1 : i < q.select.tables.length) (h2 : i < decision.targets.length)
      (h3 : i < (q.select.choice decision).length), (q.select.choice decision)[i] =
        ((q.select.tables[i]).name, (decision.targets[i]).routeValue) := by
    intro i h1 h2 h3
    exact List.getElem_zipWith
  have hnames : q.names.length = q.select.tables.length := List.length_map _
  have hname : ∀ i (h1 : i < q.select.tables.length) (h2 : i < q.names.length),
      q.names[i] = (q.select.tables[i]).rowName := fun i h1 h2 => List.getElem_map _
  rw [List.forall₂_iff_get]
  constructor
  · intro hcovers
    refine ⟨hlength, fun i h1 h2 => ?_⟩
    rw [keptIn_iff]
    intro row hrow
    have hrows : (rowsOfAssignment q.names row).length = q.names.length := List.length_map _
    have hfits : (db.shards hdb (remainderKey col n)).Fits (q.select.choice decision)
        (rowsOfAssignment q.names row) := by
      refine List.forall₂_iff_get.2 ⟨by omega, fun j hj1 hj2 => ?_⟩
      have hj : j < q.select.tables.length := by omega
      rw [List.get_eq_getElem, List.get_eq_getElem, hget j hj (by omega) hj2]
      exact (hall _ (List.getElem_mem hj)).mem _
    have hasks : q.asks (rowsOfAssignment q.names row) = true := by
      rw [RowSelect.asks_iff]
      refine (Cond.holds_congr fun a ha => ?_).2 hrow
      obtain ⟨c, hc, hmem⟩ := q.whole_atoms ha
      show rowAt q.names (rowsOfAssignment q.names row) (aliasColumn a).1 (aliasColumn a).2 =
        a.value ↔ row (aliasColumn a) = a.value
      rw [rowAt_rowsOfAssignment row (hq.atoms c hc a hmem).2]
    have hat := (List.forall₂_iff_get.1 (hcovers _ hfits hasks)).2 i (by omega) (by omega)
    rw [List.get_eq_getElem, List.get_eq_getElem, hget i h1 h2 (by omega)] at hat
    unfold rowsOfAssignment at hat
    rw [List.getElem_map, hname i h1 (by omega)] at hat
    exact hat
  · rintro ⟨-, hkept⟩ tuple hfits hasks
    have htuple := hfits.length_eq
    refine List.forall₂_iff_get.2 ⟨htuple, fun i h1 h2 => ?_⟩
    have hi : i < q.select.tables.length := by omega
    have hrow := keptIn_iff.1 (hkept i hi (by omega)) _ (RowSelect.asks_iff.1 hasks)
    rw [List.get_eq_getElem, ← hname i hi (by omega), rowAt_get hq.names _ h1] at hrow
    rw [List.get_eq_getElem, List.get_eq_getElem, hget i hi (by omega) h2]
    exact hrow

/-- A rewritten statement answers on the physical tables what the statement asks of all their rows,
wherever these are placed, exactly if its conditions keep the rows of every table in the shard that
is read for it. -/
theorem RowSelect.answers_iff_kept {rewritten : JoinSelect} {code : Str} (hdb : db.Constraints)
    (hq : q.Plain) (hfirst : q.joins = [] ∨ q.first.aliasPart ≠ none) (hlimit : 0 < q.limit)
    (hrewritten : RewrittenAs rt db q.select rewritten routeContext decision code)
    (hall : ∀ t ∈ q.select.tables, db.AllRemainders n t.name)
    (hdistinct : db.DistinctPlaces (q.select.tables.map (·.name))) :
    (∀ contents, (∀ t ∈ q.select.tables, db.RowsPlaced (remainderKey col n) contents
      t.name) → ∀ answer, rewritten.Answers (fun name => contents (code, name)) q.asks
        answer ↔ q.select.Answers (db.rowsOf contents) q.asks answer) ↔
      List.Forall₂ (fun (t : JoinTable) (target : RouteTarget) =>
        KeptIn q.whole t.rowName (col t.name) (n t.name) target.routeValue)
        q.select.tables decision.targets := by
  have hplain := hq.select rt.toUnicodeData
  have hjoins := q.select_joined hfirst
  obtain ⟨parsed, hparsed, hresolved⟩ := hrewritten.resolved
  have hroutes : RoutesRead db q.select decision :=
    exists_routes_of_join hplain hjoins hparsed hresolved hrewritten.routed
  rw [← RowSelect.covers_iff_kept hdb hq hall hroutes.length_eq]
  exact (answers_iff_covers hdb hplain hjoins hlimit hrewritten hdistinct _ _).symm

end Statement

/-! ## Conjunctions over one table -/

section Conjunction

variable {rt : Runtime} {db : Metadata} {q : RowSelect} {parsed : ParsedSql}

/-- The text of a statement over one table without alias. -/
theorem JoinSelect.text_plain {s : JoinSelect} (hjoins : s.joins = [])
    (halias : s.first.aliasPart = none) :
    s.text = "select * from " ++ (s.first.name ++ (" where " ++ (s.condition ++
      (" limit " ++ natText s.limit)))) := by
  have hnone : s.first.aliasText = [] := by
    unfold JoinTable.aliasText
    rw [halias]
  rw [JoinSelect.text_beforeWhere]
  unfold JoinSelect.beforeWhere
  rw [hjoins, hnone, List.flatMap_nil, List.append_nil, List.append_nil, List.append_assoc]

/-- The parser reads a statement over one table. -/
theorem parse_single (hq : q.Plain) (hjoins : q.joins = []) (halias : q.first.aliasPart = none)
    (hparsed : parse rt q.select.text = .ok parsed) :
    ∃ table : ParsedTable, parsed.tables = [table] ∧ table.tableName = q.first.name ∧
      table.aliasName = some ("where" : Str) ∧
      parsed.predicates = q.condition.atoms.map Atom.predicate := by
  have hplain := hq.select rt.toUnicodeData
  have hnil : q.select.joins = [] := List.map_eq_nil_iff.2 hjoins
  have hname := (hq.tables q.first List.mem_cons_self).name.identifier
  obtain ⟨-, htables, hpredicates⟩ := parse_eq_ok hparsed
  refine ⟨(q.first.reference "from" "where").table 9, ?_, ?_, ?_, ?_⟩
  · rw [htables, JoinSelect.text_single hnil,
      tables_of_references (JoinSelect.reference_single hplain)
      lead_select (JoinSelect.noTableWord_singleTail hplain)]
    rfl
  · unfold JoinTable.reference
    rw [halias]
    rfl
  · unfold JoinTable.reference
    rw [halias]
    rfl
  · have htext : q.select.text = "select * from " ++ (q.first.name ++ (" where " ++
        (condText q.condition ++ (" limit " ++ natText q.limit)))) := JoinSelect.text_plain hnil
          halias
    have hlimit : '=' ∉ (" limit " : Str) ++ natText q.limit := by
      rw [List.mem_append, not_or]
      exact ⟨by decide, fun h => absurd (natText_isDigit _ h) (by decide)⟩
    rw [hpredicates, htext]
    exact predicates_behind ⟨by decide, by decide⟩ hname ⟨by decide, by decide, ' ',
      rfl, by decide⟩
      hlimit (ends_of_head (c := ' ') rfl (by decide)) fun a ha =>
        (hq.atoms _ List.mem_cons_self a ha).1.valid

/-- Equations over a single table without alias have no qualifier. -/
theorem RowSelect.Plain.unqualified (hq : q.Plain) (hjoins : q.joins = [])
    (halias : q.first.aliasPart = none) {a : Atom} (ha : a ∈ q.condition.atoms) :
    a.qualifier = none := by
  obtain ⟨hplain, hmem⟩ := hq.atoms _ List.mem_cons_self a ha
  cases hqualifier : a.qualifier with
  | none => rfl
  | some x =>
    have hnames : q.names = [[]] := by
      show (q.first :: (q.joins.map _).map _).map JoinTable.rowName = _
      rw [hjoins]
      unfold JoinTable.rowName
      simp [halias]
    unfold aliasColumn at hmem
    rw [hnames, hqualifier, List.mem_singleton, Option.getD_some] at hmem
    subst hmem
    exact absurd (hplain.qualifier [] hqualifier).identifier (by simp [isIdentifier])

/-- A conjunction keeps the rows of its table in the shard of its own equation. -/
theorem RowSelect.Plain.keptIn_of_given (hq : q.Plain) (hjoins : q.joins = [])
    (halias : q.first.aliasPart = none) (hconjunctive : q.condition.Conjunctive) {column : Str}
    {m : Nat} {a : Atom} (hcolumn : isIdentifier column = true)
    (hatom : givenAtom rt.toUnicodeData q.condition.atoms column = some a) :
    KeptIn q.whole [] column m (intText (a.value.fmod m)) := by
  have hmem : a ∈ q.condition.atoms := List.mem_of_find?_eq_some hatom
  have hcol : lower rt.toUnicodeData a.column = lower rt.toUnicodeData column := by
    simpa using List.find?_some hatom
  have hkey : columnKey a.column = columnKey column := by
    have hplain := (hq.atoms _ List.mem_cons_self a hmem).1.column.identifier
    rw [lower_ascii _ (ascii_of_isIdentifier hplain),
      lower_ascii _ (ascii_of_isIdentifier hcolumn)] at hcol
    exact hcol
  rw [keptIn_iff]
  intro row hrow
  have hcondition := (q.whole_holds _).1 hrow q.condition List.mem_cons_self
  have hequation := (q.condition.holds_iff_literals hconjunctive).1 hcondition ⟨a, true⟩
    (List.mem_map_of_mem hmem)
  have hvalue : row (a.qualifier.getD [], columnKey a.column) = a.value := hequation
  rw [hq.unqualified hjoins halias hmem, hkey] at hvalue
  rw [← hvalue]
  rfl

/-- The router takes a conjunction over one table to the shard that its own equation names. -/
theorem RowSelect.kept_of_conjunctive {t : LogicalTable} {column : Str} {m : Nat}
    {routeContext : JsonDict} {decision : RouteDecision} (hdb : db.Constraints) (hq : q.Plain)
    (hjoins : q.joins = []) (halias : q.first.aliasPart = none)
    (hconjunctive : q.condition.Conjunctive) (ht : ModRouted db t column m)
    (hname : q.first.name = t.tableName) (hcolumn : isVariable column = true)
    (hsuffix : column ≠ "route_suffix") (hm : m ≠ 0)
    (hphysical : db.getEnabledByPhysicalTableName t.tableName = .ok none)
    (hparsed : parse rt q.select.text = .ok parsed)
    (hresolved : resolve rt db parsed routeContext = .ok decision)
    (hrouted : decision.allowed = true) :
    ∀ target ∈ decision.targets, KeptIn q.whole [] column m target.routeValue := by
  intro target htarget
  obtain ⟨table, htables, htable, hwhere, hpredicates⟩ := parse_single hq hjoins halias hparsed
  have hunqualified : ∀ a ∈ q.condition.atoms, a.qualifier = none := fun a ha =>
    hq.unqualified hjoins halias ha
  have hgiven := (givenRoute_iff hdb ht hcolumn hm (htable.trans hname) hwhere htables hpredicates
    hunqualified).1 ⟨decision, target, hresolved, hrouted, htarget, rfl⟩
  generalize target.routeValue = v at hgiven
  cases hgiven with
  | registered hroute => exact absurd (hphysical.symm.trans hroute) (by simp)
  | @residue k _ _ hk _ _ =>
    unfold routedInt at hk
    cases hatom : givenAtom rt.toUnicodeData q.condition.atoms column with
    | none =>
      rw [hatom] at hk
      simp only [if_neg hsuffix] at hk
      cases hk
    | some a =>
      rw [hatom] at hk
      obtain rfl : a.value = k := Option.some.inj hk
      exact hq.keptIn_of_given hjoins halias hconjunctive (Bool.and_eq_true_iff.1 hcolumn).1 hatom

theorem RowSelect.tables_single (hjoins : q.joins = []) : q.select.tables = [q.first] := by
  show q.first :: (q.joins.map _).map _ = _
  rw [hjoins]
  rfl

/-- A conjunction keeps the rows of its table in the shard that is read. -/
theorem RowSelect.allKept_of_conjunctive {t : LogicalTable} {column : Str} {m : Nat}
    {routeContext : JsonDict} {decision : RouteDecision} (hdb : db.Constraints) (hq : q.Plain)
    (hjoins : q.joins = []) (halias : q.first.aliasPart = none)
    (hconjunctive : q.condition.Conjunctive) (ht : ModRouted db t column m)
    (hname : q.first.name = t.tableName) (hcolumn : isVariable column = true)
    (hsuffix : column ≠ "route_suffix") (hm : m ≠ 0)
    (hphysical : db.getEnabledByPhysicalTableName t.tableName = .ok none)
    (hparsed : parse rt q.select.text = .ok parsed)
    (hresolved : resolve rt db parsed routeContext = .ok decision)
    (hrouted : decision.allowed = true) :
    List.Forall₂ (fun (t : JoinTable) (target : RouteTarget) =>
      KeptIn q.whole t.rowName column m target.routeValue) q.select.tables decision.targets := by
  have hroutes : RoutesRead db q.select decision := exists_routes_of_join
    (hq.select rt.toUnicodeData) (q.select_joined (Or.inl hjoins)) hparsed hresolved hrouted
  refine List.forall₂_iff_zip.2 ⟨hroutes.length_eq, fun {t target} hmem => ?_⟩
  obtain ⟨hfirst, htarget⟩ := List.of_mem_zip hmem
  rw [tables_single hjoins, List.mem_singleton] at hfirst
  subst hfirst
  have hrow : q.first.rowName = [] := by
    unfold JoinTable.rowName
    rw [halias]
    rfl
  rw [hrow]
  exact kept_of_conjunctive hdb hq hjoins halias hconjunctive ht hname hcolumn hsuffix hm hphysical
    hparsed hresolved hrouted target htarget

/-- An allowed conjunction over one table that is routed by a remainder is answered by the shard it
is sent to as it would be by all shards together, wherever the rows are placed. -/
theorem checkedAnswers_of_conjunctive {t : LogicalTable} {column : Str} {m : Nat}
    {routeContext : JsonDict} {evaluate : Evaluator} {result : CheckResult} (hdb : db.Constraints)
    (hq : q.Plain) (hjoins : q.joins = []) (halias : q.first.aliasPart = none)
    (hconjunctive : q.condition.Conjunctive) (hlimit : 0 < q.limit) (ht : ModRouted db t column m)
    (hname : q.first.name = t.tableName) (hcolumn : isVariable column = true)
    (hsuffix : column ≠ "route_suffix")
    (hphysical : db.getEnabledByPhysicalTableName t.tableName = .ok none)
    (hall : db.AllRemainders (fun _ => m) t.tableName) (hdistinct : db.DistinctPlaces [t.tableName])
    (hcheck : SqlCheckService.check rt db evaluate q.select.text routeContext = .ok result)
    (hallowed : result.allowed = true) :
    ∃ rewritten code, SentTo result rewritten code ∧ ∀ contents,
      db.RowsPlaced (remainderKey (fun _ => column) fun _ => m) contents t.tableName → ∀ answer,
        rewritten.Answers (fun name => contents (code, name)) q.asks answer ↔
          q.select.Answers (db.rowsOf contents) q.asks answer := by
  have htables := RowSelect.tables_single hjoins
  obtain ⟨rewritten, decision, code, hsent, hrewritten⟩ := exists_rewrittenAs
    (hq.select rt.toUnicodeData) (q.select_joined (Or.inl hjoins)) hcheck hallowed
  obtain ⟨parsed, hparsed, hresolved⟩ := hrewritten.resolved
  refine ⟨rewritten, code, hsent, fun contents hplaced => ?_⟩
  have hkept := RowSelect.allKept_of_conjunctive hdb hq hjoins halias hconjunctive ht hname hcolumn
    hsuffix hall.1.ne' hphysical hparsed hresolved hrewritten.routed
  have hmeaning := @RowSelect.answers_iff_kept rt db q routeContext decision (fun _ => column)
    (fun _ => m) rewritten code hdb hq (Or.inl hjoins) hlimit hrewritten
  refine (hmeaning ?_ ?_).2 hkept contents ?_
  · rw [htables, List.forall_mem_singleton, hname]
    exact hall
  · rw [htables, List.map_singleton, hname]
    exact hdistinct
  · rw [htables, List.forall_mem_singleton, hname]
    exact hplaced

end Conjunction

/-! ## Examples -/

/-- `select * from user where uid = 3 limit 10` -/
def uidThree : RowSelect := ⟨⟨"user", none⟩, [], .conj (.prim (.atom (uidAtom 3))), 10⟩

theorem uidThree_plain : uidThree.Plain where
  tables := List.forall_mem_singleton.2 ⟨plainName_of (by decide), fun a ha => by cases ha⟩
  names := by decide
  atoms c hc a ha := by
    have hc' : c = .conj (.prim (.atom (uidAtom 3))) := List.mem_singleton.1 hc
    subst hc'
    have ha' : a = uidAtom 3 := List.mem_singleton.1 ha
    subst ha'
    exact ⟨⟨fun x hx => (by cases hx), plainName_of (by decide)⟩, by decide⟩

theorem example_allRemainders : exampleMetadata.AllRemainders (fun _ => 2) "user" := by
  unfold Metadata.AllRemainders
  decide

theorem checkedAnswers_uidThree : ∃ rewritten code, ∀ contents,
    exampleMetadata.RowsPlaced (remainderKey (fun _ => "uid") fun _ => 2) contents "user" →
      ∀ answer, JoinSelect.Answers rewritten (fun name => contents (code, name)) uidThree.asks
        answer ↔ uidThree.select.Answers (exampleMetadata.rowsOf contents) uidThree.asks
          answer := by
  have hrun : (SqlCheckService.check asciiRuntime exampleMetadata SqlCheckService.acceptPlans
      uidThree.select.text []).map (·.allowed) = .ok true := by decide +kernel
  obtain ⟨result, hcheck, hallowed⟩ := map_eq_ok.1 hrun
  obtain ⟨rewritten, code, -, hanswers⟩ :=
    checkedAnswers_of_conjunctive exampleMetadata_constraints
    uidThree_plain rfl rfl trivial (by decide) exampleTable_modRouted rfl (by decide)
      (by decide) rfl
    example_allRemainders exampleMetadata_distinctPlaces hcheck hallowed
  exact ⟨rewritten, code, hanswers⟩

end SqlGatekeeper
