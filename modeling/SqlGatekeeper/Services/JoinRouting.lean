import SqlGatekeeper.Services.Equations
import SqlGatekeeper.Services.RowCoverage
import SqlGatekeeper.Services.TableCoverage

/-!
# Joins of a table with itself

`select * from t a1 join t a2 on c2 … where W limit 1` over a table that is routed by
`int(col) % n`, where `W` is a conjunction of equations `a.x = k`.

* `SelfJoin`: such a statement; `predicates_selfJoin`: the predicates that the parser finds on the
  column are those of `W`.
* `AliasesIsolated`: every row that is asked for under an alias lives in the shard that is read
  under it.
* `OwnEquation`: an alias has an equation of its own on the column, and is routed by it.
* `aliasesIsolated_iff`: aliases are isolated exactly if they all have.
-/

namespace SqlGatekeeper

open Py Store Regex Logic

/-! ## What the join conditions equate -/

/-- A text that ends behind a space ends in what stands behind the space, or in spaces. -/
theorem endsIn_append_space {a b w : Str} (h : EndsIn (a ++ ' ' :: b) w) :
    (EndsIn a w ∧ ∀ c ∈ b, isSpace c = true) ∨ EndsIn b w := by
  obtain ⟨u, sp, htext, hu, hne, hw, hsp⟩ := h
  have hspace : ' ' ∉ w := fun hm => absurd (hw _ hm) (by decide)
  rcases List.append_eq_append_iff.1 htext with ⟨k, rfl, hk⟩ | ⟨k, rfl, hk⟩
  · cases k with
    | nil =>
      obtain ⟨c, w, rfl⟩ := List.exists_cons_of_ne_nil hne
      exact absurd ((List.cons.inj hk).1 ▸ List.mem_cons_self) hspace
    | cons c k =>
      obtain ⟨rfl, rfl⟩ := List.cons.inj hk
      refine Or.inr ⟨k, sp, rfl, fun d hd => hu d ?_, hne, hw, hsp⟩
      have hcons : k ≠ [] := fun hnil => absurd hd (by simp [hnil])
      rw [← List.singleton_append, ← List.append_assoc, Option.mem_def,
        List.getLast?_append_of_ne_nil _ hcons]
      exact hd
  · rcases List.append_eq_append_iff.1 hk with ⟨y, rfl, hy⟩ | ⟨y, hy, hb⟩
    · refine Or.inl ⟨⟨u, y, rfl, hu, hne, hw, fun c hc => hsp c ?_⟩, fun c hc => hsp c ?_⟩
      · rw [hy]
        exact List.mem_append_left _ hc
      · rw [hy]
        exact List.mem_append_right _ (List.mem_cons_of_mem _ hc)
    · cases y with
      | nil =>
        rw [List.append_nil] at hy
        rw [List.nil_append] at hb
        refine Or.inl ⟨⟨u, [], by rw [hy, List.append_nil], hu, hne, hw, by simp⟩,
          fun c hc => ?_⟩
        exact hsp c (by rw [← hb]; exact List.mem_cons_of_mem _ hc)
      | cons c y =>
        refine absurd ?_ hspace
        rw [hy, (List.cons.inj hb).1]
        exact List.mem_append_right _ List.mem_cons_self

/-- An equals sign of a text stands in front of a space, or behind it; if nothing but spaces is
between, it is behind the name in front. -/
theorem equated_append_space {a b w : Str} (h : Equated (a ++ ' ' :: b) w) :
    Equated a w ∨ (EndsIn a w ∧ (b.dropWhile isSpace).head? = some '=') ∨ Equated b w := by
  obtain ⟨e, t, htext, he⟩ := h
  rcases List.append_eq_append_iff.1 htext with ⟨y, rfl, hy⟩ | ⟨y, rfl, hy⟩
  · cases y with
    | nil => exact absurd (List.cons.inj hy).1 (by decide)
    | cons c y =>
      obtain ⟨rfl, rfl⟩ := List.cons.inj hy
      rcases endsIn_append_space he with ⟨ha, hspaces⟩ | hb
      · refine Or.inr (Or.inl ⟨ha, ?_⟩)
        have hequals : (y ++ '=' :: t).dropWhile isSpace = '=' :: t := by
          rw [List.dropWhile_append_of_pos hspaces, List.dropWhile_cons_of_neg (by decide)]
        exact congrArg List.head? hequals
      · exact Or.inr (Or.inr ⟨y, t, rfl, hb⟩)
  · cases y with
    | nil => exact absurd (List.cons.inj hy).1 (by decide)
    | cons c y =>
      obtain ⟨rfl, -⟩ := List.cons.inj hy
      exact Or.inl ⟨e, y, rfl, he⟩

/-- Behind a space and a letter, what is equated stands on one side of the space. -/
theorem equated_append_word {a b w : Str} {c : Char} (hc : c ≠ '=' ∧ isSpace c = false)
    (h : Equated (a ++ ' ' :: c :: b) w) : Equated a w ∨ Equated (c :: b) w := by
  rcases equated_append_space h with h | ⟨-, h⟩ | h
  · exact Or.inl h
  · rw [List.dropWhile_cons_of_neg (by simp [hc.2])] at h
    exact absurd (Option.some.inj h) hc.1
  · exact Or.inr h

theorem not_equated {s : Str} (hs : '=' ∉ s) (w : Str) : ¬ Equated s w := by
  rintro ⟨e, t, rfl, -⟩
  exact hs (List.mem_append_right _ List.mem_cons_self)

/-- The text of a join, without the space behind it. -/
def JoinClause.clauseText (j : JoinClause) : Str :=
  "join" ++ ' ' :: (j.table.name ++ (j.table.aliasText ++ ' ' :: ("on" ++ ' ' :: j.condition)))

/-- A statement up to its `where`. -/
def JoinSelect.beforeWhere (s : JoinSelect) : Str :=
  ("select * from " ++ (s.first.name ++ s.first.aliasText)) ++
    s.joins.flatMap fun j => ' ' :: j.clauseText

theorem joinsText_clauseText (joins : List JoinClause) (rest : Str) :
    ' ' :: (JoinSelect.joinsText joins ++ rest) =
      (joins.flatMap fun j => ' ' :: j.clauseText) ++ ' ' :: rest := by
  induction joins with
  | nil => rfl
  | cons j joins ih =>
    have hjoin : JoinSelect.joinsText (j :: joins) ++ rest =
        j.clauseText ++ ' ' :: (JoinSelect.joinsText joins ++ rest) := by
      simp only [JoinSelect.joinsText, List.flatMap_cons, JoinClause.text, JoinClause.clauseText,
        List.append_assoc, List.cons_append, List.nil_append]
    rw [hjoin, ih, List.flatMap_cons, List.append_assoc, List.cons_append]

theorem JoinSelect.text_beforeWhere (s : JoinSelect) :
    s.text = s.beforeWhere ++ (" where " ++ (s.condition ++ (" limit " ++ natText s.limit))) := by
  have hselect : ("select * from " : Str) = "select * " ++ ("from" ++ [' ']) := by decide
  have htail : ' ' :: s.tailText =
      " where " ++ (s.condition ++ (" limit " ++ natText s.limit)) := rfl
  have hassoc : ∀ (a b c d e f : Str),
      a ++ (b ++ ' ' :: (c ++ (d ++ (e ++ f)))) = ((a ++ (b ++ [' '])) ++ (c ++ d) ++ e) ++ f := by
    simp
  calc s.text
      = "select * " ++ ("from" ++ ' ' :: (s.first.name ++ (s.first.aliasText ++
          ' ' :: (JoinSelect.joinsText s.joins ++ s.tailText)))) := rfl
    _ = "select * " ++ ("from" ++ ' ' :: (s.first.name ++ (s.first.aliasText ++
          ((s.joins.flatMap fun j => ' ' :: j.clauseText) ++ ' ' :: s.tailText)))) :=
        congrArg (fun x => "select * " ++ ("from" ++ ' ' :: (s.first.name ++
          (s.first.aliasText ++ x)))) (joinsText_clauseText s.joins s.tailText)
    _ = ((("select * " ++ ("from" ++ [' '])) ++ (s.first.name ++ s.first.aliasText)) ++
          s.joins.flatMap fun j => ' ' :: j.clauseText) ++ ' ' :: s.tailText := hassoc _ _ _ _ _ _
    _ = s.beforeWhere ++ (" where " ++ (s.condition ++ (" limit " ++ natText s.limit))) :=
        congrArg₂ (fun x y => (x ++ (s.first.name ++ s.first.aliasText) ++
          s.joins.flatMap fun j => ' ' :: j.clauseText) ++ y) hselect.symm htail

/-- What the text in front of `where` equates, a join condition equates behind its `on`. -/
theorem equated_joins {joins : List JoinClause}
    (hjoins : ∀ j ∈ joins, '=' ∉ j.table.name ++ j.table.aliasText) {head w : Str}
    (h : Equated (head ++ joins.flatMap fun j => ' ' :: j.clauseText) w) :
    Equated head w ∨ ∃ j ∈ joins, Equated ("on" ++ ' ' :: j.condition) w := by
  induction joins generalizing head with
  | nil =>
    rw [List.flatMap_nil, List.append_nil] at h
    exact Or.inl h
  | cons j joins ih =>
    obtain ⟨hj, hrest⟩ := List.forall_mem_cons.1 hjoins
    rw [List.flatMap_cons, ← List.append_assoc] at h
    rcases ih hrest h with h | ⟨i, hi, h⟩
    · rcases equated_append_word ⟨by decide, by decide⟩ h with h | h
      · exact Or.inl h
      · have htable : '=' ∉ "join" ++ ' ' :: (j.table.name ++ j.table.aliasText) := by
          rw [List.mem_append, List.mem_cons]
          exact not_or.2 ⟨by decide, not_or.2 ⟨by decide, hj⟩⟩
        have hclause : j.clauseText = ("join" ++ ' ' :: (j.table.name ++ j.table.aliasText)) ++
            ' ' :: ("on" ++ ' ' :: j.condition) := by
          simp only [JoinClause.clauseText, List.append_assoc, List.cons_append]
        have h : Equated (("join" ++ ' ' :: (j.table.name ++ j.table.aliasText)) ++
            ' ' :: ("on" ++ ' ' :: j.condition)) w := hclause ▸ h
        rcases equated_append_word ⟨by decide, by decide⟩ h with h | h
        · exact absurd h (not_equated htable w)
        · exact Or.inr ⟨j, List.mem_cons_self, h⟩
    · exact Or.inr ⟨i, List.mem_cons_of_mem _ hi, h⟩

/-! ## The statements -/

/-- A join of a table with itself, under a condition on the rows of its aliases. -/
structure SelfJoin where
  first : WrittenAlias
  joins : List (WrittenAlias × Str)
  condition : Cond Atom .disj

namespace SelfJoin

/-- The statement over a table. -/
def select (q : SelfJoin) (t : Str) : JoinSelect :=
  ⟨⟨t, some q.first⟩, q.joins.map fun j => ⟨⟨t, some j.1⟩, j.2⟩,
    condText q.condition, 1⟩

/-- The aliases of a statement. -/
def aliases (q : SelfJoin) : List Str := q.first.name :: q.joins.map (·.1.name)

/-- The aliases are plain names, the condition is a conjunction of equations on columns of the
aliases, and the join conditions do not mention the column. -/
structure Plain (U : UnicodeData) (col : Str) (q : SelfJoin) : Prop where
  aliases : ∀ a ∈ q.aliases, PlainName a
  conjunctive : q.condition.Conjunctive
  atoms : ∀ e ∈ q.condition.atoms,
    (∃ a ∈ q.aliases, e.qualifier = some a) ∧ isIdentifier e.column = true
  unmentioned : ∀ j ∈ q.joins, ∀ x ∈ names ("on" ++ ' ' :: j.2), lower U x ≠ lower U col

variable {U : UnicodeData} {t col : Str} {q : SelfJoin}

theorem Plain.qualifier (hq : q.Plain U col) {e : Atom} (he : e ∈ q.condition.atoms) :
    ∀ x ∈ e.qualifier, PlainName x := by
  obtain ⟨⟨a, ha, hqualifier⟩, -⟩ := hq.atoms e he
  intro x hx
  obtain rfl : a = x := by
    rw [hqualifier] at hx
    exact Option.some.inj hx
  exact hq.aliases a ha

theorem noEquals_aliased (ht : isIdentifier t = true) {a : WrittenAlias} (ha : PlainName a.name) :
    '=' ∉ t ++ (⟨t, some a⟩ : JoinTable).aliasText := by
  have hname : ∀ {x : Str}, isIdentifier x = true → '=' ∉ x := fun hx hm => by
    exact absurd (isNameChar_of_isIdentifier hx _ hm) (by decide)
  have hseparator : ∀ withAs, '=' ∉ aliasSeparator withAs := by decide
  have halias : '=' ∉ aliasSeparator a.withAs ++ a.name := by
    rw [List.mem_append]
    exact not_or.2 ⟨hseparator a.withAs, hname ha.identifier⟩
  rw [List.mem_append]
  exact not_or.2 ⟨hname ht, halias⟩

/-- What the text in front of `where` equates is not the column. -/
theorem lower_ne_of_equated (ht : isIdentifier t = true) (hq : q.Plain U col) {w : Str}
    (h : Equated (q.select t).beforeWhere w) : lower U (nameOf w) ≠ lower U col := by
  have hjoins : ∀ j ∈ (q.select t).joins, '=' ∉ j.table.name ++ j.table.aliasText := by
    intro j hj
    obtain ⟨i, hi, rfl⟩ := List.mem_map.1 hj
    exact noEquals_aliased ht (hq.aliases _ (List.mem_cons_of_mem _ (List.mem_map_of_mem hi)))
  rcases equated_joins hjoins h with h | ⟨j, hj, h⟩
  · refine absurd h (not_equated ?_ w)
    rw [List.mem_append]
    exact not_or.2 ⟨by decide, noEquals_aliased ht (hq.aliases _ List.mem_cons_self)⟩
  · obtain ⟨i, hi, rfl⟩ := List.mem_map.1 hj
    exact hq.unmentioned i hi _ (List.mem_map_of_mem h.mem_runs)

/-- The predicates of a statement: those of its condition, behind others on other columns. -/
theorem predicates_selfJoin (ht : isIdentifier t = true) (hq : q.Plain U col) :
    ∃ found, ((predicatePattern U).finditer (q.select t).text).filterMap predicateOfMatch =
      found ++ q.condition.atoms.map Atom.predicate ∧
      ∀ p ∈ found, lower U p.column ≠ lower U col := by
  have hvalid : ∀ e ∈ q.condition.atoms, e.Valid := fun e he =>
    ⟨fun x hx => (hq.qualifier he x hx).identifier, (hq.atoms e he).2⟩
  have hends : Ends U (" limit " ++ natText 1) := ends_of_head (c := ' ') (by decide) (by decide)
  obtain ⟨found, hfound, hequated⟩ := predicates_behind_text hvalid (q.select t).beforeWhere
    (noQuote_of_all (by decide) : ∀ d ∈ (" limit " : Str) ++ natText 1,
      d ≠ '\'' ∧ d ≠ '"')
    (by decide) hends
  refine ⟨found, ?_, fun p hp => ?_⟩
  · rw [JoinSelect.text_beforeWhere]
    exact hfound
  · obtain ⟨w, hw, hname⟩ := hequated p hp
    rw [← hname]
    exact lower_ne_of_equated ht hq hw

end SelfJoin

/-! ## Isolation -/

/-- What an equation of the condition fixes: a column of an alias. -/
def aliasColumn (e : Atom) : Str × Str := (e.qualifier.getD [], columnKey e.column)

/-- A choice of rows, one for each alias, satisfies the condition. -/
def SelfJoin.Asks (q : SelfJoin) (rows : Str × Str → Int) : Prop :=
  q.condition.Holds (EquationHolds aliasColumn Atom.value rows)

/-- The parser finds a reference to the table under an alias. -/
def Referenced (parsed : ParsedSql) (t a : Str) : Prop :=
  ∃ p ∈ parsed.tables, p.tableName = t ∧ p.aliasName = some a

/-- Every row that is asked for under an alias lives in the shard that is read under it. -/
def AliasesIsolated (q : SelfJoin) (t col : Str) (n : Nat) (parsed : ParsedSql)
    (targets : List RouteTarget) : Prop :=
  ∀ p target, (p, target) ∈ parsed.tables.zip targets → ∀ a ∈ q.aliases, p.tableName =
    t → p.aliasName = some a → ∀ rows, q.Asks rows →
      intText ((rows (a, columnKey col)).fmod n) = target.routeValue

/-- The equation that the router takes for an alias: the first on the column under its name, in
whatever case. -/
def aliasAtom (U : UnicodeData) (atoms : List Atom) (col a : Str) : Option Atom :=
  atoms.find? fun e => e.predicate.isOn U col (some a)

/-- The route value of the table that is read under an alias, where the alias has an equation on the
column: that of the route registered for the name, else the remainder of the equation taken. -/
inductive AliasRoute (U : UnicodeData) (db : Metadata) (t col : Str) (n : Nat) (atoms : List Atom)
    (a : Str) : Str → Prop
  | registered {r : PhysicalTableRoute}
      (hroute : db.getEnabledByPhysicalTableName t = .ok (some r)) :
      AliasRoute U db t col n atoms a r.routeValue
  | residue {g : Atom} (hroute : db.getEnabledByPhysicalTableName t = .ok none)
      (hg : aliasAtom U atoms col a = some g) :
      AliasRoute U db t col n atoms a (intText (g.value.fmod n))

/-- An alias has an equation of its own on the column, with the remainder by which it is routed. -/
def OwnEquation (U : UnicodeData) (db : Metadata) (t col : Str) (n : Nat) (atoms : List Atom)
    (a : Str) : Prop :=
  ∃ e ∈ atoms, e.qualifier = some a ∧ columnKey e.column = columnKey col ∧
    ∀ v, AliasRoute U db t col n atoms a v → intText (e.value.fmod n) = v

/-- There is one shard only, also for a table that is registered itself. -/
def OneShard (db : Metadata) (t : Str) (n : Nat) : Prop :=
  n = 1 ∧ ∀ r, db.getEnabledByPhysicalTableName t = .ok (some r) → r.routeValue = "0"

section Isolation

variable {rt : Runtime} {db : Metadata} {parsed : ParsedSql} {routeContext : JsonDict}
  {t : LogicalTable} {col : Str} {n : Nat} {q : SelfJoin}

theorem lower_eq_of_columnKey {U : UnicodeData} {x y : Str} (hx : isIdentifier x = true)
    (hy : isIdentifier y = true) (h : columnKey x = columnKey y) : lower U x = lower U y := by
  rw [lower_ascii U (ascii_of_isIdentifier hx), lower_ascii U (ascii_of_isIdentifier hy)]
  exact h

/-- The router finds an equation for an alias that has one of its own. -/
theorem exists_aliasAtom {U : UnicodeData} {atoms : List Atom} (hcol : isIdentifier col = true)
    {e : Atom} (he : e ∈ atoms) (hcolumn : isIdentifier e.column = true) {a : Str}
    (hqualifier : e.qualifier = some a) (hkey : columnKey e.column = columnKey col) :
    ∃ g, aliasAtom U atoms col a = some g := by
  rw [← Option.isSome_iff_exists, aliasAtom, List.find?_isSome]
  refine ⟨e, he, ?_⟩
  rw [ParsedPredicate.isOn, decide_eq_true_eq]
  refine ⟨lower_eq_of_columnKey hcolumn hcol hkey, fun x hx => ?_⟩
  obtain rfl : a = x := Option.some.inj hx
  rw [Atom.predicate, hqualifier]
  rfl

/-- A table with an alias is routed as its alias says. -/
theorem routeValue_of_aliasRoute (hdb : db.Constraints) (ht : ModRouted db t col n)
    (hcol : isVariable col = true) (hn : n ≠ 0) {found : List ParsedPredicate} {atoms : List Atom}
    (hpredicates : parsed.predicates = found ++ atoms.map Atom.predicate)
    (hfound : ∀ p ∈ found, lower rt.toUnicodeData p.column ≠ lower rt.toUnicodeData col)
    {table : ParsedTable} (hname : table.tableName = t.tableName) {a : Str}
    (halias : table.aliasName = some a) {target : RouteTarget} {d : Option RouteDiagnostic}
    (h : resolveTable rt db parsed routeContext table = .ok (.target target d)) {v : Str}
    (hv : AliasRoute rt.toUnicodeData db t.tableName col n atoms a v) : target.routeValue = v := by
  cases hv with
  | registered hroute => exact ((resolveTable_physical (hname ▸ hroute)).1
      ⟨target, d, h, rfl⟩).1
  | @residue g hroute hg =>
    obtain ⟨-, -, s, k, hs, hk, hv⟩ :=
      (resolveTable_mod hdb ht hcol hn hname (hname ▸ hroute)).1 ⟨target, d, h, rfl⟩
    have hvalue : columnValue rt.toUnicodeData parsed table col = some (intText g.value) := by
      have hown := hg
      rw [aliasAtom] at hown
      rw [columnValue, predicateValue_behind hpredicates hfound,
        predicateValue_behind hpredicates hfound, halias, hown, orElse_intText, if_neg (by simp)]
      rfl
    rw [modFactorValue, hvalue] at hs
    obtain rfl : intText g.value = s := Option.some.inj hs
    rw [rt.int_intText] at hk
    split at hk
    · obtain rfl : g.value = k := Except.ok.inj hk
      exact hv
    · exact absurd hk (by simp)

/-- A table that resolves has one route registered for its name, or none. -/
theorem exists_physicalRoute {table : ParsedTable} {target : RouteTarget}
    {d : Option RouteDiagnostic}
    (h : resolveTable rt db parsed routeContext table = .ok (.target target d)) :
    ∃ route, db.getEnabledByPhysicalTableName table.tableName = .ok route := by
  obtain ⟨route, hroute, -⟩ := bind_eq_ok.1 h
  exact ⟨route, hroute⟩

/-- A table with an equation under its alias has a route value by it. -/
theorem exists_aliasRoute {U : UnicodeData} {atoms : List Atom} {a : Str} {g : Atom}
    (hg : aliasAtom U atoms col a = some g) {route : Option PhysicalTableRoute}
    (hroute : db.getEnabledByPhysicalTableName t.tableName = .ok route) :
    ∃ v, AliasRoute U db t.tableName col n atoms a v := by
  cases route with
  | some r => exact ⟨_, .registered hroute⟩
  | none => exact ⟨_, .residue hroute hg⟩

/-- Where there is one shard only, every target is in it. -/
theorem routeValue_of_oneShard (hdb : db.Constraints) (ht : ModRouted db t col n)
    (hcol : isVariable col = true) (hone : OneShard db t.tableName n) {table : ParsedTable}
    (hname : table.tableName = t.tableName) {target : RouteTarget} {d : Option RouteDiagnostic}
    (h : resolveTable rt db parsed routeContext table = .ok (.target target d)) :
    target.routeValue = "0" := by
  obtain ⟨rfl, hzero⟩ := hone
  obtain ⟨route, hroute⟩ := exists_physicalRoute h
  cases route with
  | some r =>
    rw [((resolveTable_physical hroute).1 ⟨target, d, h, rfl⟩).1]
    exact hzero r (hname ▸ hroute)
  | none =>
    obtain ⟨-, -, s, k, -, -, hv⟩ :=
      (resolveTable_mod hdb ht hcol one_ne_zero hname hroute).1 ⟨target, d, h, rfl⟩
    rw [hv, intText_fmod_one]

/-- In an allowed join every row lives in the shard that is read under its alias, exactly if there
is one shard only, the condition contradicts itself, or every alias has an equation of its own. -/
theorem aliasesIsolated_iff (hdb : db.Constraints) (ht : ModRouted db t col n)
    (hcol : isVariable col = true) (hn : 0 < n) (hname : isIdentifier t.tableName = true)
    (hq : q.Plain rt.toUnicodeData col)
    (hparsed : parse rt (q.select t.tableName).text = .ok parsed)
    {decision : RouteDecision} (hdecision : resolve rt db parsed routeContext = .ok decision)
    (ha : decision.allowed = true) :
    AliasesIsolated q t.tableName col n parsed decision.targets ↔
      OneShard db t.tableName n ∨ ¬ Consistent aliasColumn Atom.value q.condition.literals ∨
        ∀ a ∈ q.aliases, Referenced parsed t.tableName a →
          OwnEquation rt.toUnicodeData db t.tableName col n q.condition.atoms a := by
  obtain ⟨found, hpredicates, hfound⟩ := SelfJoin.predicates_selfJoin hname hq
  rw [← (parse_eq_ok hparsed).2.2] at hpredicates
  obtain ⟨-, htargets⟩ := resolve_allowed hdecision ha
  have hident : isIdentifier col = true := by
    rw [isVariable, Bool.and_eq_true] at hcol
    exact hcol.1
  have hroute : ∀ {p target a v}, (p, target) ∈ parsed.tables.zip decision.targets →
      p.tableName = t.tableName → p.aliasName = some a →
      AliasRoute rt.toUnicodeData db t.tableName col n q.condition.atoms a v →
        target.routeValue = v := fun hmem hp halias hv => by
    obtain ⟨d, hd⟩ := List.forall₂_zip htargets hmem
    exact routeValue_of_aliasRoute hdb ht hcol hn.ne' hpredicates hfound hp halias hd hv
  constructor
  · intro hisolated
    by_contra hnot
    push Not at hnot
    obtain ⟨hone, hsat, a, hmem, ⟨p, hp, htable, halias⟩, hown⟩ := hnot
    have hpairs : List.Forall₂ (fun p target =>
      (p, target) ∈ parsed.tables.zip decision.targets)
        parsed.tables decision.targets := List.forall₂_iff_zip.2 ⟨htargets.length_eq,
          fun h => h⟩
    obtain ⟨target, -, htarget⟩ := exists_of_forall₂_left hpairs hp
    obtain ⟨d, hd⟩ := List.forall₂_zip htargets htarget
    have hfill : ∀ free, (∀ l ∈ q.condition.literals, l.atom.value ≠ free) →
        intText ((fill aliasColumn Atom.value q.condition.literals free (a, columnKey col)).fmod
          n) = target.routeValue := fun free hfree =>
      hisolated p target htarget a hmem htable halias _
        ((Cond.holds_iff_literals hq.conjunctive).2 (fill_holds hsat hfree))
    obtain ⟨bound, hbound⟩ := exists_free q.condition.literals Atom.value
    by_cases hopen : ∀ l ∈ q.condition.literals, l.positive = true →
        aliasColumn l.atom ≠ (a, columnKey col)
    · -- The alias is left open, so neighbouring rows are in the same shard.
      have h0 := hfill bound (hbound bound le_rfl)
      have h1 := hfill (bound + 1) (hbound _ (by omega))
      rw [fill_of_open hopen] at h0 h1
      obtain rfl : n = 1 := modulus_of_neighbours h0 h1
      refine hone ⟨rfl, fun r hr => ?_⟩
      rw [← hroute htarget htable halias (.registered hr), ← h0, intText_fmod_one]
    · push Not at hopen
      obtain ⟨l, hl, hpos, hcolumn⟩ := hopen
      obtain ⟨e, he, rfl⟩ := List.mem_map.1 hl
      obtain ⟨⟨x, -, hqualifier⟩, -⟩ := hq.atoms e he
      obtain ⟨hx, hkey⟩ := Prod.mk.inj hcolumn
      rw [hqualifier, Option.getD_some] at hx
      subst hx
      refine hown ⟨e, he, hqualifier, hkey, fun v hv => ?_⟩
      have hvalue := hfill bound (hbound bound le_rfl)
      rwa [← hcolumn, fill_of_positive hsat hl hpos, hroute htarget htable halias hv] at hvalue
  · rintro hcond p target hmem a haliases htable halias rows hrows
    have hclause := (Cond.holds_iff_literals hq.conjunctive).1 hrows
    obtain ⟨d, hd⟩ := List.forall₂_zip htargets hmem
    rcases hcond with hone | hcontra | hown
    · rw [routeValue_of_oneShard hdb ht hcol hone htable hd, hone.1, intText_fmod_one]
    · exact absurd (consistent_of_holds hclause) hcontra
    · obtain ⟨p', hp'⟩ : Referenced parsed t.tableName a :=
        ⟨p, (List.of_mem_zip hmem).1, htable, halias⟩
      obtain ⟨e, he, hqualifier, hkey, hsame⟩ := hown a haliases ⟨p', hp'⟩
      obtain ⟨g, hg⟩ := exists_aliasAtom hident he (hq.atoms e he).2 hqualifier hkey
      obtain ⟨route, hphysical⟩ := exists_physicalRoute hd
      obtain ⟨v, hv⟩ := exists_aliasRoute (n := n) hg (htable ▸ hphysical)
      have hrow : rows (aliasColumn e) = e.value := hclause _ (List.mem_map_of_mem he)
      rw [aliasColumn, hqualifier, Option.getD_some, hkey] at hrow
      rw [hrow, hsame v hv, hroute hmem htable halias hv]

end Isolation

/-! ## References -/

/-- The joined tables of a statement are plain, if its names and join conditions are. -/
theorem SelfJoin.Plain.select {U : UnicodeData} {t col : Str} {q : SelfJoin} (hq : q.Plain U col)
    (ht : PlainName t) (hcolumns : ∀ e ∈ q.condition.atoms, PlainName e.column)
    (hjoins : ∀ j ∈ q.joins, NoWord U (isWordOf tableWords) j.2) : (q.select t).Plain U where
  tables := by
    have htable : ∀ w : WrittenAlias, w.name ∈ q.aliases →
        (⟨t, some w⟩ : JoinTable).Plain :=
      fun w hw => ⟨ht, fun a ha => Option.some.inj ha ▸ hq.aliases _ hw⟩
    refine List.forall_mem_cons.2 ⟨htable q.first List.mem_cons_self, fun x hx => ?_⟩
    obtain ⟨j, hj, rfl⟩ := List.mem_map.1 hx
    obtain ⟨i, hi, rfl⟩ := List.mem_map.1 hj
    exact htable i.1 (List.mem_cons_of_mem _ (List.mem_map_of_mem hi))
  joinConditions j hj := by
    obtain ⟨i, hi, rfl⟩ := List.mem_map.1 hj
    exact hjoins i hi
  condition := noWord_condText (by decide) (by decide) (by decide) q.condition
    fun e he => ⟨hq.qualifier he, hcolumns e he⟩

/-- If no join condition has a word `from` or `join`, the parser finds a reference under every
alias. -/
theorem referenced_of_noTableWord {rt : Runtime} {t col : Str} {q : SelfJoin}
    (hq : q.Plain rt.toUnicodeData col) (ht : PlainName t)
    (hcolumns : ∀ e ∈ q.condition.atoms, PlainName e.column)
    (hjoins : ∀ j ∈ q.joins, NoWord rt.toUnicodeData (isWordOf tableWords) j.2)
    {parsed : ParsedSql}
    (hparsed : parse rt (q.select t).text = .ok parsed) : ∀ a ∈ q.aliases,
    Referenced parsed t a := by
  have hread : List.Forall₂ JoinTable.ReadAs (q.select t).tables parsed.tables := by
    rw [(parse_eq_ok hparsed).2.1]
    exact tables_of_aliased (hq.select ht hcolumns hjoins) (a := q.first) rfl
  have hreferenced : ∀ w : WrittenAlias, (⟨t, some w⟩ : JoinTable) ∈ (q.select t).tables →
      Referenced parsed t w.name := by
    intro w hw
    obtain ⟨p, hp, htable, halias⟩ := exists_of_forall₂_left hread hw
    exact ⟨p, hp, htable, halias w rfl⟩
  refine List.forall_mem_cons.2 ⟨hreferenced q.first List.mem_cons_self, fun a ha => ?_⟩
  obtain ⟨i, hi, rfl⟩ := List.mem_map.1 ha
  exact hreferenced i.1 (List.mem_cons_of_mem _ (List.mem_map_of_mem (List.mem_map_of_mem hi)))

/-! ## Examples -/

/-- Users joined under two aliases. -/
def userJoin (condition : Cond Atom .disj) : SelfJoin :=
  ⟨⟨false, "a"⟩, [(⟨false, "b"⟩, "a.id = b.id")], condition⟩

/-- `a.uid = 3` -/
def onlyFirst : Cond Atom .disj := .conj (.prim (.atom ⟨some "a", "uid", 3⟩))

/-- `a.uid = 3 and b.uid = 4` -/
def bothAliases : Cond Atom .disj :=
  .conj (.and (.prim (.atom ⟨some "a", "uid", 3⟩)) (.atom ⟨some "b", "uid", 4⟩))

/-- The second alias is routed by the equation of the first. -/
theorem onlyFirst_not_isolated :
    (userJoin onlyFirst |>.select "user").text =
      "select * from user a join user b on a.id = b.id where a.uid = 3 limit 1" ∧
    ∃ parsed decision, parse asciiRuntime ((userJoin onlyFirst).select "user").text =
      .ok parsed ∧ resolve asciiRuntime exampleMetadata parsed [] = .ok decision ∧
        decision.allowed = true ∧
      ¬ AliasesIsolated (userJoin onlyFirst) "user" "uid" 2 parsed decision.targets := by
  refine ⟨by decide, ?_⟩
  have hrun : ((parse asciiRuntime ((userJoin onlyFirst).select "user").text).bind fun parsed =>
      (resolve asciiRuntime exampleMetadata parsed []).map fun decision => (decision.allowed,
        (parsed.tables.zip decision.targets).map fun x =>
          x.1.tableName :: x.2.routeValue :: x.1.aliasName.toList)) =
      .ok (true, [["user", "1", "a"], ["user", "1", "b"]]) := by decide +kernel
  obtain ⟨parsed, hparsed, hrun⟩ := bind_eq_ok.1 hrun
  obtain ⟨decision, hdecision, hrun⟩ := map_eq_ok.1 hrun
  obtain ⟨ha, hzip⟩ := Prod.mk.inj hrun
  refine ⟨parsed, decision, hparsed, hdecision, ha, fun hisolated => ?_⟩
  have hsecond : ([("user" : Str), ("1" : Str), ("b" : Str)] : List Str) ∈
      (parsed.tables.zip decision.targets).map fun x =>
        x.1.tableName :: x.2.routeValue :: x.1.aliasName.toList :=
    hzip ▸ List.mem_cons_of_mem _ List.mem_cons_self
  obtain ⟨⟨p, target⟩, hmem, hx⟩ := List.mem_map.1 hsecond
  obtain ⟨hname, hx⟩ := List.cons.inj hx
  obtain ⟨hroute, halias⟩ := List.cons.inj hx
  -- A row of the second alias with an even number.
  have hrow := hisolated p target hmem "b" (by decide) hname
    (Option.toList_eq_singleton_iff.1 halias)
    (fun x => if x.1 = "a" then 3 else 4) rfl
  rw [hroute] at hrow
  exact absurd hrow (by decide)

theorem bothAliases_plain : (userJoin bothAliases).Plain asciiData "uid" where
  aliases := by
    refine List.forall_mem_cons.2 ⟨plainName_of (by decide), List.forall_mem_singleton.2 ?_⟩
    exact plainName_of (by decide)
  conjunctive := ⟨trivial, trivial⟩
  atoms := by
    refine List.forall_mem_cons.2 ⟨⟨⟨"a", by decide, rfl⟩, by decide⟩,
      List.forall_mem_singleton.2 ⟨⟨"b", by decide, rfl⟩, by decide⟩⟩
  unmentioned := by
    refine List.forall_mem_singleton.2 ?_
    decide

/-- Two aliases with an equation each. -/
theorem aliasesIsolated_bothAliases : ∃ parsed decision,
    parse asciiRuntime ((userJoin bothAliases).select "user").text = .ok parsed ∧
      resolve asciiRuntime exampleMetadata parsed [] = .ok decision ∧ decision.allowed = true ∧
      AliasesIsolated (userJoin bothAliases) "user" "uid" 2 parsed decision.targets := by
  have hrun : ((parse asciiRuntime ((userJoin bothAliases).select "user").text).bind fun parsed =>
      resolve asciiRuntime exampleMetadata parsed []).map (·.allowed) = .ok true := by
    decide +kernel
  obtain ⟨decision, hrun, ha⟩ := map_eq_ok.1 hrun
  obtain ⟨parsed, hparsed, hdecision⟩ := bind_eq_ok.1 hrun
  have hown : ∀ a ∈ (userJoin bothAliases).aliases,
      OwnEquation asciiRuntime.toUnicodeData exampleMetadata "user" "uid" 2
        bothAliases.atoms a := by
    have hphysical : exampleMetadata.getEnabledByPhysicalTableName "user" = .ok none := rfl
    have hroute : ∀ {a e}, aliasAtom asciiRuntime.toUnicodeData bothAliases.atoms "uid" a =
        some e → ∀ v, AliasRoute asciiRuntime.toUnicodeData exampleMetadata "user" "uid" 2
          bothAliases.atoms a v → intText (e.value.fmod 2) = v := fun he v hv => by
      cases hv with
      | registered hr => exact absurd (hr.symm.trans hphysical) (by simp)
      | residue _ hg => rw [Option.some.inj (he.symm.trans hg)]; rfl
    exact List.forall_mem_cons.2 ⟨⟨_, List.mem_cons_self, rfl, rfl, hroute (by decide)⟩,
      List.forall_mem_singleton.2 ⟨_, List.mem_cons_of_mem _ List.mem_cons_self, rfl,
        rfl, hroute (by decide)⟩⟩
  exact ⟨parsed, decision, hparsed, hdecision, ha,
    (aliasesIsolated_iff exampleMetadata_constraints exampleTable_modRouted rfl (by decide)
      (by decide) bothAliases_plain hparsed hdecision ha).2
      (Or.inr (Or.inr fun a hmem _ => hown a hmem))⟩

end SqlGatekeeper
