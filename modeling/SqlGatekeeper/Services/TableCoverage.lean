import SqlGatekeeper.Services.SelectText
import SqlGatekeeper.Services.Checker

/-!
# Which tables the parser sees

Statements of the form `select * from t1 [a1] join t2 [a2] on c2 … where w limit k`.

* `JoinSelect`: such a statement, and its text.
* `tables_of_aliased`, `tables_of_single`: with an alias on the first table, or without joins,
  the parser finds every table.
* `tables_of_bare`: otherwise the `join` behind the first table is read as its alias, and the
  second table is missed.
* `tablesFound_iff`: when every table is found, and goes through the gate.
-/

namespace SqlGatekeeper

open Py Regex SqlCheckService

/-! ## The statements -/

/-- An alias, written with `as` or without. -/
structure WrittenAlias where
  withAs : Bool
  name : Str

/-- A table with its alias. -/
structure JoinTable where
  name : Str
  aliasPart : Option WrittenAlias

/-- What stands behind the name of a table. -/
def JoinTable.aliasText (t : JoinTable) : Str :=
  match t.aliasPart with
  | some a => aliasSeparator a.withAs ++ a.name
  | none => []

/-- A joined table with its condition. -/
structure JoinClause where
  table : JoinTable
  condition : Str

/-- The text of a join, with the space behind it. -/
def JoinClause.text (j : JoinClause) : Str :=
  "join" ++ ' ' :: (j.table.name ++ (j.table.aliasText ++
    ' ' :: ("on" ++ ' ' :: (j.condition ++ [' ']))))

/-- A statement over joined tables. -/
structure JoinSelect where
  first : JoinTable
  joins : List JoinClause
  condition : Str
  limit : Nat

namespace JoinSelect

/-- What stands behind the joins. -/
def tailText (s : JoinSelect) : Str :=
  "where" ++ ' ' :: (s.condition ++ ' ' :: ("limit" ++ ' ' :: natText s.limit))

/-- The text of the joins. -/
def joinsText (joins : List JoinClause) : Str := joins.flatMap JoinClause.text

/-- A statement from its `from` on. -/
def fromText (s : JoinSelect) : Str :=
  "from" ++ ' ' :: (s.first.name ++ (s.first.aliasText ++
    ' ' :: (joinsText s.joins ++ s.tailText)))

/-- The text of a statement. -/
def text (s : JoinSelect) : Str := "select * " ++ s.fromText

/-- The tables of a statement. -/
def tables (s : JoinSelect) : List JoinTable := s.first :: s.joins.map (·.table)

end JoinSelect

/-- Name and alias of a table are plain. -/
structure JoinTable.Plain (t : JoinTable) : Prop where
  name : PlainName t.name
  aliasName : ∀ a ∈ t.aliasPart, PlainName a.name

/-- Names and aliases are plain, and no condition has a word `from` or `join`. -/
structure JoinSelect.Plain (U : UnicodeData) (s : JoinSelect) : Prop where
  tables : ∀ t ∈ s.tables, t.Plain
  joinConditions : ∀ j ∈ s.joins, NoWord U (isWordOf tableWords) j.condition
  condition : NoWord U (isWordOf tableWords) s.condition

theorem tableWords_subset : tableWords ⊆ sqlKeywords := by decide

/-- A text between two spaces may stand between references. -/
theorem gap_of_spaces {U : UnicodeData} {a : Str} (ha : NoWord U (isWordOf tableWords) a) :
    Gap U (' ' :: (a ++ [' '])) where
  noTableWord := by
    rw [noWord_space]
    exact noWord_append_space.2 ⟨ha, noWord_nil⟩
  head c hc := by
    obtain rfl : ' ' = c := by simpa using hc
    exact foldClass_space
  last := ⟨' ', by rw [← List.cons_append]; exact List.getLast?_append_of_ne_nil _ (by simp),
    isWord_space U⟩

theorem gap_space {U : UnicodeData} : Gap U [' '] where
  noTableWord := noWord_space.2 noWord_nil
  head c hc := by
    obtain rfl : ' ' = c := by simpa using hc
    exact foldClass_space
  last := ⟨' ', rfl, isWord_space U⟩

/-! ## What the pattern reads -/

/-- The reference that the pattern reads at a table, between two words: without an alias the
word behind the table is read as one. -/
def JoinTable.reference (keyword next : Str) (t : JoinTable) : Reference :=
  match t.aliasPart with
  | some a => ⟨keyword, t.name, a.withAs, a.name⟩
  | none => ⟨keyword, t.name, false, next⟩

/-- What the reference leaves over of the word behind the table. -/
def JoinTable.restText (next : Str) (t : JoinTable) : Str :=
  match t.aliasPart with
  | some _ => ' ' :: next
  | none => []

theorem JoinTable.text_reference (keyword next : Str) (t : JoinTable) :
    keyword ++ ' ' :: (t.name ++ (t.aliasText ++ ' ' :: next)) =
      (t.reference keyword next).text ++ t.restText next := by
  rw [JoinTable.reference, JoinTable.restText, JoinTable.aliasText, Reference.text]
  cases t.aliasPart with
  | none => simp [aliasSeparator]
  | some a => simp

theorem JoinTable.reference_valid {t : JoinTable} (ht : t.Plain) {keyword next : Str}
    (hkeyword : keyword = "from" ∨ keyword = "join") (hnext : isIdentifier next = true)
    (hnot : foldsToWord "as" next = false) : (t.reference keyword next).Valid := by
  rw [JoinTable.reference]
  cases ha : t.aliasPart with
  | none => exact ⟨hkeyword, ht.name.identifier, hnext, fun _ => hnot⟩
  | some a =>
    have hplain := ht.aliasName a ha
    exact ⟨hkeyword, ht.name.identifier, hplain.identifier, fun _ =>
      hplain.foldsToWord (by decide)⟩

/-- Is a parsed table the one that is written, under the alias that is written? -/
def JoinTable.ReadAs (t : JoinTable) (p : ParsedTable) : Prop :=
  p.tableName = t.name ∧ ∀ a ∈ t.aliasPart, p.aliasName = some a.name

theorem JoinTable.readAs_of_reference {t : JoinTable} {keyword next : Str} {p : ParsedTable}
    (h : p.tableName = (t.reference keyword next).name ∧
      p.aliasName = some (t.reference keyword next).aliasName) : t.ReadAs p := by
  rw [JoinTable.reference] at h
  rw [JoinTable.ReadAs]
  cases ha : t.aliasPart with
  | none =>
    rw [ha] at h
    exact ⟨h.1, by simp⟩
  | some a =>
    rw [ha] at h
    refine ⟨h.1, fun b hb => ?_⟩
    obtain rfl : a = b := Option.some.inj hb
    exact h.2

/-- The reference of a join, and the text behind it. -/
def JoinClause.reference (j : JoinClause) : Reference × Str :=
  (j.table.reference "join" "on", j.table.restText "on" ++ ' ' :: (j.condition ++ [' ']))

theorem JoinClause.text_eq (j : JoinClause) : j.text = j.reference.1.text ++ j.reference.2 := by
  have h := j.table.text_reference "join" "on"
  simp only [JoinClause.text, JoinClause.reference]
  rw [← List.append_assoc (Reference.text _), ← h]
  simp only [List.append_assoc, List.cons_append]

theorem joinsText_eq (joins : List JoinClause) :
    JoinSelect.joinsText joins = referencesText (joins.map JoinClause.reference) := by
  induction joins with
  | nil => rfl
  | cons j joins ih =>
    rw [JoinSelect.joinsText, List.flatMap_cons, ← JoinSelect.joinsText, ih, JoinClause.text_eq,
      List.append_assoc]
    rfl

theorem JoinClause.reference_valid {U : UnicodeData} {j : JoinClause} (hj : j.table.Plain)
    (hcond : NoWord U (isWordOf tableWords) j.condition) : j.reference.1.Valid ∧
    Gap U j.reference.2 := by
  refine ⟨JoinTable.reference_valid hj (Or.inr rfl) (by decide) (by decide), ?_⟩
  rw [JoinClause.reference, JoinTable.restText]
  cases j.table.aliasPart with
  | none => exact gap_of_spaces hcond
  | some a =>
    have h : NoWord U (isWordOf tableWords) ("on" ++ ' ' :: j.condition) :=
      noWord_append_space.2 ⟨noWord_of_keyword (by decide) (by decide), hcond⟩
    have hgap := gap_of_spaces h
    rw [List.append_assoc] at hgap
    exact hgap

theorem referenceTables_forall (refs : List (Reference × Str)) (pos : Nat) :
    List.Forall₂ (fun (p : Reference × Str) (t : ParsedTable) =>
      t.tableName = p.1.name ∧ t.aliasName = some p.1.aliasName) refs
        (referenceTables refs pos) := by
  induction refs generalizing pos with
  | nil => exact .nil
  | cons p refs ih =>
    obtain ⟨r, gap⟩ := p
    exact .cons ⟨rfl, rfl⟩ (ih _)

/-- The parser finds references under their names and aliases. -/
theorem forall_tables {U : UnicodeData} {refs : List (Reference × Str)} {before text tail : Str}
    (htext : text = referencesText refs ++ tail) (hrefs : ∀ p ∈ refs, p.1.Valid ∧ Gap U p.2)
    (hbefore : Lead U before) (htail : NoWord U (isWordOf tableWords) tail) :
    List.Forall₂ (fun (p : Reference × Str) (t : ParsedTable) =>
      t.tableName = p.1.name ∧ t.aliasName = some p.1.aliasName) refs
      (((tablePattern U).finditer (before ++ text)).filterMap tableOfMatch) := by
  rw [htext, tables_of_references hrefs hbefore htail]
  exact referenceTables_forall refs _

section Statement

variable {U : UnicodeData} {s : JoinSelect}

theorem noTableWord_tailText (hs : s.Plain U) : NoWord U (isWordOf tableWords) s.tailText := by
  have htext : s.tailText =
      "where" ++ ' ' :: (s.condition ++ ' ' :: ("limit" ++ ' ' :: natText s.limit)) := rfl
  rw [htext, noWord_append_space, noWord_append_space, noWord_append_space]
  exact ⟨noWord_of_keyword (by decide) (by decide), hs.condition,
    noWord_of_keyword (by decide) (by decide), noWord_natText (by decide) _⟩

/-- The joins of a plain statement. -/
theorem references_valid (hs : s.Plain U) {joins : List JoinClause}
    (hj : ∀ j ∈ joins, j ∈ s.joins) :
    ∀ p ∈ joins.map JoinClause.reference, p.1.Valid ∧ Gap U p.2 := by
  intro p hp
  obtain ⟨j, hmem, rfl⟩ := List.mem_map.1 hp
  exact JoinClause.reference_valid
    (hs.tables j.table (List.mem_cons_of_mem _ (List.mem_map_of_mem (hj j hmem))))
    (hs.joinConditions j (hj j hmem))

/-- What is read as the references of a first table and of joins. -/
theorem forall_readAs {t : JoinTable} {keyword next gap : Str} (joins : List JoinClause)
    {found : List ParsedTable}
    (h : List.Forall₂ (fun (p : Reference × Str) (t : ParsedTable) =>
      t.tableName = p.1.name ∧ t.aliasName = some p.1.aliasName)
      ((t.reference keyword next, gap) :: joins.map JoinClause.reference) found) :
    List.Forall₂ JoinTable.ReadAs (t :: joins.map (·.table)) found := by
  obtain ⟨p, ps, hp, hps, rfl⟩ := List.forall₂_cons_left_iff.1 h
  refine .cons (JoinTable.readAs_of_reference hp) ?_
  rw [List.forall₂_map_left_iff] at hps ⊢
  exact hps.imp fun j q hq => JoinTable.readAs_of_reference hq

/-- With an alias on the first table the parser finds every table. -/
theorem tables_of_aliased (hs : s.Plain U) {a : WrittenAlias} (ha : s.first.aliasPart = some a) :
    List.Forall₂ JoinTable.ReadAs s.tables
      (((tablePattern U).finditer s.text).filterMap tableOfMatch) := by
  have hplain := hs.tables s.first List.mem_cons_self
  have htext : s.fromText = referencesText ((s.first.reference "from" [], [' ']) ::
      s.joins.map JoinClause.reference) ++ s.tailText := by
    rw [JoinSelect.fromText, joinsText_eq, referencesText, JoinTable.aliasText, JoinTable.reference,
      ha]
    simp only [Reference.text, List.append_assoc, List.cons_append, List.nil_append]
  have hvalid : (s.first.reference "from" []).Valid := by
    rw [JoinTable.reference, ha]
    exact ⟨Or.inl rfl, hplain.name.identifier, (hplain.aliasName a ha).identifier,
      fun _ => (hplain.aliasName a ha).foldsToWord (by decide)⟩
  have hrefs : ∀ p ∈ (s.first.reference "from" [], [' ']) :: s.joins.map JoinClause.reference,
      p.1.Valid ∧ Gap U p.2 :=
    List.forall_mem_cons.2 ⟨⟨hvalid, gap_space⟩, references_valid hs fun _ h => h⟩
  have hfound := forall_tables htext hrefs lead_select (noTableWord_tailText hs)
  exact forall_readAs _ hfound

/-- Without joins the parser finds the table. -/
theorem tables_of_single (hs : s.Plain U) (hj : s.joins = []) :
    List.Forall₂ JoinTable.ReadAs s.tables
      (((tablePattern U).finditer s.text).filterMap tableOfMatch) := by
  have hplain := hs.tables s.first List.mem_cons_self
  have hlimit : NoWord U (isWordOf tableWords) ("limit" ++ ' ' :: natText s.limit) :=
    noWord_append_space.2
    ⟨noWord_of_keyword (by decide) (by decide), noWord_natText (by decide) _⟩
  have hvalid : (s.first.reference "from" "where").Valid :=
    JoinTable.reference_valid hplain (Or.inl rfl) (by decide) (by decide)
  have htext : s.fromText = referencesText [(s.first.reference "from" "where",
      s.first.restText "where" ++ [' '])] ++
        (s.condition ++ ' ' :: ("limit" ++ ' ' :: natText s.limit)) := by
    have h := s.first.text_reference "from" "where"
    rw [JoinSelect.fromText, hj, JoinSelect.tailText, referencesText, referencesText,
      JoinSelect.joinsText, List.flatMap_nil, List.append_nil, ← List.append_assoc _ _
        [' '], ← h]
    simp only [List.append_assoc, List.cons_append, List.nil_append]
  have hgap : Gap U (s.first.restText "where" ++ [' ']) := by
    rw [JoinTable.restText]
    cases s.first.aliasPart with
    | none => exact gap_space
    | some a => exact gap_of_spaces (noWord_of_keyword (by decide) (by decide))
  have hrefs : ∀ p ∈ [(s.first.reference "from" "where", s.first.restText "where" ++ [' '])],
      p.1.Valid ∧ Gap U p.2 := List.forall_mem_singleton.2 ⟨hvalid, hgap⟩
  have hfound := forall_tables htext hrefs lead_select
    (noWord_append_space.2 ⟨hs.condition, hlimit⟩)
  rw [JoinSelect.tables, hj]
  exact forall_readAs [] hfound

/-- No word of a join's table, alias and condition is a table word. -/
theorem noTableWord_join {j : JoinClause} (hj : j.table.Plain)
    (hcond : NoWord U (isWordOf tableWords) j.condition) : NoWord U (isWordOf tableWords)
      (j.table.name ++ (j.table.aliasText ++ ' ' :: ("on" ++ ' ' :: j.condition))) := by
  have hon : NoWord U (isWordOf tableWords) ("on" ++ ' ' :: j.condition) := noWord_append_space.2
    ⟨noWord_of_keyword (by decide) (by decide), hcond⟩
  rw [JoinTable.aliasText]
  cases ha : j.table.aliasPart with
  | none => exact noWord_append_space.2 ⟨(hj.name.noWord tableWords_subset), hon⟩
  | some a =>
    have halias : NoWord U (isWordOf tableWords) (a.name ++ ' ' :: ("on" ++ ' ' :: j.condition)) :=
      noWord_append_space.2 ⟨(hj.aliasName a ha).noWord tableWords_subset, hon⟩
    simp only [aliasSeparator]
    split
    · simp only [List.append_assoc, List.cons_append, List.nil_append]
      exact noWord_append_space.2 ⟨(hj.name.noWord tableWords_subset), noWord_append_space.2
        ⟨noWord_of_keyword (by decide) (by decide), halias⟩⟩
    · simp only [List.cons_append, List.nil_append]
      exact noWord_append_space.2 ⟨(hj.name.noWord tableWords_subset), halias⟩

/-- Without an alias on the first table the `join` behind it is read as one: the parser finds
one table less. -/
theorem tables_of_bare (hs : s.Plain U) (ha : s.first.aliasPart = none) {j : JoinClause}
    {joins : List JoinClause} (hj : s.joins = j :: joins) :
    (((tablePattern U).finditer s.text).filterMap tableOfMatch).length + 1 = s.tables.length := by
  have hplain := hs.tables s.first List.mem_cons_self
  have hmem : j ∈ s.joins := by rw [hj]; exact List.mem_cons_self
  have hjoin := noTableWord_join
    (hs.tables j.table (List.mem_cons_of_mem _ (List.mem_map_of_mem hmem)))
    (hs.joinConditions j hmem)
  have hvalid : (s.first.reference "from" "join").Valid :=
    JoinTable.reference_valid hplain (Or.inl rfl) (by decide) (by decide)
  have htext : s.fromText = referencesText ((s.first.reference "from" "join",
      ' ' :: ((j.table.name ++ (j.table.aliasText ++ ' ' :: ("on" ++ ' ' :: j.condition))) ++
        [' ']))
        :: joins.map JoinClause.reference) ++ s.tailText := by
    rw [JoinSelect.fromText, hj, JoinSelect.joinsText, List.flatMap_cons, ← JoinSelect.joinsText,
      joinsText_eq, referencesText, JoinClause.text, JoinTable.aliasText, JoinTable.reference, ha]
    simp only [Reference.text, aliasSeparator, Bool.false_eq_true, if_false, List.append_assoc,
      List.cons_append, List.nil_append]
  have hrefs : ∀ p ∈ (s.first.reference "from" "join",
      ' ' :: ((j.table.name ++ (j.table.aliasText ++ ' ' :: ("on" ++ ' ' :: j.condition))) ++
        [' ']))
        :: joins.map JoinClause.reference, p.1.Valid ∧ Gap U p.2 :=
    List.forall_mem_cons.2 ⟨⟨hvalid, gap_of_spaces hjoin⟩,
      references_valid hs fun i hi => by rw [hj]; exact List.mem_cons_of_mem _ hi⟩
  have hfound := forall_tables htext hrefs lead_select (noTableWord_tailText hs)
  have hlen := hfound.length_eq
  rw [List.length_cons, List.length_map] at hlen
  have htables : s.tables.length = joins.length + 2 := by
    rw [JoinSelect.tables, hj, List.length_cons, List.length_map, List.length_cons]
  rw [htables]
  exact congrArg (· + 1) hlen.symm

end Statement

/-! ## Coverage -/

/-- The parser finds exactly the tables of a statement, under the aliases that are written. -/
def TablesFound (rt : Runtime) (s : JoinSelect) : Prop :=
  ∃ parsed, parse rt s.text = .ok parsed ∧
    List.Forall₂ JoinTable.ReadAs s.tables parsed.tables

/-- Behind every allowed check of a statement there is a target for each of its tables, which is
routed, on an enabled datasource, and accepted by the evaluator of plans. -/
def TablesGated (rt : Runtime) (s : JoinSelect) : Prop :=
  ∀ db evaluate routeContext result, db.Constraints →
    check rt db evaluate s.text routeContext = .ok result → result.allowed = true →
    ∃ parsed decision policy,
      AllowConditions rt db evaluate s.text routeContext parsed decision policy ∧
      List.Forall₂ (fun (t : JoinTable) (target : RouteTarget) => target.originalTableName =
        t.name ∧ ∃ p ∈ parsed.tables, target.Resolved db p) s.tables decision.targets

/-- What the parser finds goes through the gate. -/
theorem tablesGated_of_tablesFound {rt : Runtime} {s : JoinSelect} (h : TablesFound rt s) :
    TablesGated rt s := by
  intro db evaluate routeContext result hdb hcheck hallowed
  obtain ⟨parsed, decision, context, hrun, -⟩ := check_allowed_iff.1 ⟨hcheck, hallowed⟩
  obtain ⟨policy, hcond⟩ := allowConditions_of_run
    (Metadata.getEnabledByCode_ok hdb.datasourceCode) hrun
  obtain ⟨parsed', hparsed', htables⟩ := h
  obtain rfl : parsed' = parsed := by simpa using hparsed'.symm.trans hrun.read
  obtain ⟨-, htargets⟩ := resolve_allowed hrun.resolved hrun.routed
  refine ⟨parsed', decision, policy, hcond, ?_⟩
  refine List.forall₂_iff_get.2 ⟨htables.length_eq.trans htargets.length_eq,
    fun i h1 h2 => ?_⟩
  have hi : i < parsed'.tables.length := htables.length_eq ▸ h1
  have hname := (List.forall₂_iff_get.1 htables).2 i h1 hi
  obtain ⟨d, hd⟩ := (List.forall₂_iff_get.1 htargets).2 i hi h2
  have hres := resolveTable_resolved hd
  exact ⟨hres.original.trans hname.1, _, List.get_mem _ _, hres⟩

/-- The parser finds every table, so that none escapes the gate, exactly if there are no joins or
the first table has an alias, and the number of the limit is within the digit limit. -/
theorem tablesFound_iff {rt : Runtime} {s : JoinSelect} (hs : s.Plain rt.toUnicodeData) :
    (TablesFound rt s ∧ TablesGated rt s) ↔
      (s.joins = [] ∨ s.first.aliasPart ≠ none) ∧ LimitFits rt s.text := by
  constructor
  · rintro ⟨⟨parsed, hparsed, htables⟩, -⟩
    refine ⟨?_, parse_returns_iff.1 ⟨parsed, hparsed⟩⟩
    by_contra h
    rw [not_or, not_not] at h
    obtain ⟨hjoins, ha⟩ := h
    obtain ⟨j, joins, hj⟩ := List.exists_cons_of_ne_nil hjoins
    have hlen := tables_of_bare hs ha hj
    rw [← (parse_eq_ok hparsed).2.1, ← htables.length_eq] at hlen
    omega
  · rintro ⟨hfirst, hlimit⟩
    obtain ⟨parsed, hparsed⟩ := parse_returns_iff.2 hlimit
    have hfound : TablesFound rt s := by
      refine ⟨parsed, hparsed, ?_⟩
      rw [(parse_eq_ok hparsed).2.1]
      cases ha : s.first.aliasPart with
      | some a => exact tables_of_aliased hs ha
      | none => exact tables_of_single hs (hfirst.resolve_right (by simp [ha]))
    exact ⟨hfound, tablesGated_of_tablesFound hfound⟩

/-- A join whose first table has no alias. -/
def bareJoin : JoinSelect :=
  ⟨⟨"user", none⟩, [⟨⟨"orders", some ⟨false, "o"⟩⟩, "o.uid = user.uid"⟩],
    "uid = 3", 1⟩

theorem bareJoin_plain : bareJoin.Plain asciiData where
  tables := by
    refine List.forall_mem_cons.2 ⟨⟨plainName_of (by decide), fun a ha =>
      absurd ha (Option.not_mem_none a)⟩, List.forall_mem_singleton.2 ⟨plainName_of (by decide),
        fun a ha => ?_⟩⟩
    obtain rfl : (⟨false, "o"⟩ : WrittenAlias) = a := Option.some.inj ha
    exact plainName_of (by decide)
  joinConditions := List.forall_mem_singleton.2 (noWord_of_all (by decide))
  condition := noWord_of_all (by decide)

/-- The parser misses its second table. -/
theorem bareJoin_not_found : bareJoin.Plain asciiData ∧ ¬ TablesFound asciiRuntime bareJoin := by
  refine ⟨bareJoin_plain, ?_⟩
  rintro ⟨parsed, hparsed, htables⟩
  have hread : (parse asciiRuntime bareJoin.text).map (·.tables.length) =
      .ok 1 := by decide +kernel
  rw [hparsed] at hread
  injection hread with hlen
  have h2 : 2 = parsed.tables.length := htables.length_eq
  simp only at hlen
  omega

/-- A join whose first table has an alias. -/
def aliasedJoin : JoinSelect :=
  ⟨⟨"user", some ⟨true, "u"⟩⟩, [⟨⟨"orders", none⟩, "orders.uid = u.uid"⟩],
    "u.uid = 3", 1⟩

theorem aliasedJoin_plain : aliasedJoin.Plain asciiData where
  tables := by
    refine List.forall_mem_cons.2 ⟨⟨plainName_of (by decide), fun a ha => ?_⟩,
      List.forall_mem_singleton.2 ⟨plainName_of (by decide), fun a ha =>
        absurd ha (Option.not_mem_none a)⟩⟩
    obtain rfl : (⟨true, "u"⟩ : WrittenAlias) = a := Option.some.inj ha
    exact plainName_of (by decide)
  joinConditions := List.forall_mem_singleton.2 (noWord_of_all (by decide))
  condition := noWord_of_all (by decide)

/-- The parser finds both tables of it. -/
theorem tablesFound_aliasedJoin :
    (TablesFound asciiRuntime aliasedJoin ∧ TablesGated asciiRuntime aliasedJoin) ↔
      (aliasedJoin.joins = [] ∨ aliasedJoin.first.aliasPart ≠ none) ∧
        LimitFits asciiRuntime aliasedJoin.text :=
  tablesFound_iff aliasedJoin_plain

end SqlGatekeeper
