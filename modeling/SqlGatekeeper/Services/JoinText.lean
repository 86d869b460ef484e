import SqlGatekeeper.Services.Rewriting
import SqlGatekeeper.Services.TableCoverage

/-!
# The rewritten text of a join

A statement `select * from t1 [a1] join t2 [a2] on c2 … where w limit k` whose tables are found
is rewritten to the same statement over other tables.

* `JoinSelect.rename`: the statement over other tables.
* `rewrite_references`: references in a text are put in place by the rewriter.
* `rewrite_join`: the rewritten text is that of the renamed statement.
-/

namespace SqlGatekeeper

open Py Regex

/-! ## Other tables -/

/-- The same reference to another table. -/
def JoinTable.rename (t : JoinTable) (name : Str) : JoinTable := { t with name }

/-- The same join of another table. -/
def JoinClause.rename (j : JoinClause) (name : Str) : JoinClause :=
  { j with table := j.table.rename name }

/-- The same statement over other tables. -/
def JoinSelect.rename (s : JoinSelect) : List Str → JoinSelect
  | [] => s
  | name :: names =>
      { s with
        first := s.first.rename name
        joins := List.zipWith JoinClause.rename s.joins names }

/-- The tables of a renamed statement have the new names. -/
theorem JoinSelect.tables_rename (s : JoinSelect) {names : List Str}
    (hlength : names.length = s.tables.length) :
    (s.rename names).tables.map (·.name) = names := by
  have hjoins : ∀ {joins : List JoinClause} {names : List Str}, names.length = joins.length →
      (List.zipWith JoinClause.rename joins names).map (·.table.name) = names := by
    intro joins
    induction joins with
    | nil =>
      intro names h
      rw [List.length_eq_zero_iff.1 h]
      rfl
    | cons j joins ih =>
      intro names h
      obtain ⟨x, names, rfl⟩ := List.exists_cons_of_length_eq_add_one h
      rw [List.zipWith_cons_cons, List.map_cons, ih (Nat.succ.inj h)]
      rfl
  obtain ⟨x, names, rfl⟩ := List.exists_cons_of_length_eq_add_one hlength
  have hrest : names.length = s.joins.length := by
    simpa [JoinSelect.tables] using hlength
  show x :: ((List.zipWith JoinClause.rename s.joins names).map (·.table)).map
    (·.name) = x :: names
  rw [List.map_map]
  exact congrArg _ (hjoins hrest)

/-! ## References -/

/-- The same reference to another table, as it is written. -/
def Reference.rename (r : Reference) (name : Str) : Reference := { r with name }

/-- References under other names. -/
def renameReferences (refs : List (Reference × Str)) (names : List Str) : List
    (Reference × Str) :=
  List.zipWith (fun p x => (p.1.rename x, p.2)) refs names

/-- A written reference, as it is read. -/
def Reference.read (r : Reference) : TableRead :=
  ⟨r.keyword, [' '], r.name, some (aliasSeparator r.withAs, r.aliasName)⟩

theorem Reference.read_text (r : Reference) : r.read.text = r.text := by
  unfold Reference.read Reference.text
  simp [TableRead.text, TableRead.lead, TableRead.aliasText]

theorem Reference.read_table (r : Reference) (pos : Nat) : r.read.table pos = r.table pos := by
  unfold Reference.read Reference.table TableRead.table
  simp [TableRead.lead, Nat.add_assoc]

/-- References and a text behind them, as they are read: the text joins the last gap. -/
def referenceReads (tail : Str) : List (Reference × Str) → List (TableRead × Str)
  | [] => []
  | [p] => [(p.1.read, p.2 ++ tail)]
  | p :: q :: refs => (p.1.read, p.2) :: referenceReads tail (q :: refs)

theorem readsText_referenceReads (tail : Str) {refs : List (Reference × Str)} (hne : refs ≠ []) :
    readsText (referenceReads tail refs) = referencesText refs ++ tail := by
  induction refs with
  | nil => exact absurd rfl hne
  | cons p refs ih =>
    cases refs with
    | nil => simp [referenceReads, readsText, referencesText, Reference.read_text]
    | cons q refs =>
      rw [referenceReads, readsText, ih (by simp), Reference.read_text]
      simp only [referencesText, List.append_assoc]

theorem readTables_referenceReads (tail : Str) (refs : List (Reference × Str)) (pos : Nat) :
    readTables (referenceReads tail refs) pos = referenceTables refs pos := by
  induction refs generalizing pos with
  | nil => rfl
  | cons p refs ih =>
    cases refs with
    | nil => simp [referenceReads, readTables, referenceTables, Reference.read_table]
    | cons q refs =>
      rw [referenceReads, readTables, ih, Reference.read_table, Reference.read_text]
      rfl

theorem renameReads_referenceReads (tail : Str) {refs : List (Reference × Str)} {names : List Str}
    (hlength : names.length = refs.length) :
    renameReads (referenceReads tail refs) names =
      referenceReads tail (renameReferences refs names) := by
  induction refs generalizing names with
  | nil => rw [List.length_eq_zero_iff.1 hlength]; rfl
  | cons p refs ih =>
    obtain ⟨x, names, rfl⟩ := List.exists_cons_of_length_eq_add_one hlength
    cases refs with
    | nil =>
      rw [List.length_eq_zero_iff.1 (Nat.succ.inj hlength)]
      rfl
    | cons q refs =>
      have hrest := ih (Nat.succ.inj hlength)
      obtain ⟨y, names, rfl⟩ := List.exists_cons_of_length_eq_add_one (Nat.succ.inj hlength)
      rw [referenceReads, renameReads_cons, hrest]
      rfl

theorem referenceReads_name_ne_nil (tail : Str) {refs : List (Reference × Str)}
    (hvalid : ∀ p ∈ refs, p.1.Valid) : ∀ p ∈ referenceReads tail refs, p.1.name ≠ [] := by
  intro p hp
  induction refs with
  | nil => exact absurd hp List.not_mem_nil
  | cons q refs ih =>
    have hq : q.1.name ≠ [] := by
      obtain ⟨c, cs, hname, -⟩ := isIdentifier_cons (hvalid q List.mem_cons_self).name
      rw [hname]
      exact List.cons_ne_nil _ _
    cases refs with
    | nil =>
      rw [List.mem_singleton.1 hp]
      exact hq
    | cons r refs =>
      rcases List.mem_cons.1 hp with rfl | hp
      · exact hq
      · exact ih (fun p hp => hvalid p (List.mem_cons_of_mem _ hp)) hp

/-- The rewriter puts the physical names of an allowed decision in place of references. -/
theorem rewrite_references {rt : Runtime} {db : Metadata} {routeContext : JsonDict}
    {parsed : ParsedSql} {decision : RouteDecision} {refs : List (Reference × Str)}
    {before tail : Str} (hresolved : resolve rt db parsed routeContext = .ok decision)
    (hrouted : decision.allowed = true)
    (hsql : parsed.originalSql = before ++ (referencesText refs ++ tail))
    (htables : parsed.tables = referenceTables refs before.length) (hne : refs ≠ [])
    (hvalid : ∀ p ∈ refs, p.1.Valid) :
    rewrite parsed decision.rewritePlans = before ++
      (referencesText (renameReferences refs (decision.targets.map (·.physicalTableName))) ++
        tail) := by
  obtain ⟨-, hall⟩ := resolve_allowed hresolved hrouted
  have hlength : (decision.targets.map (·.physicalTableName)).length = refs.length := by
    have hreferences := (referenceTables_forall refs before.length).length_eq
    rw [List.length_map, ← hall.length_eq, htables, hreferences]
  have hplanned : List.Forall₂ (fun table target => target.Planned table)
      (readTables (referenceReads tail refs) before.length) decision.targets := by
    rw [readTables_referenceReads, ← htables]
    exact hall.imp fun _ _ h => h.elim fun _ hd => (resolveTable_resolved hd).planned
  have hrenamed : renameReferences refs (decision.targets.map (·.physicalTableName)) ≠ [] := by
    intro hnil
    have hzero := congrArg List.length hnil
    unfold renameReferences at hzero
    rw [List.length_zipWith, hlength, Nat.min_self] at hzero
    exact hne (List.length_eq_zero_iff.1 hzero)
  have hascending := (plans_ascending hplanned (referenceReads_name_ne_nil tail hvalid)).1
  rw [rewrite, RouteDecision.rewritePlans, sortPlans_perm (List.Perm.refl _) hascending,
    List.foldl_reverse, hsql, ← readsText_referenceReads tail hne, foldr_splice hplanned,
    renameReads_referenceReads tail hlength, readsText_referenceReads tail hrenamed]

/-! ## Statements -/

/-- The references of a statement whose first table has an alias. -/
def JoinSelect.aliasedReferences (s : JoinSelect) : List (Reference × Str) :=
  (s.first.reference "from" [], [' ']) :: s.joins.map JoinClause.reference

/-- The reference of a statement without joins. -/
def JoinSelect.singleReference (s : JoinSelect) : List (Reference × Str) :=
  [(s.first.reference "from" "where", s.first.restText "where" ++ [' '])]

/-- What stands behind the only table of a statement. -/
def JoinSelect.singleTail (s : JoinSelect) : Str :=
  s.condition ++ ' ' :: ("limit" ++ ' ' :: natText s.limit)

section Statement

variable {s : JoinSelect}

theorem JoinSelect.text_aliased (ha : s.first.aliasPart ≠ none) :
    s.text = "select * " ++ (referencesText s.aliasedReferences ++ s.tailText) := by
  obtain ⟨a, ha⟩ := Option.ne_none_iff_exists'.1 ha
  unfold JoinSelect.text JoinSelect.fromText JoinSelect.aliasedReferences
  rw [joinsText_eq, referencesText, JoinTable.aliasText, JoinTable.reference, ha]
  simp only [Reference.text, List.append_assoc, List.cons_append, List.nil_append]

theorem JoinSelect.text_single (hj : s.joins = []) :
    s.text = "select * " ++ (referencesText s.singleReference ++ s.singleTail) := by
  have h := s.first.text_reference "from" "where"
  unfold JoinSelect.text JoinSelect.fromText JoinSelect.singleReference JoinSelect.singleTail
  rw [hj, JoinSelect.tailText, referencesText, referencesText, JoinSelect.joinsText,
    List.flatMap_nil, List.append_nil, ← List.append_assoc _ _ [' '], ← h]
  simp only [List.append_assoc, List.cons_append, List.nil_append]

theorem JoinSelect.references_aliased {U : UnicodeData} (hs : s.Plain U)
    (ha : s.first.aliasPart ≠ none) : ∀ p ∈ s.aliasedReferences, p.1.Valid ∧ Gap U p.2 := by
  obtain ⟨a, ha⟩ := Option.ne_none_iff_exists'.1 ha
  have hplain := hs.tables s.first List.mem_cons_self
  have hvalid : (s.first.reference "from" []).Valid := by
    rw [JoinTable.reference, ha]
    exact ⟨Or.inl rfl, hplain.name.identifier, (hplain.aliasName a ha).identifier,
      fun _ => (hplain.aliasName a ha).foldsToWord (by decide)⟩
  exact List.forall_mem_cons.2 ⟨⟨hvalid, gap_space⟩, references_valid hs fun _ h => h⟩

theorem JoinSelect.reference_single {U : UnicodeData} (hs : s.Plain U) :
    ∀ p ∈ s.singleReference, p.1.Valid ∧ Gap U p.2 := by
  have hvalid : (s.first.reference "from" "where").Valid :=
    JoinTable.reference_valid (hs.tables s.first List.mem_cons_self) (Or.inl rfl) (by decide)
      (by decide)
  refine List.forall_mem_singleton.2 ⟨hvalid, ?_⟩
  unfold JoinTable.restText
  cases s.first.aliasPart with
  | none => exact gap_space
  | some a => exact gap_of_spaces (noWord_of_keyword (by decide) (by decide))

theorem JoinTable.reference_rename (t : JoinTable) (keyword next x : Str) :
    (t.rename x).reference keyword next = (t.reference keyword next).rename x := by
  unfold JoinTable.rename JoinTable.reference Reference.rename
  cases t.aliasPart <;> rfl

/-- The references of a renamed statement are the renamed ones. -/
theorem JoinSelect.aliasedReferences_rename {names : List Str}
    (hlength : names.length = s.tables.length) :
    (s.rename names).aliasedReferences = renameReferences s.aliasedReferences names := by
  have hjoins : ∀ {joins : List JoinClause} {names : List Str}, names.length = joins.length →
      (List.zipWith JoinClause.rename joins names).map JoinClause.reference =
        renameReferences (joins.map JoinClause.reference) names := by
    intro joins
    induction joins with
    | nil =>
      intro names h
      rw [List.length_eq_zero_iff.1 h]
      rfl
    | cons j joins ih =>
      intro names h
      obtain ⟨x, names, rfl⟩ := List.exists_cons_of_length_eq_add_one h
      have hfirst : (j.rename x).reference = (j.reference.1.rename x, j.reference.2) :=
        congrArg₂ Prod.mk (j.table.reference_rename _ _ _) rfl
      rw [List.zipWith_cons_cons, List.map_cons, ih (Nat.succ.inj h), hfirst]
      rfl
  obtain ⟨x, names, rfl⟩ := List.exists_cons_of_length_eq_add_one hlength
  have hrest : names.length = s.joins.length := by
    simpa [JoinSelect.tables] using hlength
  show ((s.first.rename x).reference "from" [], [' ']) ::
      (List.zipWith JoinClause.rename s.joins names).map JoinClause.reference = _
  rw [JoinTable.reference_rename, hjoins hrest]
  rfl

theorem JoinSelect.noTableWord_singleTail {U : UnicodeData} (hs : s.Plain U) :
    NoWord U (isWordOf tableWords) s.singleTail := by
  have htext : s.singleTail = s.condition ++ ' ' :: ("limit" ++ ' ' :: natText s.limit) := rfl
  rw [htext, noWord_append_space, noWord_append_space]
  exact ⟨hs.condition, noWord_of_keyword (by decide) (by decide), noWord_natText (by decide) _⟩

/-- The references and the tail of a text, under any names. -/
structure JoinSelect.Reads (U : UnicodeData) (s : JoinSelect) (refs : List (Reference × Str))
    (tail : Str) : Prop where
  text : s.text = "select * " ++ (referencesText refs ++ tail)
  valid : ∀ p ∈ refs, p.1.Valid ∧ Gap U p.2
  noTableWord : NoWord U (isWordOf tableWords) tail
  length : refs.length = s.tables.length
  text_rename : ∀ names : List Str, names.length = s.tables.length →
    (s.rename names).text = "select * " ++ (referencesText (renameReferences refs names) ++ tail)

/-- A statement without joins, or with an alias on its first table, is read as it is written. -/
theorem JoinSelect.exists_reads {U : UnicodeData} (hs : s.Plain U)
    (hfirst : s.joins = [] ∨ s.first.aliasPart ≠ none) : ∃ refs tail,
    s.Reads U refs tail := by
  by_cases ha : s.first.aliasPart = none
  · have hj := hfirst.resolve_right fun h => h ha
    refine ⟨s.singleReference, s.singleTail, text_single hj, reference_single hs,
      noTableWord_singleTail hs, by rw [tables, hj]; rfl, fun names hlength => ?_⟩
    have hone : names.length = 0 + 1 := by rw [hlength, tables, hj]; rfl
    obtain ⟨x, names, rfl⟩ := List.exists_cons_of_length_eq_add_one hone
    have hjoins : (s.rename (x :: names)).joins = [] := by
      show List.zipWith JoinClause.rename s.joins names = []
      rw [hj, List.zipWith_nil_left]
    have hreference : (s.rename (x :: names)).singleReference =
        renameReferences s.singleReference (x :: names) := by
      show [((s.first.rename x).reference "from" "where", s.first.restText "where" ++ [' '])] = _
      rw [JoinTable.reference_rename]
      rfl
    rw [text_single hjoins, hreference]
    rfl
  · refine ⟨s.aliasedReferences, s.tailText, text_aliased ha, references_aliased hs ha,
      noTableWord_tailText hs, by simp [aliasedReferences, tables], fun names hlength => ?_⟩
    have halias : (s.rename names).first.aliasPart ≠ none := by
      cases names with
      | nil => exact ha
      | cons x names => exact ha
    have htail : (s.rename names).tailText = s.tailText := by
      cases names <;> rfl
    rw [text_aliased halias, aliasedReferences_rename hlength, htail]

/-- An allowed statement whose tables are found is rewritten to the same statement over the
physical tables. -/
theorem rewrite_join {rt : Runtime} {db : Metadata} {routeContext : JsonDict} {parsed : ParsedSql}
    {decision : RouteDecision} (hs : s.Plain rt.toUnicodeData)
    (hfirst : s.joins = [] ∨ s.first.aliasPart ≠ none) (hparsed : parse rt s.text = .ok parsed)
    (hresolved : resolve rt db parsed routeContext = .ok decision)
    (hrouted : decision.allowed = true) :
    decision.targets.length = s.tables.length ∧ rewrite parsed decision.rewritePlans =
      (s.rename (decision.targets.map (·.physicalTableName))).text := by
  obtain ⟨hsql, htables, -⟩ := parse_eq_ok hparsed
  obtain ⟨-, hall⟩ := resolve_allowed hresolved hrouted
  obtain ⟨refs, tail, hreads⟩ := JoinSelect.exists_reads hs hfirst
  rw [hreads.text, tables_of_references hreads.valid lead_select hreads.noTableWord] at htables
  have hlength : decision.targets.length = s.tables.length := by
    rw [← hall.length_eq, htables, ← (referenceTables_forall refs _).length_eq, hreads.length]
  have hne : refs ≠ [] := by
    intro hnil
    have hzero := hreads.length
    rw [hnil, JoinSelect.tables] at hzero
    exact absurd hzero (by simp)
  refine ⟨hlength, ?_⟩
  rw [hreads.text_rename _ (by rw [List.length_map, hlength])]
  exact rewrite_references hresolved hrouted (hsql.trans hreads.text) htables hne
    fun p hp => (hreads.valid p hp).1

end Statement

end SqlGatekeeper
