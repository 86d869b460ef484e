import SqlGatekeeper.Services.Rewriting
import SqlGatekeeper.Services.OwnLimit
import SqlGatekeeper.Services.TableCoverage
import SqlGatekeeper.Services.SwitchedOff

/-!
# Quoted texts that look like table references

Statements `select * from t a where a.k = v and a.c = 'S' limit 1` with any text `S`.

* `LiteralSelect`: such a statement; `namedTables`: the tables that the pattern finds in its text.
* `LiteralKept`: the rewriter replaces the table of an allowed statement and nothing else.
* `literalKept_iff`: it does so exactly if the quoted text names registered physical tables only.
-/

namespace SqlGatekeeper

open Py Regex Store SqlCheckService

/-! ## Statements -/

/-- A statement that compares a column with a quoted text. -/
structure LiteralSelect where
  table : Str
  aliasName : Str
  factor : Str
  value : Int
  column : Str
  literal : Str

namespace LiteralSelect

/-- What stands between the table and the quoted text. -/
def condition (s : LiteralSelect) : Str :=
  " where " ++ (s.aliasName ++ ('.' :: (s.factor ++ (" = " ++ (intText s.value ++ (" and " ++
    (s.aliasName ++ ('.' :: (s.column ++ " = ")))))))))

/-- The text of a statement. -/
def text (s : LiteralSelect) : Str :=
  "select * " ++ ("from" ++ ' ' :: (s.table ++ ' ' :: (s.aliasName ++
    (s.condition ++ '\'' :: (s.literal ++ "' limit 1")))))

/-- Names are plain, and the quoted text has no quotation mark. -/
structure Plain (s : LiteralSelect) : Prop where
  table : PlainName s.table
  aliasName : PlainName s.aliasName
  factor : PlainName s.factor
  column : PlainName s.column
  literal : ∀ c ∈ s.literal, isQuote c = false

/-- The names of the tables that the table pattern finds in the quoted text. -/
def namedTables (U : UnicodeData) (s : LiteralSelect) : List Str :=
  (((tablePattern U).finditer s.literal).filterMap tableOfMatch).map (·.tableName)

end LiteralSelect

/-! ## The law -/

/-- An allowed statement is rewritten in the place of its table only. -/
def LiteralKept (rt : Runtime) (db : Metadata) (evaluate : Evaluator) (s : LiteralSelect)
    (routeContext : JsonDict) : Prop :=
  ∀ result, check rt db evaluate s.text routeContext = .ok result → result.allowed = true →
    ∃ physical, result.physicalTables.head? = some physical ∧
      result.rewrittenSql = { s with table := physical }.text

section Scan

variable {U : UnicodeData} {s : LiteralSelect}

/-- The reference that the pattern reads in front of the condition. -/
def LiteralSelect.read (s : LiteralSelect) : TableRead :=
  ⟨"from", [' '], s.table, some ([' '], s.aliasName)⟩

theorem LiteralSelect.text_eq (s : LiteralSelect) :
    s.text = "select * " ++ (s.read.text ++
      (s.condition ++ '\'' :: (s.literal ++ "' limit 1"))) := by
  have hread : ∀ t : Str, s.read.text ++ t = "from" ++
      ' ' :: (s.table ++ ' ' :: (s.aliasName ++ t)) :=
    fun t => s.read.text_append t
  exact congrArg (fun t : Str => "select * " ++ t) (hread _).symm

/-- The text behind the quoted one closes it. -/
theorem closing_quote : Closing U "' limit 1" := by
  have hquote : isWord U '\'' = false := isWord_of_notName (by decide)
  have htext : ("' limit 1" : Str) = '\'' :: ' ' :: ("limit" ++ ' ' :: natText 1) := by decide
  refine ⟨?_, by decide, by decide⟩
  rw [htext, noWord_cons hquote, noWord_space, noWord_append_space]
  exact ⟨noWord_of_keyword (by decide) (by decide), noWord_natText (by decide) 1⟩

theorem noTableWord_condition (hs : s.Plain) :
    NoWord U (isWordOf tableWords) (s.condition ++ ['\'']) := by
  have hdot : isWord U '.' = false := isWord_of_notName (by decide)
  have heq : isWord U '=' = false := isWord_of_notName (by decide)
  have hquote : isWord U '\'' = false := isWord_of_notName (by decide)
  have htext : s.condition = ' ' :: ("where" ++ ' ' :: (s.aliasName ++ '.' :: (s.factor ++
      ' ' :: ([] ++ '=' :: ([] ++ ' ' :: (intText s.value ++ ' ' :: ("and" ++ ' ' :: (s.aliasName ++
        '.' :: (s.column ++ ' ' :: ([] ++ '=' :: ([] ++ ' ' :: []))))))))))) := rfl
  rw [noWord_append_cons hquote, htext, noWord_space, noWord_append_space, noWord_append_cons hdot,
    noWord_append_space, noWord_append_cons heq, noWord_append_space, noWord_append_space,
      noWord_append_space,
    noWord_append_cons hdot, noWord_append_space, noWord_append_cons heq, noWord_append_space]
  exact ⟨⟨noWord_of_keyword (by decide) (by decide), hs.aliasName.noWord tableWords_subset,
    hs.factor.noWord tableWords_subset, noWord_nil, noWord_nil, noWord_intText (by decide) _,
    noWord_of_keyword (by decide) (by decide), hs.aliasName.noWord tableWords_subset,
    hs.column.noWord tableWords_subset, noWord_nil, noWord_nil, noWord_nil⟩, noWord_nil⟩

/-- A name that is no keyword is read as an alias. -/
theorem asAliasAt_plain {x t : Str} (hx : PlainName x) (ht : t.head?.any isNamePart = false) :
    asAliasAt (x ++ t) = none := by
  cases h : asAliasAt (x ++ t) with
  | none => rfl
  | some a =>
    obtain ⟨lead, y, u⟩ := a
    obtain ⟨w, spaces, -, htext, hw, hspaces, -⟩ := asAliasAt_eq_some h
    have hname := isName_of_isIdentifier hx.identifier
    have hrest : (spaces ++ (y ++ u)).head?.any isNamePart = false := by
      obtain ⟨c, cs, hc⟩ := List.exists_cons_of_ne_nil hspaces.ne_nil
      have hspace := hspaces.all c (by rw [hc]; exact List.mem_cons_self)
      rw [hc, List.cons_append, List.head?_cons, Option.any_some]
      by_contra hpart
      rw [isSpace_of_isNamePart (by simpa using hpart)] at hspace
      exact absurd hspace (by simp)
    have hsame := congrArg (List.takeWhile isNamePart) htext
    rw [(span_of_all hname.parts ht).1,
      (span_of_all (foldClass_of_foldsToWord (l := "as") (by decide) hw) hrest).1] at hsame
    rw [← hsame, hx.foldsToWord (by decide)] at hw
    exact absurd hw (by simp)

/-- The table of the statement is read with its alias. -/
theorem read_valid (hs : s.Plain) {t : Str} (ht : t.head?.any isNamePart = false) :
    s.read.Valid ∧ s.read.EndsAt t := by
  have hspace : IsSpaces [' '] := ⟨by simp, by simp [isSpace]⟩
  have halias := isName_of_isIdentifier hs.aliasName.identifier
  refine ⟨⟨show tableWordAhead "from" = true by decide, rfl, hspace,
    isName_of_isIdentifier hs.table.identifier, fun a ha => ?_⟩,
    show isNamePart ' ' = false by decide, ?_⟩
  · obtain rfl : ([' '], s.aliasName) = a := Option.some.inj ha
    exact halias
  · have hhead : (s.aliasName ++ t).head?.any isSpace = false := by
      rw [head_append_any halias.ne_nil]
      exact isSpace_of_head_name (head_any_of_all halias.ne_nil halias.parts)
    have hread : aliasAt ([' '] ++ (s.aliasName ++ t)) = some ([' '], s.aliasName, t) := by
      rw [aliasAt_append hspace hhead, asAliasAt_plain hs.aliasName ht, nameAt_append halias ht]
      rfl
    exact hread

/-- The pattern finds the table of the statement, and then the tables of the quoted text. -/
theorem exists_reads (hs : s.Plain) : ∃ gap ps,
    s.condition ++ '\'' :: (s.literal ++ "' limit 1") = gap ++ readsText ps ∧
      Scanned U none "select * " ((s.read, gap) :: ps) ∧
      ps.map (fun p => p.1.name) = s.namedTables U := by
  have hquote : (some '\'').any (isWord U) = false := isWord_of_notName (by decide)
  have hlast : '\'' ∈ (s.condition ++ ['\'']).getLast? := List.getLast?_concat
  obtain ⟨gap, ps, hliteral, hscan⟩ := exists_scanned U none s.literal
  have hnames : s.namedTables U = ps.map fun p => p.1.name := by
    rw [LiteralSelect.namedTables, finditer, hliteral, hscan.tables 0, map_tableName_readTables]
  have hquoted : Scanned U (some '\'') gap ps := hscan.renamed hscan.fits.renamed_refl hquote.symm
  obtain ⟨gap', ps', htext, hclosed, hreads⟩ := hquoted.append_closing closing_quote
  have hcondition : Scanned U (lastOf (some ' ') s.read.text) ((s.condition ++ ['\'']) ++
      gap') ps' := by
    refine .of_noWord (noTableWord_condition hs) (fun a ha _ _ => Or.inl ?_) ?_
    · obtain rfl := Option.some.inj (hlast.symm.trans ha)
      exact hquote
    · rw [lastOf_of_getLast? hlast]
      exact hclosed
  have hhead : (((s.condition ++ ['\'']) ++ gap') ++ readsText ps').head?.any isNamePart = false :=
    show isNamePart ' ' = false by decide
  obtain ⟨hvalid, hends⟩ := read_valid hs hhead
  have hfound : Scanned U (some ' ') [] ((s.read, (s.condition ++ ['\'']) ++ gap') :: ps') :=
    .found (isWord_space U) hvalid hends hcondition
  refine ⟨(s.condition ++ ['\'']) ++ gap', ps', ?_, ?_, ?_⟩
  · rw [List.append_assoc, htext, ← hliteral, List.append_assoc]
    rfl
  · have hselect : Scanned U none (("select * " : Str) ++ [])
        ((s.read, (s.condition ++ ['\'']) ++ gap') :: ps') :=
      Scanned.of_noWord (lead_select (U := U)).noTableWord ((lead_select (U := U)).border _) hfound
    exact hselect
  · have hmap := congrArg (List.map TableRead.name) hreads
    rw [List.map_map, List.map_map] at hmap
    rw [hnames]
    exact hmap

end Scan

section Kept

variable {rt : Runtime} {db : Metadata} {evaluate : Evaluator} {s : LiteralSelect}
  {routeContext : JsonDict}

/-- A table keeps its name exactly if it is a registered physical table. -/
theorem RouteTarget.Via.name_iff {table : ParsedTable} {target : RouteTarget}
    (h : target.Via db table) :
    target.physicalTableName = table.tableName ↔ EnabledPhysical db table.tableName := by
  constructor
  · intro hname
    cases h with
    | physical route datasource found placed eq =>
      obtain ⟨hmem, hroute, henabled⟩ := Metadata.getEnabledByPhysicalTableName_eq_some found
      exact ⟨route, hmem, henabled, hroute⟩
    | logical logicalTable value route datasource notPhysical named found placed eq =>
      obtain ⟨hmem, -, -, henabled⟩ :=
        Metadata.getEnabledByLogicalTableAndRouteValue_eq_some found
      rw [eq, logicalTarget] at hname
      exact ⟨route, hmem, henabled, hname⟩
  · rintro ⟨route, hmem, henabled, hname⟩
    obtain ⟨datasource, rfl⟩ := h.eq_physical hmem henabled hname
    exact hname

theorem map_name_iff {tables : List ParsedTable} {targets : List RouteTarget}
    (h : List.Forall₂ (fun table (target : RouteTarget) => target.Via db table) tables targets) :
    targets.map (·.physicalTableName) = tables.map (·.tableName) ↔
      ∀ name ∈ tables.map (·.tableName), EnabledPhysical db name := by
  induction h with
  | nil => simp
  | cons hvia _ ih =>
    rw [List.map_cons, List.map_cons, List.cons.injEq, hvia.name_iff, ih, List.forall_mem_cons]

theorem renameReads_self (ps : List (TableRead × Str)) :
    renameReads ps (ps.map fun p => p.1.name) = ps := by
  induction ps with
  | nil => rfl
  | cons p ps ih =>
    obtain ⟨r, gap⟩ := p
    rw [List.map_cons, renameReads_cons, ih]
    rfl

/-- An allowed statement is rewritten in the place of its table only, exactly if every table that
its quoted text names is a registered physical table. -/
theorem literalKept_iff (rt : Runtime) (db : Metadata) (evaluate : Evaluator) (s : LiteralSelect)
    (routeContext : JsonDict) (hs : s.Plain) {result : CheckResult}
    (hresult : check rt db evaluate s.text routeContext = .ok result)
    (hallowed : result.allowed = true) :
    LiteralKept rt db evaluate s routeContext ↔
      ∀ name ∈ s.namedTables rt.toUnicodeData, EnabledPhysical db name := by
  obtain ⟨parsed, decision, context, hrun, hallow⟩ :=
    check_allowed_iff.1 ⟨hresult, hallowed⟩
  obtain ⟨gap, ps, hbehind, hscan, hnames⟩ := exists_reads (U := rt.toUnicodeData) hs
  have hsql := (parse_eq_ok hrun.read).1
  have htext : s.text = "select * " ++ readsText ((s.read, gap) :: ps) := by
    rw [s.text_eq, hbehind]
    rfl
  have hread : parsed.tables = readTables ((s.read, gap) :: ps) ("select * " : Str).length :=
    hscan.parsed_tables (htext ▸ hrun.read)
  obtain ⟨-, hall⟩ := resolve_allowed hrun.resolved hrun.routed
  have hrewrite := rewrite_allowed hrun.resolved hrun.routed (hsql.trans htext) hread hscan.fits
  obtain ⟨target, targets, -, hrest, htargets⟩ :=
    List.forall₂_cons_left_iff.1 (hread ▸ hall)
  rw [htargets, List.map_cons, renameReads_cons] at hrewrite
  have hsame : (readsText (renameReads ps (targets.map (·.physicalTableName))) = readsText ps) ↔
      ∀ name ∈ s.namedTables rt.toUnicodeData, EnabledPhysical db name := by
    have hvia := hrest.imp fun _ _ h => h.elim fun _ hd => resolveTable_via hd
    have hiff := map_name_iff hvia
    rw [map_tableName_readTables, hnames] at hiff
    rw [← hiff]
    constructor
    · intro h
      have hlength : (targets.map (·.physicalTableName)).length = ps.length := by
        rw [List.length_map, ← hrest.length_eq, ← List.length_map (f := (·.tableName)),
          map_tableName_readTables, List.length_map]
      cases hscan.fits with
      | cons valid ends rest => exact (renameReads_eq rest hlength h).trans hnames
    · intro h
      rw [h, ← hnames, renameReads_self]
  have hexpected : ∀ physical : Str, ({ s with table := physical } : LiteralSelect).text =
      "select * " ++ ((s.read.rename physical).text ++ (gap ++ readsText ps)) := fun physical => by
    rw [← hbehind]
    exact LiteralSelect.text_eq _
  have hrewritten : result.rewrittenSql = "select * " ++
      ((s.read.rename target.physicalTableName).text ++
        (gap ++ readsText (renameReads ps (targets.map (·.physicalTableName))))) := by
    rw [hallow]
    exact (congrArg (fun ts : List RouteTarget => rewrite parsed (ts.filterMap (·.rewritePlan)))
      htargets).trans hrewrite
  have hhead : result.physicalTables.head? = some target.physicalTableName := by
    rw [hallow]
    exact congrArg (fun ts : List RouteTarget => (ts.map (·.physicalTableName)).head?) htargets
  rw [← hsame]
  constructor
  · intro h
    obtain ⟨physical, hphysical, hkept⟩ := h result hresult hallowed
    obtain rfl : target.physicalTableName = physical := Option.some.inj (hhead.symm.trans hphysical)
    rw [hrewritten, hexpected] at hkept
    exact List.append_cancel_left (List.append_cancel_left (List.append_cancel_left hkept))
  · intro h result' hresult' _
    obtain rfl : result = result' := Except.ok.inj (hresult.symm.trans hresult')
    exact ⟨_, hhead, by rw [hrewritten, hexpected, h]⟩

end Kept

/-- A statement on the example's table that quotes a text. -/
def quotingSelect (literal : Str) : LiteralSelect := ⟨"user", "a", "uid", 3, "note", literal⟩

theorem quotingSelect_plain {literal : Str} (h : literal.all (fun c => !isQuote c) = true) :
    (quotingSelect literal).Plain where
  table := plainName_of (x := "user") (by decide)
  aliasName := plainName_of (x := "a") (by decide)
  factor := plainName_of (x := "uid") (by decide)
  column := plainName_of (x := "note") (by decide)
  literal c hc := by simpa using List.all_eq_true.1 h c hc

/-- A quoted text that names a shard stays as it is. -/
theorem literalKept_shard :
    LiteralKept asciiRuntime exampleMetadata acceptPlans
      (quotingSelect "moved from user_1") [] := by
  have hallowed : (check asciiRuntime exampleMetadata acceptPlans
      (quotingSelect "moved from user_1").text []).map (·.allowed) = .ok true := by decide +kernel
  obtain ⟨result, hresult, ha⟩ := map_eq_ok.1 hallowed
  refine (literalKept_iff asciiRuntime exampleMetadata acceptPlans _ []
    (quotingSelect_plain (by decide)) hresult ha).2 fun name hname => ?_
  have hnames : (quotingSelect "moved from user_1").namedTables asciiData =
      [("user_1" : Str)] := by decide +kernel
  have hmem : name ∈ (quotingSelect "moved from user_1").namedTables asciiData := hname
  rw [hnames] at hmem
  exact ⟨⟨2, 1, "1", "user_1", 1, true, .dict []⟩, List.mem_cons_of_mem _ List.mem_cons_self,
    rfl, (List.mem_singleton.1 hmem).symm⟩

/-- A quoted text that names the logical table is changed. -/
theorem literalKept_fails : (quotingSelect "moved from user").Plain ∧
    ¬ LiteralKept asciiRuntime exampleMetadata acceptPlans
      (quotingSelect "moved from user") [] := by
  refine ⟨quotingSelect_plain (by decide), fun h => ?_⟩
  have hrun : (check asciiRuntime exampleMetadata acceptPlans (quotingSelect "moved from user").text
      []).map (fun r => (r.allowed, r.physicalTables.head?, r.rewrittenSql)) =
        .ok (true, some "user_1",
          "select * from user_1 a where a.uid = 3 and a.note = 'moved from user_1' limit 1") := by
    decide +kernel
  obtain ⟨result, hresult, hfields⟩ := map_eq_ok.1 hrun
  injection hfields with hallowed hfields
  injection hfields with hhead hrewritten
  obtain ⟨physical, hphysical, hkept⟩ := h result hresult hallowed
  obtain rfl : ("user_1" : Str) = physical := Option.some.inj (hhead.symm.trans hphysical)
  exact absurd (hrewritten.symm.trans hkept) (by decide)

end SqlGatekeeper
