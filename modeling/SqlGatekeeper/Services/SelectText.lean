import SqlGatekeeper.Services.Where

/-!
# Statements over one table

Statements `select * from t where C limit 1`.

* `selectText`: the text.
* `parse_select`: the parser reads the table, with `where` for its alias, and the atoms of the
  condition.
-/

namespace SqlGatekeeper

open Py Regex Logic

variable {U : UnicodeData}

/-- The statement that reads a table under a condition. -/
def selectText (table condition : Str) : Str :=
  "select * from " ++ (table ++ (" where " ++ (condition ++ " limit 1")))

/-- The table that the parser reads: its name stands behind `select * from `, and the word behind
it is taken for an alias. -/
def selectTable (table : Str) : ParsedTable :=
  ⟨table, some ("where" : Str), 14, 14 + table.length⟩

theorem lead_select : Lead U "select * " where
  noTableWord := by
    have htext : ("select * " : Str) = "select" ++ ' ' :: (['*'] ++ ' ' :: []) := rfl
    rw [htext, noWord_append_space, noWord_append_space]
    refine ⟨noWord_of_keyword (by decide) (by decide), fun x hx => ?_, noWord_nil⟩
    have hstar : isWord U '*' = false := isWord_of_notName (by decide)
    exact absurd hx (by simp [words, runs, runsFrom, hstar])
  last := ⟨' ', rfl, isWord_space U⟩

/-- A text whose first character is no equals sign and no digit. -/
theorem ends_of_head {c : Char} {rest : Str} (h : rest.head? = some c)
    (hc : c.toNat < 128 ∧ c ≠ '=' ∧ c.isDigit = false) : Ends U rest := by
  obtain ⟨ds, rfl⟩ := List.head?_eq_some_iff.1 h
  exact ends_cons hc ds

section Select

variable {table : Str} {b : Binding} {c : Cond Atom b}

/-- The words behind the table. -/
theorem noWord_afterTable {ls : List Str} (hls : ls.all (fun l => l.any Char.isAlpha) = true)
    (hsub : ls ⊆ sqlKeywords)
    (hops : isWordOf ls "and" = false ∧ isWordOf ls "or" = false ∧ isWordOf ls "not" = false)
    (hwhere : isWordOf ls "where" = false) (hc : ∀ a ∈ c.atoms, a.Plain) :
    NoWord U (isWordOf ls) (' ' :: ("where" ++ ' ' :: (condText c ++ [' ']))) := by
  rw [noWord_space, noWord_append_space]
  exact ⟨noWord_of_keyword (by decide) hwhere,
    noWord_append_space.2 ⟨noWord_condText hls hsub hops c hc, noWord_nil⟩⟩

/-- The parser reads one table where no word `from` or `join` stands behind it. -/
theorem tables_selectFrom {tail : Str} (htable : isIdentifier table = true)
    (htail : NoWord U (isWordOf tableWords) tail) :
    ((tablePattern U).finditer ("select * from " ++ (table ++ (" where " ++ tail)))).filterMap
      tableOfMatch = [selectTable table] := by
  have hvalid : (⟨"from", table, false, "where"⟩ : Reference).Valid :=
    ⟨Or.inl rfl, htable, show isIdentifier "where" = true by decide,
      fun _ => show foldsToWord "as" "where" = false by decide⟩
  have hgap : Gap U [' '] := ⟨⟨noWord_space.2 noWord_nil, ' ', rfl, isWord_space U⟩,
    fun e he => by
      obtain rfl : ' ' = e := by simpa using he
      exact foldClass_space⟩
  have htext : ("select * from " : Str) ++ (table ++ (" where " ++ tail)) = "select * " ++
      (referencesText [(⟨"from", table, false, "where"⟩, [' '])] ++ tail) := by
    simp only [referencesText, Reference.text, aliasSeparator, Bool.false_eq_true, if_false,
      List.append_assoc, List.cons_append, List.nil_append]
    rfl
  rw [htext, tables_of_references (List.forall_mem_singleton.2 ⟨hvalid, hgap⟩)
    lead_select htail]
  rfl

theorem tables_select (htable : isIdentifier table = true) (hc : ∀ a ∈ c.atoms, a.Plain) :
    ((tablePattern U).finditer (selectText table (condText c))).filterMap tableOfMatch =
      [selectTable table] := by
  refine tables_selectFrom htable ?_
  have htext : condText c ++ (" limit 1" : Str) =
      condText c ++ ' ' :: ("limit" ++ ' ' :: natText 1) := rfl
  rw [htext, noWord_append_space, noWord_append_space]
  exact ⟨noWord_condText (by decide) (by decide) (by decide) c hc,
    noWord_of_keyword (by decide) (by decide), noWord_natText (by decide) 1⟩

/-- The predicates of a statement that reads a table under a condition. -/
theorem predicates_behind {before after tail : Str} (hbefore : '=' ∉ before ∧ '.' ∉ before)
    (htable : isIdentifier table = true) (hafter : AtomGap after) (htail : '=' ∉ tail)
    (hends : Ends U tail) (hc : ∀ a ∈ c.atoms, a.Valid) :
    ((predicatePattern U).finditer
      (before ++ (table ++ (after ++ (condText c ++ tail))))).filterMap predicateOfMatch =
      c.atoms.map Atom.predicate := by
  have hname : ∀ {d : Char}, isNameChar d = false → d ∉ table := fun hd hm => by
    rw [isNameChar_of_isIdentifier htable _ hm] at hd
    exact absurd hd (by simp)
  have hgap : AtomGap (before ++ (table ++ after)) :=
    (hafter.append (hname (by decide)) (hname (by decide))).append hbefore.1 hbefore.2
  have hassoc : before ++ (table ++ (after ++ (condText c ++ tail))) =
      (before ++ (table ++ after)) ++ (condText c ++ tail) := by simp only [List.append_assoc]
  rw [hassoc]
  exact predicates_of_cond hc hgap htail hends

theorem predicates_select (htable : isIdentifier table = true) (hc : ∀ a ∈ c.atoms, a.Valid) :
    ((predicatePattern U).finditer (selectText table (condText c))).filterMap predicateOfMatch =
      c.atoms.map Atom.predicate := by
  have hwhere : AtomGap " where " := ⟨by decide, by decide, ' ', rfl, by decide⟩
  have hends : Ends U " limit 1" := ends_of_head (c := ' ') (by decide) (by decide)
  exact predicates_behind ⟨by decide, by decide⟩ htable hwhere (by decide) hends hc

/-! ### The limit -/

/-- The limit pattern starts with its word, whitespace and a number. -/
theorem limitPattern_number {pos : Nat} {prev : Option Char} {rest : Str}
    (h : ((limitPattern U).matchAt ⟨pos, prev, rest⟩).isSome = true) :
    ∃ x d sp e es, rest = x ++ d :: (sp ++ e :: es) ∧ (∀ c ∈ x, isWord U c = true) ∧
      isSpace d = true ∧ (∀ c ∈ sp, isSpace c = true) ∧ isDecimal U e = true := by
  obtain ⟨stop, caps, mid, capsm, ⟨-, rfl, -⟩, mid2, caps2, hword, mid3, caps3,
    ⟨mid4, caps4, ⟨d, ds, hd, hsp, rfl, -⟩, sp, es, hes, hspall, rfl, -⟩, mid5, caps5,
    ⟨-, ⟨mid6, caps6, ⟨e, fs, hfs, he, -⟩, -⟩, -⟩, -⟩ := matchAt_isSome_iff.1 h
  obtain ⟨x, cs, hx, hf, rfl⟩ := matches_word hword
  have h1 : cs = d :: ds := hd
  have h2 : ds = sp ++ es := hes
  have h3 : es = e :: fs := hfs
  refine ⟨x, d, sp, e, fs, ?_, isWord_of_foldsToWord (by decide) hf, hsp, hspall, he⟩
  rw [← h3, ← h2, ← h1]
  exact hx

/-- A word is no start of a limit if another word comes behind it. -/
theorem scan_limit_word {w rest : Str} (hw : ∀ c ∈ w, isWord U c = true) {d : Char}
    (hd : isSpace d = false ∧ isDecimal U d = false) (pos : Nat) (prev : Option Char) :
    scan (limitPattern U) (w ++ ' ' :: d :: rest) 0 pos prev =
      scan (limitPattern U) (' ' :: d :: rest) 0 (pos + w.length) (lastOf prev w) := by
  refine scan_pass fun u c v huv => ?_
  rw [← Option.not_isSome_iff_eq_none]
  intro hsome
  obtain ⟨x, e, sp, f, fs, hx, hxall, he, hspall, hf⟩ := limitPattern_number hsome
  have hcv : ∀ a ∈ c :: v, isWord U a = true := fun a ha =>
    hw a (by rw [huv]; exact List.mem_append_right _ ha)
  have htake : ∀ {y : Str} {a : Char} {z : Str}, (∀ b ∈ y, isWord U b = true) →
      isWord U a = false → (y ++ a :: z).takeWhile (isWord U) = y := fun hy ha => by
    rw [List.takeWhile_append_of_pos hy, List.takeWhile_cons_of_neg (by simp [ha]), List.append_nil]
  rw [← List.cons_append] at hx
  have hxcv : c :: v = x := by
    rw [← htake hcv (isWord_space U), hx, htake hxall (isWord_of_isSpace U he)]
  rw [hxcv, List.append_cancel_left_eq] at hx
  injection hx with _ hx
  cases sp with
  | nil =>
    injection hx with hx _
    rw [hx, hf] at hd
    exact absurd hd.2 (by simp)
  | cons a sp =>
    injection hx with hx _
    rw [hx, hspall a List.mem_cons_self] at hd
    exact absurd hd.1 (by simp)

theorem noLimit_selectFrom : NoWord U (isWordOf ["limit"]) "select * from " := by
  have htext : ("select * from " : Str) =
      "select" ++ ' ' :: ([] ++ '*' :: ([] ++ ' ' :: ("from" ++ ' ' :: []))) := rfl
  rw [htext, noWord_append_space, noWord_append_cons (isWord_of_notName (by decide)),
    noWord_append_space, noWord_append_space]
  exact ⟨noWord_of_keyword (by decide) (by decide), noWord_nil, noWord_nil,
    noWord_of_keyword (by decide) (by decide), noWord_nil⟩

/-- A scan for a limit goes over a table and what stands on both sides of it. -/
theorem scan_limit_behind {before after t : Str}
    (hbefore : NoWord U (isWordOf ["limit"]) before)
    (hlast : ∃ e ∈ before.getLast?, isWord U e = false)
    (htable : isIdentifier table = true) (hafter : NoWord U (isWordOf ["limit"]) after)
    (hhead : ∃ d ds, after = ' ' :: d :: ds ∧ isSpace d = false ∧ isDecimal U d = false)
    (hend : ∀ a ∈ after.getLast?, ∀ b ∈ t.head?, isWord U a = false ∨ isWord U b = false) :
    ∃ pos prev, (limitPattern U).finditer (before ++ (table ++ (after ++ t))) =
      scan (limitPattern U) t 0 pos prev := by
  have hborder : ∀ {rest : Str}, ∀ a ∈ before.getLast?, ∀ b ∈ rest.head?,
      isWord U a = false ∨ isWord U b = false := by
    obtain ⟨e, he, hw⟩ := hlast
    rintro rest a ha - -
    exact Or.inl (Option.some.inj (he.symm.trans ha) ▸ hw)
  have hword : ∀ d ∈ table, isWord U d = true := fun d hd =>
    isWord_of_isNameChar U (isNameChar_of_isIdentifier htable d hd)
  obtain ⟨d, ds, rfl, hd⟩ := hhead
  exact ⟨_, _, (scan_pass_words limitPattern_starts hbefore hborder 0 none).trans
    ((scan_limit_word hword hd _ _).trans
      (scan_pass_words limitPattern_starts hafter hend _ _))⟩

theorem limitFits_select {rt : Runtime} (htable : isIdentifier table = true)
    (hc : ∀ a ∈ c.atoms, a.Plain) : LimitFits rt (selectText table (condText c)) := by
  have hafter : NoWord rt.toUnicodeData (isWordOf ["limit"])
      (' ' :: ("where" ++ ' ' :: (condText c ++ [' ']))) :=
    noWord_afterTable (by decide) (by decide) (by decide) (by decide) hc
  have hend : ∀ w t : Str, ∀ a ∈ (' ' :: (w ++ ' ' :: (t ++ [' ']))).getLast?,
      isWord rt.toUnicodeData a = false := fun w t a ha => by
    have hassoc : ' ' :: (w ++ ' ' :: (t ++ [' '])) = (' ' :: (w ++ ' ' :: t)) ++ [' '] := by simp
    rw [hassoc, List.getLast?_concat] at ha
    exact Option.some.inj ha ▸ isWord_space _
  have hdecimal : isDecimal rt.toUnicodeData 'w' = false := by
    rw [isDecimal, rt.decimal_ascii 'w' (by decide)]
    rfl
  have htext : selectText table (condText c) = "select * from " ++
      (table ++ ((' ' :: ("where" ++ ' ' :: (condText c ++ [' ']))) ++ "limit 1")) := by
    have hassoc : ∀ x y z : Str, x ++ (condText c ++ (' ' :: z)) =
        (x ++ (condText c ++ [' '])) ++ z := fun x y z => by
      simp only [List.append_assoc, List.cons_append, List.nil_append]
    exact congrArg (fun s : Str => "select * from " ++ (table ++ s)) (hassoc " where " [] "limit 1")
  obtain ⟨pos, prev, hscan⟩ := scan_limit_behind (t := "limit 1") noLimit_selectFrom
    ⟨' ', by decide, isWord_space _⟩ htable hafter ⟨'w', _, rfl, by decide, hdecimal⟩
    fun a ha _ _ => Or.inl (hend _ _ a ha)
  rw [← htext] at hscan
  exact limitFits_of_scan hscan (by decide)

/-- The parser reads a statement over one table: the table, and the atoms of the condition. -/
theorem parse_select (rt : Runtime) (htable : isIdentifier table = true)
    (hc : ∀ a ∈ c.atoms, a.Plain) :
    ∃ parsed, parse rt (selectText table (condText c)) = .ok parsed ∧
      parsed.tables = [selectTable table] ∧ parsed.predicates = c.atoms.map Atom.predicate := by
  obtain ⟨parsed, hparsed⟩ : Returns (parse rt (selectText table (condText c))) :=
    parse_returns_iff.2 (limitFits_select htable hc)
  obtain ⟨-, htables, hpredicates⟩ := parse_eq_ok hparsed
  exact ⟨parsed, hparsed, htables.trans (tables_select htable hc),
    hpredicates.trans (predicates_select htable fun a ha => (hc a ha).valid)⟩

end Select

end SqlGatekeeper
