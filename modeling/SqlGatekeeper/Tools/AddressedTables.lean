import SqlGatekeeper.Tools.ImportedRouting
import SqlGatekeeper.Tools.StableNames
import SqlGatekeeper.Services.Renaming
import SqlGatekeeper.Services.SelectText

/-!
# Imported tables in a statement

Which logical tables of an import a statement can name.

* `Addressed`: the parser finds a table in `select * from t limit 1`; `addressed_iff`: exactly if
  the table pattern takes its name for one.
* `letterSpan`, `normalizedName_eq`: a normalised name, letter by letter.
* `Spelled`, `isName_iff_spelled`: the raw names whose generated name the pattern reads.
* `addressed_logicalTables_iff`: all tables of a bundle can be named, exactly if all rows are
  spelled so, and `LooksUp`: what can be named is looked up.
-/

namespace SqlGatekeeper

open Py Regex Store

/-! ## A statement over a table -/

/-- The statement that reads one row of a table. -/
def peekText (table : Str) : Str := "select * from " ++ (table ++ " limit 1")

/-- The parser finds the table, and nothing else, where its name stands. -/
def Addressed (rt : Runtime) (name : Str) : Prop :=
  ∃ parsed table, parse rt (peekText name) = .ok parsed ∧ parsed.tables = [table] ∧
    table.tableName = name ∧ table.tokenStart = ("select * from " : Str).length ∧
    table.tokenEnd = table.tokenStart + name.length

section Peek

variable {U : UnicodeData} {name : Str}

/-- The reference in the statement: `limit` is taken for an alias. -/
def peekRead (name : Str) : TableRead := ⟨"from", [' '], name, some ([' '], "limit")⟩

theorem peekText_eq (name : Str) : peekText name = "select * " ++
    readsText [(peekRead name, " 1")] := by
  have hread : readsText [(peekRead name, " 1")] =
      (("from" : Str) ++ [' ']) ++ (name ++ (([' '] ++ ("limit" : Str)) ++ (" 1" : Str))) := by
    simp only [readsText, TableRead.text, TableRead.lead, List.append_assoc, List.append_nil]
    rfl
  have hlead : ("select * from " : Str) = ("select * " : Str) ++
      (("from" : Str) ++ [' ']) := by decide
  have htail : (" limit 1" : Str) = ([' '] ++ ("limit" : Str)) ++ (" 1" : Str) := by decide
  calc peekText name
      = (("select * " : Str) ++ (("from" : Str) ++ [' '])) ++
          (name ++ (([' '] ++ ("limit" : Str)) ++ (" 1" : Str))) :=
        congrArg₂ (· ++ ·) hlead (congrArg (name ++ ·) htail)
    _ = "select * " ++ readsText [(peekRead name, " 1")] :=
        (List.append_assoc _ _ _).trans (congrArg (("select * " : Str) ++ ·) hread.symm)

theorem peekRead_valid (hname : IsName name) : (peekRead name).Valid ∧
    (peekRead name).EndsAt " 1" := by
  refine ⟨⟨show tableWordAhead "from" = true by decide, rfl, ⟨by simp [peekRead], ?_⟩,
    hname, fun a ha => ?_⟩, show isNamePart ' ' = false by decide, ?_⟩
  · exact fun c hc => by rw [List.mem_singleton.1 hc]; decide
  · obtain rfl : ([' '], ("limit" : Str)) = a := Option.some.inj ha
    exact isName_of_isIdentifier (by decide)
  · exact show aliasAt " limit 1" = some ([' '], ("limit" : Str), (" 1" : Str)) by decide

/-- The pattern finds the reference. -/
theorem scanned_peekText (hname : IsName name) :
    Scanned U none "select * " [(peekRead name, " 1")] := by
  obtain ⟨hvalid, hends⟩ := peekRead_valid hname
  have hbehind : Scanned U (lastOf (some ' ') (peekRead name).text) ((" 1" : Str) ++ []) [] := by
    have hwords : NoWord U (isWordOf tableWords) (" 1" : Str) :=
      noWord_space.2 (noWord_natText (by decide) 1)
    exact .of_noWord hwords (by simp [readsText]) (.nil _)
  have hfound : Scanned U (some ' ') [] [(peekRead name, " 1")] :=
    .found (isWord_space U) hvalid (show (peekRead name).EndsAt ((" 1" : Str) ++ [])
      from hends) hbehind
  exact Scanned.of_noWord (lead_select (U := U)).noTableWord
    ((lead_select (U := U)).border _) hfound

theorem limitFits_peekText {rt : Runtime} (hname : IsName name) : LimitFits rt (peekText name) := by
  have hborder : ∀ a ∈ ("select * from " : Str).getLast?,
    ∀ b ∈ (name ++ (" limit 1" : Str)).head?,
      isWord rt.toUnicodeData a = false ∨ isWord rt.toUnicodeData b = false := fun a ha _ _ => by
    obtain rfl : ' ' = a := by simpa using ha
    exact Or.inl (isWord_space _)
  have hdecimal : isDecimal rt.toUnicodeData 'l' = false :=
    isDecimal_of_not_isDigit (by decide) (by decide)
  have hscan : (limitPattern rt.toUnicodeData).finditer (peekText name) = _ :=
    (scan_pass_words limitPattern_starts noLimit_selectFrom hborder 0 none).trans
      (scan_limit_word (fun c hc => isWord_of_isNamePart (hname.parts c hc))
        ⟨by decide, hdecimal⟩ _ _)
  exact limitFits_of_scan hscan (by decide)

theorem isName_of_mem_readTables {ps : List (TableRead × Str)} (hps : ReadsFit ps) {pos : Nat}
    {table : ParsedTable} (h : table ∈ readTables ps pos) : IsName table.tableName := by
  induction hps generalizing pos with
  | nil => exact absurd h List.not_mem_nil
  | cons valid ends rest ih =>
    rcases List.mem_cons.1 h with rfl | h
    · exact valid.name
    · exact ih h

/-- The parser finds a table in the statement exactly if the pattern takes its name for one. -/
theorem addressed_iff {rt : Runtime} : Addressed rt name ↔ IsName name := by
  constructor
  · rintro ⟨parsed, table, hparsed, htables, hname, -⟩
    obtain ⟨gap, ps, htext, hscan⟩ := exists_scanned rt.toUnicodeData none (peekText name)
    rw [htext] at hparsed
    have hmem : table ∈ readTables ps gap.length := by
      rw [← hscan.parsed_tables hparsed, htables]
      exact List.mem_singleton_self table
    rw [← hname]
    exact isName_of_mem_readTables hscan.fits hmem
  · intro hname
    obtain ⟨parsed, hparsed⟩ : Returns (parse rt (peekText name)) :=
      parse_returns_iff.2 (limitFits_peekText hname)
    have hscan : Scanned rt.toUnicodeData none "select * " [(peekRead name, " 1")] :=
      scanned_peekText hname
    have htables : parsed.tables = [(peekRead name).table 9] := by
      rw [peekText_eq] at hparsed
      exact hscan.parsed_tables hparsed
    have hstart : 9 + (("from" : Str) ++ [' ']).length =
        ("select * from " : Str).length := by decide
    exact ⟨parsed, _, hparsed, htables, rfl, hstart, rfl⟩

end Peek

/-! ## A normalised name, letter by letter -/

section Letters

/-- Of a text made up character by character, an end of single underscores goes with the characters
they stand for. -/
theorem dropWhile_flatMap {p : Char → Bool} {f : Char → Str} {d : Char}
    (hp : ∀ c, p c = true → f c = [d])
    (hn : ∀ c, p c = false → f c ≠ [] ∧ d ∉ f c) (s : Str) :
    (s.flatMap f).dropWhile (· == d) = (s.dropWhile p).flatMap f := by
  induction s with
  | nil => rfl
  | cons c s ih =>
    rw [List.flatMap_cons]
    cases hc : p c with
    | true =>
      rw [hp c hc, List.dropWhile_cons_of_pos hc, List.singleton_append,
        List.dropWhile_cons_of_pos (by simp), ih]
    | false =>
      obtain ⟨hne, hd⟩ := hn c hc
      obtain ⟨e, t, he⟩ := List.exists_cons_of_ne_nil hne
      have hed : e ≠ d := by
        rintro rfl
        exact hd (he ▸ List.mem_cons_self)
      rw [List.dropWhile_cons_of_neg (by simp [hc]), List.flatMap_cons, he, List.cons_append,
        List.dropWhile_cons_of_neg (by simpa using hed)]

/-- What is true of the first characters of a text made up piece by piece. -/
theorem forall_mem_take_flatMap {f : Char → Str} {P : Char → Prop} {s : Str} {k : Nat} :
    (∀ d ∈ (s.flatMap f).take k, P d) ↔
      ∀ u c v, s = u ++ c :: v → ∀ d ∈ (f c).take (k - (u.flatMap f).length), P d := by
  induction s generalizing k with
  | nil => simp
  | cons c s ih =>
    have hsplit : (∀ d ∈ ((c :: s).flatMap f).take k, P d) ↔
        (∀ d ∈ (f c).take k, P d) ∧ ∀ d ∈ (s.flatMap f).take (k - (f c).length), P d := by
      rw [List.flatMap_cons, List.take_append, List.forall_mem_append]
    rw [hsplit, ih]
    constructor
    · rintro ⟨hfirst, hrest⟩ u e v hu
      cases u with
      | nil =>
        obtain ⟨rfl, rfl⟩ := List.cons.inj hu
        exact hfirst
      | cons a u =>
        obtain ⟨rfl, hs⟩ := List.cons.inj hu
        have hroom : k - ((c :: u).flatMap f).length = k - (f c).length - (u.flatMap f).length := by
          rw [List.flatMap_cons, List.length_append]
          omega
        rw [hroom]
        exact hrest u e v hs
    · intro h
      refine ⟨h [] c s rfl, fun u e v hs => ?_⟩
      have hroom : k - ((c :: u).flatMap f).length = k - (f c).length - (u.flatMap f).length := by
        rw [List.flatMap_cons, List.length_append]
        omega
      rw [← hroom]
      exact h (c :: u) e v (by rw [hs]; rfl)

variable (U : UnicodeData)

/-- What a character of a raw name becomes. -/
def spelling (ch : Char) : Str := if U.isAlnum ch then lower U [ch] else ['_']

/-- A raw name from its first letter or digit to its last. -/
def letterSpan (raw : Str) : Str :=
  ((raw.dropWhile fun c => !U.isAlnum c).reverse.dropWhile fun c => !U.isAlnum c).reverse

variable {U}

theorem lower_singleton (c : Char) : lower U [c] =
    if c = capitalSigma then [if U.finalSigma [] [] then Char.ofNat 0x3C2 else Char.ofNat 0x3C3]
    else U.lowerChar c := by
  rw [lower, lowerFrom, lowerFrom, List.append_nil]

/-- No letter or digit has an underscore in its lower case. -/
theorem spelling_of_isAlnum {c : Char} (hc : U.isAlnum c = true) :
    spelling U c ≠ [] ∧ '_' ∉ spelling U c := by
  rw [spelling, if_pos hc, lower_singleton]
  split
  · split
    · exact ⟨by decide, by decide⟩
    · exact ⟨by decide, by decide⟩
  · refine ⟨U.lowerChar_ne_nil c, fun h => ?_⟩
    rcases U.lowerChar_ascii_mem c '_' h (by decide) with hascii | rfl | rfl
    · rw [U.isAlnum_ascii c hascii] at hc
      rw [U.lowerChar_ascii c hascii, List.mem_singleton] at h
      have hlower : c.toLower.isAlphanum = true := by
        by_cases hu : c.isUpper = true
        · rw [Char.isAlphanum, isAlpha_toLower, Char.isAlpha, hu, Bool.true_or, Bool.true_or]
        · rw [Char.toLower_eq_of_not_isUpper hu]
          exact hc
      rw [← h] at hlower
      exact absurd hlower (by decide)
    · rw [U.lowerChar_dottedI] at h
      exact absurd h (by decide)
    · rw [U.lowerChar_kelvin] at h
      exact absurd h (by decide)

theorem spelling_of_not_isAlnum {c : Char} (hc : (!U.isAlnum c) = true) : spelling U c = ['_'] := by
  rw [spelling, if_neg (by simpa using hc)]

/-- A name is normalised letter by letter, from its first letter or digit to its last. -/
theorem normalizedName_eq (raw : Str) :
    normalizedName U raw = orText ((letterSpan U raw).flatMap (spelling U)) "unknown" := by
  have hout : ∀ c, (!U.isAlnum c) = true → spelling U c = ['_'] :=
    fun c => spelling_of_not_isAlnum
  have hin : ∀ c, (!U.isAlnum c) = false → spelling U c ≠ [] ∧ '_' ∉ spelling U c :=
    fun c hc => spelling_of_isAlnum (by simpa using hc)
  have hleft := dropWhile_flatMap hout hin raw
  have hright := dropWhile_flatMap (p := fun c => !U.isAlnum c) (f := fun c =>
    (spelling U c).reverse)
    (fun c hc => by rw [hout c hc]; rfl) (fun c hc => by simpa using hin c hc)
    (raw.dropWhile fun c => !U.isAlnum c).reverse
  have hstrip : stripChar '_' (raw.flatMap (spelling U)) =
      (letterSpan U raw).flatMap (spelling U) := by
    rw [stripChar, hleft, rstripChar, List.reverse_flatMap]
    refine (congrArg List.reverse hright).trans ?_
    have htwice : (List.reverse ∘ fun c => (spelling U c).reverse) = spelling U :=
      funext fun c => List.reverse_reverse _
    rw [List.reverse_flatMap, htwice, letterSpan]
  exact congrArg (orText · "unknown") hstrip

/-! ## Names that the pattern reads -/

theorem isAlnum_of_head_letterSpan {raw : Str} : ∀ c ∈ (letterSpan U raw).head?,
    U.isAlnum c = true := by
  intro c hc
  have hprefix : letterSpan U raw <+: raw.dropWhile fun c => !U.isAlnum c := by
    rw [letterSpan, ← List.reverse_suffix, List.reverse_reverse]
    exact List.dropWhile_suffix _
  obtain ⟨t, ht⟩ := hprefix
  have hhead : (raw.dropWhile fun c => !U.isAlnum c).head? = some c := by
    rw [← ht, List.head?_append_of_ne_nil _ (by rintro h; simp [h] at hc)]
    exact hc
  have hnot := List.head?_dropWhile_not (fun c => !U.isAlnum c) raw
  rw [hhead] at hnot
  simpa using hnot

/-- So much of a normalised name becomes the name of a logical table: all, or what leaves room for
the digest. -/
def keptLength (length : Nat) : Nat := if length ≤ 128 then length else 119

/-- The table pattern reads what the letters and digits of a raw name become: the first one starts a
name, and all of them, as far as they are kept, go on with it. -/
structure Spelled (U : UnicodeData) (raw : Str) : Prop where
  first : ∀ c ∈ (letterSpan U raw).head?, nameAhead (lower U [c]) = true
  letters : ∀ u c v, letterSpan U raw = u ++ c :: v → U.isAlnum c = true →
    ∀ d ∈ (lower U [c]).take (keptLength ((letterSpan U raw).flatMap (spelling U)).length -
      (u.flatMap (spelling U)).length), isNamePart d = true

/-- Underscores at the end of a text do not matter. -/
theorem forall_mem_rstripChar {P : Char → Prop} {d : Char} (hd : P d) (s : Str) :
    (∀ c ∈ rstripChar d s, P c) ↔ ∀ c ∈ s, P c := by
  constructor
  · intro h c hc
    rw [← List.reverse_reverse s, ← List.takeWhile_append_dropWhile (p := (· == d))
      (l := s.reverse), List.reverse_append, List.mem_append] at hc
    rcases hc with hc | hc
    · exact h c hc
    · have hcd := List.mem_takeWhile_imp (List.mem_reverse.1 hc)
      rw [beq_iff_eq.1 hcd]
      exact hd
  · exact fun h c hc => h c ((rstripChar_isPrefix d s).subset hc)

theorem isNamePart_of_isHexDigit {c : Char} (hc : isHexDigit c = true) : isNamePart c = true := by
  have hname : isNameChar c = true := by
    rw [isHexDigit, Bool.or_eq_true, Bool.and_eq_true, decide_eq_true_eq, decide_eq_true_eq] at hc
    rw [isNameChar, Bool.or_eq_true, isAlphanum_iff]
    left
    rcases hc with hc | hc
    · have := isDigit_iff.1 hc
      omega
    · omega
  rw [isNamePart, foldClass, hname, Bool.true_or]

/-- The pattern reads a name of a logical table by what it keeps of the normalised name. -/
theorem isName_stableIdentifier (digest : Digest) (raw : Str) :
    IsName (stableIdentifier U digest raw [] 128) ↔ nameAhead (normalizedName U raw) = true ∧
      ∀ d ∈ (normalizedName U raw).take (keptLength (normalizedName U raw).length),
        isNamePart d = true := by
  have hname : stableIdentifier U digest raw [] 128 =
      if (normalizedName U raw).length ≤ 128 then normalizedName U raw
      else rstripChar '_' ((normalizedName U raw).take 119) ++ '_' :: digest.text raw := by
    rw [stableIdentifier, keptName, digest.length_text]
    simp only [List.nil_append]
    split
    · rfl
    · rfl
  rw [hname, keptLength]
  split
  · rw [List.take_length]
    exact ⟨fun h => ⟨h.start, h.parts⟩, fun h => ⟨h.1, h.2⟩⟩
  · have hbare := bare_normalizedName U raw
    have hcut := hbare.cut (k := 119) (by decide)
    have hstart : nameAhead (rstripChar '_' ((normalizedName U raw).take 119) ++
        '_' :: digest.text raw) = nameAhead (normalizedName U raw) := by
      obtain ⟨t, ht⟩ := (rstripChar_isPrefix '_' _).trans
        (List.take_prefix 119 (normalizedName U raw))
      rw [nameAhead_append hcut.ne_nil, ← nameAhead_append hcut.ne_nil t, ht]
    have hunderscore : isNamePart '_' = true := by decide
    have hdigest : ∀ d ∈ '_' :: digest.text raw, isNamePart d = true :=
      List.forall_mem_cons.2 ⟨hunderscore, fun d hd =>
        isNamePart_of_isHexDigit (digest.hex raw d hd)⟩
    have hparts : (∀ d ∈ rstripChar '_' ((normalizedName U raw).take 119) ++ '_' :: digest.text
        raw, isNamePart d = true) ↔ ∀ d ∈ (normalizedName U raw).take 119,
          isNamePart d = true := by
      rw [List.forall_mem_append, and_iff_left hdigest, forall_mem_rstripChar hunderscore]
    rw [← hparts, ← hstart]
    exact ⟨fun h => ⟨h.start, h.parts⟩, fun h => ⟨h.1, h.2⟩⟩

/-- The pattern reads the name that a raw name gets exactly if it is spelled so. -/
theorem isName_iff_spelled (digest : Digest) (raw : Str) :
    IsName (stableIdentifier U digest raw [] 128) ↔ Spelled U raw := by
  rw [isName_stableIdentifier, normalizedName_eq]
  rcases hspan : letterSpan U raw with _ | ⟨c, s⟩
  · have hunknown : isIdentifier "unknown" = true := by decide
    have hname := isName_of_isIdentifier hunknown
    have hspelled : Spelled U raw := by
      refine ⟨fun c hc => ?_, fun u c v h => ?_⟩
      · rw [hspan] at hc
        exact absurd hc (by simp)
      · rw [hspan] at h
        exact absurd h (by simp)
    exact iff_of_true ⟨hname.start, fun d hd =>
      hname.parts d (List.mem_of_mem_take hd)⟩ hspelled
  · have halnum : U.isAlnum c = true := isAlnum_of_head_letterSpan c (by rw [hspan]; rfl)
    have hspelling : spelling U c = lower U [c] := if_pos halnum
    have hne := (spelling_of_isAlnum halnum).1
    have hbase : orText ((c :: s).flatMap (spelling U)) "unknown" = (c :: s).flatMap (spelling U) :=
      if_neg (by rw [List.flatMap_cons]; exact fun h => hne (List.append_eq_nil_iff.1 h).1)
    have hstart : nameAhead ((c :: s).flatMap (spelling U)) = nameAhead (lower U [c]) := by
      rw [List.flatMap_cons, nameAhead_append hne, hspelling]
    rw [hbase, hstart, forall_mem_take_flatMap]
    constructor
    · rintro ⟨hfirst, hletters⟩
      refine ⟨fun d hd => ?_, fun u d v hu hd => ?_⟩
      · rw [hspan] at hd
        obtain rfl : c = d := Option.some.inj hd
        exact hfirst
      · rw [hspan] at hu ⊢
        have h := hletters u d v hu
        rwa [spelling, if_pos hd] at h
    · rintro ⟨hfirst, hletters⟩
      refine ⟨hfirst c (by rw [hspan]; rfl), fun u d v hu => ?_⟩
      by_cases hd : U.isAlnum d = true
      · rw [spelling, if_pos hd]
        have h := hletters u d v (hspan.trans hu) hd
        rwa [hspan] at h
      · rw [spelling_of_not_isAlnum (by simpa using hd)]
        intro e he
        rw [List.mem_singleton.1 (List.mem_of_mem_take he)]
        decide

end Letters

/-! ## The tables of a bundle -/

/-- The raw name of the logical table of a row. -/
def rawTableName (row : TableConfigRow) : Str :=
  orText row.catlogName "unknown_catalog" ++ "__" ++ row.tableName

theorem addressed_logicalNameOf {rt : Runtime} (row : TableConfigRow) :
    Addressed rt (logicalNameOf rt.toUnicodeData row) ↔
      Spelled rt.toUnicodeData (rawTableName row) := by
  rw [addressed_iff, logicalNameOf, makeLogicalTableName, makeStableIdentifier_eq,
    isName_iff_spelled, rawTableName]

/-- The resolution of the statement over a logical table of a bundle goes on with the row that was
imported for it. -/
def LooksUp (rt : Runtime) (db : Metadata) (table : LogicalTableRecord) : Prop :=
  ∃ parsed found logicalTable, parse rt (peekText table.tableName) = .ok parsed ∧
    parsed.tables = [found] ∧ found.tableName = table.tableName ∧
    db.getEnabledByName table.tableName = .ok (some logicalTable) ∧
    TableStored logicalTable table ∧
    ∀ routeContext, resolve rt db parsed routeContext =
      (resolveLogicalTable rt db parsed routeContext found logicalTable).map TableOutcome.decision

section Bundle

variable {rt : Runtime} {rows : List TableConfigRow} {target : ImportedDatasourceTarget}
  {bundle : SyncBundle}

theorem enabled_logicalTable (h : buildSyncBundle rt rows target = .ok bundle)
    {table : LogicalTableRecord} (htable : table ∈ bundle.logicalTables) :
    table.enabled = true := by
  obtain ⟨records, sample, more, hgroup, hsample, hrecord⟩ := exists_groupOfTable h htable
  rw [hrecord]
  rfl

/-- A logical table that can be named is looked up, unless a registered physical table has its
name. -/
theorem Addressed.looksUp (h : buildSyncBundle rt rows target = .ok bundle) {db : Metadata}
    (hdb : db.Constraints) (hheld : db.HoldsBundle bundle) {table : LogicalTableRecord}
    (htable : table ∈ bundle.logicalTables)
    (hphysical : ∀ r ∈ db.physicalRoutes.rows, r.physicalTableName ≠ table.tableName)
    (haddressed : Addressed rt table.tableName) : LooksUp rt db table := by
  obtain ⟨parsed, found, hparsed, htables, hname, -⟩ := haddressed
  obtain ⟨t, ht⟩ := hheld.logicalTables table htable
  have henabled : t.enabled = true := ht.stored.enabled.trans (enabled_logicalTable h htable)
  have hlogical : db.getEnabledByName table.tableName = .ok (some t) :=
    ht.stored.tableName ▸ hdb.getEnabledByName_of_mem ht.mem henabled
  refine ⟨parsed, found, t, hparsed, htables, hname, hlogical, ht.stored,
    fun routeContext => ?_⟩
  have hnone : db.getEnabledByPhysicalTableName table.tableName = .ok none :=
    getEnabledByPhysicalTableName_none hphysical
  have hstep : resolveTable rt db parsed routeContext found =
      resolveLogicalTable rt db parsed routeContext found t := by
    simp only [resolveTable, hnone, hname, hlogical, bind, Except.bind]
  rw [resolve_singleton htables, hstep]

theorem addressed_all_iff (h : buildSyncBundle rt rows target = .ok bundle) :
    (∀ table ∈ bundle.logicalTables, Addressed rt table.tableName) ↔
      ∀ row ∈ keptRows rows, Spelled rt.toUnicodeData (rawTableName row) := by
  constructor
  · intro hall row hrow
    obtain ⟨table, htable, hname⟩ := List.mem_map.1 ((mem_tableNames h).2 ⟨row, hrow, rfl⟩)
    have haddressed := hall table htable
    rw [hname] at haddressed
    exact (addressed_logicalNameOf row).1 haddressed
  · intro hall table htable
    obtain ⟨row, hrow, hname⟩ := (mem_tableNames h).1 (List.mem_map_of_mem htable)
    rw [← hname]
    exact (addressed_logicalNameOf row).2 (hall row hrow)

/-- Every logical table of an import can be named in a statement exactly if the pattern reads what
the letters and digits of every catalog and table become; in metadata that holds the import, each
one that can be named and is not also a registered physical table is then looked up. -/
theorem addressed_logicalTables_iff (h : buildSyncBundle rt rows target = .ok bundle) :
    ((∀ table ∈ bundle.logicalTables, Addressed rt table.tableName) ↔
      ∀ row ∈ keptRows rows, Spelled rt.toUnicodeData (rawTableName row)) ∧
    ∀ db : Metadata, db.Constraints → db.HoldsBundle bundle →
      ∀ table ∈ bundle.logicalTables,
        (∀ r ∈ db.physicalRoutes.rows, r.physicalTableName ≠ table.tableName) →
        Addressed rt table.tableName → LooksUp rt db table :=
  ⟨addressed_all_iff h, fun _ hdb hheld _ htable hphysical haddressed =>
    haddressed.looksUp h hdb hheld htable hphysical⟩

end Bundle

/-- A catalog whose name starts with a digit. -/
def numberedCatalog : List TableConfigRow := [⟨"s", "2024", "orders", 0, 0, 0⟩]

/-- Its table cannot be named. -/
theorem exists_not_addressed :
    ∃ bundle, buildSyncBundle asciiRuntime numberedCatalog exampleTarget = .ok bundle ∧
      ∃ table ∈ bundle.logicalTables, ¬ Addressed asciiRuntime table.tableName := by
  have hrun : (buildSyncBundle asciiRuntime numberedCatalog exampleTarget).map
      (fun bundle => bundle.logicalTables.map (·.tableName)) = .ok [("2024__orders" : Str)] := by
    decide +kernel
  obtain ⟨bundle, hbundle, hnames⟩ := map_eq_ok.1 hrun
  have hmem : ("2024__orders" : Str) ∈ bundle.logicalTables.map (·.tableName) := by
    rw [hnames]
    exact List.mem_singleton_self _
  obtain ⟨table, htable, hname⟩ := List.mem_map.1 hmem
  refine ⟨bundle, hbundle, table, htable, fun haddressed => ?_⟩
  rw [hname, addressed_iff] at haddressed
  exact absurd haddressed.start (by decide)

theorem numberedCatalog_not_addressed :
    ∃ bundle, buildSyncBundle asciiRuntime numberedCatalog exampleTarget = .ok bundle ∧
      ¬ ∀ table ∈ bundle.logicalTables, Addressed asciiRuntime table.tableName := by
  obtain ⟨bundle, hbundle, table, htable, hnot⟩ := exists_not_addressed
  exact ⟨bundle, hbundle, fun hall => hnot (hall table htable)⟩

/-- The numbered catalog is not spelled so; the table in two shards is, and is looked up. -/
theorem addressed_numberedCatalog :
    (∃ bundle, buildSyncBundle asciiRuntime numberedCatalog exampleTarget = .ok bundle ∧
      ¬ ∀ row ∈ keptRows numberedCatalog,
        Spelled asciiRuntime.toUnicodeData (rawTableName row)) ∧
    ∃ bundle db, buildSyncBundle asciiRuntime twoShards exampleTarget = .ok bundle ∧
      (∀ table ∈ bundle.logicalTables, Addressed asciiRuntime table.tableName) ∧
      LooksUp asciiRuntime db twoShardsTable := by
  obtain ⟨numbered, hnumbered, table, hmem, hnot⟩ := exists_not_addressed
  obtain ⟨bundle, db, hbundle, htable, hdb, hheld, hphysical⟩ := twoShards_run
  obtain ⟨hiff, -⟩ := addressed_logicalTables_iff hnumbered
  obtain ⟨hiff', hlooksUp⟩ := addressed_logicalTables_iff hbundle
  have hspelled : ∀ row ∈ keptRows twoShards,
      Spelled asciiRuntime.toUnicodeData (rawTableName row) := by
    intro row hrow
    have hname : logicalNameOf asciiRuntime.toUnicodeData row = "c__t" := by
      rw [List.mem_singleton.1 hrow]
      decide +kernel
    refine (addressed_logicalNameOf row).1 (addressed_iff.2 ?_)
    rw [hname]
    exact isName_of_isIdentifier (by decide)
  exact ⟨⟨numbered, hnumbered, fun hall => hnot (hiff.2 hall table hmem)⟩, bundle, db,
    hbundle, hiff'.2 hspelled,
    hlooksUp db hdb hheld twoShardsTable htable hphysical (hiff'.2 hspelled _ htable)⟩

end SqlGatekeeper
