import SqlGatekeeper.Python.Regex
import SqlGatekeeper.Python.Words
import SqlGatekeeper.Python.Value

/-!
# The SQL parser

`SqlParser` reads the tables, the equality predicates and the limit of a statement with
three regular expressions.

* `tablePattern`, `predicatePattern`, `limitPattern`: the expressions.
* `ParsedSql`: what the parser finds; `ParsedSql.predicateValue` looks a predicate up.
* `parse`: the parser; it raises when a limit has more digits than `int` reads.
* `leadingWord_eq`: the first word of a statement, without the matcher.
-/

namespace SqlGatekeeper

open Py Regex

/-! ## The patterns -/

/-- `TABLE_PATTERN`: group 2 is the name, group 3 the alias. -/
def tablePattern (U : UnicodeData) : Regex :=
  seq (boundary (isWord U)) (seq (group 1 (alt (word "from") (word "join")))
    (seq (many1 isSpace) (seq (group 2 ident)
      (opt (seq (many1 isSpace) (seq (opt (seq (word "as") (many1 isSpace))) (group 3 ident)))))))

/-- `\d` of `re`. -/
def isDecimal (U : UnicodeData) (c : Char) : Bool := (U.decimal c).isSome

/-- `'[^']*'` for a quote character. -/
def quoted (q : Char) : Regex := seq (char (· == q)) (seq (many (· != q)) (char (· == q)))

/-- `PREDICATE_PATTERN`: groups 1, 2 and 3 are qualifier, column and value. -/
def predicatePattern (U : UnicodeData) : Regex :=
  seq (opt (seq (group 1 ident) (char (· == '.')))) (seq (group 2 ident)
    (seq (many isSpace) (seq (char (· == '=')) (seq (many isSpace)
      (group 3 (alt (quoted '\'') (alt (quoted '"')
        (seq (opt (char (· == '-'))) (many1 (isDecimal U))))))))))

/-- `LIMIT_PATTERN`. -/
def limitPattern (U : UnicodeData) : Regex :=
  seq (boundary (isWord U)) (seq (word "limit") (seq (many1 isSpace)
    (seq (group 1 (many1 (isDecimal U)))
      (seq (opt (seq (many isSpace) (seq (char (· == ',')) (seq (many isSpace)
        (group 2 (many1 (isDecimal U)))))))
        (boundary (isWord U))))))

/-- `^\s*([a-zA-Z]+)`. -/
def leadingWordPattern : Regex := seq (many isSpace) (group 1 (many1 Char.isAlpha))

/-! ## The parsed statement -/

/-- A table reference and where its name stands. -/
structure ParsedTable where
  tableName : Str
  aliasName : Option Str
  tokenStart : Nat
  tokenEnd : Nat
  deriving DecidableEq, Repr

/-- An equality predicate. -/
structure ParsedPredicate where
  qualifier : Option Str
  column : Str
  value : Str
  deriving DecidableEq, Repr

/-- What the parser finds in a statement. -/
structure ParsedSql where
  originalSql : Str
  sqlType : Str
  tables : List ParsedTable
  predicates : List ParsedPredicate
  hasLimit : Bool
  limitValue : Option Int
  isMultiStatement : Bool
  deriving DecidableEq, Repr

/-- Is a predicate on this column and, if one is given, under this qualifier? -/
def ParsedPredicate.isOn (U : UnicodeData) (p : ParsedPredicate) (column : Str)
    (qualifier : Option Str) : Bool :=
  lower U p.column = lower U column ∧
    ∀ q ∈ qualifier, lower U (p.qualifier.getD []) = lower U q

/-- `ParsedSql.predicate_value`: the first predicate on the column decides. -/
def ParsedSql.predicateValue (U : UnicodeData) (parsed : ParsedSql) (column : Str)
    (qualifier : Option Str) : Option Str :=
  (parsed.predicates.find? fun p => p.isOn U column qualifier).map (·.value)

/-! ## The parser -/

/-- The text of a group, if it took part in the match. -/
def groupText (m : Match) (n : Nat) : Option Str := (m.group n).map (·.text)

/-- `_normalize_value`: without the quotes. -/
def normalizeValue (rawValue : Str) : Str :=
  if (startsWith rawValue "'" || startsWith rawValue "\"") &&
      (rawValue.getLast? == some '\'' || rawValue.getLast? == some '"') then
    rawValue.tail.dropLast
  else rawValue

/-- The table of a match of `tablePattern`. -/
def tableOfMatch (m : Match) : Option ParsedTable :=
  (m.group 2).map fun name => ⟨name.text, groupText m 3, name.start, name.stop⟩

/-- The predicate of a match of `predicatePattern`. -/
def predicateOfMatch (m : Match) : Option ParsedPredicate := do
  let column ← groupText m 2
  let value ← groupText m 3
  pure ⟨groupText m 1, column, normalizeValue value⟩

/-- `_parse_limit_value`: `limit offset, count` counts. -/
def parseLimitValue (rt : Runtime) (sql : Str) : Except PyError (Option Int) :=
  match (limitPattern rt.toUnicodeData).search sql with
  | none => .ok none
  | some m =>
      match groupText m 2 with
      | some count => (rt.int count).map some
      | none => (rt.int ((groupText m 1).getD [])).map some

/-- The statement in lower case without trailing semicolons. -/
def withoutTrailingSemicolon (lowered : Str) : Str := strip (rstripChar ';' lowered)

/-- The first word of a statement. -/
def leadingWord (s : Str) : Option Str :=
  (leadingWordPattern.matchStart s).bind fun m => groupText m 1

/-- `SqlParser.parse`. -/
def parse (rt : Runtime) (sql : Str) : Except PyError ParsedSql := do
  let U := rt.toUnicodeData
  let stripped := strip sql
  let lowered := lower U stripped
  let limitValue ← parseLimitValue rt sql
  pure {
    originalSql := sql
    sqlType := ((leadingWord stripped).map (lower U)).getD "unknown"
    tables := ((tablePattern U).finditer sql).filterMap tableOfMatch
    predicates := ((predicatePattern U).finditer sql).filterMap predicateOfMatch
    hasLimit := ((limitPattern U).search sql).isSome
    limitValue
    isMultiStatement := contains (withoutTrailingSemicolon lowered) ";" }

/-! ## The first word -/

/-- The run of letters behind the leading whitespace. -/
def leadingLetters (s : Str) : Str := (s.dropWhile isSpace).takeWhile Char.isAlpha

/-- The first word is that run. -/
theorem leadingWord_eq (s : Str) :
    leadingWord s = if leadingLetters s = [] then none else some (leadingLetters s) := by
  rw [leadingLetters]
  set rest := s.dropWhile isSpace with hrest
  have hs : s = s.takeWhile isSpace ++ rest := (List.takeWhile_append_dropWhile).symm
  have hsp : ∀ c ∈ s.takeWhile isSpace, isSpace c = true :=
    fun c hc => List.mem_takeWhile_imp hc
  by_cases hv : rest.takeWhile Char.isAlpha = []
  · have hnone : leadingWordPattern.matchStart s = none := by
      rw [matchStart, ← Option.not_isSome_iff_eq_none, matchAt_isSome_iff]
      rintro ⟨stop, caps, mid, capsm, ⟨w, cs, hw, hspw, rfl, rfl⟩, capsn,
        ⟨m2, c2, hchar, -⟩, -⟩
      obtain ⟨c, ds, hc, hal, -⟩ := hchar
      simp only [Cursor.after] at hw hc
      have hns : isSpace c = false :=
        isSpace_eq_false_of_isAlphanum (by rw [Char.isAlphanum, hal, Bool.true_or])
      rw [hrest, hw, hc, List.dropWhile_append_of_pos hspw,
        List.dropWhile_cons_of_neg (by simp [hns]), List.takeWhile_cons_of_pos hal] at hv
      exact absurd hv (by simp)
    rw [leadingWord, hnone, if_pos hv]
    rfl
  · set v := rest.takeWhile Char.isAlpha with hvdef
    have hrv : rest = v ++ rest.dropWhile Char.isAlpha := (List.takeWhile_append_dropWhile).symm
    have hhead : ∀ c ∈ rest.head?, isSpace c = false := by
      intro c hc
      have := List.head?_dropWhile_not isSpace s
      rw [← hrest, Option.mem_def.1 hc] at this
      simpa using this
    have halpha : ∀ c ∈ v, Char.isAlpha c = true := fun c hc => List.mem_takeWhile_imp hc
    have hstop : ∀ c ∈ (rest.dropWhile Char.isAlpha).head?, Char.isAlpha c = false := by
      intro c hc
      have := List.head?_dropWhile_not Char.isAlpha rest
      rw [Option.mem_def.1 hc] at this
      simpa using this
    set sp := s.takeWhile isSpace with hspdef
    have hmatch : leadingWordPattern.matchStart s =
        some ⟨0, sp.length + v.length, [(1, ⟨sp.length, sp.length + v.length, v⟩)]⟩ := by
      rw [matchStart, matchAt, leadingWordPattern, run]
      refine run_many_longest hs hsp hhead ?_
      rw [run]
      refine run_many1_longest hrv hv halpha hstop ?_
      simp only [Cursor.after, Cursor.spanTo, Nat.zero_add, Nat.add_sub_cancel_left]
      rw [hrv, List.take_left' rfl]
    rw [leadingWord, hmatch, Option.bind_some, if_neg hv]
    rfl

end SqlGatekeeper
