import SqlGatekeeper.Services.FilterChain
import SqlGatekeeper.Services.LimitScan

/-!
# The limit of a statement over subqueries

Statements `select * from (S1) a1 join (S2) a2 on c2 … where w limit m, n`, whose subqueries may
have limits of their own and whose conditions may quote any text.

* `outside`: what stands outside of quotes and parentheses; `ClosedText`, `ConditionText`.
* `SubquerySelect`: such a statement, with its own limit if it has one.
* `LimitGoverned`: `LimitFilter` lets the statement pass only if its own limit is there and within
  the policy.
* `limitGoverned_iff`: when it is so.
-/

namespace SqlGatekeeper

open Py Regex

/-! ## Closed texts -/

/-- Where a reader of a text is. -/
inductive Place where
  | plain
  | quoted (quote : Char)
  /-- Behind a backslash in a quotation. -/
  | escaped (quote : Char)

/-- Does a character open a quotation? -/
def isQuote (c : Char) : Bool := c == '\'' || c == '"' || c == Char.ofNat 96

/-- What stands outside of quotations and parentheses, with a space for each of them: by the place,
the number of open parentheses and the text ahead.  A text that ends inside has no answer. -/
def outside : Place → Nat → Str → Option Str
  | .plain, 0, [] => some []
  | _, _, [] => none
  | .escaped quote, depth, _ :: cs => outside (.quoted quote) depth cs
  | .quoted quote, depth, c :: cs =>
      outside (if c = '\\' then .escaped quote else if c = quote then .plain else .quoted quote)
        depth cs
  | .plain, depth, c :: cs =>
      let put := fun (d : Char) (plain : Str) => if depth = 0 then d :: plain else plain
      if isQuote c then (outside (.quoted c) depth cs).map (put ' ')
      else if c = '(' then (outside .plain (depth + 1) cs).map (put ' ')
      else if c = ')' then if depth = 0 then none else outside .plain (depth - 1) cs
      else (outside .plain depth cs).map (put c)

/-- Where a comment starts. -/
def commentMarks : List Str := ["--", "/*", "#"]

/-- A text that closes its quotations and parentheses, with no comment outside of them. -/
structure ClosedText where
  text : Str
  plain : Str
  closed : outside .plain 0 text = some plain
  noComment : ∀ mark ∈ commentMarks, contains plain mark = false

/-- A condition: a closed text without the word `limit` outside. -/
structure ConditionText (U : UnicodeData) extends ClosedText where
  noLimit : NoWord U (isWordOf ["limit"]) plain

/-! ## Statements -/

/-- A subquery and its alias. -/
structure SubqueryTable where
  subquery : ClosedText
  aliasName : Str
  plainAlias : PlainName aliasName

/-- `join (S) a on c`. -/
structure SubqueryJoin (U : UnicodeData) where
  table : SubqueryTable
  condition : ConditionText U

/-- `limit n` or `limit m, n`. -/
structure OwnLimit where
  offset : Option Nat
  rowCount : Nat

/-- A statement over subqueries. -/
structure SubquerySelect (U : UnicodeData) where
  first : SubqueryTable
  joins : List (SubqueryJoin U)
  condition : ConditionText U
  limit : Option OwnLimit

/-- `(S) a` -/
def SubqueryTable.text (t : SubqueryTable) : Str :=
  '(' :: (t.subquery.text ++ (')' :: ' ' :: t.aliasName))

/-- The text of a join. -/
def SubqueryJoin.text {U : UnicodeData} (j : SubqueryJoin U) : Str :=
  " join " ++ (j.table.text ++ (" on " ++ j.condition.text))

/-- The text of a limit. -/
def OwnLimit.text (l : OwnLimit) : Str :=
  match l.offset with
  | none => " limit " ++ natText l.rowCount
  | some m => " limit " ++ (natText m ++ (", " ++ natText l.rowCount))

/-- The text in front of the statement's own limit. -/
def SubquerySelect.beforeLimit {U : UnicodeData} (s : SubquerySelect U) : Str :=
  "select * from " ++ (s.first.text ++ (s.joins.flatMap (·.text) ++
    (" where " ++ s.condition.text)))

/-- The text of its own limit. -/
def SubquerySelect.limitText {U : UnicodeData} (s : SubquerySelect U) : Str :=
  (s.limit.map (·.text)).getD []

/-- The text of a statement. -/
def SubquerySelect.text {U : UnicodeData} (s : SubquerySelect U) : Str :=
  s.beforeLimit ++ s.limitText

/-! ## The own limit -/

section OwnLimit

variable {U : UnicodeData}

theorem numberThen_natText (more : Str → Str → Option Str) (n : Nat) {rest : Str}
    (hrest : rest.head?.any (isDecimal U) = false) :
    numberThen U more (natText n ++ rest) = more (natText n) rest := by
  have hall : ∀ c ∈ natText n, isDecimal U c = true := isDecimal_natText n
  have hhead : (natText n ++ rest).head?.any (isDecimal U) = true := by
    obtain ⟨c, cs, hc⟩ := List.exists_cons_of_ne_nil (natText_ne_nil n)
    rw [hc] at hall ⊢
    exact hall c List.mem_cons_self
  rw [numberThen, if_pos hhead, (span_append hrest _).1, (span_append hrest _).2,
    List.takeWhile_eq_self_iff.2 hall, List.dropWhile_eq_nil_iff.2 hall, List.nil_append]

/-- A number stands behind one space. -/
theorem dropWhile_space_natText (n : Nat) (rest : Str) :
    (' ' :: (natText n ++ rest)).dropWhile isSpace = natText n ++ rest := by
  obtain ⟨c, cs, hc⟩ := List.exists_cons_of_ne_nil (natText_ne_nil n)
  have hdigit : c.isDigit = true := natText_isDigit c (by rw [hc]; exact List.mem_cons_self)
  have hspace : isSpace c = false := isSpace_eq_false_of_isAlphanum
    (by simp [Char.isAlphanum, hdigit])
  rw [List.dropWhile_cons_of_pos (by decide), hc, List.cons_append,
    List.dropWhile_cons_of_neg (by simp [hspace])]

/-- The pattern reads the row count of a limit. -/
theorem limitCount_own (l : OwnLimit) : ∃ n rest, l.text = ' ' ::
    ("limit" ++ ' ' :: (natText n ++ rest)) ∧
    rest.head?.any (isDecimal U) = false ∧ limitCount U (natText n) rest =
      some (natText l.rowCount) := by
  obtain ⟨offset, rowCount⟩ := l
  cases offset with
  | none =>
    refine ⟨rowCount, [], by rw [List.append_nil]; rfl, rfl, ?_⟩
    rw [limitCount, endedNumber]
    rfl
  | some m =>
    refine ⟨m, ", " ++ natText rowCount, rfl, isDecimal_comma, ?_⟩
    have hsecond : secondNumber U (", " ++ natText rowCount) = some (natText rowCount) := by
      have hend : ([] : Str).head?.any (isDecimal U) = false := rfl
      have hnumber := numberThen_natText (endedNumber U) rowCount hend
      have hspaces := dropWhile_space_natText rowCount []
      rw [List.append_nil] at hnumber hspaces
      rw [secondNumber, show (", " ++ natText rowCount).dropWhile isSpace =
        ',' :: ' ' :: natText rowCount from rfl, List.head?_cons, if_pos rfl, List.tail_cons,
        hspaces, hnumber]
      rfl
    rw [limitCount, hsecond]
    rfl

/-- The own limit is the first one of its text. -/
theorem firstLimit_own (l : OwnLimit) (prev : Option Char) :
    firstLimit U prev l.text = some (natText l.rowCount) := by
  obtain ⟨n, rest, htext, hrest, hcount⟩ := limitCount_own (U := U) l
  have hspace : limitHere U prev l.text = none := by
    rw [htext, limitHere, limitNumber]
    split <;> rfl
  have hlimit : limitHere U (some ' ') ("limit" ++ ' ' :: (natText n ++ rest)) =
      some (natText l.rowCount) := by
    have htake : ("limit" ++ ' ' :: (natText n ++ rest)).take 5 = "limit" := rfl
    have hdrop : ("limit" ++ ' ' :: (natText n ++ rest)).drop 5 = ' ' :: (natText n ++ rest) := rfl
    have hprev : (some ' ').any (isWord U) = false := isWord_space U
    rw [limitHere, if_neg (by rw [hprev]; exact Bool.false_ne_true), limitNumber, htake, hdrop,
      dropWhile_space_natText, numberThen_natText _ _ hrest, hcount]
    rfl
  rw [htext] at hspace ⊢
  rw [firstLimit, hspace, Option.none_or]
  exact (congrArg (Option.or · _) hlimit).trans (Option.some_or)

/-- No match goes from the text in front of it into an own limit. -/
theorem inert_own (l : OwnLimit) : Inert U l.text ∧ l.text.head?.any (isWord U) = false := by
  obtain ⟨n, rest, htext, -⟩ := limitCount_own (U := U) l
  rw [htext]
  refine ⟨⟨fun c hc => ?_, isDecimal_of_not_isDigit (by decide) (by decide), fun c hc => ?_⟩,
    isWord_space U⟩
  · obtain rfl : ' ' = c := Option.some.inj hc
    decide
  · obtain rfl : 'l' = c := Option.some.inj hc
    exact ⟨isDecimal_of_not_isDigit (by decide) (by decide), by decide⟩

/-- The first limit of a statement stands in front of its own limit, or it is its own. -/
theorem firstLimit_text (s : SubquerySelect U) : firstLimit U none s.text =
    (firstLimit U none s.beforeLimit).or (s.limit.map fun l => natText l.rowCount) := by
  rw [SubquerySelect.text, SubquerySelect.limitText]
  cases s.limit with
  | none => rw [Option.map_none, Option.getD_none, List.append_nil, Option.map_none, Option.or_none]
  | some l =>
    obtain ⟨hinert, hword⟩ := inert_own (U := U) l
    rw [Option.map_some, Option.getD_some, firstLimit_append hinert hword, firstLimit_own]
    rfl

end OwnLimit

/-! ## The law and its exact condition -/

/-- `LimitFilter` lets a statement pass only if it has a limit of its own whose row count is within
the policy. -/
def LimitGoverned (rt : Runtime) (policy : PolicySet)
    (s : SubquerySelect rt.toUnicodeData) : Prop :=
  ∀ parsed context context', parse rt s.text = .ok parsed → context.parsedSql = parsed →
    context.policy = some policy → SqlFilter.Allows LimitFilter.apply context context' →
    ∃ l, s.limit = some l ∧ (l.rowCount : Int) ≤ policy.maxLimit

/-- A context of a filter, for a statement and a policy. -/
def limitContext (parsed : ParsedSql) (policy : PolicySet) : FilterContext where
  sql := parsed.originalSql
  routeContext := []
  parsedSql := parsed
  rewrittenSql := parsed.originalSql
  routeDecision := ⟨true, "ALLOW", "Route resolution succeeded", [], []⟩
  policy := some policy
  datasources := []
  explainSummaries := []

section Governed

variable {rt : Runtime} {policy : PolicySet} {s : SubquerySelect rt.toUnicodeData}

/-- The own limit decides if there is none in front of it. -/
theorem limitGoverned_of_first (hrequire : policy.requireLimit = true)
    (hbefore : firstLimit rt.toUnicodeData none s.beforeLimit = none) :
    LimitGoverned rt policy s := by
  rintro parsed context context' hparsed rfl hpolicy hallows
  obtain ⟨hpresent, hvalue, -⟩ := (LimitFilter.allows_iff hpolicy).1 hallows
  obtain ⟨hlimit, hhas⟩ := parse_limit hparsed
  have hfirst := firstLimit_text s
  rw [hbefore, Option.none_or] at hfirst
  cases hown : s.limit with
  | none =>
    rw [hfirst, hown, hpresent hrequire] at hhas
    exact absurd hhas (by simp)
  | some l =>
    have hint : natText l.rowCount = intText l.rowCount := by
      rw [intText, if_neg (by omega), Int.natAbs_natCast]
    refine ⟨l, rfl, ?_⟩
    rw [parseLimitValue_eq, hfirst, hown, Option.map_some, Option.map_some, Option.getD_some, hint,
      rt.int_intText] at hlimit
    split at hlimit
    · have heq : some (l.rowCount : Int) = context.parsedSql.limitValue := Except.ok.inj hlimit
      exact hvalue _ heq.symm
    · exact absurd hlimit (by simp [Except.map])

/-- A limit in front of the own one decides. -/
theorem parseLimitValue_text {t : Str}
    (hbefore : firstLimit rt.toUnicodeData none s.beforeLimit = some t) :
    parseLimitValue rt s.text = parseLimitValue rt s.beforeLimit := by
  rw [parseLimitValue_eq, parseLimitValue_eq, firstLimit_text, hbefore, Option.some_or]

/-- A limit in front that is within the policy lets the statement pass. -/
theorem allows_of_limit_before {n : Int} (hn : parseLimitValue rt s.beforeLimit = .ok (some n))
    (hle : n ≤ policy.maxLimit) : ∃ parsed, parse rt s.text = .ok parsed ∧
      SqlFilter.Allows LimitFilter.apply (limitContext parsed policy)
        (limitContext parsed policy) := by
  obtain ⟨t, ht⟩ : ∃ t, firstLimit rt.toUnicodeData none s.beforeLimit = some t := by
    rw [parseLimitValue_eq] at hn
    cases h : firstLimit rt.toUnicodeData none s.beforeLimit with
    | none => rw [h] at hn; exact absurd hn (by simp)
    | some t => exact ⟨t, rfl⟩
  have htext := (parseLimitValue_text ht).trans hn
  obtain ⟨parsed, hparsed⟩ : Returns (parse rt s.text) := by
    rw [parse_returns_iff, ← parseLimitValue_returns_iff, htext]
    exact returns_ok _
  obtain ⟨hlimit, hhas⟩ := parse_limit hparsed
  have hvalue : some n = parsed.limitValue := Except.ok.inj (htext.symm.trans hlimit)
  refine ⟨parsed, hparsed, (LimitFilter.allows_iff rfl).2 ⟨fun _ => ?_, fun m hm =>
    ?_, rfl⟩⟩
  · rw [limitContext, hhas, firstLimit_text, ht, Option.some_or]
    rfl
  · obtain rfl : n = m := Option.some.inj (hvalue.trans hm)
    exact hle

/-- A limit in front that passes is within the policy. -/
theorem le_of_allows {t : Str} (ht : firstLimit rt.toUnicodeData none s.beforeLimit = some t)
    {parsed : ParsedSql} (hparsed : parse rt s.text = .ok parsed)
    (hvalue : ∀ n, parsed.limitValue = some n → n ≤ policy.maxLimit) :
    ∃ n, parseLimitValue rt s.beforeLimit = .ok (some n) ∧ n ≤ policy.maxLimit := by
  obtain ⟨hlimit, -⟩ := parse_limit hparsed
  rw [parseLimitValue_text ht] at hlimit
  have hread := hlimit
  rw [parseLimitValue_eq, ht, Option.map_some, Option.getD_some] at hread
  obtain ⟨n, -, hn⟩ := map_eq_ok.1 hread
  exact ⟨n, hlimit.trans (congrArg Except.ok hn.symm), hvalue n hn.symm⟩

end Governed

/-- The limit of a statement is governed exactly if a limit that stands in front of its own is
refused anyway, or its own limit is within the policy. -/
theorem limitGoverned_iff (rt : Runtime) (policy : PolicySet)
    (hrequire : policy.requireLimit = true) (s : SubquerySelect rt.toUnicodeData) :
    LimitGoverned rt policy s ↔
      (∀ n, parseLimitValue rt s.beforeLimit = .ok (some n) → policy.maxLimit < n) ∨
        ∃ l, s.limit = some l ∧ (l.rowCount : Int) ≤ policy.maxLimit := by
  constructor
  · intro h
    by_cases hin : ∃ n, parseLimitValue rt s.beforeLimit = .ok (some n) ∧ n ≤ policy.maxLimit
    · obtain ⟨n, hn, hle⟩ := hin
      obtain ⟨parsed, hparsed, hallows⟩ := allows_of_limit_before hn hle
      exact Or.inr (h parsed _ _ hparsed rfl rfl hallows)
    · exact Or.inl fun n hn => lt_of_not_ge fun hle => hin ⟨n, hn, hle⟩
  · rintro (hrefused | hown)
    · cases ht : firstLimit rt.toUnicodeData none s.beforeLimit with
      | none => exact limitGoverned_of_first hrequire ht
      | some t =>
        rintro parsed context context' hparsed rfl hpolicy hallows
        obtain ⟨-, hvalue, -⟩ := (LimitFilter.allows_iff hpolicy).1 hallows
        obtain ⟨n, hn, hle⟩ := le_of_allows ht hparsed hvalue
        exact absurd (hrefused n hn) (not_lt.2 hle)
    · exact fun _ _ _ _ _ _ _ => hown

/-! ## A limit in a subquery -/

/-- A subquery with a limit of its own. -/
def limitedSubquery : ClosedText where
  text := "select * from user limit 5"
  plain := "select * from user limit 5"
  closed := by decide
  noComment := by decide

/-- A condition with a quoted text. -/
def quotingCondition : ConditionText asciiData where
  text := "a.note = 'limit 7'"
  plain := "a.note =  "
  closed := by decide
  noComment := by decide
  noLimit := noWord_of_all (by decide)

/-- A statement that asks for any number of rows of a limited subquery. -/
def nestedLimit (limit : Option OwnLimit) : SubquerySelect asciiData where
  first := ⟨limitedSubquery, "a", plainName_of (by decide)⟩
  joins := []
  condition := quotingCondition
  limit

theorem parse_nestedLimit :
    parseLimitValue asciiRuntime (nestedLimit none).beforeLimit = .ok (some 5) := by decide +kernel

/-- The limit of the subquery lets the statement pass, whatever its own limit is. -/
theorem nestedLimit_ungoverned :
    ¬ LimitGoverned asciiRuntime examplePolicy (nestedLimit (some ⟨none, 100000⟩)) := by
  intro h
  have hpasses : ∃ parsed, parse asciiRuntime (nestedLimit (some ⟨none, 100000⟩)).text =
      .ok parsed ∧ SqlFilter.Allows LimitFilter.apply (limitContext parsed examplePolicy)
        (limitContext parsed examplePolicy) :=
    allows_of_limit_before (parse_nestedLimit) (show (5 : Int) ≤ 1000 by decide)
  obtain ⟨parsed, hparsed, hallows⟩ := hpasses
  obtain ⟨l, hl, hle⟩ := h parsed _ _ hparsed rfl rfl hallows
  obtain rfl : (⟨none, 100000⟩ : OwnLimit) = l := Option.some.inj hl
  exact absurd hle (by decide)

/-- A limit within the policy governs itself. -/
theorem nestedLimit_governed :
    LimitGoverned asciiRuntime examplePolicy (nestedLimit (some ⟨some 10, 100⟩)) :=
  (limitGoverned_iff asciiRuntime examplePolicy rfl _).2 (Or.inr ⟨_, rfl, by decide⟩)

end SqlGatekeeper
