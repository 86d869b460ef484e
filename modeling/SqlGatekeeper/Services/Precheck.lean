import SqlGatekeeper.Services.SqlParser

/-!
# The basic guard

`BasicSqlGuard` looks at the raw text before anything is parsed.

* `evaluate`: the guard.
* `evaluate_allowed_iff`: the four conditions of an allowed statement.
* `parse_of_evaluate_allowed`: guard and parser agree: what the guard allows is one
  statement, of type `select`.
-/

namespace SqlGatekeeper

open Py

/-- The statement types that are denied by name. -/
def disallowedSqlPrefixes : List Str :=
  ["update", "delete", "insert", "replace", "drop", "alter", "truncate"]

/-- The guard's decision. -/
structure PrecheckDecision where
  allowed : Bool
  reasonCode : Str
  message : Str
  deriving DecidableEq, Repr

namespace BasicSqlGuard

/-- `BasicSqlGuard.evaluate`. -/
def evaluate (U : UnicodeData) (sql : Str) : PrecheckDecision :=
  let normalized := strip sql
  if normalized = [] then ⟨false, "EMPTY_SQL", "SQL must not be empty"⟩
  else
    let lowered := lower U normalized
    if contains (withoutTrailingSemicolon lowered) ";" then
      ⟨false, "MULTI_STATEMENT", "Multiple SQL statements are not allowed"⟩
    else if startsWith lowered "--" || startsWith lowered "/*" then
      ⟨false, "LEADING_COMMENT", "Leading comments are not allowed"⟩
    else
      let firstToken := (leadingWord lowered).getD []
      if firstToken ∈ disallowedSqlPrefixes then
        ⟨false, "SQL_TYPE_DENIED", "SQL type '" ++ firstToken ++ "' is not allowed"⟩
      else if firstToken ≠ "select" then
        ⟨false, "UNSUPPORTED_SQL", "Only SELECT SQL is supported in the current stage"⟩
      else ⟨true, "ALLOW", "SQL passed the basic precheck"⟩

variable {U : UnicodeData} {sql : Str}

/-- The guard allows a single statement whose first word is `select`.  A comment mark
in front is no letter, so the test for one is subsumed. -/
theorem evaluate_allowed_iff : (evaluate U sql).allowed = true ↔
    contains (withoutTrailingSemicolon (lower U (strip sql))) ";" = false ∧
      leadingLetters (lower U (strip sql)) = "select" := by
  have hword : (leadingWord (lower U (strip sql))).getD [] = leadingLetters
      (lower U (strip sql)) := by
    rw [leadingWord_eq]
    split
    · rename_i h
      exact h.symm
    · rfl
  unfold evaluate
  simp only [hword]
  by_cases hempty : strip sql = []
  · rw [if_pos hempty, hempty]
    have hnil : leadingLetters (lower U []) ≠ "select" := show ([] : Str) ≠ "select" by decide
    exact ⟨fun h => absurd h Bool.false_ne_true, fun h => absurd h.2 hnil⟩
  rw [if_neg hempty]
  by_cases hmulti : contains (withoutTrailingSemicolon (lower U (strip sql))) ";" = true
  · rw [if_pos hmulti, hmulti]
    exact ⟨fun h => absurd h Bool.false_ne_true, fun h => absurd h.1 (by decide)⟩
  rw [if_neg hmulti]
  by_cases hcomment : (startsWith (lower U (strip sql)) "--" ||
      startsWith (lower U (strip sql)) "/*") = true
  · rw [if_pos hcomment]
    refine ⟨fun h => absurd h Bool.false_ne_true, fun ⟨_, h⟩ => ?_⟩
    have hnil : leadingLetters (lower U (strip sql)) = [] := by
      rw [Bool.or_eq_true, startsWith, startsWith, List.isPrefixOf_iff_prefix,
        List.isPrefixOf_iff_prefix] at hcomment
      rcases hcomment with ⟨t, ht⟩ | ⟨t, ht⟩ <;> rw [← ht] <;> rfl
    rw [hnil] at h
    exact absurd h (by decide)
  rw [if_neg hcomment]
  generalize leadingLetters (lower U (strip sql)) = first
  by_cases hselect : first = "select"
  · have hnot : first ∉ disallowedSqlPrefixes := by
      rw [hselect]
      decide
    rw [if_neg hnot, if_neg (not_not.2 hselect)]
    exact ⟨fun _ => ⟨Bool.eq_false_of_not_eq_true hmulti, hselect⟩, fun _ => rfl⟩
  · rw [if_pos hselect]
    split <;> exact ⟨fun h => absurd h Bool.false_ne_true, fun h => absurd h.2 hselect⟩

/-- What the guard allows, the parser reads as one statement of type `select`. -/
theorem parse_of_evaluate_allowed {rt : Runtime} {parsed : ParsedSql}
    (hguard : (evaluate rt.toUnicodeData sql).allowed = true) (hparse : parse rt sql = .ok parsed) :
    parsed.sqlType = "select" ∧ parsed.isMultiStatement = false := by
  obtain ⟨hmulti, hselect⟩ := evaluate_allowed_iff.1 hguard
  have hfields : parsed.sqlType =
        ((leadingWord (strip sql)).map (lower rt.toUnicodeData)).getD "unknown" ∧
      parsed.isMultiStatement =
        contains (withoutTrailingSemicolon (lower rt.toUnicodeData (strip sql))) ";" := by
    rw [parse] at hparse
    rcases h : parseLimitValue rt sql with e | v
    · rw [h] at hparse
      exact absurd hparse (by simp [bind, Except.bind])
    · rw [h] at hparse
      injection hparse with hparse
      subst hparse
      exact ⟨rfl, rfl⟩
  rw [hfields.1, hfields.2, hmulti]
  refine ⟨?_, rfl⟩
  have hdrop : ∀ s : Str, (∀ c ∈ s.head?, isSpace c = false) → s.dropWhile isSpace = s := by
    intro s hs
    cases s with
    | nil => rfl
    | cons c cs => rw [List.dropWhile_cons_of_neg (by simp [hs c rfl])]
  have hletters : (leadingLetters (strip sql)).map Char.toLower = "select" := by
    rw [leadingLetters, hdrop _ (isSpace_head_lower _ (strip_head sql))] at hselect
    rw [leadingLetters, hdrop _ (strip_head sql)]
    exact takeWhile_isAlpha_lowerFrom _ (by decide) (by decide) hselect
  have hne : leadingLetters (strip sql) ≠ [] := by
    intro h
    rw [h] at hletters
    exact absurd hletters (by decide)
  have hascii : Ascii (leadingLetters (strip sql)) := fun c hc =>
    toNat_lt_of_isAlpha (List.mem_takeWhile_imp hc)
  rw [leadingWord_eq, if_neg hne, Option.map_some, Option.getD_some, lower_ascii _ hascii, hletters]

end BasicSqlGuard

end SqlGatekeeper
