import SqlGatekeeper.Services.Rewriting

/-!
# The rewriter as a copy of the text

* `copyWith`: a text copied from left to right, with the replacement in place of each token.
* `Apart`: tokens that are not empty, lie in the text and do not overlap, in the order of the text.
* `foldr_splice_eq`: replacing from the last token to the first gives that copy.
* `rewrite_eq_copyWith`: so does the rewriter, for any of the parser's tables in any order.
-/

namespace SqlGatekeeper

open Py Regex

/-! ## The copy -/

/-- A text copied from left to right: where a token starts its replacement is put, the characters of
a token are left out, and every other character is kept. -/
def copyWith (plans : List TableRewritePlan) : Nat → Str → Str
  | _, [] => []
  | pos, c :: cs =>
      (plans.filter fun p => p.tokenStart = pos).flatMap (·.physicalTableName) ++
        ((if plans.any fun p => p.tokenStart ≤ pos && pos < p.tokenEnd then [] else [c]) ++
          copyWith plans (pos + 1) cs)

theorem copyWith_append (plans : List TableRewritePlan) (pos : Nat) (u v : Str) :
    copyWith plans pos (u ++ v) = copyWith plans pos u ++ copyWith plans (pos + u.length) v := by
  induction u generalizing pos with
  | nil => rfl
  | cons c u ih =>
    rw [List.cons_append, copyWith, copyWith, ih, List.length_cons,
      Nat.add_right_comm, ← Nat.add_assoc]
    simp only [List.append_assoc]

/-- A text in front of all tokens is copied. -/
theorem copyWith_before {plans : List TableRewritePlan} {pos : Nat} {u : Str}
    (h : ∀ p ∈ plans, pos + u.length ≤ p.tokenStart) : copyWith plans pos u = u := by
  induction u generalizing pos with
  | nil => rfl
  | cons c u ih =>
    rw [List.length_cons] at h
    have hstart : (plans.filter fun p => p.tokenStart = pos) = [] :=
      List.filter_eq_nil_iff.2 fun p hp => by
        have := h p hp
        simp only [decide_eq_true_eq]
        omega
    have hinside : ¬ (plans.any fun p => p.tokenStart ≤ pos && pos < p.tokenEnd) = true := by
      rw [List.any_eq_true]
      rintro ⟨p, hp, hin⟩
      have := h p hp
      simp only [Bool.and_eq_true, decide_eq_true_eq] at hin
      omega
    rw [copyWith, hstart, if_neg hinside, ih fun p hp => by have := h p hp; omega]
    rfl

/-- Behind its end a token does not matter. -/
theorem copyWith_behind {plan : TableRewritePlan} {plans : List TableRewritePlan} {pos : Nat}
    (u : Str) (hspan : plan.tokenStart < plan.tokenEnd) (h : plan.tokenEnd ≤ pos) :
    copyWith (plan :: plans) pos u = copyWith plans pos u := by
  induction u generalizing pos with
  | nil => rfl
  | cons c u ih =>
    have hstart : ((plan :: plans).filter fun p => p.tokenStart = pos) =
        plans.filter fun p => p.tokenStart = pos :=
      List.filter_cons_of_neg (by simp only [decide_eq_true_eq]; omega)
    have hinside : (decide (plan.tokenStart ≤ pos) && decide (pos < plan.tokenEnd)) = false := by
      rw [Bool.and_eq_false_iff]
      exact Or.inr (decide_eq_false (by omega))
    rw [copyWith, copyWith, hstart, List.any_cons, hinside, Bool.false_or,
      ih (by omega)]

/-- The rest of a token is left out. -/
theorem copyWith_inside {plan : TableRewritePlan} {plans : List TableRewritePlan} {pos : Nat}
    {u : Str} (hplan : plan ∈ plans) (hstart : plan.tokenStart < pos)
    (hend : pos + u.length ≤ plan.tokenEnd)
    (h : ∀ p ∈ plans, pos ≤ p.tokenStart → pos + u.length ≤ p.tokenStart) : copyWith plans
    pos u = [] := by
  induction u generalizing pos with
  | nil => rfl
  | cons c u ih =>
    rw [List.length_cons] at hend h
    have hnone : (plans.filter fun p => p.tokenStart = pos) = [] :=
      List.filter_eq_nil_iff.2 fun p hp => by
        have := h p hp
        simp only [decide_eq_true_eq]
        omega
    have hinside : (plans.any fun p => p.tokenStart ≤ pos && pos < p.tokenEnd) = true := by
      rw [List.any_eq_true]
      exact ⟨plan, hplan, by simp only [Bool.and_eq_true, decide_eq_true_eq]; omega⟩
    rw [copyWith, hnone, if_pos hinside,
      ih (by omega) (by omega) fun p hp hpos => by have := h p hp; omega]
    rfl

/-! ## From the last token to the first -/

/-- Tokens in the order of a text of this length: none is empty, none overlaps the next, and all lie
in the text. -/
inductive Apart (length : Nat) : Nat → List TableRewritePlan → Prop
  | nil (pos : Nat) : Apart length pos []
  | cons {pos : Nat} {plan : TableRewritePlan} {plans : List TableRewritePlan}
      (start : pos ≤ plan.tokenStart) (span : plan.tokenStart < plan.tokenEnd)
      (inside : plan.tokenEnd ≤ length) (rest : Apart length plan.tokenEnd plans) :
      Apart length pos (plan :: plans)

theorem Apart.le_start {length pos : Nat} {plans : List TableRewritePlan}
    (h : Apart length pos plans) :
    ∀ p ∈ plans, pos ≤ p.tokenStart := by
  induction h with
  | nil pos => exact fun p hp => absurd hp List.not_mem_nil
  | cons start span inside rest ih =>
    exact List.forall_mem_cons.2 ⟨start, fun p hp => start.trans (span.le.trans (ih p hp))⟩

theorem Apart.mono {length pos pos' : Nat} {plans : List TableRewritePlan}
    (h : Apart length pos' plans) (hpos : pos ≤ pos') : Apart length pos plans := by
  cases h with
  | nil => exact .nil pos
  | cons start span inside rest => exact .cons (hpos.trans start) span inside rest

theorem Apart.sublist {length pos : Nat} {plans plans' : List TableRewritePlan}
    (h : Apart length pos plans) (hsub : plans'.Sublist plans) : Apart length pos plans' := by
  induction h generalizing plans' with
  | nil pos =>
    rw [List.sublist_nil.1 hsub]
    exact .nil pos
  | cons start span inside rest ih =>
    cases hsub with
    | cons _ hsub => exact (ih hsub).mono (start.trans span.le)
    | cons_cons _ hsub => exact .cons start span inside (ih hsub)

theorem Apart.ascending {length pos : Nat} {plans : List TableRewritePlan}
    (h : Apart length pos plans) :
    plans.Pairwise fun a b => a.tokenStart < b.tokenStart := by
  induction h with
  | nil pos => exact .nil
  | cons start span inside rest ih =>
    exact .cons (fun p hp => span.trans_le (rest.le_start p hp)) ih

/-- A token is replaced and what stands in front of it is copied. -/
theorem copyWith_token {plan : TableRewritePlan} {plans : List TableRewritePlan} {pos : Nat}
    {gap token rest : Str} (hgap : pos + gap.length = plan.tokenStart)
    (htoken : plan.tokenStart + token.length = plan.tokenEnd) (hne : token ≠ [])
    (hplans : ∀ p ∈ plans, plan.tokenEnd ≤ p.tokenStart) :
    copyWith (plan :: plans) pos (gap ++ (token ++ rest)) =
      gap ++ (plan.physicalTableName ++ copyWith plans plan.tokenEnd rest) := by
  have hspan : plan.tokenStart < plan.tokenEnd := by
    have := List.length_pos_iff.2 hne
    omega
  have hbefore : copyWith (plan :: plans) pos gap = gap :=
    copyWith_before (List.forall_mem_cons.2
      ⟨hgap.le, fun p hp => by have := hplans p hp; omega⟩)
  obtain ⟨c, cs, rfl⟩ := List.exists_cons_of_ne_nil hne
  rw [List.length_cons] at htoken
  have hone : ((plan :: plans).filter fun p => p.tokenStart = plan.tokenStart) = [plan] := by
    rw [List.filter_cons_of_pos (by simp), List.filter_eq_nil_iff.2]
    intro p hp
    have := hplans p hp
    simp only [decide_eq_true_eq]
    omega
  have hfirst : ((plan :: plans).any fun p =>
      p.tokenStart ≤ plan.tokenStart && plan.tokenStart < p.tokenEnd) = true := by
    rw [List.any_cons, decide_eq_true le_rfl, decide_eq_true hspan]
    rfl
  have hinside : copyWith (plan :: plans) (plan.tokenStart + 1) cs = [] :=
    copyWith_inside List.mem_cons_self (by omega) (by omega)
      (List.forall_mem_cons.2 ⟨by omega, fun p hp _ => by have := hplans p hp; omega⟩)
  have hend : plan.tokenStart + 1 + cs.length = plan.tokenEnd := by omega
  rw [copyWith_append, hbefore, hgap, List.cons_append, copyWith, hone, if_pos hfirst,
    copyWith_append, hinside, hend, copyWith_behind rest hspan le_rfl]
  simp only [List.flatMap_cons, List.flatMap_nil, List.append_nil, List.nil_append]

theorem take_split {a b : Nat} (h : a ≤ b) (l : Str) : l.take b = l.take a ++ (l.drop a).take
    (b - a) := by
  have hadd := List.take_add (l := l) (i := a) (j := b - a)
  rwa [Nat.add_sub_cancel' h] at hadd

theorem drop_split {a b : Nat} (h : a ≤ b) (l : Str) : l.drop a = (l.drop a).take
    (b - a) ++ l.drop b := by
  have hdrop : (l.drop a).drop (b - a) = l.drop b := by rw [List.drop_drop, Nat.add_sub_cancel' h]
  rw [← hdrop, List.take_append_drop]

/-- Replacing from the last token to the first gives the copy. -/
theorem foldr_splice_eq {text : Str} {pos : Nat} {plans : List TableRewritePlan}
    (h : Apart text.length pos plans) (hpos : pos ≤ text.length) :
    plans.foldr TableRewritePlan.splice text = text.take pos ++ copyWith plans pos
      (text.drop pos) := by
  induction h with
  | nil pos =>
    rw [copyWith_before (fun p hp => absurd hp List.not_mem_nil), List.take_append_drop]
    rfl
  | @cons pos plan plans start span inside rest ih =>
    set gap := (text.drop pos).take (plan.tokenStart - pos) with hgap
    set token := (text.drop plan.tokenStart).take (plan.tokenEnd - plan.tokenStart) with htoken
    have hgapLength : pos + gap.length = plan.tokenStart := by
      rw [hgap, List.length_take, List.length_drop]
      omega
    have htokenLength : plan.tokenStart + token.length = plan.tokenEnd := by
      rw [htoken, List.length_take, List.length_drop]
      omega
    have hfront : text.take plan.tokenStart = text.take pos ++ gap := take_split start text
    have hbehind : text.drop pos = gap ++ (token ++ text.drop plan.tokenEnd) := by
      rw [drop_split start text, drop_split span.le text]
    have hne : token ≠ [] := by
      rintro h
      rw [h, List.length_nil] at htokenLength
      omega
    have htake : (text.take plan.tokenEnd).length = plan.tokenEnd := List.length_take_of_le inside
    have hsplit : ∀ t : Str, (text.take plan.tokenEnd ++ t).take plan.tokenStart =
        text.take plan.tokenStart := fun t => by
      rw [List.take_append_of_le_length (by omega), List.take_take, Nat.min_eq_left span.le]
    rw [List.foldr_cons, ih inside, hbehind, copyWith_token hgapLength htokenLength hne
      rest.le_start, TableRewritePlan.splice, hsplit, List.drop_left' htake, hfront]
    simp only [List.append_assoc]

/-! ## The rewriter -/

/-- The plan that puts a replacement in place of a table. -/
def replacementPlan (replacement : ParsedTable → Str) (table : ParsedTable) : TableRewritePlan :=
  ⟨table.tableName, replacement table, table.tokenStart, table.tokenEnd⟩

theorem apart_readTables {ps : List (TableRead × Str)} (hps : ReadsFit ps)
    (replacement : ParsedTable → Str) {pos length : Nat}
    (hlength : pos + (readsText ps).length ≤ length) :
    Apart length pos ((readTables ps pos).map (replacementPlan replacement)) := by
  induction hps generalizing pos with
  | nil => exact .nil pos
  | @cons r gap ps valid ends rest ih =>
    have hname := List.length_pos_iff.2 valid.name.ne_nil
    have htext : r.text.length = r.lead.length + (r.name.length + r.aliasText.length) := by
      rw [TableRead.text, List.length_append, List.length_append]
    rw [readsText, List.length_append, List.length_append] at hlength
    simp only at hlength
    have hih := @ih (pos + r.text.length + gap.length) (by omega)
    refine .cons (Nat.le_add_right _ _) ?_ ?_ (hih.mono ?_)
    all_goals
      simp only [replacementPlan, TableRead.table]
      omega

/-- The rewriter copies the text from left to right with the replacements in place of the chosen
tables, in whatever order the plans come. -/
theorem rewrite_eq_copyWith {rt : Runtime} {sql : Str} {parsed : ParsedSql}
    (hparsed : parse rt sql = .ok parsed) {chosen : List ParsedTable}
    (hchosen : chosen.Sublist parsed.tables) (replacement : ParsedTable → Str)
    {plans : List TableRewritePlan}
    (hplans : plans.Perm (chosen.map (replacementPlan replacement))) :
    rewrite parsed plans = copyWith (chosen.map (replacementPlan replacement)) 0 sql := by
  have hsql := (parse_eq_ok hparsed).1
  obtain ⟨gap, ps, htext, hscan⟩ := exists_scanned rt.toUnicodeData none sql
  have hread : parsed.tables = readTables ps gap.length := hscan.parsed_tables (htext ▸ hparsed)
  have hlength : gap.length + (readsText ps).length ≤ sql.length := by
    rw [htext, List.length_append]
  have hapart : Apart sql.length 0 (chosen.map (replacementPlan replacement)) :=
    ((apart_readTables hscan.fits replacement hlength).mono (Nat.zero_le _)).sublist
      (hread ▸ hchosen.map _)
  rw [rewrite, sortPlans_perm hplans hapart.ascending, List.foldl_reverse, hsql]
  exact foldr_splice_eq hapart (Nat.zero_le _)

/-- Two tables of a join under the names of two shards, the last table's plan first. -/
theorem rewrite_joined_tables :
    (parse asciiRuntime "select * from user a join user b on a.id = b.id limit 1").map
      (fun parsed => rewrite parsed [⟨"user", "user_2", 26, 30⟩,
        ⟨"user", "user_1", 14, 18⟩]) = .ok
          (copyWith [⟨"user", "user_1", 14, 18⟩, ⟨"user", "user_2", 26, 30⟩] 0
          "select * from user a join user b on a.id = b.id limit 1") := by
  have htables : (parse asciiRuntime "select * from user a join user b on a.id = b.id limit 1").map
      (·.tables) = .ok [⟨"user", some "a", 14, 18⟩,
        ⟨"user", some "b", 26, 30⟩] := by decide +kernel
  obtain ⟨parsed, hparsed, hread⟩ := map_eq_ok.1 htables
  have hplans : [(⟨"user", "user_2", 26, 30⟩ : TableRewritePlan),
    ⟨"user", "user_1", 14, 18⟩].Perm
      (parsed.tables.map (replacementPlan fun table =>
        if table.aliasName = some "a" then "user_1" else "user_2")) := by
    rw [hread]
    exact List.Perm.swap _ _ _
  have hsplice := rewrite_eq_copyWith hparsed (List.Sublist.refl parsed.tables) _ hplans
  rw [hread] at hsplice
  rw [hparsed]
  exact congrArg Except.ok hsplice

end SqlGatekeeper
