import SqlGatekeeper.Services.FilterChain

/-!
# Which plan rows the EXPLAIN filter sees

A join has one plan row for each table it reads.  The filter evaluates every target, but each
evaluation fetches the first row of the same plan.

* `PlanSafe`: every plan row keeps within the policy, full scans judged by the row's own table.
* `allows_iff_first`: the filter allows exactly when the first row keeps within the policy, full
  scans judged by the targets' tables.
* `allows_safe_iff`: when an allowed request has a safe plan.
-/

namespace SqlGatekeeper

open Py Pipeline ExplainRiskEvaluator

namespace ExplainRiskFilter

/-- Is the table a plan row reads large under the policy? -/
def ReadsLarge (policy : PolicySet) (count : Str → Int) (row : PlanRow) : Prop :=
  ∃ name, row.table = some name ∧ policy.largeTableRowThreshold ≤ count name

/-- Every row of a plan keeps within the policy. -/
def PlanSafe (U : UnicodeData) (policy : PolicySet) (count : Str → Int) (plan : List PlanRow) :
    Prop :=
  ∀ row ∈ plan, Within U policy row (ReadsLarge policy count row)

/-- Is the table of one of the targets large under the policy? -/
def TargetsLarge (policy : PolicySet) (count : Str → Int) (targets : List RouteTarget) : Prop :=
  ∃ t ∈ targets, policy.largeTableRowThreshold ≤ count t.physicalTableName

/-- Keeping within the policy for several sizes, of which there is one at least. -/
theorem within_exists_iff {α : Type} {U : UnicodeData} {policy : PolicySet} {row : PlanRow}
    {large : α → Prop} {l : List α} (hne : l ≠ []) :
    (∀ a ∈ l, Within U policy row (large a)) ↔ Within U policy row
    (∃ a ∈ l, large a) := by
  constructor
  · intro h
    obtain ⟨a, l', rfl⟩ := List.exists_cons_of_ne_nil hne
    have ha := h a List.mem_cons_self
    exact ⟨ha.scanRows, fun hr ht ⟨b, hb, hl⟩ => (h b hb).fullScan hr ht hl, ha.temporary,
      ha.filesort⟩
  · intro h a ha
    exact ⟨h.scanRows, fun hr ht hl => h.fullScan hr ht ⟨a, ha, hl⟩, h.temporary,
      h.filesort⟩

section Coverage

variable {U : UnicodeData} {backend : Backend} {policy : PolicySet} {context : FilterContext}
  {count : Str → Int} {first : PlanRow} {rest : List PlanRow}

/-- The filter allows exactly when the first plan row keeps within the policy. -/
theorem allows_iff_first (hpolicy : context.policy = some policy)
    (htargets : context.routeDecision.targets ≠ [])
    (hloaded : ∀ t ∈ context.routeDecision.targets,
      (context.datasources.lookup t.datasourceCode).isSome = true)
    (hengine : ∀ d, backend.engineError d = none) (htext : ∀ s, backend.textError s = none)
    (hcount : ∀ d name, tableRowCount backend d name = .ok (count name))
    (hplan : ∀ d, backend.explain d ("EXPLAIN " ++ context.rewrittenSql) = .ok (first :: rest)) :
    (∃ c', SqlFilter.Allows (apply (evaluate U backend)) context c') ↔
      Within U policy first (TargetsLarge policy count context.routeDecision.targets) := by
  have haccepts : ∀ t ∈ context.routeDecision.targets,
      (Accepts (evaluate U backend) policy context t ↔
        Within U policy first (policy.largeTableRowThreshold ≤ count t.physicalTableName)) := by
    intro t ht
    obtain ⟨d, hd⟩ := Option.isSome_iff_exists.1 (hloaded t ht)
    rw [← judge_allowed_iff t.physicalTableName]
    have heval : evaluate U backend d context.rewrittenSql t.physicalTableName policy =
        .ok (judge U first t.physicalTableName (count t.physicalTableName) policy) :=
      evaluate_eq_ok.2 ⟨hengine d, htext _, _, _, hcount d _, hplan d, rfl⟩
    constructor
    · rintro ⟨d', e, hd', he, ha⟩
      obtain rfl : d = d' := Option.some.inj (hd.symm.trans hd')
      obtain rfl := Except.ok.inj (heval.symm.trans he)
      exact ha
    · intro ha
      exact ⟨d, _, hd, heval, ha⟩
  have happly : (∃ c', SqlFilter.Allows (apply (evaluate U backend)) context c') ↔
      ∀ t ∈ context.routeDecision.targets, Accepts (evaluate U backend) policy context t := by
    rw [← applyTo_allows_iff]
    simp only [SqlFilter.Allows, Allows, apply, hpolicy]
  rw [happly, TargetsLarge, ← within_exists_iff htargets]
  exact forall₂_congr haccepts

/-- A plan with one row, for the table of a target, is covered. -/
theorem safe_of_single (hpolicy : context.policy = some policy)
    (hloaded : ∀ t ∈ context.routeDecision.targets,
      (context.datasources.lookup t.datasourceCode).isSome = true)
    (hengine : ∀ d, backend.engineError d = none) (htext : ∀ s, backend.textError s = none)
    (hcount : ∀ d name, tableRowCount backend d name = .ok (count name))
    (hplan : ∀ d, backend.explain d ("EXPLAIN " ++ context.rewrittenSql) = .ok [first])
    (hfirst : ∃ t ∈ context.routeDecision.targets, first.table = some t.physicalTableName)
    (h : ∃ c', SqlFilter.Allows (apply (evaluate U backend)) context c') :
    PlanSafe U policy count [first] := by
  obtain ⟨t, ht, htable⟩ := hfirst
  have hw := (allows_iff_first hpolicy (List.ne_nil_of_mem ht) hloaded hengine htext
    hcount hplan).1 h
  refine (List.forall_mem_singleton).2 ⟨hw.scanRows, fun hr hall ⟨name, hname, hl⟩ => ?_,
    hw.temporary, hw.filesort⟩
  rw [htable, Option.some.injEq] at hname
  exact hw.fullScan hr hall ⟨t, ht, by rw [hname]; exact hl⟩

/-- An allowed request has a safe plan exactly if the first row does not allow it anyway, or the
rows behind the first keep within the policy and the first is no full scan of a large table. -/
theorem allows_safe_iff (hpolicy : context.policy = some policy)
    (htargets : context.routeDecision.targets ≠ [])
    (hloaded : ∀ t ∈ context.routeDecision.targets,
      (context.datasources.lookup t.datasourceCode).isSome = true)
    (hengine : ∀ d, backend.engineError d = none) (htext : ∀ s, backend.textError s = none)
    (hcount : ∀ d name, tableRowCount backend d name = .ok (count name))
    (hplan : ∀ d, backend.explain d ("EXPLAIN " ++ context.rewrittenSql) = .ok (first :: rest)) :
    ((∃ c', SqlFilter.Allows (apply (evaluate U backend)) context c') →
      PlanSafe U policy count (first :: rest)) ↔
    (¬ Within U policy first (TargetsLarge policy count context.routeDecision.targets) ∨
      ((∀ row ∈ rest, Within U policy row (ReadsLarge policy count row)) ∧
        (policy.rejectFullScanOnLargeTable = true → upper U (textOr first.type []) = "ALL" →
          ¬ ReadsLarge policy count first))) := by
  rw [allows_iff_first hpolicy htargets hloaded hengine htext hcount hplan, PlanSafe,
    List.forall_mem_cons]
  constructor
  · intro h
    by_cases hfirst : Within U policy first
        (TargetsLarge policy count context.routeDecision.targets)
    · obtain ⟨h1, h2⟩ := h hfirst
      exact Or.inr ⟨h2, h1.fullScan⟩
    · exact Or.inl hfirst
  · rintro (hfirst | ⟨h2, h1⟩) hw
    · exact absurd hw hfirst
    · exact ⟨⟨hw.scanRows, h1, hw.temporary, hw.filesort⟩, h2⟩

end Coverage

/-! ### A join

The first table is read by its key, the second is scanned and sorted. -/

/-- The plan of the join. -/
def joinPlan : List PlanRow :=
  [⟨some "a", some "const", some "PRIMARY", some 1, none⟩,
    ⟨some "b", some "ALL", none, some 500000, some "Using temporary; Using filesort"⟩]

/-- A backend with this plan and small tables. -/
def joinBackend : Backend := { exampleBackend with explainReply := fun _ _ => .ok joinPlan }

/-- A target of the join. -/
def joinTarget (tableName : Str) : RouteTarget :=
  ⟨tableName, "user", tableName, "biz", false, none, "0"⟩

/-- The context of the join when the EXPLAIN filter sees it. -/
def joinContext : FilterContext where
  sql := "select * from user_0 a join user_1 b on a.x = b.x limit 1"
  routeContext := []
  parsedSql := ⟨"select * from user_0 a join user_1 b on a.x = b.x limit 1", "select",
    [⟨"user_0", some "a", 14, 20⟩, ⟨"user_1", some "b", 28, 34⟩], [], true, some 1, false⟩
  rewrittenSql := "select * from user_0 a join user_1 b on a.x = b.x limit 1"
  routeDecision := ⟨true, "ALLOW", "Route resolution succeeded",
    [joinTarget "user_0", joinTarget "user_1"], []⟩
  policy := some examplePolicy
  datasources := [("biz", exampleDatasource)]
  explainSummaries := []

/-- The filter allows the join although its second plan row breaks the policy. -/
theorem join_allowed_not_safe :
    ¬ ((∃ c', SqlFilter.Allows (apply (evaluate asciiData joinBackend)) joinContext c') →
      PlanSafe asciiData examplePolicy (fun _ => 10) joinPlan) := by
  intro h
  have hfirst : Within asciiData examplePolicy ⟨some "a", some "const", some "PRIMARY",
    some 1, none⟩
      (TargetsLarge examplePolicy (fun _ => 10) joinContext.routeDecision.targets) :=
    ⟨by decide, fun _ ht => absurd ht (by decide), fun _ => by decide, fun _ => by decide⟩
  have hallows : ∃ c', SqlFilter.Allows (apply (evaluate asciiData joinBackend)) joinContext c' :=
    (allows_iff_first rfl (by decide) (by decide) (fun _ => rfl) (fun _ => rfl) (fun _ _ => rfl)
      (fun _ => rfl)).2 hfirst
  have hrow := h hallows ⟨some "b", some "ALL", none, some 500000,
    some "Using temporary; Using filesort"⟩ (by decide)
  exact absurd hrow.scanRows (by decide)

/-- The condition, for the join. -/
theorem allows_safe_iff_join :
    ((∃ c', SqlFilter.Allows (apply (evaluate asciiData joinBackend)) joinContext c') →
      PlanSafe asciiData examplePolicy (fun _ => 10) joinPlan) ↔
    (¬ Within asciiData examplePolicy ⟨some "a", some "const", some "PRIMARY", some 1, none⟩
        (TargetsLarge examplePolicy (fun _ => 10) joinContext.routeDecision.targets) ∨
      ((∀ row ∈ joinPlan.tail, Within asciiData examplePolicy row
        (ReadsLarge examplePolicy (fun _ => 10) row)) ∧
        (examplePolicy.rejectFullScanOnLargeTable = true → upper asciiData "const" = "ALL" →
          ¬ ReadsLarge examplePolicy (fun _ => 10)
            ⟨some "a", some "const", some "PRIMARY", some 1, none⟩))) :=
  allows_safe_iff rfl (by decide) (by decide) (fun _ => rfl) (fun _ => rfl) (fun _ _ => rfl)
    (fun _ => rfl)

end ExplainRiskFilter

end SqlGatekeeper
