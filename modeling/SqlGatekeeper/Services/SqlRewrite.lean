import SqlGatekeeper.Services.SqlParser

/-!
# The rewriter

`SqlRewriteEngine` replaces table names by position, from the last to the first, so
that a replacement never moves a later one.

* `TableRewritePlan`: one replacement.
* `rewrite`: all of them.
* `sortPlans_perm`: in whatever order they come, the last is replaced first.
-/

namespace SqlGatekeeper

open Py

/-- Replace the name that stands at `tokenStart` to `tokenEnd`. -/
structure TableRewritePlan where
  originalTableName : Str
  physicalTableName : Str
  tokenStart : Nat
  tokenEnd : Nat
  deriving DecidableEq, Repr

/-- One replacement in a text. -/
def TableRewritePlan.splice (plan : TableRewritePlan) (text : Str) : Str :=
  text.take plan.tokenStart ++ plan.physicalTableName ++ text.drop plan.tokenEnd

/-- `sorted(plans, key=token_start, reverse=True)`: stable. -/
def sortPlans (plans : List TableRewritePlan) : List TableRewritePlan :=
  plans.insertionSort fun a b => b.tokenStart ≤ a.tokenStart

/-- `SqlRewriteEngine.rewrite`. -/
def rewrite (parsed : ParsedSql) (rewritePlans : List TableRewritePlan) : Str :=
  (sortPlans rewritePlans).foldl (fun text plan => plan.splice text) parsed.originalSql

/-- Without plans the statement stays as it is. -/
@[simp] theorem rewrite_nil (parsed : ParsedSql) : rewrite parsed [] = parsed.originalSql := rfl

/-! ## The order of the replacements -/

theorem sortPlans_sorted (plans : List TableRewritePlan) :
    (sortPlans plans).Pairwise fun a b => b.tokenStart ≤ a.tokenStart := by
  have : Std.Total fun a b : TableRewritePlan => b.tokenStart ≤ a.tokenStart :=
    ⟨fun a b => Nat.le_total b.tokenStart a.tokenStart⟩
  have : IsTrans TableRewritePlan fun a b => b.tokenStart ≤ a.tokenStart :=
    ⟨fun _ _ _ hab hbc => Nat.le_trans hbc hab⟩
  exact List.pairwise_insertionSort _ plans

theorem eq_of_tokenStart_eq {plans : List TableRewritePlan}
    (h : plans.Pairwise fun a b => a.tokenStart < b.tokenStart) {a b : TableRewritePlan}
    (ha : a ∈ plans) (hb : b ∈ plans) (hab : a.tokenStart = b.tokenStart) : a = b := by
  have hnodup : (plans.map (·.tokenStart)).Nodup :=
    List.pairwise_map.2 (h.imp fun hlt => Nat.ne_of_lt hlt)
  exact List.inj_on_of_nodup_map hnodup ha hb hab

/-- Any order of plans is sorted from the last token to the first. -/
theorem sortPlans_perm {plans ordered : List TableRewritePlan} (hperm : plans.Perm ordered)
    (h : ordered.Pairwise fun a b => a.tokenStart < b.tokenStart) :
    sortPlans plans = ordered.reverse := by
  have hreverse : ordered.reverse.Pairwise fun a b => b.tokenStart ≤ a.tokenStart :=
    List.pairwise_reverse.2 (h.imp fun hlt => hlt.le)
  have hsame : (sortPlans plans).Perm ordered.reverse :=
    ((List.perm_insertionSort _ plans).trans hperm).trans (List.reverse_perm ordered).symm
  refine hsame.eq_of_pairwise (fun a b ha hb hab hba => ?_) (sortPlans_sorted plans) hreverse
  have ha' : a ∈ ordered := List.mem_reverse.1 (hsame.mem_iff.1 ha)
  exact eq_of_tokenStart_eq h ha' (List.mem_reverse.1 hb) (Nat.le_antisymm hba hab)

end SqlGatekeeper
