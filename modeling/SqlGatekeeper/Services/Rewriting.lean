import SqlGatekeeper.Services.Renaming
import SqlGatekeeper.Services.Resolution

/-!
# What the rewriter makes of a text

* `renameReads`: the references of a text under the physical names of their targets.
* `foldr_splice`: the plans of the targets, from the last to the first, put these names in place.
* `rewrite_reads`, `rewrite_allowed`: so does the rewriter, with the targets of an allowed decision.
* `renameReads_eq`: the text stays as it is only if every name does.
-/

namespace SqlGatekeeper

open Py Regex

/-! ## Plans -/

/-- The references under other names. -/
def renameReads (ps : List (TableRead × Str)) (names : List Str) : List (TableRead × Str) :=
  List.zipWith (fun p x => (p.1.rename x, p.2)) ps names

theorem renameReads_cons (r : TableRead) (gap : Str) (ps : List (TableRead × Str)) (x : Str)
    (names : List Str) : renameReads ((r, gap) :: ps) (x :: names) =
      (r.rename x, gap) :: renameReads ps names := rfl

/-- A target has a plan that puts the physical name in place of the table's, or the names are the
same. -/
def RouteTarget.Planned (table : ParsedTable) (target : RouteTarget) : Prop :=
  target.rewritePlan =
      some ⟨table.tableName, target.physicalTableName, table.tokenStart, table.tokenEnd⟩ ∨
    target.rewritePlan = none ∧ target.physicalTableName = table.tableName

theorem RouteTarget.Resolved.planned {db : Metadata} {table : ParsedTable} {target : RouteTarget}
    (h : target.Resolved db table) : target.Planned table := by
  rw [RouteTarget.Planned, h.plan]
  by_cases hrewrite : target.requiresRewrite = true
  · rw [if_pos hrewrite]
    exact Or.inl rfl
  · rw [if_neg hrewrite]
    exact Or.inr ⟨rfl, h.physical (by simpa using hrewrite)⟩

section Splice

variable {ps : List (TableRead × Str)} {targets : List RouteTarget}

/-- The name of a reference is replaced in its place. -/
theorem splice_table {before t : Str} {r : TableRead} {original x : Str} :
    (⟨original, x, (r.table before.length).tokenStart, (r.table before.length).tokenEnd⟩ :
      TableRewritePlan).splice (before ++ (r.text ++ t)) = before ++ ((r.rename x).text ++ t) := by
  have hleft : before ++ (r.text ++ t) =
      (before ++ r.lead) ++ (r.name ++ (r.aliasText ++ t)) := by
    rw [TableRead.text]
    simp only [List.append_assoc]
  have hstart : (r.table before.length).tokenStart = (before ++ r.lead).length := by
    rw [List.length_append]
    rfl
  have hend : (r.table before.length).tokenEnd = ((before ++ r.lead) ++ r.name).length := by
    rw [List.length_append, List.length_append]
    rfl
  have hright : (r.rename x).text = r.lead ++ (x ++ r.aliasText) := rfl
  rw [TableRewritePlan.splice, hleft, hright]
  simp only
  rw [hstart, hend, List.take_left' rfl, ← List.append_assoc _ r.name, List.drop_left' rfl]
  simp only [List.append_assoc]

/-- The plans of the targets, from the last to the first, put the physical names in place. -/
theorem foldr_splice {before : Str}
    (h : List.Forall₂ (fun table target => target.Planned table) (readTables ps before.length)
      targets) :
    (targets.filterMap (·.rewritePlan)).foldr TableRewritePlan.splice (before ++ readsText ps) =
      before ++ readsText (renameReads ps (targets.map (·.physicalTableName))) := by
  induction ps generalizing targets before with
  | nil =>
    rw [readTables, List.forall₂_nil_left_iff] at h
    rw [h]
    rfl
  | cons p ps ih =>
    obtain ⟨r, gap⟩ := p
    obtain ⟨target, rest, hplan, hrest, rfl⟩ := List.forall₂_cons_left_iff.1 h
    have hlength : before.length + r.text.length + gap.length =
        (before ++ (r.text ++ gap)).length := by
      rw [List.length_append, List.length_append, Nat.add_assoc]
    rw [hlength] at hrest
    have hih := ih hrest
    simp only [List.append_assoc] at hih
    rcases hplan with hplan | ⟨hplan, hname⟩
    · rw [List.filterMap_cons_some hplan, List.foldr_cons, readsText, hih, splice_table]
      rfl
    · have hsame : r.rename target.physicalTableName = r := by
        rw [hname]
        rfl
      rw [List.filterMap_cons_none hplan, readsText, hih, List.map_cons, renameReads_cons,
        readsText, hsame]

/-- The plans come in the order of the text. -/
theorem plans_ascending {pos : Nat}
    (h : List.Forall₂ (fun table target => target.Planned table) (readTables ps pos) targets)
    (hps : ∀ p ∈ ps, p.1.name ≠ []) :
    (targets.filterMap (·.rewritePlan)).Pairwise (fun a b => a.tokenStart < b.tokenStart) ∧
      ∀ plan ∈ targets.filterMap (·.rewritePlan), pos ≤ plan.tokenStart := by
  induction ps generalizing targets pos with
  | nil =>
    rw [readTables, List.forall₂_nil_left_iff] at h
    rw [h]
    exact ⟨.nil, fun plan hplan => absurd hplan List.not_mem_nil⟩
  | cons p ps ih =>
    obtain ⟨r, gap⟩ := p
    obtain ⟨target, rest, hplan, hrest, rfl⟩ := List.forall₂_cons_left_iff.1 h
    obtain ⟨hpairs, hle⟩ := ih hrest fun p hp => hps p (List.mem_cons_of_mem _ hp)
    have hlt : (r.table pos).tokenStart < pos + r.text.length + gap.length := by
      have hpos := List.length_pos_iff.2 (hps _ List.mem_cons_self)
      rw [TableRead.text, List.length_append, List.length_append]
      simp only [TableRead.table] at hpos ⊢
      omega
    have hlead : pos ≤ (r.table pos).tokenStart := Nat.le_add_right _ _
    rcases hplan with hplan | ⟨hplan, -⟩
    · rw [List.filterMap_cons_some hplan]
      refine ⟨.cons (fun plan hmem => hlt.trans_le (hle plan hmem)) hpairs, ?_⟩
      exact List.forall_mem_cons.2 ⟨hlead, fun plan hmem =>
        hlead.trans (hlt.le.trans (hle plan hmem))⟩
    · rw [List.filterMap_cons_none hplan]
      exact ⟨hpairs, fun plan hmem => hlead.trans (hlt.le.trans (hle plan hmem))⟩

end Splice

theorem ReadsFit.isName {ps : List (TableRead × Str)} (h : ReadsFit ps) :
    ∀ p ∈ ps, IsName p.1.name := by
  induction h with
  | nil => exact fun p hp => absurd hp List.not_mem_nil
  | cons valid ends rest ih => exact List.forall_mem_cons.2 ⟨valid.name, ih⟩

/-- The rewriter puts the physical names of the targets in place. -/
theorem rewrite_reads {parsed : ParsedSql} {ps : List (TableRead × Str)} {gap : Str}
    (hsql : parsed.originalSql = gap ++ readsText ps) (hps : ReadsFit ps)
    {targets : List RouteTarget}
    (h : List.Forall₂ (fun table target => target.Planned table)
      (readTables ps gap.length) targets) :
    rewrite parsed (targets.filterMap (·.rewritePlan)) =
      gap ++ readsText (renameReads ps (targets.map (·.physicalTableName))) := by
  have hascending := (plans_ascending h fun p hp => (hps.isName p hp).ne_nil).1
  rw [rewrite, sortPlans_perm (List.Perm.refl _) hascending, List.foldl_reverse, hsql]
  exact foldr_splice h

/-- The rewriter puts the physical names of an allowed decision in place. -/
theorem rewrite_allowed {rt : Runtime} {db : Metadata} {routeContext : JsonDict}
    {parsed : ParsedSql} {decision : RouteDecision} {ps : List (TableRead × Str)} {gap : Str}
    (hresolved : resolve rt db parsed routeContext = .ok decision)
    (hrouted : decision.allowed = true)
    (hsql : parsed.originalSql = gap ++ readsText ps)
    (htables : parsed.tables = readTables ps gap.length) (hps : ReadsFit ps) :
    rewrite parsed (decision.targets.filterMap (·.rewritePlan)) =
      gap ++ readsText (renameReads ps (decision.targets.map (·.physicalTableName))) := by
  obtain ⟨-, hall⟩ := resolve_allowed hresolved hrouted
  rw [htables] at hall
  exact rewrite_reads hsql hps (hall.imp fun _ _ h =>
    h.elim fun _ hd => (resolveTable_resolved hd).planned)

/-! ## Texts that stay as they are -/

/-- A text behind names has at least as much whitespace under other names. -/
theorem countP_renameReads {ps : List (TableRead × Str)} (hps : ReadsFit ps) {names : List Str}
    (hlength : names.length = ps.length) :
    (readsText ps).countP isSpace ≤ (readsText (renameReads ps names)).countP isSpace := by
  induction hps generalizing names with
  | nil => exact Nat.zero_le _
  | @cons r gap ps valid ends rest ih =>
    obtain ⟨x, names, rfl⟩ := List.exists_cons_of_length_eq_add_one hlength
    have hname : r.name.countP isSpace = 0 :=
      List.countP_eq_zero.2 fun c hc => by rw [valid.name.no_space c hc]; exact Bool.false_ne_true
    have hih := ih (Nat.succ.inj hlength)
    have htext : (r.rename x).text = r.lead ++ (x ++ r.aliasText) := rfl
    rw [renameReads_cons, readsText, readsText, htext, TableRead.text]
    simp only [List.countP_append, hname]
    omega

/-- The keyword of the first reference stays. -/
theorem takeWhile_renameReads {ps : List (TableRead × Str)} (hps : ReadsFit ps) {names : List Str}
    (hlength : names.length = ps.length) :
    (readsText (renameReads ps names)).takeWhile (!isSpace ·) =
      (readsText ps).takeWhile (!isSpace ·) := by
  cases hps with
  | nil => rfl
  | @cons r gap ps valid ends rest =>
    obtain ⟨x, names, rfl⟩ := List.exists_cons_of_length_eq_add_one hlength
    have hkeyword : ∀ c ∈ r.keyword, (!isSpace c) = true := fun c hc => by
      rw [isSpace_of_isNamePart (valid.keyword_parts c hc)]
      rfl
    have hspaces : ∀ t : Str, (r.spaces ++ t).head?.any (!isSpace ·) = false := fun t => by
      rw [head_append_any valid.spaces.ne_nil]
      obtain ⟨c, w, hw⟩ := List.exists_cons_of_ne_nil valid.spaces.ne_nil
      have hc := valid.spaces.all c (by rw [hw]; exact List.mem_cons_self)
      rw [hw, List.head?_cons, Option.any_some, hc]
      rfl
    rw [renameReads_cons, readsText, readsText, TableRead.text_append, TableRead.text_append]
    exact (span_of_all hkeyword (hspaces _)).1.trans (span_of_all hkeyword (hspaces _)).1.symm

/-- The text stays as it is only if every name does. -/
theorem renameReads_eq {ps : List (TableRead × Str)} (hps : ReadsFit ps) {names : List Str}
    (hlength : names.length = ps.length) (h : readsText (renameReads ps names) = readsText ps) :
    names = ps.map fun p => p.1.name := by
  induction hps generalizing names with
  | nil => exact List.length_eq_zero_iff.1 hlength
  | @cons r gap ps valid ends rest ih =>
    obtain ⟨x, names, rfl⟩ := List.exists_cons_of_length_eq_add_one hlength
    have hrest : names.length = ps.length := Nat.succ.inj hlength
    have hname : r.name.countP isSpace = 0 :=
      List.countP_eq_zero.2 fun c hc => by rw [valid.name.no_space c hc]; exact Bool.false_ne_true
    have htext : (r.rename x).text = r.lead ++ (x ++ r.aliasText) := rfl
    rw [renameReads_cons, readsText, readsText, htext, TableRead.text] at h
    simp only [List.append_assoc] at h
    have hbody := List.append_cancel_left h
    -- Whitespace is neither gained nor lost, so the new name has none.
    have hcount := congrArg (List.countP isSpace) hbody
    have hle := countP_renameReads rest hrest
    simp only [List.countP_append, hname] at hcount
    have hx : x.countP isSpace = 0 := by omega
    have hfree : ∀ {y : Str}, y.countP isSpace = 0 → ∀ c ∈ y, (!isSpace c) = true :=
      fun hy c hc => by
      simpa using List.countP_eq_zero.1 hy c hc
    -- Up to the first whitespace both texts are a name and the same piece of the gap.
    have hgap : ∀ a : Str, (a ++ readsText (renameReads ps names)).takeWhile (!isSpace ·) =
        (a ++ readsText ps).takeWhile (!isSpace ·) := fun a => by
      rw [List.takeWhile_append, List.takeWhile_append, takeWhile_renameReads rest hrest]
    have hpiece : (r.aliasText ++ (gap ++ readsText (renameReads ps names))).takeWhile
        (!isSpace ·) = (r.aliasText ++ (gap ++ readsText ps)).takeWhile (!isSpace ·) := by
      rw [← List.append_assoc, ← List.append_assoc, hgap]
    have hsame := congrArg (List.takeWhile (!isSpace ·)) hbody
    rw [List.takeWhile_append_of_pos (hfree hx), List.takeWhile_append_of_pos (hfree hname), hpiece]
      at hsame
    obtain rfl := List.append_cancel_right hsame
    rw [ih hrest (List.append_cancel_left
      (List.append_cancel_left (List.append_cancel_left hbody)))]
    rfl

end SqlGatekeeper
