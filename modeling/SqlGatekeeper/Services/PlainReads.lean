import SqlGatekeeper.Services.Checker
import SqlGatekeeper.Services.OwnLimit
import SqlGatekeeper.Services.RenamedGuard
import SqlGatekeeper.Services.SelectText

/-!
# Reads of a registered shard

Every enabled route whose physical name is an identifier can be asked for by this name.

* `readSql`: `select * from x where id = 0`, with or without a limit.
* `guarded_readSql`, `parse_readSql`: the guard and the parser take it.
* `ReadsPlain`: what the metadata needs for it; `allowedRun_readSql`: then the check allows it.
-/

namespace SqlGatekeeper

open Py Regex Store Logic SqlCheckService

/-! ## The statement -/

/-- The text of a limit, if there is one. -/
def limitTail (limit : Option Nat) : Str :=
  (limit.map fun k => (⟨none, k⟩ : OwnLimit).text).getD []

/-- The statement that reads a shard under its name. -/
def readSql (x : Str) (limit : Option Nat) : Str :=
  "select * from " ++ (x ++ (" where " ++ ("id = 0" ++ limitTail limit)))

section Text

variable {U : UnicodeData} {x : Str}

theorem noWord_idText {K : Str → Bool} (hid : K "id" = false) (hzero : K "0" = false) :
    NoWord U K "id = 0" := by
  have htext : ("id = 0" : Str) = "id" ++ ' ' :: ('=' :: ' ' :: "0") := rfl
  rw [htext, noWord_append_space, noWord_cons (isWord_of_notName (by decide)), noWord_space]
  exact ⟨noWord_of_keyword (by decide) hid, noWord_of_keyword (by decide) hzero⟩

theorem noTableWord_readTail (limit : Option Nat) :
    NoWord U (isWordOf tableWords) ("id = 0" ++ limitTail limit) := by
  have hid : NoWord U (isWordOf tableWords) "id = 0" := noWord_idText (by decide) (by decide)
  cases limit with
  | none =>
    rw [limitTail, Option.map_none, Option.getD_none, List.append_nil]
    exact hid
  | some k =>
    have htext : ("id = 0" : Str) ++ limitTail (some k) =
        "id = 0" ++ ' ' :: ("limit" ++ ' ' :: natText k) := rfl
    rw [htext, noWord_append_space, noWord_append_space]
    exact ⟨hid, noWord_of_keyword (by decide) (by decide), noWord_natText (by decide) k⟩

/-- In front of the limit there is none. -/
theorem noLimit_read (hx : isIdentifier x = true) :
    firstLimit U none ("select * from " ++ (x ++ " where id = 0")) = none := by
  have hafter : NoWord U (isWordOf ["limit"]) " where id = 0" := by
    have htext : (" where id = 0" : Str) = ' ' :: ("where" ++ ' ' :: "id = 0") := rfl
    rw [htext, noWord_space, noWord_append_space]
    exact ⟨noWord_of_keyword (by decide) (by decide), noWord_idText (by decide) (by decide)⟩
  obtain ⟨pos, prev, hscan⟩ := scan_limit_behind (t := []) noLimit_selectFrom
    ⟨' ', by decide, isWord_space U⟩ hx hafter
    ⟨'w', _, rfl, by decide, isDecimal_of_not_isDigit (by decide) (by decide)⟩
    fun _ _ d hd => by cases hd
  rw [List.append_nil] at hscan
  rw [← limitText_search, search, hscan]
  rfl

/-- The only limit of the statement is its own. -/
theorem firstLimit_readSql (hx : isIdentifier x = true) (limit : Option Nat) :
    firstLimit U none (readSql x limit) = limit.map natText := by
  have hassoc : (("select * from " : Str) ++ (x ++ " where id = 0")) ++ limitTail limit =
      "select * from " ++ (x ++ (" where id = 0" ++ limitTail limit)) := by
    simp only [List.append_assoc]
  have htext : readSql x limit = "select * from " ++ (x ++ (" where id = 0" ++ limitTail limit)) :=
    congrArg (fun s : Str => "select * from " ++ (x ++ s)) rfl
  rw [htext, ← hassoc]
  cases limit with
  | none =>
    rw [limitTail, Option.map_none, Option.getD_none, List.append_nil]
    exact noLimit_read hx
  | some k =>
    obtain ⟨hinert, hword⟩ := inert_own (U := U) ⟨none, k⟩
    have happend := firstLimit_append hinert hword ("select * from " ++ (x ++ " where id = 0")) none
    rw [noLimit_read hx, Option.none_or, firstLimit_own] at happend
    exact happend

/-- What holds of the fixed characters and of those of a name holds of all. -/
theorem all_readSql {p : Char → Bool} (hx : isIdentifier x = true) (limit : Option Nat)
    (hfixed : ("select * from where id = 0 limit " : Str).all p = true)
    (hname : ∀ c, isNameChar c = true → p c = true) : ∀ c ∈ readSql x limit,
    p c = true := by
  have hsub : ∀ w : Str, w.all (fun c => ("select * from where id = 0 limit " : Str).contains c) =
      true → ∀ c ∈ w, p c = true := fun w hw c hc =>
    List.all_eq_true.1 hfixed c (by simpa using List.all_eq_true.1 hw c hc)
  have hlimit : ∀ c ∈ limitTail limit, p c = true := by
    cases limit with
    | none => exact fun c hc => by cases hc
    | some k =>
      exact List.forall_mem_append.2 ⟨hsub " limit " (by decide), fun c hc =>
        hname c (isNameChar_of_isDigit (natText_isDigit c hc))⟩
  exact List.forall_mem_append.2 ⟨hsub "select * from " (by decide), List.forall_mem_append.2
    ⟨fun c hc => hname c (isNameChar_of_isIdentifier hx c hc), List.forall_mem_append.2
      ⟨hsub " where " (by decide), List.forall_mem_append.2 ⟨hsub "id = 0" (by decide),
        hlimit⟩⟩⟩⟩

/-- The statement behind its first word ends with a digit. -/
theorem middle_readSql (x : Str) (limit : Option Nat) :
    Middle ("from " ++ (x ++ (" where " ++ ("id = 0" ++ limitTail limit)))) where
  head := rfl
  last := by
    obtain ⟨c, hc, hdigit⟩ : ∃ c, (("id = 0" : Str) ++ limitTail limit).getLast? = some c ∧
        c.isDigit = true := by
      cases limit with
      | none => exact ⟨'0', rfl, rfl⟩
      | some k =>
        have htext : ("id = 0" : Str) ++ limitTail (some k) = "id = 0 limit " ++ natText k := rfl
        have hc := List.getLast?_eq_some_getLast (natText_ne_nil k)
        refine ⟨_, ?_, natText_isDigit _ (List.getLast_mem (natText_ne_nil k))⟩
        rw [htext, List.getLast?_append_of_ne_nil _ (natText_ne_nil k), hc]
    have hne : ("id = 0" : Str) ++ limitTail limit ≠ [] := List.cons_ne_nil _ _
    have hbehind : ∀ u : Str, (u ++ (("id = 0" : Str) ++ limitTail limit)).getLast? = some c :=
      fun u => (List.getLast?_append_of_ne_nil u hne).trans hc
    have hassoc : ("from " : Str) ++ (x ++ (" where " ++ ("id = 0" ++ limitTail limit))) =
        ("from " ++ (x ++ " where ")) ++ ("id = 0" ++ limitTail limit) := by
      simp only [List.append_assoc]
    rw [hassoc, hbehind, Option.any_some, isNamePart, foldClass, isNameChar_of_isDigit hdigit,
      Bool.true_or]

/-- The guard allows the statement. -/
theorem guarded_readSql (hx : isIdentifier x = true) (limit : Option Nat) :
    (BasicSqlGuard.evaluate U (readSql x limit)).allowed = true := by
  have hascii : Ascii (readSql x limit) := fun c hc => of_decide_eq_true
    (all_readSql (p := fun c => decide (c.toNat < 128)) hx limit (by decide)
      (fun c hc => decide_eq_true (toNat_lt_of_isNameChar hc)) c hc)
  have hsingle : ';' ∉ readSql x limit := fun h => by
    have hne := all_readSql (p := fun c => c != ';') hx limit (by decide)
      (fun c hc => bne_iff_ne.2 fun h => absurd (h ▸ hc) (by decide)) _ h
    exact absurd hne (by decide)
  have hstrip : strip (readSql x limit) = readSql x limit := by
    have hmiddle := (middle_readSql x limit).strip_around "select * " []
    rw [List.append_nil] at hmiddle
    exact hmiddle.trans (congrArg (("select * " : Str) ++ ·) (List.append_nil _))
  rw [evaluate_ascii hascii, hstrip]
  refine ⟨fun h => hsingle (mem_lowered.1 ?_), rfl⟩
  rw [withoutTrailingSemicolon, mem_strip (by decide), rstripChar, List.mem_reverse] at h
  exact List.mem_reverse.1 ((List.dropWhile_sublist _).mem h)

/-- The parser reads the table and the limit. -/
theorem parse_readSql (rt : Runtime) (hx : isIdentifier x = true) {limit : Option Nat}
    (hfits : ∀ k ∈ limit, rt.digitsFit (natText k).length = true) :
    ∃ parsed, parse rt (readSql x limit) = .ok parsed ∧ parsed.tables = [selectTable x] ∧
      parsed.hasLimit = limit.isSome ∧ parsed.limitValue = limit.map fun k : Nat =>
        (k : Int) := by
  have hfirst := firstLimit_readSql (U := rt.toUnicodeData) hx limit
  have hvalue : parseLimitValue rt (readSql x limit) = .ok (limit.map fun k : Nat =>
      (k : Int)) := by
    rw [parseLimitValue_eq, hfirst]
    cases limit with
    | none => rfl
    | some k =>
      have hint : natText k = intText k := by
        rw [intText, if_neg (by omega), Int.natAbs_natCast]
      rw [Option.map_some, Option.map_some, Option.getD_some, hint, rt.int_intText,
        Int.natAbs_natCast, if_pos (hfits k rfl)]
      rfl
  refine ⟨_, bind_eq_ok.2 ⟨_, hvalue, rfl⟩, tables_selectFrom hx (noTableWord_readTail limit),
    ?_, rfl⟩
  show ((limitPattern rt.toUnicodeData).search (readSql x limit)).isSome = limit.isSome
  rw [isSome_search_limit, hfirst, Option.isSome_map]

end Text

/-! ## The check -/

/-- What the metadata needs for a shard to be read: its route is the only enabled one of its name,
its datasource is enabled, and the default policy takes a `select` with such a limit. -/
structure ReadsPlain (rt : Runtime) (db : Metadata) (x : Str) (limit : Option Nat)
    (route : PhysicalTableRoute) (datasource : DatasourceInstance) (policy : PolicySet) :
    Prop where
  name : isIdentifier x = true
  registered : db.getEnabledByPhysicalTableName x = .ok (some route)
  placed : db.getEnabledByCode (datasourceCodeFromId db route.datasourceId) =
    .ok (some datasource)
  loaded : db.getEnabledPolicyByCode defaultPolicyCode = .ok (some policy)
  selects : policy.allowsSqlType "select" = true
  limitPresent : policy.requireLimit = true → limit ≠ none
  limitValue : ∀ k ∈ limit, (k : Int) ≤ policy.maxLimit
  limitFits : ∀ k ∈ limit, rt.digitsFit (natText k).length = true

variable {rt : Runtime} {db : Metadata} {x : Str} {limit : Option Nat} {route : PhysicalTableRoute}
  {datasource : DatasourceInstance} {policy : PolicySet}

/-- The resolution of a statement that names a registered shard. -/
theorem resolve_physical {parsed : ParsedSql} (htables : parsed.tables = [selectTable x])
    (hroute : db.getEnabledByPhysicalTableName x = .ok (some route))
    (hdatasource : db.getEnabledByCode (datasourceCodeFromId db route.datasourceId) =
      .ok (some datasource)) (routeContext : JsonDict) :
    resolve rt db parsed routeContext = .ok ⟨true, "ALLOW", "Route resolution succeeded",
      [physicalTarget db (selectTable x) route datasource], []⟩ := by
  have htarget : buildPhysicalTarget db (selectTable x) route =
      .ok (some (physicalTarget db (selectTable x) route datasource)) := by
    rw [buildPhysicalTarget, hdatasource]
    simp only [physicalTarget]
    cases db.logicalTableById route.logicalTableId <;> rfl
  have hresolved : resolveTable rt db parsed routeContext (selectTable x) =
      .ok (.target (physicalTarget db (selectTable x) route datasource) none) :=
    bind_eq_ok.2 ⟨some route, hroute, bind_eq_ok.2 ⟨_, htarget, rfl⟩⟩
  rw [resolve_singleton htables, hresolved]
  rfl

/-- A check lets the statement through if the plan is accepted. -/
theorem ReadsPlain.allowedRun (h : ReadsPlain rt db x limit route datasource policy)
    {evaluate : Evaluator} (routeContext : JsonDict)
    (hplan : ∃ e, evaluate datasource (readSql x limit) route.physicalTableName policy = .ok e ∧
      e.allowed = true) :
    ∃ parsed decision context,
      AllowedRun rt db evaluate (readSql x limit) routeContext parsed decision context ∧
      parsed.hasLimit = limit.isSome ∧ parsed.limitValue = limit.map (fun k : Nat =>
        (k : Int)) ∧
      decision.targets = [physicalTarget db (selectTable x) route datasource] ∧
      rewrite parsed decision.rewritePlans = readSql x limit := by
  obtain ⟨parsed, hparsed, htables, hhas, hvalue⟩ := parse_readSql rt h.name h.limitFits
  have hguard := guarded_readSql (U := rt.toUnicodeData) h.name limit
  have hresolved := @resolve_physical rt _ _ _ _ _ htables h.registered h.placed routeContext
  have htype := (BasicSqlGuard.parse_of_evaluate_allowed hguard hparsed).1
  have hrewritten : ∀ targets diagnostics, targets = [physicalTarget db (selectTable x) route
      datasource] → rewrite parsed (RouteDecision.rewritePlans ⟨true, "ALLOW",
        "Route resolution succeeded", targets, diagnostics⟩) = readSql x limit := by
    rintro targets diagnostics rfl
    exact (parse_eq_ok hparsed).1
  obtain ⟨-, hcode, -⟩ := Metadata.getEnabledByCode_eq_some h.placed
  have hfound : db.getEnabledByCode datasource.datasourceCode = .ok (some datasource) :=
    hcode ▸ h.placed
  have hacc : (freshContext (readSql x limit) routeContext parsed ⟨true, "ALLOW",
      "Route resolution succeeded", [physicalTarget db (selectTable x) route datasource],
      []⟩).Acceptable db evaluate policy := by
    refine ⟨⟨List.cons_ne_nil _ _, h.loaded, ?_, ?_, ?_, ?_, ?_⟩, ?_⟩
    · exact List.forall_mem_singleton.2 ⟨datasource, hfound⟩
    · exact htype ▸ h.selects
    · exact List.forall_mem_singleton.2 (List.forall_mem_singleton.2 rfl)
    · intro hrequire
      exact hhas.trans (Option.isSome_iff_ne_none.2 (h.limitPresent hrequire))
    · intro n hn
      obtain ⟨k, hk, rfl⟩ := Option.map_eq_some_iff.1 (hvalue.symm.trans hn)
      exact h.limitValue k hk
    · refine List.forall_mem_singleton.2 fun d hd => ?_
      obtain rfl : datasource = d := Option.some.inj (Except.ok.inj (hfound.symm.trans hd))
      show ∃ e, evaluate datasource (rewrite parsed _) route.physicalTableName policy = .ok e ∧
        _
      rw [hrewritten _ _ rfl]
      exact hplan
  obtain ⟨context, hfiltered⟩ := (FilterChain.run_allows_iff rfl).2 ⟨policy, hacc⟩
  exact ⟨parsed, _, context, ⟨hguard, hparsed, hresolved, rfl, hfiltered⟩, hhas, hvalue, rfl,
    hrewritten _ _ rfl⟩

end SqlGatekeeper
