import SqlGatekeeper.Logic.Condition
import SqlGatekeeper.Services.Atoms

/-!
# The text of a condition

* `Generated`: the texts that the grammar `x = k | C and C | C or C | not (C) | (C)` gives.
* `condText`: the text of a condition; `generated_iff`: every text of the grammar is the text of a
  condition, and so has the meaning that SQL gives it.
* `predicates_of_cond`: the parser finds the atoms of a condition, in order.
-/

namespace SqlGatekeeper

open Py Regex Logic

variable {U : UnicodeData}

/-! ## The grammar -/

/-- The text of a condition. -/
def condText : {b : Binding} → Cond Atom b → Str
  | _, .atom a => a.text
  | _, .not c => "not (" ++ (condText c ++ [')'])
  | _, .paren c => '(' :: (condText c ++ [')'])
  | _, .prim c => condText c
  | _, .and a b => condText a ++ (" and " ++ condText b)
  | _, .conj c => condText c
  | _, .or a b => condText a ++ (" or " ++ condText b)

/-- The texts of the grammar over some atoms. -/
inductive Generated (ok : Atom → Prop) : Str → Prop where
  | atom {a : Atom} (ha : ok a) : Generated ok a.text
  | and {s t : Str} (hs : Generated ok s) (ht : Generated ok t) : Generated ok (s ++ (" and " ++ t))
  | or {s t : Str} (hs : Generated ok s) (ht : Generated ok t) : Generated ok (s ++ (" or " ++ t))
  | not {s : Str} (hs : Generated ok s) : Generated ok ("not (" ++ (s ++ [')']))
  | paren {s : Str} (hs : Generated ok s) : Generated ok ('(' :: (s ++ [')']))

theorem generated_condText {ok : Atom → Prop} {b : Binding} (c : Cond Atom b)
    (hc : ∀ a ∈ c.atoms, ok a) : Generated ok (condText c) := by
  induction c with
  | atom a => exact .atom (hc a List.mem_cons_self)
  | not c ih => exact .not (ih hc)
  | paren c ih => exact .paren (ih hc)
  | prim c ih => exact ih hc
  | and a b iha ihb =>
    exact .and (iha fun x hx => hc x (List.mem_append_left _ hx))
      (ihb fun x hx => hc x (List.mem_append_right _ hx))
  | conj c ih => exact ih hc
  | or a b iha ihb =>
    exact .or (iha fun x hx => hc x (List.mem_append_left _ hx))
      (ihb fun x hx => hc x (List.mem_append_right _ hx))

/-- Two conjunctions are joined to one. -/
theorem exists_and_conj (a : Cond Atom .conj) {l : Binding} (b : Cond Atom l) (hl : l = .conj) :
    ∃ c : Cond Atom .conj, condText c = condText a ++ (" and " ++ condText b) ∧
      c.atoms = a.atoms ++ b.atoms := by
  induction b with
  | prim b => exact ⟨.and a b, rfl, rfl⟩
  | and b d ihb =>
    obtain ⟨c, hc, hatoms⟩ := ihb rfl
    refine ⟨.and c d, ?_, ?_⟩
    · simp only [condText, hc, List.append_assoc]
    · simp only [Cond.atoms, hatoms, List.append_assoc]
  | _ => exact absurd hl (by simp)

/-- A conjunction is joined with the first conjunction of a disjunction. -/
theorem exists_and_disj (a : Cond Atom .conj) {l : Binding} (b : Cond Atom l) (hl : l = .disj) :
    ∃ c : Cond Atom .disj, condText c = condText a ++ (" and " ++ condText b) ∧
      c.atoms = a.atoms ++ b.atoms := by
  induction b with
  | conj b =>
    obtain ⟨c, hc, hatoms⟩ := exists_and_conj a b rfl
    exact ⟨.conj c, hc, hatoms⟩
  | or b d ihb =>
    obtain ⟨c, hc, hatoms⟩ := ihb rfl
    refine ⟨.or c d, ?_, ?_⟩
    · simp only [condText, hc, List.append_assoc]
    · simp only [Cond.atoms, hatoms, List.append_assoc]
  | _ => exact absurd hl (by simp)

/-- Two disjunctions are joined by `or`. -/
theorem exists_or_disj (a : Cond Atom .disj) {l : Binding} (b : Cond Atom l) (hl : l = .disj) :
    ∃ c : Cond Atom .disj, condText c = condText a ++ (" or " ++ condText b) ∧
      c.atoms = a.atoms ++ b.atoms := by
  induction b with
  | conj b => exact ⟨.or a b, rfl, rfl⟩
  | or b d ihb =>
    obtain ⟨c, hc, hatoms⟩ := ihb rfl
    refine ⟨.or c d, ?_, ?_⟩
    · simp only [condText, hc, List.append_assoc]
    · simp only [Cond.atoms, hatoms, List.append_assoc]
  | _ => exact absurd hl (by simp)

/-- Two disjunctions are joined by `and`, between the last conjunction of the one and the first
of the other. -/
theorem exists_and {l : Binding} (a : Cond Atom l) (hl : l = .disj) (b : Cond Atom .disj) :
    ∃ c : Cond Atom .disj, condText c = condText a ++ (" and " ++ condText b) ∧
      c.atoms = a.atoms ++ b.atoms := by
  cases a with
  | conj a => exact exists_and_disj a b rfl
  | or a d =>
    obtain ⟨c, hc, hatoms⟩ := exists_and_disj d b rfl
    obtain ⟨e, he, heatoms⟩ := exists_or_disj a c rfl
    refine ⟨e, ?_, ?_⟩
    · simp only [he, hc, condText, List.append_assoc]
    · simp only [heatoms, hatoms, Cond.atoms, List.append_assoc]
  | _ => exact absurd hl (by simp)

/-- The texts of the grammar are the texts of the conditions. -/
theorem generated_iff {ok : Atom → Prop} {s : Str} :
    Generated ok s ↔ ∃ c : Cond Atom .disj, condText c = s ∧ ∀ a ∈ c.atoms, ok a := by
  constructor
  · intro h
    induction h with
    | @atom a ha =>
      exact ⟨.conj (.prim (.atom a)), rfl, List.forall_mem_singleton.2 ha⟩
    | and _ _ ihs iht =>
      obtain ⟨a, rfl, ha⟩ := ihs
      obtain ⟨b, rfl, hb⟩ := iht
      obtain ⟨c, hc, hatoms⟩ := exists_and a rfl b
      exact ⟨c, hc, by rw [hatoms]; exact List.forall_mem_append.2 ⟨ha, hb⟩⟩
    | or _ _ ihs iht =>
      obtain ⟨a, rfl, ha⟩ := ihs
      obtain ⟨b, rfl, hb⟩ := iht
      obtain ⟨c, hc, hatoms⟩ := exists_or_disj a b rfl
      exact ⟨c, hc, by rw [hatoms]; exact List.forall_mem_append.2 ⟨ha, hb⟩⟩
    | not _ ih =>
      obtain ⟨c, rfl, hc⟩ := ih
      exact ⟨.conj (.prim (.not c)), rfl, hc⟩
    | paren _ ih =>
      obtain ⟨c, rfl, hc⟩ := ih
      exact ⟨.conj (.prim (.paren c)), rfl, hc⟩
  · rintro ⟨c, rfl, hc⟩
    exact generated_condText c hc

/-! ## What the parser finds -/

/-- A text behind which a scan starts anew: it does not continue a number or an equation. -/
def Ends (U : UnicodeData) (rest : Str) : Prop :=
  ∀ c ∈ rest.head?, c ≠ '=' ∧ isDecimal U c = false

theorem ends_cons {c : Char} (hc : c.toNat < 128 ∧ c ≠ '=' ∧ c.isDigit = false) (rest : Str) :
    Ends U (c :: rest) := by
  intro d hd
  obtain rfl : c = d := by simpa using hd
  refine ⟨hc.2.1, ?_⟩
  rw [isDecimal, U.decimal_ascii c hc.1, hc.2.2]
  rfl

/-- A condition starts with a letter or a bracket. -/
theorem head_condText {b : Binding} (c : Cond Atom b) (hc : ∀ a ∈ c.atoms, a.Valid) :
    ∃ d ds, condText c = d :: ds ∧ (isNameStart d = true ∨ d = '(') := by
  induction c with
  | atom a =>
    have ha := hc a List.mem_cons_self
    obtain ⟨qualifier, column, v⟩ := a
    cases qualifier with
    | none =>
      obtain ⟨d, ds, rfl, hd, -⟩ := isIdentifier_cons ha.column
      exact ⟨d, _, rfl, Or.inl hd⟩
    | some q =>
      obtain ⟨d, ds, rfl, hd, -⟩ := isIdentifier_cons (ha.qualifier q rfl)
      exact ⟨d, _, rfl, Or.inl hd⟩
  | not c ih => exact ⟨'n', _, rfl, Or.inl (by decide)⟩
  | paren c ih => exact ⟨'(', _, rfl, Or.inr rfl⟩
  | prim c ih => exact ih hc
  | and a b iha ihb =>
    obtain ⟨d, ds, hd, h⟩ := iha fun x hx => hc x (List.mem_append_left _ hx)
    exact ⟨d, _, by rw [condText, hd]; rfl, h⟩
  | conj c ih => exact ih hc
  | or a b iha ihb =>
    obtain ⟨d, ds, hd, h⟩ := iha fun x hx => hc x (List.mem_append_left _ hx)
    exact ⟨d, _, by rw [condText, hd]; rfl, h⟩

/-- A condition continues no equation in front of it. -/
theorem head_condText_ne {b : Binding} (c : Cond Atom b) (hc : ∀ a ∈ c.atoms, a.Valid) :
    ∃ d ds, condText c = d :: ds ∧ d ≠ '=' ∧ isSpace d = false := by
  obtain ⟨d, ds, hd, hstart⟩ := head_condText c hc
  refine ⟨d, ds, hd, ?_⟩
  rcases hstart with h | rfl
  · refine ⟨?_, isSpace_of_isNameChar (isNameChar_of_isNameStart h)⟩
    rintro rfl
    exact absurd h (by decide)
  · exact ⟨by decide, by decide⟩

/-- A scan for predicates goes over a gap in front of a condition. -/
theorem scan_gap {s rest : Str} (hs : AtomGap s) {b : Binding} (c : Cond Atom b)
    (hc : ∀ a ∈ c.atoms, a.Valid) (pos : Nat) (prev : Option Char) :
    scan (predicatePattern U) (s ++ (condText c ++ rest)) 0 pos prev =
      scan (predicatePattern U) (condText c ++ rest) 0 (pos + s.length) (lastOf prev s) := by
  obtain ⟨d, ds, hd, hequals, hspace⟩ := head_condText_ne c hc
  have hhead : ∀ e ∈ (condText c ++ rest).head?, e ≠ '=' ∧ isSpace e = false := by
    intro e he
    rw [hd] at he
    obtain rfl : d = e := by simpa using he
    exact ⟨hequals, hspace⟩
  exact hs.scan_pass (fun e he => (hhead e he).1) (fun e he _ _ => Or.inl (hhead e he).2) pos prev

/-- A scan for predicates goes over a closing bracket. -/
theorem scan_close {rest : Str} (hrest : Ends U rest) (pos : Nat) (prev : Option Char) :
    scan (predicatePattern U) ([')'] ++ rest) 0 pos prev =
      scan (predicatePattern U) rest 0 (pos + 1) (some ')') := by
  have hgap : AtomGap [')'] := ⟨by decide, by decide, ')', rfl, by decide⟩
  refine hgap.scan_pass (fun e he => (hrest e he).1) (fun e _ f hf => Or.inr ?_) pos prev
  obtain rfl : ')' = f := by simpa using hf
  decide

/-- The parser finds the atoms of a condition, in order, and goes on behind it. -/
theorem scan_cond {b : Binding} (c : Cond Atom b) (hc : ∀ a ∈ c.atoms, a.Valid) {rest : Str}
    (hrest : Ends U rest) (pos : Nat) (prev : Option Char) :
    ∃ pos' prev',
      (scan (predicatePattern U) (condText c ++ rest) 0 pos prev).filterMap predicateOfMatch =
        c.atoms.map Atom.predicate ++
          (scan (predicatePattern U) rest 0 pos' prev').filterMap predicateOfMatch := by
  have hclose : ∀ r : Str, Ends U ([')'] ++ r) := ends_cons (by decide)
  have hspace : ∀ r : Str, Ends U (' ' :: r) := ends_cons (by decide)
  induction c generalizing rest pos prev with
  | atom a =>
    have ha := hc a List.mem_cons_self
    obtain ⟨m, hm, hstop, hpred⟩ := matchAt_atom ha pos prev fun e he => (hrest e he).2
    have hne : a.text ≠ [] := by
      obtain ⟨d, ds, hd, -⟩ := head_condText (.atom a) hc
      rw [condText] at hd
      rw [hd]
      exact List.cons_ne_nil _ _
    rw [condText, scan_match hne hm hstop, List.filterMap_cons_some hpred]
    exact ⟨_, _, rfl⟩
  | not c ih =>
    have hgap : AtomGap "not (" := ⟨by decide, by decide, '(', rfl, by decide⟩
    rw [condText, List.append_assoc, List.append_assoc, scan_gap hgap c hc]
    obtain ⟨pos', prev', h⟩ := ih hc (hclose rest) _ _
    exact ⟨_, _, by rw [h, scan_close hrest]; rfl⟩
  | paren c ih =>
    have hgap : AtomGap ['('] := ⟨by decide, by decide, '(', rfl, by decide⟩
    rw [condText, ← List.singleton_append, List.append_assoc, List.append_assoc,
      scan_gap hgap c hc]
    obtain ⟨pos', prev', h⟩ := ih hc (hclose rest) _ _
    exact ⟨_, _, by rw [h, scan_close hrest]; rfl⟩
  | prim c ih => exact ih hc hrest pos prev
  | and a b iha ihb =>
    have hgap : AtomGap " and " := ⟨by decide, by decide, ' ', rfl, by decide⟩
    obtain ⟨ha, hb⟩ := List.forall_mem_append.1 hc
    rw [condText, List.append_assoc, List.append_assoc]
    obtain ⟨pos1, prev1, h1⟩ := iha ha (hspace ("and " ++ (condText b ++ rest))) pos prev
    obtain ⟨pos2, prev2, h2⟩ := ihb hb hrest (pos1 + (" and " : Str).length)
      (lastOf prev1 " and ")
    refine ⟨pos2, prev2, h1.trans ?_⟩
    rw [Cond.atoms, List.map_append, List.append_assoc, ← h2, ← scan_gap hgap b hb pos1 prev1]
    rfl
  | conj c ih => exact ih hc hrest pos prev
  | or a b iha ihb =>
    have hgap : AtomGap " or " := ⟨by decide, by decide, ' ', rfl, by decide⟩
    obtain ⟨ha, hb⟩ := List.forall_mem_append.1 hc
    rw [condText, List.append_assoc, List.append_assoc]
    obtain ⟨pos1, prev1, h1⟩ := iha ha (hspace ("or " ++ (condText b ++ rest))) pos prev
    obtain ⟨pos2, prev2, h2⟩ := ihb hb hrest (pos1 + (" or " : Str).length)
      (lastOf prev1 " or ")
    refine ⟨pos2, prev2, h1.trans ?_⟩
    rw [Cond.atoms, List.map_append, List.append_assoc, ← h2, ← scan_gap hgap b hb pos1 prev1]
    rfl

/-- The predicates of a statement that has one condition, between texts without any. -/
theorem predicates_of_cond {b : Binding} {c : Cond Atom b} (hc : ∀ a ∈ c.atoms, a.Valid)
    {before tail : Str} (hbefore : AtomGap before) (htail : '=' ∉ tail) (hends : Ends U tail) :
    ((predicatePattern U).finditer (before ++ (condText c ++ tail))).filterMap predicateOfMatch =
      c.atoms.map Atom.predicate := by
  rw [finditer, scan_gap hbefore c hc]
  obtain ⟨pos, prev, h⟩ := scan_cond c hc hends _ _
  rw [h, scan_no_equals htail, List.filterMap_nil, List.append_nil]

/-! ## Words -/

theorem isWord_of_notName {c : Char} (hc : c.toNat < 128 ∧ isNameChar c = false) :
    isWord U c = false := by rw [isWord_ascii hc.1, hc.2]

/-- An integer has no word of letters. -/
theorem noWord_intText {ls : List Str} (hls : ls.all (fun l => l.any Char.isAlpha) = true)
    (v : Int) : NoWord U (isWordOf ls) (intText v) := by
  rw [intText]
  split
  · exact (noWord_cons (isWord_of_notName (by decide))).2 (noWord_natText hls _)
  · exact noWord_natText hls _

/-- An atom with plain names. -/
structure Atom.Plain (a : Atom) : Prop where
  qualifier : ∀ q ∈ a.qualifier, PlainName q
  column : PlainName a.column

theorem Atom.Plain.valid {a : Atom} (ha : a.Plain) : a.Valid :=
  ⟨fun q hq => (ha.qualifier q hq).identifier, ha.column.identifier⟩

/-- An atom has none of the keywords. -/
theorem Atom.Plain.noWord {a : Atom} (ha : a.Plain) {ls : List Str}
    (hls : ls.all (fun l => l.any Char.isAlpha) = true) (hsub : ls ⊆ sqlKeywords) :
    NoWord U (isWordOf ls) a.text := by
  have heq : isWord U '=' = false := isWord_of_notName (by decide)
  have hvalue : NoWord U (isWordOf ls) (a.column ++ (" = " ++ intText a.value)) := by
    have htext : a.column ++ (" = " ++ intText a.value) =
        a.column ++ ' ' :: ([] ++ '=' :: ([] ++ ' ' :: intText a.value)) := rfl
    rw [htext, noWord_append_space, noWord_append_cons heq, noWord_append_space]
    exact ⟨ha.column.noWord hsub, noWord_nil, noWord_nil, noWord_intText hls _⟩
  rw [Atom.text, Atom.prefixText]
  cases hq : a.qualifier with
  | none => exact hvalue
  | some q =>
    have hdot : isWord U '.' = false := isWord_of_notName (by decide)
    have htext : q ++ ['.'] ++ (a.column ++ (" = " ++ intText a.value)) =
        q ++ '.' :: (a.column ++ (" = " ++ intText a.value)) := by simp
    simp only [htext]
    rw [noWord_append_cons hdot]
    exact ⟨(ha.qualifier q hq).noWord hsub, hvalue⟩

/-- A condition over plain names has no keyword that stands for anything else. -/
theorem noWord_condText {ls : List Str} (hls : ls.all (fun l => l.any Char.isAlpha) = true)
    (hsub : ls ⊆ sqlKeywords)
    (hops : isWordOf ls "and" = false ∧ isWordOf ls "or" = false ∧ isWordOf ls "not" = false)
    {b : Binding} (c : Cond Atom b) (hc : ∀ a ∈ c.atoms, a.Plain) :
    NoWord U (isWordOf ls) (condText c) := by
  obtain ⟨hand, hor, hnot⟩ := hops
  have hopen : isWord U '(' = false := isWord_of_notName (by decide)
  have hclose : isWord U ')' = false := isWord_of_notName (by decide)
  have hbracket : ∀ {s : Str}, NoWord U (isWordOf ls) s →
      NoWord U (isWordOf ls) ('(' :: (s ++ [')'])) :=
    fun hs => (noWord_cons hopen).2 ((noWord_append_cons hclose).2 ⟨hs, noWord_nil⟩)
  induction c with
  | atom a => exact (hc a List.mem_cons_self).noWord hls hsub
  | not c ih =>
    have htext : condText (.not c) = "not" ++ ' ' :: ('(' :: (condText c ++ [')'])) := rfl
    rw [htext, noWord_append_space]
    exact ⟨noWord_of_keyword (by decide) hnot, hbracket (ih hc)⟩
  | paren c ih => exact hbracket (ih hc)
  | prim c ih => exact ih hc
  | and a b iha ihb =>
    obtain ⟨ha, hb⟩ := List.forall_mem_append.1 hc
    have htext : condText (.and a b) = condText a ++ ' ' :: ("and" ++ ' ' :: condText b) := rfl
    rw [htext, noWord_append_space, noWord_append_space]
    exact ⟨iha ha, noWord_of_keyword (by decide) hand, ihb hb⟩
  | conj c ih => exact ih hc
  | or a b iha ihb =>
    obtain ⟨ha, hb⟩ := List.forall_mem_append.1 hc
    have htext : condText (.or a b) = condText a ++ ' ' :: ("or" ++ ' ' :: condText b) := rfl
    rw [htext, noWord_append_space, noWord_append_space]
    exact ⟨iha ha, noWord_of_keyword (by decide) hor, ihb hb⟩

end SqlGatekeeper
