import Mathlib

/-!
# Conditions

Boolean conditions over atoms, with the binding of SQL: `not` before `and` before `or`.

* `Cond`: the conditions; `Cond.Holds`: their meaning.
* `Cond.dnf`: the clauses of the disjunctive normal form; `Cond.dnf_holds`: together they mean
  the same.
* `Cond.Conjunctive`: a condition that is one clause, `Cond.literals`.
* `Consistent`: a clause of equations between variables and integers does not contradict itself;
  `fill`: the assignment that satisfies it, with a free value for the variables it leaves open.
* `forces_iff`: what a condition makes of a variable, clause by clause.
-/

namespace Logic

/-! ## Conditions -/

/-- How tight the outermost operator of a condition binds. -/
inductive Binding where
  | prim
  | conj
  | disj

/-- A condition over atoms.  Each constructor takes arguments that bind tighter, except for the
left argument of a chain. -/
inductive Cond (α : Type) : Binding → Type where
  | atom (a : α) : Cond α .prim
  | not (c : Cond α .disj) : Cond α .prim
  | paren (c : Cond α .disj) : Cond α .prim
  | prim (c : Cond α .prim) : Cond α .conj
  | and (a : Cond α .conj) (b : Cond α .prim) : Cond α .conj
  | conj (c : Cond α .conj) : Cond α .disj
  | or (a : Cond α .disj) (b : Cond α .conj) : Cond α .disj

/-- An atom or its negation. -/
structure Literal (α : Type) where
  atom : α
  positive : Bool

/-- A literal in an assignment of truth values. -/
def Literal.Holds {α : Type} (v : α → Prop) (l : Literal α) : Prop :=
  if l.positive then v l.atom else ¬ v l.atom

/-- A clause holds if all its literals do. -/
def ClauseHolds {α : Type} (v : α → Prop) (clause : List (Literal α)) : Prop :=
  ∀ l ∈ clause, l.Holds v

theorem clauseHolds_append {α : Type} {v : α → Prop} {a b : List (Literal α)} :
    ClauseHolds v (a ++ b) ↔ ClauseHolds v a ∧ ClauseHolds v b := List.forall_mem_append

namespace Cond

variable {α : Type} {b : Binding}

/-- The meaning of a condition. -/
def Holds (v : α → Prop) : {b : Binding} → Cond α b → Prop
  | _, atom a => v a
  | _, not c => ¬ c.Holds v
  | _, paren c => c.Holds v
  | _, prim c => c.Holds v
  | _, and a b => a.Holds v ∧ b.Holds v
  | _, conj c => c.Holds v
  | _, or a b => a.Holds v ∨ b.Holds v

/-- The atoms of a condition, in order. -/
def atoms : {b : Binding} → Cond α b → List α
  | _, atom a => [a]
  | _, not c => c.atoms
  | _, paren c => c.atoms
  | _, prim c => c.atoms
  | _, and a b => a.atoms ++ b.atoms
  | _, conj c => c.atoms
  | _, or a b => a.atoms ++ b.atoms

/-- Every clause of one list joined with every clause of another. -/
def joinClauses (a b : List (List (Literal α))) : List (List (Literal α)) :=
  a.flatMap fun x => b.map fun y => x ++ y

/-- The clauses of a condition, or of its negation. -/
def dnf : {b : Binding} → (positive : Bool) → Cond α b → List (List (Literal α))
  | _, positive, atom a => [[⟨a, positive⟩]]
  | _, positive, not c => c.dnf (!positive)
  | _, positive, paren c => c.dnf positive
  | _, positive, prim c => c.dnf positive
  | _, true, and a b => joinClauses (a.dnf true) (b.dnf true)
  | _, false, and a b => a.dnf false ++ b.dnf false
  | _, positive, conj c => c.dnf positive
  | _, true, or a b => a.dnf true ++ b.dnf true
  | _, false, or a b => joinClauses (a.dnf false) (b.dnf false)

variable {v : α → Prop}

theorem exists_append_holds {a b : List (List (Literal α))} :
    (∃ clause ∈ a ++ b, ClauseHolds v clause) ↔
      (∃ clause ∈ a, ClauseHolds v clause) ∨ ∃ clause ∈ b, ClauseHolds v clause := by
  simp only [List.mem_append, or_and_right, exists_or]

theorem exists_joinClauses_holds {a b : List (List (Literal α))} :
    (∃ clause ∈ joinClauses a b, ClauseHolds v clause) ↔
      (∃ clause ∈ a, ClauseHolds v clause) ∧ ∃ clause ∈ b, ClauseHolds v clause := by
  constructor
  · rintro ⟨clause, hmem, h⟩
    obtain ⟨x, hx, hmem⟩ := List.mem_flatMap.1 hmem
    obtain ⟨y, hy, rfl⟩ := List.mem_map.1 hmem
    obtain ⟨h1, h2⟩ := clauseHolds_append.1 h
    exact ⟨⟨x, hx, h1⟩, ⟨y, hy, h2⟩⟩
  · rintro ⟨⟨x, hx, h1⟩, ⟨y, hy, h2⟩⟩
    exact ⟨x ++ y, List.mem_flatMap.2 ⟨x, hx, List.mem_map.2 ⟨y, hy, rfl⟩⟩,
      clauseHolds_append.2 ⟨h1, h2⟩⟩

/-- One of the clauses holds exactly when the condition, or its negation, does. -/
theorem dnf_holds (positive : Bool) (c : Cond α b) :
    (∃ clause ∈ c.dnf positive, ClauseHolds v clause) ↔
      if positive then c.Holds v else ¬ c.Holds v := by
  induction c generalizing positive with
  | atom a => simp [dnf, ClauseHolds, Literal.Holds, Holds]
  | not c ih => cases positive <;> simp [dnf, ih, Holds]
  | paren c ih => exact ih positive
  | prim c ih => exact ih positive
  | and a b iha ihb =>
    cases positive with
    | true =>
      rw [dnf, exists_joinClauses_holds, iha true, ihb true]
      simp [Holds]
    | false =>
      rw [dnf, exists_append_holds, iha false, ihb false]
      simp [Holds, imp_iff_not_or]
  | conj c ih => exact ih positive
  | or a b iha ihb =>
    cases positive with
    | true =>
      rw [dnf, exists_append_holds, iha true, ihb true]
      simp [Holds]
    | false =>
      rw [dnf, exists_joinClauses_holds, iha false, ihb false]
      simp [Holds]

/-- A condition holds exactly when one of its clauses does. -/
theorem holds_iff_dnf (c : Cond α b) :
    c.Holds v ↔ ∃ clause ∈ c.dnf true, ClauseHolds v clause := by
  rw [dnf_holds true c, if_pos rfl]

/-- A condition can be evaluated where its atoms can. -/
instance decidableHolds [DecidablePred v] : {b : Binding} → (c : Cond α b) →
    Decidable (c.Holds v)
  | _, atom a => inferInstanceAs (Decidable (v a))
  | _, not c => have := c.decidableHolds; inferInstanceAs (Decidable (¬ c.Holds v))
  | _, paren c => c.decidableHolds
  | _, prim c => c.decidableHolds
  | _, and a b =>
      have := a.decidableHolds
      have := b.decidableHolds
      inferInstanceAs (Decidable (a.Holds v ∧ b.Holds v))
  | _, conj c => c.decidableHolds
  | _, or a b =>
      have := a.decidableHolds
      have := b.decidableHolds
      inferInstanceAs (Decidable (a.Holds v ∨ b.Holds v))

/-- A condition depends on its atoms only. -/
theorem holds_congr {w : α → Prop} {c : Cond α b} (h : ∀ a ∈ c.atoms, v a ↔ w a) :
    c.Holds v ↔ c.Holds w := by
  induction c with
  | atom a => exact h a List.mem_cons_self
  | not c ih => exact not_congr (ih h)
  | paren c ih => exact ih h
  | prim c ih => exact ih h
  | and a b iha ihb =>
    obtain ⟨ha, hb⟩ := List.forall_mem_append.1 h
    exact and_congr (iha ha) (ihb hb)
  | conj c ih => exact ih h
  | or a b iha ihb =>
    obtain ⟨ha, hb⟩ := List.forall_mem_append.1 h
    exact or_congr (iha ha) (ihb hb)

/-- A condition without `not` and `or`. -/
def Conjunctive : {b : Binding} → Cond α b → Prop
  | _, atom _ => True
  | _, not _ => False
  | _, paren c => c.Conjunctive
  | _, prim c => c.Conjunctive
  | _, and a b => a.Conjunctive ∧ b.Conjunctive
  | _, conj c => c.Conjunctive
  | _, or _ _ => False

/-- The clause that requires all atoms of a condition. -/
def literals (c : Cond α b) : List (Literal α) := c.atoms.map fun a => ⟨a, true⟩

/-- A conjunction holds exactly when its atoms do. -/
theorem holds_iff_literals {c : Cond α b} (hc : c.Conjunctive) :
    c.Holds v ↔ ClauseHolds v c.literals := by
  have hatoms : ∀ {b : Binding} {c : Cond α b}, ClauseHolds v c.literals ↔
      ∀ a ∈ c.atoms, v a := by
    simp [literals, ClauseHolds, Literal.Holds]
  rw [hatoms]
  induction c with
  | atom a => simp [Holds, atoms]
  | not c ih => exact absurd hc id
  | paren c ih => exact ih hc
  | prim c ih => exact ih hc
  | and a b iha ihb =>
    exact (and_congr (iha hc.1) (ihb hc.2)).trans List.forall_mem_append.symm
  | conj c ih => exact ih hc
  | or a b iha ihb => exact absurd hc id

end Cond

/-! ## Equations between variables and integers -/

section Equations

variable {α κ : Type} [DecidableEq κ] (var : α → κ) (value : α → Int)

/-- The equation of an atom under an assignment. -/
def EquationHolds (row : κ → Int) (a : α) : Prop := row (var a) = value a

/-- A clause gives a variable one value only, and excludes no value that it gives. -/
def Consistent (clause : List (Literal α)) : Prop :=
  ∀ l ∈ clause, l.positive = true → ∀ m ∈ clause, var m.atom = var l.atom →
    m.positive = decide (value m.atom = value l.atom)

instance (clause : List (Literal α)) : Decidable (Consistent var value clause) := by
  unfold Consistent
  infer_instance

/-- The assignment of a clause, with a value for the variables it leaves open. -/
def fill (clause : List (Literal α)) (free : Int) (x : κ) : Int :=
  match clause.find? fun l => l.positive && decide (var l.atom = x) with
  | some l => value l.atom
  | none => free

variable {var value} {clause : List (Literal α)}

theorem fill_of_positive (hc : Consistent var value clause) {l : Literal α} (hl : l ∈ clause)
    (hpos : l.positive = true) (free : Int) :
    fill var value clause free (var l.atom) = value l.atom := by
  rw [fill]
  cases hf : clause.find? (fun m => m.positive && decide (var m.atom = var l.atom)) with
  | none => exact absurd (List.find?_eq_none.1 hf l hl) (by simp [hpos])
  | some m =>
    have hm := List.find?_some hf
    simp only [Bool.and_eq_true, decide_eq_true_eq] at hm
    have := hc m (List.mem_of_find?_eq_some hf) hm.1 l hl hm.2.symm
    rw [hpos] at this
    exact (of_decide_eq_true this.symm).symm

theorem fill_of_open {x : κ} (hx : ∀ l ∈ clause, l.positive = true → var l.atom ≠ x)
    (free : Int) :
    fill var value clause free x = free := by
  rw [fill, List.find?_eq_none.2]
  intro l hl
  simpa using hx l hl

/-- A consistent clause holds under its assignment, if the free value is none that it names. -/
theorem fill_holds (hc : Consistent var value clause) {free : Int}
    (hfree : ∀ l ∈ clause, value l.atom ≠ free) :
    ClauseHolds (EquationHolds var value (fill var value clause free)) clause := by
  intro l hl
  rw [Literal.Holds]
  split
  · rename_i hpos
    exact fill_of_positive hc hl hpos free
  · rename_i hneg
    rw [EquationHolds]
    by_cases hx : ∀ m ∈ clause, m.positive = true → var m.atom ≠ var l.atom
    · rw [fill_of_open hx]
      exact (hfree l hl).symm
    · push Not at hx
      obtain ⟨m, hm, hpos, hvar⟩ := hx
      rw [← hvar, fill_of_positive hc hm hpos]
      have := hc m hm hpos l hl hvar.symm
      intro heq
      exact hneg (this.trans (decide_eq_true heq.symm))

omit [DecidableEq κ] in
/-- A clause that holds is consistent. -/
theorem consistent_of_holds {row : κ → Int}
    (h : ClauseHolds (EquationHolds var value row) clause) :
    Consistent var value clause := by
  intro l hl hpos m hm hvar
  have h1 := h l hl
  have h2 := h m hm
  rw [Literal.Holds, if_pos hpos, EquationHolds] at h1
  rw [Literal.Holds, EquationHolds, hvar, h1] at h2
  by_cases hm : m.positive = true
  · rw [if_pos hm] at h2
    rw [hm, decide_eq_true h2.symm]
  · rw [if_neg hm] at h2
    rw [Bool.eq_false_iff.2 hm, decide_eq_false (fun h => h2 h.symm)]

/-- There are values beyond all that a clause names. -/
theorem exists_free (clause : List (Literal α)) (value : α → Int) :
    ∃ bound : Int, ∀ free, bound ≤ free → ∀ l ∈ clause, value l.atom ≠ free := by
  induction clause with
  | nil => exact ⟨0, fun _ _ => by simp⟩
  | cons l clause ih =>
    obtain ⟨bound, hbound⟩ := ih
    refine ⟨max bound (value l.atom + 1), fun free hfree => List.forall_mem_cons.2 ⟨?_, ?_⟩⟩
    · omega
    · exact hbound free (by omega)

/-- A condition keeps a variable within a set that large values leave exactly if each of its
clauses that is consistent gives the variable a value of the set. -/
theorem forces_iff {b : Binding} {c : Cond α b} {x : κ} {P : Int → Prop}
    (hP : ∀ bound : Int, ∃ k, bound ≤ k ∧ ¬ P k) :
    (∀ row, c.Holds (EquationHolds var value row) → P (row x)) ↔
      ∀ clause ∈ c.dnf true, Consistent var value clause →
        ∃ l ∈ clause, l.positive = true ∧ var l.atom = x ∧ P (value l.atom) := by
  constructor
  · intro h clause hclause hc
    have hfill : ∀ free, (∀ l ∈ clause, value l.atom ≠ free) →
        P (fill var value clause free x) :=
      fun free hfree => h _ (c.holds_iff_dnf.2 ⟨clause, hclause, fill_holds hc hfree⟩)
    obtain ⟨bound, hbound⟩ := exists_free clause value
    obtain ⟨free, hle, hout⟩ := hP bound
    by_cases hx : ∀ l ∈ clause, l.positive = true → var l.atom ≠ x
    · -- The clause leaves the variable open, so it may have a value outside.
      have hin := hfill free (hbound free hle)
      rw [fill_of_open hx] at hin
      exact absurd hin hout
    · push Not at hx
      obtain ⟨l, hl, hpos, hvar⟩ := hx
      refine ⟨l, hl, hpos, hvar, ?_⟩
      have hin := hfill free (hbound free hle)
      rwa [← hvar, fill_of_positive hc hl hpos] at hin
  · intro h row hrow
    obtain ⟨clause, hclause, hholds⟩ := c.holds_iff_dnf.1 hrow
    obtain ⟨l, hl, hpos, rfl, hin⟩ := h clause hclause (consistent_of_holds hholds)
    have hvalue := hholds l hl
    rw [Literal.Holds, if_pos hpos, EquationHolds] at hvalue
    rwa [hvalue]

end Equations

end Logic
