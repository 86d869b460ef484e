import SqlGatekeeper.Pipeline.Chain
import SqlGatekeeper.Store.Table

/-!
# Narrowed computations

A computation that is narrowed comes to what it came to before, or to a denial.

* `Narrows`: the relation; `Narrows.bind`: it goes through sequences whose continuations deny what
  is denied.
* `runChain_narrows`: it goes through chains of checks.
* `SwitchedOff`: rows of which some are switched off; `oneOrNone_narrows`: a query for rows that are
  on finds the same or nothing.
-/

namespace Pipeline

open Py Store

/-! ## Sequences -/

section Sequences

variable {ε α β : Type} {denied : α → Prop} {x x' : Except ε α}

/-- The second computation comes to what the first one does, or to a denial. -/
def Narrows (denied : α → Prop) (x x' : Except ε α) : Prop :=
  x' = x ∨ ∃ a, x' = .ok a ∧ denied a

theorem Narrows.refl (x : Except ε α) : Narrows denied x x := Or.inl rfl

theorem Narrows.of_eq (h : x' = x) : Narrows denied x x' := Or.inl h

theorem Narrows.denial {a : α} (h : denied a) : Narrows denied x (.ok a) := Or.inr ⟨a, rfl, h⟩

theorem Narrows.bind {stopped : β → Prop} {f f' : α → Except ε β} (hx : Narrows denied x x')
    (hf : ∀ a, x = .ok a → Narrows stopped (f a) (f' a))
    (hdenied : ∀ a, denied a → ∃ b, f' a = .ok b ∧ stopped b) :
    Narrows stopped (x >>= f) (x' >>= f') := by
  rcases hx with rfl | ⟨a, rfl, ha⟩
  · cases x' with
    | error e => exact .refl _
    | ok a => exact hf a rfl
  · exact Or.inr (hdenied a ha)

/-- What comes first is as before, and only what follows is narrowed. -/
theorem Narrows.bind_right {f f' : α → Except ε β} {stopped : β → Prop} (x : Except ε α)
    (hf : ∀ a, x = .ok a → Narrows stopped (f a) (f' a)) :
    Narrows stopped (x >>= f) (x >>= f') := by
  cases x with
  | error e => exact .refl _
  | ok a => exact hf a rfl

theorem Narrows.map {stopped : β → Prop} {f : α → β} (hx : Narrows denied x x')
    (hdenied : ∀ a, denied a → stopped (f a)) : Narrows stopped (x.map f) (x'.map f) := by
  rcases hx with rfl | ⟨a, rfl, ha⟩
  · exact .refl _
  · exact .denial (hdenied a ha)

end Sequences

/-! ## Chains -/

/-- Chains of narrowed checks are narrowed. -/
theorem runChain_narrows {σ ε δ : Type} {allowed : δ → Bool} {done : δ}
    {cs ds : List (Check σ ε δ)}
    (h : List.Forall₂ (fun c d => ∀ s, Narrows (fun r => allowed r.1 = false) (c s)
      (d s)) cs ds)
    (s : σ) : Narrows (fun r => allowed r.1 = false) (runChain allowed done cs s)
      (runChain allowed done ds s) := by
  induction h generalizing s with
  | nil => exact .refl _
  | cons hhead _ ih =>
    refine (hhead s).bind (fun r _ => ?_) fun r hr => ⟨r, ?_, hr⟩
    · obtain ⟨verdict, t⟩ := r
      by_cases ha : allowed verdict = true
      · simp only [ha, if_true]
        exact ih t
      · simp only [ha]
        exact .refl _
    · obtain ⟨verdict, t⟩ := r
      simp only at hr
      simp [hr, pure, Except.pure]

/-! ## Rows -/

section Rows

variable {ρ ε κ : Type} {off : ρ → ρ} {rows rows' : List ρ}

/-- Some rows are switched off, all others are as before. -/
def SwitchedOff (off : ρ → ρ) (rows rows' : List ρ) : Prop :=
  List.Forall₂ (fun r r' => r' = r ∨ r' = off r) rows rows'

/-- Queries for rows that are on find some of the rows that they found. -/
theorem SwitchedOff.filter_sublist (h : SwitchedOff off rows rows') {p : ρ → Bool}
    (hoff : ∀ r, p (off r) = false) : (rows'.filter p).Sublist (rows.filter p) := by
  unfold SwitchedOff at h
  induction h with
  | nil => exact List.Sublist.refl _
  | @cons r r' rows rows' hrow _ ih =>
    rcases hrow with rfl | rfl
    · rw [List.filter_cons, List.filter_cons]
      split
      · exact ih.cons_cons _
      · exact ih
    · rw [List.filter_cons_of_neg (by rw [hoff]; exact Bool.false_ne_true), List.filter_cons]
      split
      · exact ih.cons _
      · exact ih

/-- A query for one row finds the same row, or none. -/
theorem oneOrNone_narrows (h : SwitchedOff off rows rows') {p : ρ → Bool}
    (hoff : ∀ r, p (off r) = false) (hone : (rows.filter p).length ≤ 1) (e : ε) :
    Narrows (fun o => o = none) (oneOrNone e (rows.filter p)) (oneOrNone e (rows'.filter p)) := by
  have hsub := h.filter_sublist hoff
  by_cases hnil : rows'.filter p = []
  · rw [hnil]
    exact .denial rfl
  · have hpos : 0 < (rows'.filter p).length := List.length_pos_iff.2 hnil
    exact .of_eq (congrArg _ (hsub.eq_of_length_le (by omega)))

/-- What does not look at the switch finds the same. -/
theorem SwitchedOff.find?_map (h : SwitchedOff off rows rows') {p : ρ → Bool}
    (hp : ∀ r, p (off r) = p r) {f : ρ → κ} (hf : ∀ r, f (off r) = f r) :
    (rows'.find? p).map f = (rows.find? p).map f := by
  unfold SwitchedOff at h
  induction h with
  | nil => rfl
  | @cons r r' rows rows' hrow _ ih =>
    have hsame : p r' = p r ∧ f r' = f r := by
      rcases hrow with rfl | rfl
      · exact ⟨rfl, rfl⟩
      · exact ⟨hp r, hf r⟩
    rw [List.find?_cons, List.find?_cons, hsame.1]
    cases p r with
    | true => exact congrArg some hsame.2
    | false => exact ih

end Rows

end Pipeline
