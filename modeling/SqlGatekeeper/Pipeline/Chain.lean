import SqlGatekeeper.Python.Effects

/-!
# Chains of checks

A check looks at a state, may change it, and gives a verdict or raises.  A chain runs its
checks in order and stops at the first verdict that does not allow.

* `runChain`: the chain.
* `Allows`: a check allows; `Passes`: all checks of a chain do, one after the other.
* `runChain_allowed_iff`: a chain allows exactly when all its checks pass.
* `runChain_cons_eq_error`: a chain raises only what a check raises behind checks that
  passed.
* `runChain_cons_returns_iff`: when a chain returns.
* `Follows`: a check goes wherever another one goes; `Passes.follow`: so do chains of them.
* `EachReached`: a predicate of every element that a loop comes to.
-/

namespace Pipeline

open Py

variable {σ ε δ : Type}

/-- A check of a chain. -/
abbrev Check (σ ε δ : Type) := σ → Except ε (δ × σ)

/-- Run the checks in order; `done` is the verdict when all have allowed. -/
def runChain (allowed : δ → Bool) (done : δ) : List (Check σ ε δ) → Check σ ε δ
  | [], s => .ok (done, s)
  | c :: cs, s => do
      let (verdict, s) ← c s
      if allowed verdict then runChain allowed done cs s else pure (verdict, s)

/-- A check allows a state and leaves another one. -/
def Allows (allowed : δ → Bool) (c : Check σ ε δ) (s t : σ) : Prop :=
  ∃ verdict, c s = .ok (verdict, t) ∧ allowed verdict = true

/-- All checks allow, one after the other, from the first state to the last. -/
inductive Passes (allowed : δ → Bool) : List (Check σ ε δ) → σ → σ → Prop where
  | nil (s : σ) : Passes allowed [] s s
  | cons {c : Check σ ε δ} {cs : List (Check σ ε δ)} {s t u : σ}
      (hallows : Allows allowed c s t) (hrest : Passes allowed cs t u) :
      Passes allowed (c :: cs) s u

variable {allowed : δ → Bool} {done : δ} {cs : List (Check σ ε δ)} {s t : σ}

/-- A check that returns allows when its verdict does. -/
theorem allows_of_eq {c : Check σ ε δ} {verdict : δ} {u : σ} (h : c s = .ok (verdict, u)) :
    Allows allowed c s t ↔ allowed verdict = true ∧ t = u := by
  constructor
  · rintro ⟨v, hv, ha⟩
    rw [h] at hv
    injection hv with hv
    injection hv with hv hu
    exact ⟨hv ▸ ha, hu.symm⟩
  · rintro ⟨ha, rfl⟩
    exact ⟨verdict, h, ha⟩

/-- A check that decides a condition allows when the condition holds. -/
theorem allows_of_ite {c : Check σ ε δ} {P : Prop} [Decidable P] {yes no : δ} {u : σ}
    (h : c s = if P then .ok (yes, u) else .ok (no, u)) (hyes : allowed yes = true)
    (hno : allowed no = false) : Allows allowed c s t ↔ P ∧ t = u := by
  by_cases hP : P
  · rw [if_pos hP] at h
    rw [allows_of_eq h, hyes]
    exact and_congr_left fun _ => ⟨fun _ => hP, fun _ => rfl⟩
  · rw [if_neg hP] at h
    rw [allows_of_eq h, hno]
    exact and_congr_left fun _ => ⟨fun h => absurd h Bool.false_ne_true, fun h => absurd h hP⟩

/-- A check that rejects on a condition allows when the condition fails. -/
theorem allows_of_ite_not {c : Check σ ε δ} {P : Prop} [Decidable P] {yes no : δ} {u : σ}
    (h : c s = if P then .ok (no, u) else .ok (yes, u)) (hyes : allowed yes = true)
    (hno : allowed no = false) : Allows allowed c s t ↔ ¬ P ∧ t = u :=
  allows_of_ite (by rw [h, ite_not]) hyes hno

theorem passes_nil : Passes allowed ([] : List (Check σ ε δ)) s t ↔ t = s := by
  constructor
  · rintro ⟨⟩
    rfl
  · rintro rfl
    exact .nil _

theorem passes_cons {c : Check σ ε δ} : Passes allowed (c :: cs) s t ↔
    ∃ u, Allows allowed c s u ∧ Passes allowed cs u t := by
  constructor
  · rintro (_ | ⟨hallows, hrest⟩)
    exact ⟨_, hallows, hrest⟩
  · rintro ⟨u, hallows, hrest⟩
    exact .cons hallows hrest

/-- A chain allows exactly when all its checks pass. -/
theorem runChain_allowed_iff (hdone : allowed done = true) :
    Allows allowed (runChain allowed done cs) s t ↔ Passes allowed cs s t := by
  induction cs generalizing s with
  | nil =>
    rw [passes_nil]
    constructor
    · rintro ⟨verdict, h, -⟩
      injection h with h
      injection h with _ h
      exact h.symm
    · rintro rfl
      exact ⟨done, rfl, hdone⟩
  | cons c cs ih =>
    rw [passes_cons]
    constructor
    · rintro ⟨verdict, h, ha⟩
      obtain ⟨⟨v, u⟩, hc, h⟩ := bind_eq_ok.1 h
      simp only at h
      split at h
      · rename_i hv
        exact ⟨u, ⟨v, hc, hv⟩, ih.1 ⟨verdict, h, ha⟩⟩
      · rename_i hv
        injection h with h
        injection h with h _
        exact absurd (h ▸ ha) hv
    · rintro ⟨u, ⟨v, hc, hv⟩, hrest⟩
      obtain ⟨verdict, h, ha⟩ := ih.2 hrest
      refine ⟨verdict, bind_eq_ok.2 ⟨(v, u), hc, ?_⟩, ha⟩
      simp only [hv, if_true]
      exact h

/-- A chain raises what its first check raises, or what the rest raises behind it. -/
theorem runChain_cons_eq_error {c : Check σ ε δ} {e : ε}
    (h : runChain allowed done (c :: cs) s = .error e) :
    c s = .error e ∨ ∃ u, Allows allowed c s u ∧ runChain allowed done cs u = .error e := by
  rcases bind_eq_error.1 h with h | ⟨⟨v, u⟩, hc, h⟩
  · exact Or.inl h
  · simp only at h
    split at h
    · rename_i hv
      exact Or.inr ⟨u, ⟨v, hc, hv⟩, h⟩
    · exact absurd h (by simp [pure, Except.pure])

theorem runChain_nil_ne_error {e : ε} :
    runChain allowed done ([] : List (Check σ ε δ)) s ≠ .error e := by
  simp [runChain]

/-- A chain returns when its first check does and, if that allows, the rest does behind it. -/
theorem runChain_cons_returns_iff {c : Check σ ε δ} :
    Returns (runChain allowed done (c :: cs) s) ↔
      Returns (c s) ∧ ∀ u, Allows allowed c s u → Returns (runChain allowed done cs u) := by
  rw [runChain, returns_bind]
  refine and_congr_right fun _ => ⟨fun h u ⟨v, hv, ha⟩ => ?_, fun h ⟨v, u⟩ hv => ?_⟩
  · have hrest := h (v, u) hv
    simp only [ha, if_true] at hrest
    exact hrest
  · simp only
    split
    · rename_i ha
      exact h u ⟨v, hv, ha⟩
    · exact returns_ok _

theorem runChain_nil_returns : Returns (runChain allowed done ([] : List (Check σ ε δ)) s) :=
  returns_ok _

/-! ## Chains that follow each other -/

/-- Wherever the first check allows, the second one does from a related state, and leaves a related
one. -/
def Follows {τ : Type} (allowed : δ → Bool) (R : σ → τ → Prop) (c : Check σ ε δ)
    (d : Check τ ε δ) :
    Prop :=
  ∀ s s' t, R s s' → Allows allowed c s t → ∃ t', Allows allowed d s' t' ∧ R t t'

/-- Chains of checks that follow each other do, too. -/
theorem Passes.follow {τ : Type} {R : σ → τ → Prop} {ds : List (Check τ ε δ)}
    (hcs : List.Forall₂ (Follows allowed R) cs ds) {s' : τ} (hs : R s s')
    (h : Passes allowed cs s t) : ∃ t', Passes allowed ds s' t' ∧ R t t' := by
  induction hcs generalizing s s' with
  | nil =>
    rw [passes_nil] at h
    exact ⟨s', .nil s', h ▸ hs⟩
  | cons hhead _ ih =>
    obtain ⟨u, hallows, hrest⟩ := passes_cons.1 h
    obtain ⟨u', hallows', hu⟩ := hhead s s' u hs hallows
    obtain ⟨t', hrest', ht⟩ := ih hu hrest
    exact ⟨t', .cons hallows' hrest', ht⟩

/-! ## Loops that stop -/

/-- Every element that a loop comes to satisfies a predicate; the loop goes on behind an element
only if that one `goes`. -/
def EachReached {α : Type} (goes P : α → Prop) (l : List α) : Prop :=
  ∀ before a after, l = before ++ a :: after → (∀ b ∈ before, goes b) → P a

theorem eachReached_nil {α : Type} {goes P : α → Prop} : EachReached goes P [] :=
  fun before a after h => absurd h (by simp)

theorem eachReached_cons {α : Type} {goes P : α → Prop} {a : α} {l : List α} :
    EachReached goes P (a :: l) ↔ P a ∧ (goes a → EachReached goes P l) := by
  constructor
  · intro h
    refine ⟨h [] a l rfl (by simp), fun ha before b after hl hbefore => ?_⟩
    refine h (a :: before) b after (by rw [hl, List.cons_append]) fun c hc => ?_
    rcases List.mem_cons.1 hc with rfl | hc
    · exact ha
    · exact hbefore c hc
  · rintro ⟨hP, hrest⟩ before b after hl hbefore
    cases before with
    | nil =>
      injection hl with hl
      exact hl ▸ hP
    | cons c before =>
      injection hl with hc hl
      subst hc
      exact hrest (hbefore a List.mem_cons_self) before b after hl
        fun d hd => hbefore d (List.mem_cons_of_mem _ hd)

theorem EachReached.congr {α : Type} {goes goes' P P' : α → Prop} {l : List α}
    (hgoes : ∀ a ∈ l, goes a ↔ goes' a) (hP : ∀ a ∈ l, P a ↔ P' a) :
    EachReached goes P l ↔ EachReached goes' P' l := by
  induction l with
  | nil => exact ⟨fun _ => eachReached_nil, fun _ => eachReached_nil⟩
  | cons a l ih =>
    rw [eachReached_cons, eachReached_cons, hP a List.mem_cons_self, hgoes a List.mem_cons_self,
      ih (fun b hb => hgoes b (List.mem_cons_of_mem _ hb))
        (fun b hb => hP b (List.mem_cons_of_mem _ hb))]

end Pipeline
