import Mathlib

/-!
# Runs of a system

A system is a relation between a state, an event and the next state; a run is a finite
sequence of its steps.

* `Run`: a run, with its events, oldest first.
* `Run.invariant`: what every step keeps holds behind a run; `Run.invariant_of_good`: the steps may
  be restricted by their events.
* `Run.exists_prefix`: a run up to an event that occurred.
-/

namespace Runs

variable {σ ι : Type}

/-- A run from a state to another, with its events, oldest first. -/
inductive Run (step : σ → ι → σ → Prop) (s : σ) : List ι → σ → Prop where
  | nil : Run step s [] s
  | snoc {t u : σ} {events : List ι} {event : ι} (hrun : Run step s events t)
      (hstep : step t event u) : Run step s (events ++ [event]) u

namespace Run

variable {step : σ → ι → σ → Prop} {s t u : σ} {events : List ι}

/-- What holds before a run, and of every step's state if of the state before, holds behind it; it
may speak of the events so far. -/
theorem invariant {P : List ι → σ → Prop} (hnil : P [] s)
    (hstep : ∀ events t event u, P events t → step t event u → P (events ++ [event]) u)
    (h : Run step s events t) : P events t := by
  induction h with
  | nil => exact hnil
  | snoc hrun hlast ih => exact hstep _ _ _ _ ih hlast

/-- So does what is kept by good events only, if there are no others. -/
theorem invariant_of_good {P : List ι → σ → Prop} {good : ι → Prop} (hnil : P [] s)
    (hstep : ∀ events t event u, P events t → good event → step t event u →
      P (events ++ [event]) u)
    (h : Run step s events t) (hgood : ∀ event ∈ events, good event) : P events t := by
  refine h.invariant (P := fun events t => (∀ event ∈ events, good event) → P events t)
    (fun _ => hnil) ?_ hgood
  intro events t event u hbefore hlast hgood
  have hbefore : P events t := hbefore fun e he => hgood e (List.mem_append_left _ he)
  exact hstep events t event u hbefore (hgood event (by simp)) hlast

/-- Steps that are steps of another system too. -/
theorem mono {step' : σ → ι → σ → Prop}
    (hstep : ∀ s event t, step s event t → step' s event t)
    (h : Run step s events t) : Run step' s events t := by
  induction h with
  | nil => exact .nil
  | snoc hrun hlast ih => exact .snoc ih (hstep _ _ _ hlast)

/-- The last step of a run. -/
theorem exists_last {event : ι} (h : Run step s (events ++ [event]) t) :
    ∃ m, Run step s events m ∧ step m event t := by
  generalize hall : events ++ [event] = all at h
  cases h with
  | nil => simp at hall
  | snoc hrun hstep =>
    obtain ⟨rfl, hlast⟩ := List.append_inj' hall rfl
    cases hlast
    exact ⟨_, hrun, hstep⟩

/-- A run, cut behind some of its events. -/
theorem cut {before after : List ι} (h : Run step s (before ++ after) t) :
    ∃ m, Run step s before m ∧ Run step m after t := by
  induction after using List.reverseRecOn generalizing t with
  | nil =>
    rw [List.append_nil] at h
    exact ⟨t, h, .nil⟩
  | append_singleton after event ih =>
    rw [← List.append_assoc] at h
    obtain ⟨n, hrun, hlast⟩ := h.exists_last
    obtain ⟨m, hbefore, hafter⟩ := ih hrun
    exact ⟨m, hbefore, .snoc hafter hlast⟩

/-- The step of an event that occurred, and the runs on both sides of it. -/
theorem exists_prefix {before after : List ι} {event : ι}
    (h : Run step s (before ++ event :: after) t) :
    ∃ m m', Run step s before m ∧ step m event m' ∧ Run step m' after t := by
  rw [← List.singleton_append, ← List.append_assoc] at h
  obtain ⟨m', hfirst, hafter⟩ := h.cut
  obtain ⟨m, hbefore, hstep⟩ := hfirst.exists_last
  exact ⟨m, m', hbefore, hstep, hafter⟩

end Run

end Runs
