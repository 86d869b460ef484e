import Mathlib

/-!
# Exceptions and traces

* `bind_eq_ok`, `bind_eq_error`: how a sequence of steps that may raise ends.
* `Returns`: a step does not raise; `returns_bind`: nor does a sequence of such steps.
* `Traced`: a computation that also sends statements or commands to a server; it keeps
  what was sent, also when it ends with an exception.
* `Traced.Sends`: everything that is sent satisfies a predicate; `Traced.RaisesOnly`:
  every exception is a reply; `Traced.ReturnsIf`: it returns exactly when all replies are good;
  `Traced.Yields`: what it returns satisfies a predicate.
-/

namespace Py

variable {ε σ α β : Type}

/-! ## Exceptions -/

theorem bind_eq_ok {x : Except ε α} {f : α → Except ε β} {b : β} :
    (x >>= f) = .ok b ↔ ∃ a, x = .ok a ∧ f a = .ok b := by
  cases x <;> simp [bind, Except.bind]

theorem bind_eq_error {x : Except ε α} {f : α → Except ε β} {e : ε} :
    (x >>= f) = .error e ↔ x = .error e ∨ ∃ a, x = .ok a ∧ f a = .error e := by
  cases x <;> simp [bind, Except.bind]

theorem map_eq_ok {x : Except ε α} {f : α → β} {b : β} :
    x.map f = .ok b ↔ ∃ a, x = .ok a ∧ f a = b := by
  cases x <;> simp [Except.map]

theorem map_eq_error {x : Except ε α} {f : α → β} {e : ε} :
    x.map f = .error e ↔ x = .error e := by
  cases x <;> simp [Except.map]

/-- A step either returns or raises. -/
theorem ok_or_error (x : Except ε α) : (∃ a, x = .ok a) ∨ ∃ e, x = .error e := by
  cases x with
  | ok a => exact Or.inl ⟨a, rfl⟩
  | error e => exact Or.inr ⟨e, rfl⟩

/-- A step returns. -/
def Returns (x : Except ε α) : Prop := ∃ a, x = .ok a

theorem returns_ok (a : α) : Returns (.ok a : Except ε α) := ⟨a, rfl⟩

theorem not_returns_error (e : ε) : ¬ Returns (.error e : Except ε α) :=
  fun ⟨_, h⟩ => absurd h (by simp)

theorem Returns.ne_error {x : Except ε α} (h : Returns x) (e : ε) : x ≠ .error e := by
  rintro rfl
  exact not_returns_error e h

theorem returns_map {x : Except ε α} {f : α → β} : Returns (x.map f) ↔ Returns x := by
  cases x <;> simp [Returns, Except.map]

/-- A sequence returns when its first step does and the rest does behind it. -/
theorem returns_bind {x : Except ε α} {f : α → Except ε β} :
    Returns (x >>= f) ↔ Returns x ∧ ∀ a, x = .ok a → Returns (f a) := by
  cases x <;> simp [Returns, bind, Except.bind]

theorem returns_bind_of_eq {x : Except ε α} {f : α → Except ε β} {a : α} (h : x = .ok a) :
    Returns (x >>= f) ↔ Returns (f a) := by
  rw [h]
  rfl

theorem Returns.bind {x : Except ε α} {f : α → Except ε β} (hx : Returns x)
    (hf : ∀ a, x = .ok a → Returns (f a)) : Returns (x >>= f) := returns_bind.2 ⟨hx, hf⟩

/-! ## Traces -/

/-- A computation with what it sent and how it ended. -/
structure Traced (σ ε α : Type) where
  trace : List σ
  result : Except ε α

namespace Traced

/-- Nothing is sent. -/
def lift (x : Except ε α) : Traced σ ε α := ⟨[], x⟩

/-- Send something; the reply, or the exception, is the result. -/
def send (s : σ) (reply : Except ε α) : Traced σ ε α := ⟨[s], reply⟩

instance : Monad (Traced σ ε) where
  pure a := ⟨[], .ok a⟩
  bind x f :=
    match x.result with
    | .ok a => ⟨x.trace ++ (f a).trace, (f a).result⟩
    | .error e => ⟨x.trace, .error e⟩

@[simp] theorem pure_trace (a : α) : (pure a : Traced σ ε α).trace = [] := rfl

@[simp] theorem pure_result (a : α) : (pure a : Traced σ ε α).result = .ok a := rfl

@[simp] theorem lift_trace (x : Except ε α) : (lift x : Traced σ ε α).trace = [] := rfl

@[simp] theorem lift_result (x : Except ε α) : (lift x : Traced σ ε α).result = x := rfl

@[simp] theorem send_trace (s : σ) (reply : Except ε α) : (send s reply).trace = [s] := rfl

@[simp] theorem send_result (s : σ) (reply : Except ε α) : (send s reply).result = reply := rfl

theorem bind_ok {x : Traced σ ε α} {a : α} (h : x.result = .ok a) (f : α → Traced σ ε β) :
    x >>= f = ⟨x.trace ++ (f a).trace, (f a).result⟩ := by
  show (match x.result with
    | .ok a => _
    | .error e => _ : Traced σ ε β) = _
  rw [h]

theorem bind_error {x : Traced σ ε α} {e : ε} (h : x.result = .error e)
    (f : α → Traced σ ε β) : x >>= f = ⟨x.trace, .error e⟩ := by
  show (match x.result with
    | .ok a => _
    | .error e => _ : Traced σ ε β) = _
  rw [h]

@[simp] theorem bind_result (x : Traced σ ε α) (f : α → Traced σ ε β) :
    (x >>= f).result = x.result >>= fun a => (f a).result := by
  rcases ok_or_error x.result with ⟨a, h⟩ | ⟨e, h⟩
  · rw [bind_ok h, h]
    rfl
  · rw [bind_error h, h]
    rfl

/-- Everything sent satisfies a predicate. -/
def Sends (P : σ → Prop) (x : Traced σ ε α) : Prop := ∀ s ∈ x.trace, P s

theorem Sends.pure (P : σ → Prop) (a : α) : Sends P (pure a : Traced σ ε α) := by
  simp [Sends]

theorem Sends.lift (P : σ → Prop) (x : Except ε α) : Sends P (lift x : Traced σ ε α) := by
  simp [Sends]

theorem Sends.send {P : σ → Prop} {s : σ} (hs : P s) (reply : Except ε α) :
    Sends P (send s reply) := by
  simpa [Sends] using hs

theorem Sends.bind {P : σ → Prop} {x : Traced σ ε α} {f : α → Traced σ ε β}
    (hx : Sends P x) (hf : ∀ a, x.result = .ok a → Sends P (f a)) : Sends P (x >>= f) := by
  rcases ok_or_error x.result with ⟨a, h⟩ | ⟨e, h⟩
  · rw [bind_ok h]
    intro s hs
    rcases List.mem_append.1 hs with hs | hs
    · exact hx s hs
    · exact hf a h s hs
  · rw [bind_error h]
    exact hx

/-- Every exception is the reply to something that was sent. -/
def RaisesOnly (R : σ → ε → Prop) (x : Traced σ ε α) : Prop :=
  ∀ e, x.result = .error e → ∃ s ∈ x.trace, R s e

theorem RaisesOnly.pure (R : σ → ε → Prop) (a : α) : RaisesOnly R
    (pure a : Traced σ ε α) :=
  fun e h => absurd h (by simp)

theorem RaisesOnly.lift_ok {R : σ → ε → Prop} {x : Except ε α} {a : α} (h : x = .ok a) :
    RaisesOnly R (lift x : Traced σ ε α) := by
  subst h
  exact fun e h => absurd h (by simp)

theorem RaisesOnly.send {R : σ → ε → Prop} {s : σ} {reply : Except ε α}
    (h : ∀ e, reply = .error e → R s e) : RaisesOnly R (send s reply) :=
  fun e he => ⟨s, List.mem_singleton_self s, h e he⟩

theorem RaisesOnly.bind {R : σ → ε → Prop} {x : Traced σ ε α} {f : α → Traced σ ε β}
    (hx : RaisesOnly R x) (hf : ∀ a, x.result = .ok a → RaisesOnly R (f a)) :
    RaisesOnly R (x >>= f) := by
  intro e he
  rcases ok_or_error x.result with ⟨a, h⟩ | ⟨e', h⟩
  · rw [bind_ok h] at he ⊢
    obtain ⟨s, hs, hr⟩ := hf a h e he
    exact ⟨s, List.mem_append_right _ hs, hr⟩
  · rw [bind_error h] at he ⊢
    injection he with he
    subst he
    exact hx e' h

/-- A computation returns exactly when every reply on its way is good. -/
def ReturnsIf (G : σ → Prop) (x : Traced σ ε α) : Prop :=
  Returns x.result ↔ ∀ s ∈ x.trace, G s

theorem ReturnsIf.pure (G : σ → Prop) (a : α) : ReturnsIf G (pure a : Traced σ ε α) :=
  ⟨fun _ => by simp, fun _ => returns_ok a⟩

theorem ReturnsIf.lift_ok {G : σ → Prop} {x : Except ε α} {a : α} (h : x = .ok a) :
    ReturnsIf G (lift x : Traced σ ε α) := by
  subst h
  exact ReturnsIf.pure G a

theorem ReturnsIf.send {G : σ → Prop} {s : σ} {reply : Except ε α}
    (h : Returns reply ↔ G s) :
    ReturnsIf G (send s reply) := by
  rw [ReturnsIf, send_trace, List.forall_mem_singleton]
  exact h

theorem ReturnsIf.bind {G : σ → Prop} {x : Traced σ ε α} {f : α → Traced σ ε β}
    (hx : ReturnsIf G x) (hf : ∀ a, x.result = .ok a → ReturnsIf G (f a)) :
    ReturnsIf G (x >>= f) := by
  rcases ok_or_error x.result with ⟨a, h⟩ | ⟨e, h⟩
  · rw [bind_ok h, ReturnsIf, List.forall_mem_append]
    exact ⟨fun hr => ⟨hx.1 ⟨a, h⟩, (hf a h).1 hr⟩, fun hg => (hf a h).2 hg.2⟩
  · rw [bind_error h]
    exact ⟨fun hr => absurd hr (not_returns_error e),
      fun hg => absurd (hx.2 hg) (h ▸ not_returns_error e)⟩

/-- What is returned, if anything is, satisfies a predicate. -/
def Yields (P : α → Prop) (x : Traced σ ε α) : Prop := ∀ a, x.result = .ok a → P a

theorem Yields.pure {P : α → Prop} {a : α} (h : P a) : Yields P (pure a : Traced σ ε α) := by
  intro b hb
  rwa [← Except.ok.inj hb]

theorem Yields.send_map {P : β → Prop} {s : σ} {reply : Except ε α} {f : α → β}
    (h : ∀ a, reply = .ok a → P (f a)) : Yields P (send s (reply.map f)) := by
  intro b hb
  obtain ⟨a, ha, rfl⟩ := map_eq_ok.1 hb
  exact h a ha

theorem Yields.bind {Q : α → Prop} {P : β → Prop} {x : Traced σ ε α}
    {f : α → Traced σ ε β} (hx : Yields Q x) (hf : ∀ a, Q a → Yields P (f a)) : Yields P
    (x >>= f) := by
  intro b hb
  rw [bind_result] at hb
  obtain ⟨a, ha, hb⟩ := bind_eq_ok.1 hb
  exact hf a (hx a ha) b hb

end Traced

end Py
