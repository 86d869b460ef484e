import SqlGatekeeper.Store.Table

/-!
# Upserts

A row is looked up by a unique key; a missing one is inserted, an existing one is kept or
overwritten.

* `Table.add`, `Table.update`: an insertion that the unique key may refuse, and a change in place.
* `Table.getOrAdd`: the row with a key, inserted when it is missing; `Table.getOrAdd_ok`,
  `Table.getOrAdd_of_mem`.
* `Grown`: all rows are kept and the new ones have only certain keys.
* `Once`: a key that exactly one row has.
-/

namespace Store

variable {ρ κ ε : Type} {key : ρ → κ}

/-! ## Keys of the rows -/

/-- Exactly one row has the key. -/
def Once [DecidableEq κ] (key : ρ → κ) (k : κ) (rows : List ρ) : Prop :=
  (rows.map key).count k = 1

theorem Unique.once [DecidableEq κ] {rows : List ρ} (h : Unique key rows) {r : ρ}
    (hr : r ∈ rows) :
    Once key (key r) rows :=
  List.count_eq_one_of_mem h (List.mem_map_of_mem hr)

/-- The rows of a table are kept, and the rows behind them have only certain keys. -/
def Grown (key : ρ → κ) (keys : List κ) (t t' : Table ρ) : Prop :=
  ∃ added, t'.rows = t.rows ++ added ∧ ∀ r ∈ added, key r ∈ keys

namespace Grown

variable {keys : List κ} {t t' t'' : Table ρ}

theorem refl (key : ρ → κ) (keys : List κ) (t : Table ρ) : Grown key keys t t :=
  ⟨[], (List.append_nil _).symm, by simp⟩

theorem trans (h : Grown key keys t t') (h' : Grown key keys t' t'') : Grown key keys t t'' := by
  obtain ⟨added, hrows, hkeys⟩ := h
  obtain ⟨added', hrows', hkeys'⟩ := h'
  refine ⟨added ++ added', by rw [hrows', hrows, List.append_assoc], fun r hr => ?_⟩
  rcases List.mem_append.1 hr with hr | hr
  · exact hkeys r hr
  · exact hkeys' r hr

theorem mono {keys' : List κ} (h : Grown key keys t t') (hkeys : keys ⊆ keys') :
    Grown key keys' t t' := by
  obtain ⟨added, hrows, hadded⟩ := h
  exact ⟨added, hrows, fun r hr => hkeys (hadded r hr)⟩

theorem mem (h : Grown key keys t t') {r : ρ} (hr : r ∈ t.rows) : r ∈ t'.rows := by
  obtain ⟨added, hrows, -⟩ := h
  rw [hrows]
  exact List.mem_append_left _ hr

/-- A row under another key was there before. -/
theorem mem_of_notMem (h : Grown key keys t t') {r : ρ} (hr : r ∈ t'.rows)
    (hkey : key r ∉ keys) :
    r ∈ t.rows := by
  obtain ⟨added, hrows, hadded⟩ := h
  rw [hrows] at hr
  rcases List.mem_append.1 hr with hr | hr
  · exact hr
  · exact absurd (hadded r hr) hkey

end Grown

namespace Table

/-! ## Single statements -/

/-- Insert a row under the next id; a key that a row already has is the error `e`. -/
def add [DecidableEq κ] (e : ε) (key : ρ → κ) (mk : Nat → ρ) (t : Table ρ) : Except ε
    (Table ρ) :=
  if t.rows.any fun r => key r = key (mk t.nextId) then .error e else .ok (t.insert mk)

/-- Change the rows a query selects. -/
def update (p : ρ → Bool) (f : ρ → ρ) (t : Table ρ) : Table ρ :=
  { t with rows := t.rows.map fun r => if p r then f r else r }

@[simp] theorem update_rows (p : ρ → Bool) (f : ρ → ρ) (t : Table ρ) :
    (t.update p f).rows = t.rows.map fun r => if p r then f r else r := rfl

@[simp] theorem update_nextId (p : ρ → Bool) (f : ρ → ρ) (t : Table ρ) :
    (t.update p f).nextId = t.nextId := rfl

/-- An insertion under a new key. -/
theorem add_of_forall_ne [DecidableEq κ] {e : ε} {mk : Nat → ρ} {t : Table ρ}
    (h : ∀ r ∈ t.rows, key r ≠ key (mk t.nextId)) : t.add e key mk = .ok (t.insert mk) :=
  if_neg (by simpa using h)

theorem unique_insert {mk : Nat → ρ} {t : Table ρ} (hunique : Unique key t.rows)
    (h : ∀ r ∈ t.rows, key r ≠ key (mk t.nextId)) : Unique key (t.insert mk).rows := by
  rw [Unique, insert_rows, List.map_append, List.map_singleton]
  refine List.nodup_append'.2 ⟨hunique, List.nodup_singleton _, ?_⟩
  rw [List.disjoint_singleton]
  intro hmem
  obtain ⟨r, hr, heq⟩ := List.mem_map.1 hmem
  exact h r hr heq

/-- What a change that keeps a column does to it. -/
theorem map_update {α : Type} (g : ρ → α) {p : ρ → Bool} {f : ρ → ρ}
    (hf : ∀ r, g (f r) = g r) (t : Table ρ) : (t.update p f).rows.map g = t.rows.map g := by
  rw [update_rows, List.map_map]
  refine List.map_congr_left fun r _ => ?_
  rw [Function.comp_apply]
  split
  · exact hf r
  · rfl

theorem unique_update {p : ρ → Bool} {f : ρ → ρ} (hf : ∀ r, key (f r) = key r)
    {t : Table ρ} :
    Unique key (t.update p f).rows ↔ Unique key t.rows := by
  rw [Unique, Unique, map_update key hf]

theorem Fresh.update {id : ρ → Nat} {p : ρ → Bool} {f : ρ → ρ}
    (hf : ∀ r, id (f r) = id r) {t : Table ρ} (h : Fresh id t) : Fresh id (t.update p f) where
  lt_nextId r hr := by
    have hid : id r ∈ (t.update p f).rows.map id := List.mem_map_of_mem hr
    rw [map_update id hf] at hid
    obtain ⟨s, hs, hsr⟩ := List.mem_map.1 hid
    exact hsr ▸ h.lt_nextId s hs
  unique := (unique_update hf).2 h.unique

/-! ## Insertion of a missing row -/

/-- The row with the key `k`; a missing one is inserted. -/
def getOrAdd [DecidableEq κ] (several taken : ε) (key : ρ → κ) (k : κ) (mk : Nat → ρ)
    (t : Table ρ) : Except ε (ρ × Table ρ) := do
  match ← oneOrNone several (t.rows.filter fun r => decide (key r = k)) with
  | some existing => pure (existing, t)
  | none =>
      let t' ← t.add taken key mk
      pure (mk t.nextId, t')

section GetOrAdd

variable {several taken : ε} {k : κ} {mk : Nat → ρ} {t : Table ρ}

/-- An existing row is left as it is. -/
theorem getOrAdd_of_mem [DecidableEq κ] (hunique : Unique key t.rows) {r : ρ} (hr : r ∈ t.rows)
    (hk : key r = k) :
    t.getOrAdd several taken key k mk = .ok (r, t) := by
  have hfilter : t.rows.filter (fun s => decide (key s = k)) = [r] := by
    rw [hunique.filter_eq hr fun s _ hs => (of_decide_eq_true hs).trans hk.symm, if_pos]
    exact decide_eq_true hk
  rw [getOrAdd, hfilter]
  rfl

/-- A missing row is inserted. -/
theorem getOrAdd_of_forall_ne [DecidableEq κ] (hmk : key (mk t.nextId) = k)
    (h : ∀ r ∈ t.rows, key r ≠ k) :
    t.getOrAdd several taken key k mk = .ok (mk t.nextId, t.insert mk) := by
  have hfilter : t.rows.filter (fun s => decide (key s = k)) = [] :=
    List.filter_eq_nil_iff.2 fun r hr => by simpa using h r hr
  rw [getOrAdd, hfilter]
  simp only [oneOrNone, add_of_forall_ne (e := taken) (hmk ▸ h)]
  rfl

/-- The result of an insertion of a missing row. -/
structure Got (key : ρ → κ) (k : κ) (mk : Nat → ρ) (t : Table ρ) (r : ρ)
    (t' : Table ρ) : Prop where
  mem : r ∈ t'.rows
  key_eq : key r = k
  unique : Unique key t'.rows
  grown : Grown key [k] t t'
  /-- A new row is the one that was meant. -/
  eq_or_insert : t' = t ∨ (∀ s ∈ t.rows, key s ≠ k) ∧ t' = t.insert mk

/-- On a unique key the lookup and the insertion never fail. -/
theorem getOrAdd_ok [DecidableEq κ] (several taken : ε) (k : κ) (mk : Nat → ρ)
    (hunique : Unique key t.rows) (hmk : ∀ n, key (mk n) = k) :
    ∃ r t', t.getOrAdd several taken key k mk = .ok (r, t') ∧ Got key k mk t r t' := by
  by_cases h : ∃ r ∈ t.rows, key r = k
  · obtain ⟨r, hr, hk⟩ := h
    exact ⟨r, t, getOrAdd_of_mem hunique hr hk, hr, hk, hunique, .refl _ _ _, Or.inl rfl⟩
  · have hne : ∀ r ∈ t.rows, key r ≠ k := fun r hr hk => h ⟨r, hr, hk⟩
    refine ⟨_, _, getOrAdd_of_forall_ne (hmk _) hne, ?_, hmk _, unique_insert hunique ?_,
      ⟨[mk t.nextId], rfl, ?_⟩, Or.inr ⟨hne, rfl⟩⟩
    · exact List.mem_append_right _ (List.mem_singleton_self _)
    · rw [hmk]
      exact hne
    · intro r hr
      rw [List.mem_singleton.1 hr, hmk]
      exact List.mem_singleton_self _

theorem Got.fresh {r : ρ} {t' : Table ρ} (h : Got key k mk t r t') {id : ρ → Nat}
    (hid : ∀ n, id (mk n) = n) (ht : t.Fresh id) : t'.Fresh id := by
  rcases h.eq_or_insert with rfl | ⟨-, rfl⟩
  · exact ht
  · exact ht.insert hid

/-- What all old rows satisfy, and the one that is meant, all rows satisfy. -/
theorem Got.forall_mem {r : ρ} {t' : Table ρ} (h : Got key k mk t r t') {P : ρ → Prop}
    (ht : ∀ s ∈ t.rows, P s) (hmk : ∀ n, P (mk n)) : ∀ s ∈ t'.rows, P s := by
  rcases h.eq_or_insert with rfl | ⟨-, rfl⟩
  · exact ht
  · intro s hs
    rcases List.mem_append.1 hs with hs | hs
    · exact ht s hs
    · rw [List.mem_singleton.1 hs]
      exact hmk _

end GetOrAdd

end Table

end Store
