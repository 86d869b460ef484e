import Mathlib

/-!
# Tables with generated ids

A relational table as the list of its rows, oldest first, with the id the next row
gets.

* `Table.insert`, `Table.delete`: the two ways a table changes.
* `oneOrNone`: a query that must not find more than one row.
* `Unique`: a declared unique key; `Unique.oneOrNone_filter`: a query on a unique
  key never finds two rows.
* `Corresponds`: the rows of a table are those of a list of records.
* `Table.Fresh`: generated ids are new; inserting keeps it.
-/

namespace Store

variable {ρ κ ε : Type}

/-! ## Queries -/

/-- The single row of a result, or none; several rows are the error `e`. -/
def oneOrNone (e : ε) : List ρ → Except ε (Option ρ)
  | [] => .ok none
  | [r] => .ok (some r)
  | _ :: _ :: _ => .error e

theorem oneOrNone_eq_none {e : ε} {rows : List ρ} :
    oneOrNone e rows = .ok none ↔ rows = [] := by
  rcases rows with _ | ⟨r, _ | ⟨s, rest⟩⟩ <;> simp [oneOrNone]

theorem oneOrNone_eq_some {e : ε} {rows : List ρ} {r : ρ} :
    oneOrNone e rows = .ok (some r) ↔ rows = [r] := by
  rcases rows with _ | ⟨r, _ | ⟨s, rest⟩⟩ <;> simp [oneOrNone]

theorem oneOrNone_eq_error {e e' : ε} {rows : List ρ} :
    oneOrNone e rows = .error e' ↔ e' = e ∧ 2 ≤ rows.length := by
  rcases rows with _ | ⟨r, _ | ⟨s, rest⟩⟩ <;> simp [oneOrNone, eq_comm]

/-- A result of at most one row is its head. -/
theorem oneOrNone_of_length_le {e : ε} {rows : List ρ} (h : rows.length ≤ 1) :
    oneOrNone e rows = .ok rows.head? := by
  rcases rows with _ | ⟨r, _ | ⟨s, rest⟩⟩
  · rfl
  · rfl
  · simp at h

/-- The row a query found satisfies the query. -/
theorem mem_of_oneOrNone_filter {e : ε} {rows : List ρ} {p : ρ → Bool} {r : ρ}
    (h : oneOrNone e (rows.filter p) = .ok (some r)) : r ∈ rows ∧ p r = true := by
  have hr : r ∈ rows.filter p := by
    rw [oneOrNone_eq_some.1 h]
    exact List.mem_singleton_self r
  exact List.mem_filter.1 hr

/-- A query that is not ambiguous finds the row that satisfies it. -/
theorem oneOrNone_filter_of_mem {e : ε} {rows : List ρ} {p : ρ → Bool} {o : Option ρ} {r : ρ}
    (h : oneOrNone e (rows.filter p) = .ok o) (hr : r ∈ rows) (hp : p r = true) :
    oneOrNone e (rows.filter p) = .ok (some r) := by
  have hmem : r ∈ rows.filter p := List.mem_filter.2 ⟨hr, hp⟩
  cases o with
  | none =>
    rw [oneOrNone_eq_none.1 h] at hmem
    exact absurd hmem (by simp)
  | some s =>
    rw [oneOrNone_eq_some.1 h, List.mem_singleton] at hmem
    rw [h, hmem]

/-! ## Unique keys -/

/-- No two rows have the same key. -/
def Unique (key : ρ → κ) (rows : List ρ) : Prop := (rows.map key).Nodup

instance (key : ρ → κ) (rows : List ρ) [DecidableEq κ] : Decidable (Unique key rows) :=
  inferInstanceAs (Decidable (List.Nodup _))

theorem Unique.eq_of_mem {key : ρ → κ} {rows : List ρ} (h : Unique key rows) {r s : ρ}
    (hr : r ∈ rows) (hs : s ∈ rows) (hk : key r = key s) : r = s :=
  List.inj_on_of_nodup_map h hr hs hk

theorem Unique.sublist {key : ρ → κ} {rows rows' : List ρ} (h : Unique key rows)
    (hs : rows'.Sublist rows) : Unique key rows' :=
  List.Nodup.sublist (hs.map key) h

/-- A query that fixes a unique key has at most one row. -/
theorem Unique.length_filter_le {key : ρ → κ} {rows : List ρ} (h : Unique key rows) {k : κ}
    {p : ρ → Bool} (hp : ∀ r ∈ rows, p r = true →
      key r = k) : (rows.filter p).length ≤ 1 := by
  have hnodup : (rows.filter p).Nodup := (List.Nodup.of_map key h).filter p
  rcases hf : rows.filter p with _ | ⟨r, _ | ⟨s, rest⟩⟩
  · simp
  · simp
  · have hr : r ∈ rows.filter p := by rw [hf]; exact List.mem_cons_self
    have hs : s ∈ rows.filter p := by
      rw [hf]
      exact List.mem_cons_of_mem _ List.mem_cons_self
    have hrs : r = s := by
      rw [List.mem_filter] at hr hs
      exact h.eq_of_mem hr.1 hs.1 ((hp r hr.1 hr.2).trans (hp s hs.1 hs.2).symm)
    rw [hf, hrs] at hnodup
    simp at hnodup

/-- A query that selects at most the row with one key finds that row or nothing. -/
theorem Unique.filter_eq {key : ρ → κ} {rows : List ρ} (h : Unique key rows) {r : ρ}
    (hr : r ∈ rows) {p : ρ → Bool} (hp : ∀ s ∈ rows, p s = true → key s = key r) :
    rows.filter p = if p r = true then [r] else [] := by
  split
  · rename_i hpr
    have hlength := h.length_filter_le hp
    have hmem : r ∈ rows.filter p := List.mem_filter.2 ⟨hr, hpr⟩
    rcases hf : rows.filter p with _ | ⟨s, _ | ⟨u, rest⟩⟩
    · rw [hf] at hmem
      exact absurd hmem List.not_mem_nil
    · rw [hf, List.mem_singleton] at hmem
      rw [hmem]
    · rw [hf] at hlength
      simp at hlength
  · rename_i hpr
    refine List.filter_eq_nil_iff.2 fun s hs hps => hpr ?_
    rwa [← h.eq_of_mem hs hr (hp s hs hps)]

/-- A query on a unique key is never ambiguous. -/
theorem Unique.oneOrNone_filter {key : ρ → κ} {rows : List ρ} (h : Unique key rows) {k : κ}
    {p : ρ → Bool} (hp : ∀ r ∈ rows, p r = true → key r = k) (e : ε) :
    oneOrNone e (rows.filter p) = .ok (rows.filter p).head? :=
  oneOrNone_of_length_le (h.length_filter_le hp)

/-- A row is found by its key. -/
theorem Unique.find?_eq [DecidableEq κ] {key : ρ → κ} {rows : List ρ} (h : Unique key rows)
    {r : ρ} (hr : r ∈ rows) : rows.find? (fun s => decide (key s = key r)) = some r := by
  rcases hf : rows.find? (fun s => decide (key s = key r)) with _ | s
  · exact absurd (List.find?_eq_none.1 hf r hr) (by simp)
  · have hs : key s = key r := by simpa using List.find?_some hf
    rw [h.eq_of_mem (List.mem_of_find?_eq_some hf) hr hs]

/-- A query by a key never finds two rows exactly if the key is unique. -/
theorem oneOrNone_filter_iff [DecidableEq κ] {key : ρ → κ} {rows : List ρ} {e : ε} :
    (∀ k, ∃ o, oneOrNone e (rows.filter fun r => decide (key r = k)) = .ok o) ↔
      Unique key rows := by
  constructor
  · intro h
    rw [Unique, List.nodup_iff_count_le_one]
    intro k
    obtain ⟨o, ho⟩ := h k
    have hcount : (rows.map key).count k = (rows.filter fun r => decide (key r = k)).length := by
      rw [List.count_eq_countP, List.countP_map, ← List.countP_eq_length_filter]
      exact List.countP_congr fun r _ => by simp
    rw [hcount]
    by_contra hlt
    rw [oneOrNone_eq_error.2 ⟨rfl, by omega⟩] at ho
    exact absurd ho (by simp)
  · exact fun h k => ⟨_, h.oneOrNone_filter (k := k) (fun r _ hr => by simpa using hr) e⟩

/-! ## Stored records -/

/-- Every member on the left has its partner. -/
theorem exists_of_forall₂_left {α β : Type} {R : α → β → Prop} {l : List α} {u : List β}
    (h : List.Forall₂ R l u) {a : α} (ha : a ∈ l) : ∃ b ∈ u, R a b := by
  obtain ⟨i, hi, rfl⟩ := List.mem_iff_getElem.1 ha
  have hi' : i < u.length := h.length_eq ▸ hi
  exact ⟨_, List.get_mem u ⟨i, hi'⟩, (List.forall₂_iff_get.1 h).2 i hi hi'⟩

/-- Every member on the right has its partner. -/
theorem exists_of_forall₂_right {α β : Type} {R : α → β → Prop} {l : List α}
    {u : List β} (h : List.Forall₂ R l u) {b : β} (hb : b ∈ u) : ∃ a ∈ l, R a b :=
  exists_of_forall₂_left h.flip hb

/-- The rows of a table are those of a list of records, in some order. -/
def Corresponds {σ : Type} (R : ρ → σ → Prop) (rows : List ρ) (records : List σ) : Prop :=
  ∃ order, order.Perm records ∧ List.Forall₂ R rows order

section Corresponds

variable {σ : Type} {R : ρ → σ → Prop} {rows : List ρ} {records : List σ}

theorem Corresponds.exists_record (h : Corresponds R rows records) {r : ρ} (hr : r ∈ rows) :
    ∃ q ∈ records, R r q := by
  obtain ⟨order, hperm, hall⟩ := h
  obtain ⟨q, hq, hR⟩ := exists_of_forall₂_left hall hr
  exact ⟨q, hperm.mem_iff.1 hq, hR⟩

theorem Corresponds.exists_row (h : Corresponds R rows records) {q : σ} (hq : q ∈ records) :
    ∃ r ∈ rows, R r q := by
  obtain ⟨order, hperm, hall⟩ := h
  exact exists_of_forall₂_right hall (hperm.mem_iff.2 hq)

theorem Corresponds.length_eq (h : Corresponds R rows records) : rows.length = records.length := by
  obtain ⟨order, hperm, hall⟩ := h
  rw [hall.length_eq, hperm.length_eq]

theorem Corresponds.singleton {q : σ} (h : Corresponds R rows [q]) : ∃ r,
    rows = [r] ∧ R r q := by
  obtain ⟨r, hr⟩ := List.length_eq_one_iff.1 h.length_eq
  obtain ⟨q', hq', hR⟩ := h.exists_record (r := r) (by rw [hr]; exact List.mem_singleton_self r)
  rw [List.mem_singleton.1 hq'] at hR
  exact ⟨r, hr, hR⟩

theorem Corresponds.filter_true (h : Corresponds R rows records) {p : ρ → Bool}
    (hp : ∀ r ∈ rows, p r = true) : Corresponds R (rows.filter p) records := by
  rwa [List.filter_eq_self.2 hp]

/-- A key that rows and records share. -/
theorem Corresponds.perm_map {key : ρ → κ} {key' : σ → κ} (h : Corresponds R rows records)
    (hkey : ∀ r q, R r q → key r = key' q) : (rows.map key).Perm (records.map key') := by
  obtain ⟨order, hperm, hall⟩ := h
  have hmap : rows.map key = order.map key' := by
    clear hperm
    induction hall with
    | nil => rfl
    | cons hr _ ih => rw [List.map_cons, List.map_cons, hkey _ _ hr, ih]
  rw [hmap]
  exact hperm.map key'

end Corresponds

/-! ## Tables -/

/-- A table: its rows, oldest first, and the next generated id. -/
structure Table (ρ : Type) where
  rows : List ρ
  nextId : Nat

namespace Table

/-- Add a row under the next id. -/
def insert (t : Table ρ) (mk : Nat → ρ) : Table ρ :=
  ⟨t.rows ++ [mk t.nextId], t.nextId + 1⟩

/-- Delete the rows a query selects; ids are not reused. -/
def delete (t : Table ρ) (p : ρ → Bool) : Table ρ :=
  { t with rows := t.rows.filter fun r => !p r }

@[simp] theorem insert_rows (t : Table ρ) (mk : Nat → ρ) :
    (t.insert mk).rows = t.rows ++ [mk t.nextId] := rfl

@[simp] theorem insert_nextId (t : Table ρ) (mk : Nat → ρ) :
    (t.insert mk).nextId = t.nextId + 1 := rfl

@[simp] theorem delete_rows (t : Table ρ) (p : ρ → Bool) :
    (t.delete p).rows = t.rows.filter fun r => !p r := rfl

@[simp] theorem delete_nextId (t : Table ρ) (p : ρ → Bool) : (t.delete p).nextId = t.nextId :=
  rfl

/-- Every row's id was generated before, and no two rows share one. -/
structure Fresh (id : ρ → Nat) (t : Table ρ) : Prop where
  lt_nextId : ∀ r ∈ t.rows, id r < t.nextId
  unique : Unique id t.rows

theorem Fresh.insert {id : ρ → Nat} {t : Table ρ} (h : Fresh id t) {mk : Nat → ρ}
    (hmk : ∀ n, id (mk n) = n) : Fresh id (t.insert mk) where
  lt_nextId r hr := by
    rw [insert_nextId]
    rcases List.mem_append.1 hr with hr | hr
    · exact (h.lt_nextId r hr).trans (Nat.lt_succ_self _)
    · rw [List.mem_singleton.1 hr, hmk]
      exact Nat.lt_succ_self _
  unique := by
    rw [Unique, insert_rows, List.map_append, List.map_singleton, hmk]
    refine List.nodup_append'.2 ⟨h.unique, List.nodup_singleton _, ?_⟩
    rw [List.disjoint_singleton]
    intro hmem
    obtain ⟨r, hr, hid⟩ := List.mem_map.1 hmem
    exact (h.lt_nextId r hr).ne hid

theorem Fresh.delete {id : ρ → Nat} {t : Table ρ} (h : Fresh id t) (p : ρ → Bool) :
    Fresh id (t.delete p) where
  lt_nextId r hr := h.lt_nextId r (List.mem_of_mem_filter hr)
  unique := h.unique.sublist List.filter_sublist

end Table

end Store
