import SqlGatekeeper.Store.Table

/-!
# Grouping by keys

Dictionaries as lists of entries in insertion order, and the three ways rows are collected in
them.

* `groupBy`: all rows of a key; `mem_groupBy`.
* `lastByKey`: the last row of each key; `mem_lastByKey`.
* `firstByKey`: the first row of each key; `mem_firstByKey`.
-/

namespace Store

variable {ρ κ α : Type} [DecidableEq κ]

/-! ## All rows of a key -/

/-- Add a row to the rows of a key; a new key goes to the end. -/
def groupAdd (key : κ) (row : ρ) : List (κ × List ρ) → List (κ × List ρ)
  | [] => [(key, [row])]
  | (k, rows) :: rest =>
      if k = key then (k, rows ++ [row]) :: rest else (k, rows) :: groupAdd key row rest

/-- The rows of each key. -/
def groupBy (key : ρ → κ) (rows : List ρ) : List (κ × List ρ) :=
  rows.foldl (fun groups row => groupAdd (key row) row groups) []

theorem groupBy_append_singleton (key : ρ → κ) (rows : List ρ) (row : ρ) :
    groupBy key (rows ++ [row]) = groupAdd (key row) row (groupBy key rows) := by
  rw [groupBy, List.foldl_append]
  rfl

theorem keys_groupAdd (key : κ) (row : ρ) (groups : List (κ × List ρ)) :
    (groupAdd key row groups).map Prod.fst =
      if key ∈ groups.map Prod.fst then groups.map Prod.fst
        else groups.map Prod.fst ++ [key] := by
  induction groups with
  | nil => rfl
  | cons g rest ih =>
    obtain ⟨k, rows⟩ := g
    by_cases hk : k = key
    · subst hk
      simp [groupAdd]
    · have hk' : key ≠ k := Ne.symm hk
      simp only [groupAdd, if_neg hk, List.map_cons, ih, List.mem_cons, hk', false_or]
      split <;> rfl

/-- The keys are distinct. -/
theorem nodup_keys_groupBy (key : ρ → κ) (rows : List ρ) :
    ((groupBy key rows).map Prod.fst).Nodup := by
  induction rows using List.reverseRecOn with
  | nil => exact List.nodup_nil
  | append_singleton rows row ih =>
    rw [groupBy_append_singleton, keys_groupAdd]
    split
    · exact ih
    · rename_i hmem
      exact List.nodup_append'.2 ⟨ih, List.nodup_singleton _, by simpa using hmem⟩

theorem mem_groupAdd {key k : κ} {row : ρ} {l : List ρ} {groups : List (κ × List ρ)}
    (hnodup : (groups.map Prod.fst).Nodup) :
    (k, l) ∈ groupAdd key row groups ↔
      (k ≠ key ∧ (k, l) ∈ groups) ∨
        (k = key ∧ ((∃ rows, (k, rows) ∈ groups ∧ l = rows ++ [row]) ∨
          (key ∉ groups.map Prod.fst ∧ l = [row]))) := by
  induction groups with
  | nil => simp [groupAdd]
  | cons g rest ih =>
    obtain ⟨k', rows⟩ := g
    rw [List.map_cons, List.nodup_cons] at hnodup
    by_cases hk : k' = key
    · subst hk
      have hrest : ∀ rows', (k', rows') ∉ rest := fun rows' h =>
        hnodup.1 (List.mem_map.2 ⟨_, h, rfl⟩)
      by_cases hkk : k = k'
      · subst hkk
        simp [groupAdd, hrest]
      · simp [groupAdd, hkk]
    · rw [groupAdd, if_neg hk, List.mem_cons, ih hnodup.2]
      by_cases hkk : k = key
      · subst hkk
        simp [Ne.symm hk]
      · simp [hkk]

/-- A key's rows are all rows that have the key, in order. -/
theorem mem_groupBy {key : ρ → κ} {rows l : List ρ} {k : κ} :
    (k, l) ∈ groupBy key rows ↔ l = rows.filter (fun r => decide (key r = k)) ∧ l ≠ [] := by
  induction rows using List.reverseRecOn generalizing l k with
  | nil =>
    simp only [groupBy, List.foldl_nil, List.not_mem_nil, List.filter_nil, false_iff, not_and,
      not_not]
    exact id
  | append_singleton rows row ih =>
    have hkey : key row ∈ (groupBy key rows).map Prod.fst ↔
        rows.filter (fun r => decide (key r = key row)) ≠ [] := by
      constructor
      · intro h
        obtain ⟨⟨k', l'⟩, hmem, rfl⟩ := List.mem_map.1 h
        obtain ⟨hl, hne⟩ := ih.1 hmem
        exact hl ▸ hne
      · exact fun h => List.mem_map.2 ⟨_, ih.2 ⟨rfl, h⟩, rfl⟩
    rw [groupBy_append_singleton, mem_groupAdd (nodup_keys_groupBy key rows), List.filter_append,
      hkey]
    by_cases hk : k = key row
    · subst hk
      simp only [ne_eq, not_true_eq_false, false_and, true_and, false_or, not_not]
      rw [List.filter_cons_of_pos (by simp), List.filter_nil]
      constructor
      · rintro (⟨rows', hmem, rfl⟩ | ⟨hnil, rfl⟩)
        · obtain ⟨rfl, -⟩ := ih.1 hmem
          exact ⟨rfl, by simp⟩
        · exact ⟨by rw [hnil]; rfl, by simp⟩
      · rintro ⟨rfl, -⟩
        by_cases hnil : rows.filter (fun r => decide (key r = key row)) = []
        · exact Or.inr ⟨hnil, by rw [hnil]; rfl⟩
        · exact Or.inl ⟨_, ih.2 ⟨rfl, hnil⟩, rfl⟩
    · rw [List.filter_cons_of_neg (by simpa using Ne.symm hk), List.filter_nil,
        List.append_nil, ← ih]
      simp [hk]

theorem sum_length_groupAdd (key : κ) (row : ρ) (groups : List (κ × List ρ)) :
    ((groupAdd key row groups).map fun g => g.2.length).sum =
      (groups.map fun g => g.2.length).sum + 1 := by
  induction groups with
  | nil => rfl
  | cons g rest ih =>
    obtain ⟨k, rows⟩ := g
    rw [groupAdd]
    split
    · simp only [List.map_cons, List.sum_cons, List.length_append, List.length_singleton]
      omega
    · simp only [List.map_cons, List.sum_cons, ih]
      omega

/-- Every row is in one group. -/
theorem sum_length_groupBy (key : ρ → κ) (rows : List ρ) :
    ((groupBy key rows).map fun g => g.2.length).sum = rows.length := by
  induction rows using List.reverseRecOn with
  | nil => rfl
  | append_singleton rows row ih =>
    rw [groupBy_append_singleton, sum_length_groupAdd, ih, List.length_append,
      List.length_singleton]

/-! ## The last row of a key -/

/-- Set the value of a key; a new key goes to the end. -/
def assocSet (key : κ) (value : α) : List (κ × α) → List (κ × α)
  | [] => [(key, value)]
  | (k, v) :: rest => if k = key then (key, value) :: rest else (k, v) :: assocSet key value rest

/-- The last row of each key. -/
def lastByKey (key : ρ → κ) (rows : List ρ) : List ρ :=
  (rows.foldl (fun entries row => assocSet (key row) row entries) []).map Prod.snd

/-- No later row has the key of this one. -/
def IsLast (key : ρ → κ) (rows : List ρ) (row : ρ) : Prop :=
  ∃ before behind, rows = before ++ row :: behind ∧ ∀ s ∈ behind, key s ≠ key row

theorem keys_assocSet (key : κ) (value : α) (entries : List (κ × α)) :
    (assocSet key value entries).map Prod.fst =
      if key ∈ entries.map Prod.fst then entries.map Prod.fst
      else entries.map Prod.fst ++ [key] := by
  induction entries with
  | nil => rfl
  | cons e rest ih =>
    obtain ⟨k, v⟩ := e
    by_cases hk : k = key
    · subst hk
      simp [assocSet]
    · have hk' : key ≠ k := Ne.symm hk
      simp only [assocSet, if_neg hk, List.map_cons, ih, List.mem_cons, hk', false_or]
      split <;> rfl

theorem mem_assocSet {key k : κ} {value v : α} {entries : List (κ × α)}
    (hnodup : (entries.map Prod.fst).Nodup) :
    (k, v) ∈ assocSet key value entries ↔
      (k = key ∧ v = value) ∨ (k ≠ key ∧ (k, v) ∈ entries) := by
  induction entries with
  | nil => simp [assocSet]
  | cons e rest ih =>
    obtain ⟨k', v'⟩ := e
    rw [List.map_cons, List.nodup_cons] at hnodup
    by_cases hk : k' = key
    · subst hk
      have hrest : ∀ w, (k', w) ∉ rest := fun w h => hnodup.1 (List.mem_map.2 ⟨_, h, rfl⟩)
      by_cases hkk : k = k'
      · subst hkk
        simp [assocSet, hrest]
      · simp [assocSet, hkk]
    · rw [assocSet, if_neg hk, List.mem_cons, ih hnodup.2]
      by_cases hkk : k = key
      · subst hkk
        simp [Ne.symm hk]
      · simp [hkk]

omit [DecidableEq κ] in
theorem isLast_append_singleton {key : ρ → κ} {rows : List ρ} {row s : ρ} :
    IsLast key (rows ++ [row]) s ↔ s = row ∨ (key s ≠ key row ∧ IsLast key rows s) := by
  constructor
  · rintro ⟨before, behind, h, hbehind⟩
    rcases List.eq_nil_or_concat behind with rfl | ⟨behind, t, rfl⟩
    · have := List.append_inj' h rfl
      simp only [List.cons.injEq, and_true] at this
      exact Or.inl this.2.symm
    · rw [List.concat_eq_append, ← List.cons_append, ← List.append_assoc] at h
      obtain ⟨hrows, hrow⟩ := List.append_inj' h rfl
      simp only [List.cons.injEq, and_true] at hrow
      subst hrow
      rw [List.concat_eq_append, List.forall_mem_append] at hbehind
      exact Or.inr ⟨fun hk => hbehind.2 row (List.mem_singleton_self _) hk.symm, before, behind,
        hrows, hbehind.1⟩
  · rintro (rfl | ⟨hk, before, behind, rfl, hbehind⟩)
    · exact ⟨rows, [], rfl, by simp⟩
    · refine ⟨before, behind ++ [row], by simp, List.forall_mem_append.2 ⟨hbehind, ?_⟩⟩
      exact List.forall_mem_singleton.2 fun h => hk h.symm

/-- The entries of the dictionary that keeps the last row of each key. -/
theorem lastEntries_spec (key : ρ → κ) (rows : List ρ) :
    ((rows.foldl (fun entries row => assocSet (key row) row entries) []).map Prod.fst).Nodup ∧
      ∀ k r, (k, r) ∈ rows.foldl (fun entries row => assocSet (key row) row entries) [] ↔
        k = key r ∧ IsLast key rows r := by
  induction rows using List.reverseRecOn with
  | nil =>
    refine ⟨List.nodup_nil, fun k r => iff_of_false (by simp) ?_⟩
    rintro ⟨-, before, behind, h, -⟩
    exact absurd h (by simp)
  | append_singleton rows row ih =>
    obtain ⟨hnodup, hmem⟩ := ih
    rw [List.foldl_append, List.foldl_cons, List.foldl_nil]
    refine ⟨?_, fun k r => ?_⟩
    · rw [keys_assocSet]
      split
      · exact hnodup
      · rename_i hnot
        exact List.nodup_append'.2 ⟨hnodup, List.nodup_singleton _, by simpa using hnot⟩
    · rw [mem_assocSet hnodup, hmem, isLast_append_singleton]
      constructor
      · rintro (⟨rfl, rfl⟩ | ⟨hk, rfl, hlast⟩)
        · exact ⟨rfl, Or.inl rfl⟩
        · exact ⟨rfl, Or.inr ⟨hk, hlast⟩⟩
      · rintro ⟨rfl, rfl | ⟨hk, hlast⟩⟩
        · exact Or.inl ⟨rfl, rfl⟩
        · exact Or.inr ⟨hk, rfl, hlast⟩

/-- The rows that no later row replaces. -/
theorem mem_lastByKey {key : ρ → κ} {rows : List ρ} {r : ρ} :
    r ∈ lastByKey key rows ↔ IsLast key rows r := by
  rw [lastByKey, List.mem_map]
  constructor
  · rintro ⟨⟨k, s⟩, hmem, rfl⟩
    exact (((lastEntries_spec key rows).2 k s).1 hmem).2
  · exact fun h => ⟨(key r, r), ((lastEntries_spec key rows).2 _ _).2 ⟨rfl, h⟩, rfl⟩

theorem unique_lastByKey (key : ρ → κ) (rows : List ρ) : Unique key (lastByKey key rows) := by
  obtain ⟨hnodup, hmem⟩ := lastEntries_spec key rows
  rw [Unique, lastByKey, List.map_map]
  refine (List.map_congr_left fun e he => ?_) ▸ hnodup
  exact ((hmem e.1 e.2).1 he).1

omit [DecidableEq κ] in
theorem IsLast.mem {key : ρ → κ} {rows : List ρ} {r : ρ}
    (h : IsLast key rows r) : r ∈ rows := by
  obtain ⟨before, behind, rfl, -⟩ := h
  simp

/-- Every key is kept by one row. -/
theorem exists_isLast (key : ρ → κ) {rows : List ρ} {r : ρ} (hr : r ∈ rows) :
    ∃ s, IsLast key rows s ∧ key s = key r := by
  induction rows using List.reverseRecOn with
  | nil => exact absurd hr (by simp)
  | append_singleton rows row ih =>
    by_cases hk : key row = key r
    · exact ⟨row, isLast_append_singleton.2 (Or.inl rfl), hk⟩
    · rcases List.mem_append.1 hr with hr | hr
      · obtain ⟨s, hs, hsk⟩ := ih hr
        exact ⟨s, isLast_append_singleton.2 (Or.inr ⟨fun h => hk (h ▸ hsk), hs⟩), hsk⟩
      · exact absurd (by rw [List.mem_singleton.1 hr]) hk

/-! ## The first row of a key -/

/-- The first row of each key. -/
def firstByKey (key : ρ → κ) (rows : List ρ) : List ρ :=
  rows.foldl (fun kept row => if key row ∈ kept.map key then kept else kept ++ [row]) []

theorem firstByKey_append_singleton (key : ρ → κ) (rows : List ρ) (row : ρ) :
    firstByKey key (rows ++ [row]) =
      if key row ∈ (firstByKey key rows).map key then firstByKey key rows
      else firstByKey key rows ++ [row] := by
  rw [firstByKey, List.foldl_append]
  rfl

/-- No earlier row has the key of this one. -/
def IsFirst (key : ρ → κ) (rows : List ρ) (row : ρ) : Prop :=
  ∃ before behind, rows = before ++ row :: behind ∧ ∀ s ∈ before, key s ≠ key row

omit [DecidableEq κ] in
theorem isFirst_append_singleton {key : ρ → κ} {rows : List ρ} {row r : ρ} :
    IsFirst key (rows ++ [row]) r ↔
      IsFirst key rows r ∨ (r = row ∧ ∀ s ∈ rows, key s ≠ key row) := by
  constructor
  · rintro ⟨before, behind, h, hbefore⟩
    rcases List.eq_nil_or_concat behind with rfl | ⟨behind, t, rfl⟩
    · obtain ⟨rfl, hrow⟩ := List.append_inj' h rfl
      simp only [List.cons.injEq, and_true] at hrow
      subst hrow
      exact Or.inr ⟨rfl, hbefore⟩
    · rw [List.concat_eq_append, ← List.cons_append, ← List.append_assoc] at h
      exact Or.inl ⟨before, behind, (List.append_inj' h rfl).1, hbefore⟩
  · rintro (⟨before, behind, rfl, hbefore⟩ | ⟨rfl, hbefore⟩)
    · exact ⟨before, behind ++ [row], by simp, hbefore⟩
    · exact ⟨rows, [], rfl, hbefore⟩

theorem mem_keys_firstByKey {key : ρ → κ} {rows : List ρ} {k : κ} :
    k ∈ (firstByKey key rows).map key ↔ ∃ s ∈ rows, key s = k := by
  induction rows using List.reverseRecOn generalizing k with
  | nil => simp [firstByKey]
  | append_singleton rows row ih =>
    rw [firstByKey_append_singleton]
    split
    · rename_i hmem
      rw [ih]
      constructor
      · rintro ⟨s, hs, rfl⟩
        exact ⟨s, List.mem_append_left _ hs, rfl⟩
      · rintro ⟨s, hs, rfl⟩
        rcases List.mem_append.1 hs with hs | hs
        · exact ⟨s, hs, rfl⟩
        · rw [List.mem_singleton.1 hs]
          exact ih.1 hmem
    · rw [List.map_append, List.mem_append, ih, List.map_singleton, List.mem_singleton]
      simp only [List.mem_append, List.mem_singleton, or_and_right, exists_or, exists_eq_left]
      rw [eq_comm (a := k)]

/-- The first rows are those that no earlier row keeps out. -/
theorem mem_firstByKey {key : ρ → κ} {rows : List ρ} {r : ρ} :
    r ∈ firstByKey key rows ↔ IsFirst key rows r := by
  induction rows using List.reverseRecOn with
  | nil =>
    refine iff_of_false (by simp [firstByKey]) ?_
    rintro ⟨before, behind, h, -⟩
    exact absurd h (by simp)
  | append_singleton rows row ih =>
    rw [firstByKey_append_singleton, isFirst_append_singleton, ← ih]
    split
    · rename_i hmem
      obtain ⟨s, hs, hk⟩ := mem_keys_firstByKey.1 hmem
      exact ⟨Or.inl, fun h => h.resolve_right fun h => h.2 s hs hk⟩
    · rename_i hnot
      rw [List.mem_append, List.mem_singleton]
      exact or_congr_right (iff_self_and.2 fun _ s hs hk =>
        hnot (mem_keys_firstByKey.2 ⟨s, hs, hk⟩))

omit [DecidableEq κ] in
theorem IsFirst.append_right {key : ρ → κ} {rows : List ρ} {r : ρ} (h : IsFirst key rows r)
    (behind : List ρ) : IsFirst key (rows ++ behind) r := by
  obtain ⟨before, rest, rfl, hbefore⟩ := h
  exact ⟨before, rest ++ behind, by simp, hbefore⟩

omit [DecidableEq κ] in
theorem IsFirst.append_left {key : ρ → κ} {rows : List ρ} {r : ρ} (h : IsFirst key rows r)
    {before : List ρ} (hbefore : ∀ s ∈ before, key s ≠ key r) : IsFirst key
    (before ++ rows) r := by
  obtain ⟨start, rest, rfl, hstart⟩ := h
  exact ⟨before ++ start, rest, by simp, List.forall_mem_append.2 ⟨hbefore, hstart⟩⟩

omit [DecidableEq κ] in
/-- The first row of a key among rows that come from a list of sources: none of the sources before
its own gives a row of the key. -/
theorem IsFirst.exists_source {σ : Type} {key : ρ → κ} {f : σ → List ρ} {l : List σ}
    {r : ρ} (h : IsFirst key (l.flatMap f) r) :
    ∃ before x behind, l = before ++ x :: behind ∧ r ∈ f x ∧
      ∀ s ∈ before, ∀ c ∈ f s, key c ≠ key r := by
  induction l with
  | nil =>
    obtain ⟨before, behind, h, -⟩ := h
    exact absurd h (by simp)
  | cons x l ih =>
    obtain ⟨before, behind, heq, hbefore⟩ := h
    rw [List.flatMap_cons] at heq
    rcases List.append_eq_append_iff.1 heq with ⟨rest, hb, hl⟩ | ⟨rest, hx, hr⟩
    · rw [hb, List.forall_mem_append] at hbefore
      obtain ⟨start, y, more, rfl, hy, hstart⟩ := ih ⟨rest, behind, hl, hbefore.2⟩
      exact ⟨x :: start, y, more, rfl, hy, List.forall_mem_cons.2 ⟨hbefore.1, hstart⟩⟩
    · cases rest with
      | nil =>
        rw [List.nil_append] at hr
        obtain ⟨start, y, more, rfl, hy, hstart⟩ := ih ⟨[], behind, hr.symm, by simp⟩
        rw [List.append_nil] at hx
        refine ⟨x :: start, y, more, rfl, hy, List.forall_mem_cons.2 ⟨?_, hstart⟩⟩
        rw [hx]
        exact hbefore
      | cons z rest =>
        injection hr with hz _
        exact ⟨[], x, l, rfl, by rw [hx, hz]; simp, by simp⟩

theorem unique_firstByKey (key : ρ → κ) (rows : List ρ) : Unique key
    (firstByKey key rows) := by
  induction rows using List.reverseRecOn with
  | nil => exact List.nodup_nil
  | append_singleton rows row ih =>
    rw [firstByKey_append_singleton]
    split
    · exact ih
    · rename_i hnot
      rw [Unique, List.map_append]
      exact List.nodup_append'.2 ⟨ih, List.nodup_singleton _, by simpa using hnot⟩

end Store
