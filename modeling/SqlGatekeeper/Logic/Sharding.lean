import Mathlib

/-!
# Relations in fragments

A relation that is cut into fragments by a key of its rows, and queries that read one fragment
for each reference to a relation where the whole relation is meant.

* `product`: the tuples with one row from each list; `Limited`: what a `limit` may leave of rows.
* `Scheme`: how relations are cut; `Scheme.Placed`: every row lives where its key says.
* `Scheme.Covers`: what a condition asks for lives in the chosen fragments.
* `filter_product_eq`: then reading the fragments is reading the whole.
* `covers_iff`: and only then, if every placed store is to be read rightly.
-/

namespace Sharding

/-! ## Tuples -/

section Tuples

variable {ρ : Type}

/-- The tuples with one row from each list. -/
def product : List (List ρ) → List (List ρ)
  | [] => [[]]
  | rows :: rest => rows.flatMap fun r => (product rest).map (r :: ·)

theorem product_singleton (rows : List ρ) : product [rows] = rows.map fun row => [row] :=
  List.map_eq_flatMap.symm

theorem mem_product_iff {lists : List (List ρ)} {tuple : List ρ} :
    tuple ∈ product lists ↔ List.Forall₂ (fun r rows => r ∈ rows) tuple lists := by
  induction lists generalizing tuple with
  | nil => simp [product]
  | cons rows rest ih =>
    unfold product
    cases tuple with
    | nil => simp
    | cons r tuple => simp [ih]

theorem filter_product_cons (p : List ρ → Bool) (rows : List ρ) (rest : List (List ρ)) :
    (product (rows :: rest)).filter p =
      rows.flatMap fun r => ((product rest).filter fun tuple => p (r :: tuple)).map (r :: ·) := by
  rw [product, List.filter_flatMap]
  simp only [List.filter_map, Function.comp_def]

/-- What a `limit` may leave: some of the rows, and as many as there are up to the limit. -/
def Limited (limit : Nat) (rows answer : List ρ) : Prop :=
  answer.Subperm rows ∧ answer.length = min limit rows.length

theorem Limited.perm {limit : Nat} {rows rows' answer : List ρ} (h : Limited limit rows answer)
    (hperm : rows.Perm rows') : Limited limit rows' answer :=
  ⟨h.1.trans hperm.subperm, by rw [h.2, hperm.length_eq]⟩

/-- Every row may be among those that are left. -/
theorem exists_limited {limit : Nat} {rows : List ρ} {r : ρ} (hlimit : 0 < limit)
    (hr : r ∈ rows) :
    ∃ answer, Limited limit rows answer ∧ r ∈ answer := by
  obtain ⟨before, after, rfl⟩ := List.append_of_mem hr
  have hperm : (r :: (before ++ after)).Perm (before ++ r :: after) := List.perm_middle.symm
  refine ⟨(r :: (before ++ after)).take limit, ⟨?_, ?_⟩, ?_⟩
  · exact (List.take_sublist _ _).subperm.trans hperm.subperm
  · rw [List.length_take, hperm.length_eq]
  · obtain ⟨n, rfl⟩ : ∃ n, limit = n + 1 := ⟨limit - 1, by omega⟩
    rw [List.take_succ_cons]
    exact List.mem_cons_self

end Tuples

/-! ## Schemes -/

/-- How relations are cut: the keys of their fragments, and the key of a row. -/
structure Scheme (ι κ ρ : Type) where
  keys : ι → List κ
  key : ι → ρ → κ
  nodup : ∀ i, (keys i).Nodup

namespace Scheme

variable {ι κ ρ : Type} (S : Scheme ι κ ρ)

/-- Every row of a relation lives in the fragment of its key. -/
def Placed (store : ι → κ → List ρ) (i : ι) : Prop :=
  ∀ v ∈ S.keys i, ∀ r ∈ store i v, S.key i r = v

/-- A relation, all fragments together. -/
def whole (store : ι → κ → List ρ) (i : ι) : List ρ := (S.keys i).flatMap (store i)

/-- The tuples that are meant: a reference stands for the whole relation. -/
def meant (store : ι → κ → List ρ) (choice : List (ι × κ)) : List (List ρ) :=
  product (choice.map fun c => S.whole store c.1)

/-- A tuple of rows that have a fragment. -/
def Fits (choice : List (ι × κ)) (tuple : List ρ) : Prop :=
  List.Forall₂ (fun r c => S.key c.1 r ∈ S.keys c.1) tuple choice

/-- Every tuple that a condition asks for lives in the chosen fragments. -/
def Covers (choice : List (ι × κ)) (p : List ρ → Bool) : Prop :=
  ∀ tuple, S.Fits choice tuple → p tuple = true →
    List.Forall₂ (fun r c => S.key c.1 r = c.2) tuple choice

end Scheme

/-- The tuples that are read: a reference stands for one fragment. -/
def chosen {ι κ ρ : Type} (store : ι → κ → List ρ) (choice : List (ι × κ)) : List
    (List ρ) :=
  product (choice.map fun c => store c.1 c.2)

section Reading

variable {ι κ ρ : Type} {S : Scheme ι κ ρ} {store : ι → κ → List ρ}
  {choice : List (ι × κ)}
  {p : List ρ → Bool}

theorem Scheme.Placed.key_mem {i : ι} (hplaced : S.Placed store i) {r : ρ}
    (hr : r ∈ S.whole store i) : S.key i r ∈ S.keys i := by
  obtain ⟨v, hv, hrv⟩ := List.mem_flatMap.1 hr
  rw [hplaced v hv r hrv]
  exact hv

/-- What is meant fits. -/
theorem fits_of_mem_meant (hplaced : ∀ c ∈ choice, S.Placed store c.1) {tuple : List ρ}
    (h : tuple ∈ S.meant store choice) : S.Fits choice tuple := by
  have hall := mem_product_iff.1 h
  rw [List.forall₂_map_right_iff] at hall
  have hboth : List.Forall₂ (fun r c => r ∈ S.whole store c.1 ∧ S.Placed store c.1)
      tuple choice :=
    List.forall₂_iff_zip.2 ⟨hall.length_eq, fun hmem =>
      ⟨(List.forall₂_iff_zip.1 hall).2 hmem, hplaced _ (List.of_mem_zip hmem).2⟩⟩
  exact hboth.imp fun r c hr => hr.2.key_mem hr.1

/-- A relation gives what one fragment gives, if the rows of the others give nothing. -/
theorem flatMap_whole {β : Type} {i : ι} {v : κ} (hplaced : S.Placed store i)
    (hv : v ∈ S.keys i) {f : ρ → List β}
    (hf : ∀ r ∈ S.whole store i, S.key i r ≠ v → f r = []) :
    (S.whole store i).flatMap f = (store i v).flatMap f := by
  have hothers : ∀ keys : List κ, (∀ w ∈ keys, w ∈ S.keys i ∧ w ≠ v) →
      keys.flatMap (fun w => (store i w).flatMap f) = [] := by
    intro keys hkeys
    rw [List.flatMap_eq_nil_iff]
    intro w hw
    obtain ⟨hmem, hne⟩ := hkeys w hw
    rw [List.flatMap_eq_nil_iff]
    intro r hr
    refine hf r (List.mem_flatMap.2 ⟨w, hmem, hr⟩) ?_
    rw [hplaced w hmem r hr]
    exact hne
  obtain ⟨before, after, hsplit⟩ := List.append_of_mem hv
  have hnodup := S.nodup i
  rw [hsplit, List.nodup_middle, List.nodup_cons] at hnodup
  have hother : ∀ w ∈ before ++ after, w ∈ S.keys i ∧ w ≠ v := by
    intro w hw
    refine ⟨?_, fun heq => hnodup.1 (heq ▸ hw)⟩
    rw [hsplit]
    simp only [List.mem_append, List.mem_cons] at hw ⊢
    tauto
  unfold Scheme.whole
  rw [List.flatMap_assoc, hsplit, List.flatMap_append, List.flatMap_cons,
    hothers before fun w hw => hother w (List.mem_append_left _ hw),
    hothers after fun w hw => hother w (List.mem_append_right _ hw), List.nil_append,
    List.append_nil]

/-- On a placed store, a condition that is covered reads the same in the chosen fragments as in the
whole relations. -/
theorem filter_product_eq (hplaced : ∀ c ∈ choice, S.Placed store c.1)
    (hchoice : ∀ c ∈ choice, c.2 ∈ S.keys c.1) (hcovers : S.Covers choice p) :
    (S.meant store choice).filter p = (chosen store choice).filter p := by
  -- Induction on the references; the row of the first one is moved into the condition.
  induction choice generalizing p with
  | nil => rfl
  | cons c choice ih =>
    obtain ⟨i, v⟩ := c
    have hi : S.Placed store i := hplaced (i, v) List.mem_cons_self
    have hv : v ∈ S.keys i := hchoice (i, v) List.mem_cons_self
    have hplaced' : ∀ c ∈ choice, S.Placed store c.1 := fun c hc =>
      hplaced c (List.mem_cons_of_mem _ hc)
    have hrest : ∀ r, S.key i r ∈ S.keys i →
        (S.meant store choice).filter (fun tuple => p (r :: tuple)) =
          (chosen store choice).filter fun tuple => p (r :: tuple) := by
      intro r hr
      refine ih hplaced' (fun c hc => hchoice c (List.mem_cons_of_mem _ hc)) ?_
      intro tuple hfits hp
      have hboth := hcovers (r :: tuple) (List.Forall₂.cons hr hfits) hp
      exact (List.forall₂_cons.1 hboth).2
    unfold Scheme.meant chosen
    rw [List.map_cons, List.map_cons, filter_product_cons, filter_product_cons]
    have hsame : (S.whole store i).flatMap (fun r =>
          ((S.meant store choice).filter fun tuple => p (r :: tuple)).map (r :: ·)) =
        (S.whole store i).flatMap fun r =>
          ((chosen store choice).filter fun tuple => p (r :: tuple)).map (r :: ·) := by
      refine List.flatMap_congr fun r hr => ?_
      rw [hrest r (hi.key_mem hr)]
    refine hsame.trans (flatMap_whole hi hv fun r hr hne => ?_)
    -- A row of another fragment is in no tuple that the condition asks for.
    rw [List.map_eq_nil_iff, ← hrest r (hi.key_mem hr), List.filter_eq_nil_iff]
    intro tuple htuple hp
    have hfits : S.Fits ((i, v) :: choice) (r :: tuple) :=
      List.Forall₂.cons (hi.key_mem hr) (fits_of_mem_meant hplaced' htuple)
    exact hne (List.forall₂_cons.1 (hcovers _ hfits hp)).1

/-- Among placed stores that can hold any tuple, the chosen fragments give the answers that the
whole relations give exactly if they cover the condition. -/
theorem covers_iff {limit : Nat} (hlimit : 0 < limit)
    (hchoice : ∀ c ∈ choice, c.2 ∈ S.keys c.1)
    {stores : (ι → κ → List ρ) → Prop}
    (hplaced : ∀ store, stores store → ∀ c ∈ choice, S.Placed store c.1)
    (hholds : ∀ tuple, S.Fits choice tuple → ∃ store, stores store ∧
      List.Forall₂ (fun r c => r ∈ store c.1 (S.key c.1 r)) tuple choice) :
    S.Covers choice p ↔ ∀ store, stores store → ∀ answer,
      Limited limit ((chosen store choice).filter p) answer ↔
        Limited limit ((S.meant store choice).filter p) answer := by
  constructor
  · intro hcovers store hstore answer
    rw [filter_product_eq (hplaced store hstore) hchoice hcovers]
  · intro h tuple hfits hp
    obtain ⟨store, hstore, hrows⟩ := hholds tuple hfits
    have hmeant : tuple ∈ S.meant store choice := by
      unfold Scheme.meant
      rw [mem_product_iff, List.forall₂_map_right_iff]
      refine List.forall₂_iff_zip.2 ⟨hfits.length_eq, fun hmem => ?_⟩
      exact List.mem_flatMap.2 ⟨_, (List.forall₂_iff_zip.1 hfits).2 hmem,
        (List.forall₂_iff_zip.1 hrows).2 hmem⟩
    obtain ⟨answer, hanswer, hin⟩ := exists_limited hlimit (List.mem_filter.2 ⟨hmeant, hp⟩)
    have hread := (h store hstore answer).2 hanswer
    have hchosen := (List.mem_filter.1 (hread.1.subset hin)).1
    unfold chosen at hchosen
    rw [mem_product_iff, List.forall₂_map_right_iff] at hchosen
    refine List.forall₂_iff_zip.2 ⟨hfits.length_eq, fun {r c} hmem => ?_⟩
    have hc := (List.of_mem_zip hmem).2
    exact hplaced store hstore c hc c.2 (hchoice c hc) r ((List.forall₂_iff_zip.1 hchosen).2 hmem)

end Reading

end Sharding
