import Mathlib

/-!
# Sorting permutations

* `pairwise_insertionSort_of`: sorting by a total and transitive relation sorts.
* `insertionSort_eq_of_perm`: lists that are permutations of each other are sorted to the same list,
  if no two of their elements tie.
-/

namespace Store

variable {ρ : Type} {r : ρ → ρ → Prop} [DecidableRel r] {rows rows' : List ρ}

theorem pairwise_insertionSort_of (htotal : ∀ a b, r a b ∨ r b a)
    (htrans : ∀ a b c, r a b → r b c → r a c) (rows : List ρ) :
    (rows.insertionSort r).Pairwise r := by
  have : Std.Total r := ⟨htotal⟩
  have : IsTrans ρ r := ⟨htrans⟩
  exact List.pairwise_insertionSort r rows

/-- Permutations are sorted alike where the order leaves no choice. -/
theorem insertionSort_eq_of_perm (htotal : ∀ a b, r a b ∨ r b a)
    (htrans : ∀ a b c, r a b → r b c → r a c) (h : rows.Perm rows')
    (hanti : ∀ a ∈ rows, ∀ b ∈ rows, r a b → r b a → a = b) :
    rows.insertionSort r = rows'.insertionSort r := by
  have hperm : (rows.insertionSort r).Perm (rows'.insertionSort r) :=
    (List.perm_insertionSort r rows).trans (h.trans (List.perm_insertionSort r rows').symm)
  refine List.Perm.eq_of_pairwise (fun a b ha hb => ?_)
    (pairwise_insertionSort_of htotal htrans rows)
    (pairwise_insertionSort_of htotal htrans rows') hperm
  have ha : a ∈ rows := (List.perm_insertionSort r rows).mem_iff.1 ha
  have hb : b ∈ rows := h.mem_iff.2 ((List.perm_insertionSort r rows').mem_iff.1 hb)
  exact hanti a ha b hb

end Store
