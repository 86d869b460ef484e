import SqlGatekeeper.Tools.SpyTableConfigSync

/-!
# Generated names

`make_stable_identifier` under any digest of eight hexadecimal digits.

* `Digest`: such a digest; `sha1Digest`: the one that the importer takes.
* `normalizedName`, `keptName`: the name before it is cut, and what is kept of it.
* `Bare`: a text that is not empty and has no underscore at its ends.
* `stableIdentifier_shape`: how a generated name is made up, and how long it gets.
-/

namespace SqlGatekeeper

open Py

/-! ## Digests -/

/-- A hexadecimal digit, as `hexdigest` writes it. -/
def isHexDigit (c : Char) : Bool := c.isDigit || (97 ≤ c.toNat && c.toNat ≤ 102)

/-- A digest of eight hexadecimal digits. -/
structure Digest where
  text : Str → Str
  length_text : ∀ raw, (text raw).length = 8
  hex : ∀ raw, ∀ c ∈ text raw, isHexDigit c = true

theorem length_bigEndian (bytes n : Nat) : (bigEndian bytes n).length = bytes := by
  induction bytes generalizing n with
  | zero => rfl
  | succ bytes ih => rw [bigEndian, List.length_append, ih, List.length_singleton]

theorem lt_of_mem_bigEndian {bytes n k : Nat} (h : k ∈ bigEndian bytes n) : k < 256 := by
  induction bytes generalizing n with
  | zero => exact absurd h List.not_mem_nil
  | succ bytes ih =>
    rcases List.mem_append.1 h with h | h
    · exact ih h
    · rw [List.mem_singleton.1 h]
      exact Nat.mod_lt _ (by decide)

theorem isHexDigit_digitChar {n : Nat} (h : n < 16) : isHexDigit (Nat.digitChar n) = true := by
  have hall : ∀ k < 16, isHexDigit (Nat.digitChar k) = true := by decide
  exact hall n h

theorem length_hexWord (w : Word) : (hexWord w).length = 8 := by
  rw [hexWord, List.length_flatMap]
  simp [length_bigEndian]

theorem isHexDigit_hexWord (w : Word) : ∀ c ∈ hexWord w, isHexDigit c = true := by
  intro c hc
  obtain ⟨k, hk, hc⟩ := List.mem_flatMap.1 hc
  have hlt := lt_of_mem_bigEndian hk
  rcases List.mem_cons.1 hc with rfl | hc
  · exact isHexDigit_digitChar (by omega)
  · rw [List.mem_singleton.1 hc]
    exact isHexDigit_digitChar (by omega)

/-- The first digits of SHA-1 are those of its first word. -/
theorem exists_sha1Hex (raw : Str) : ∃ w : Word, (sha1Hex raw).take 8 = hexWord w := by
  have hfirst : ∀ a b c d e : Word,
      (hexWord a ++ hexWord b ++ hexWord c ++ hexWord d ++ hexWord e).take 8 = hexWord a := by
    intro a b c d e
    rw [List.append_assoc, List.append_assoc, List.append_assoc, List.take_left' (length_hexWord a)]
  exact ⟨_, hfirst _ _ _ _ _⟩

/-- `hashlib.sha1(raw.encode("utf-8")).hexdigest()[:8]`. -/
def sha1Digest : Digest where
  text raw := (sha1Hex raw).take 8
  length_text raw := by
    obtain ⟨w, hw⟩ := exists_sha1Hex raw
    rw [hw, length_hexWord]
  hex raw := by
    obtain ⟨w, hw⟩ := exists_sha1Hex raw
    rw [hw]
    exact isHexDigit_hexWord w

/-! ## The name under a digest -/

section Names

variable (U : UnicodeData)

/-- `base`: the name in lower case, with underscores for what is no letter or digit. -/
def normalizedName (raw : Str) : Str :=
  orText (stripChar '_' (raw.flatMap fun ch => if U.isAlnum ch then lower U [ch]
    else ['_'])) "unknown"

variable (digest : Digest) (raw pre : Str) (maxLength : Nat)

/-- What a name keeps of its base: all, or so much that the digest fits behind it. -/
def keptName : Str :=
  if (pre ++ normalizedName U raw).length ≤ maxLength then normalizedName U raw
  else
    let available : Int := maxLength - pre.length - (digest.text raw).length - 1
    rstripChar '_' ((normalizedName U raw).take (max 1 available).toNat)

/-- `make_stable_identifier` under a digest. -/
def stableIdentifier : Str :=
  if (pre ++ normalizedName U raw).length ≤ maxLength then pre ++
    keptName U digest raw pre maxLength
  else pre ++ keptName U digest raw pre maxLength ++ '_' :: digest.text raw

/-- The importer names with SHA-1. -/
theorem makeStableIdentifier_eq :
    makeStableIdentifier U raw pre maxLength = stableIdentifier U sha1Digest raw pre maxLength := by
  rw [stableIdentifier, keptName]
  split
  · rename_i hfits
    rw [makeStableIdentifier]
    exact if_pos hfits
  · rename_i hlong
    rw [makeStableIdentifier]
    exact if_neg hlong

end Names

/-! ## Texts without underscores at their ends -/

/-- A text that is not empty and neither starts nor ends with an underscore. -/
structure Bare (s : Str) : Prop where
  ne_nil : s ≠ []
  head : s.head? ≠ some '_'
  last : s.getLast? ≠ some '_'

theorem rstripChar_isPrefix (d : Char) (s : Str) : rstripChar d s <+: s :=
  List.rdropWhile_prefix (· == d) s

theorem getLast?_rstripChar (d : Char) (s : Str) : (rstripChar d s).getLast? ≠ some d := by
  intro h
  rw [rstripChar, List.getLast?_reverse] at h
  have hnot := List.head?_dropWhile_not (· == d) s.reverse
  rw [h] at hnot
  simp at hnot

/-- A text keeps its start when characters of another kind are stripped off its end. -/
theorem head?_rstripChar {c d : Char} (hcd : c ≠ d) (s : Str) :
    (rstripChar d (c :: s)).head? = some c := by
  rw [rstripChar, List.reverse_cons, List.dropWhile_append, List.head?_reverse]
  split
  · rw [List.dropWhile_cons_of_neg (by simpa using hcd)]
    rfl
  · exact List.getLast?_concat

theorem head?_stripChar (d : Char) (s : Str) : (stripChar d s).head? ≠ some d := by
  rw [stripChar]
  cases hs : s.dropWhile (· == d) with
  | nil => exact Option.some_ne_none d ∘ Eq.symm
  | cons c t =>
    have hcd : c ≠ d := by
      have hnot := List.head?_dropWhile_not (· == d) s
      rw [hs] at hnot
      simpa using hnot
    rw [head?_rstripChar hcd]
    exact fun h => hcd (Option.some.inj h)

theorem bare_normalizedName (U : UnicodeData) (raw : Str) : Bare (normalizedName U raw) := by
  rw [normalizedName, orText]
  split
  · exact ⟨by decide, by decide, by decide⟩
  · rename_i hne
    exact ⟨hne, head?_stripChar _ _, getLast?_rstripChar _ _⟩

/-- A bare text that is cut, without the underscores at the cut. -/
theorem Bare.cut {s : Str} (hs : Bare s) {k : Nat} (hk : 0 < k) : Bare
    (rstripChar '_' (s.take k)) := by
  obtain ⟨c, t, rfl⟩ := List.exists_cons_of_ne_nil hs.ne_nil
  obtain ⟨k, rfl⟩ : ∃ n, k = n + 1 := ⟨k - 1, by omega⟩
  have hc : c ≠ '_' := fun h => hs.head (by rw [h]; rfl)
  have hhead := head?_rstripChar hc (t.take k)
  refine ⟨fun h => ?_, fun h => ?_, getLast?_rstripChar _ _⟩
  · rw [List.take_succ_cons] at h
    rw [h] at hhead
    exact absurd hhead (by simp)
  · rw [List.take_succ_cons, hhead] at h
    exact hc (Option.some.inj h)

theorem Bare.append {s t : Str} (hs : Bare s) (ht : Bare t) : Bare (s ++ '_' :: t) := by
  refine ⟨by simp, fun h => hs.head ?_, fun h => ht.last ?_⟩
  · rwa [List.head?_append_of_ne_nil _ hs.ne_nil] at h
  · rwa [List.getLast?_append_of_ne_nil _ (List.cons_ne_nil _ _),
      List.getLast?_cons_of_ne_nil ht.ne_nil] at h

theorem Digest.ne_nil (digest : Digest) (raw : Str) : digest.text raw ≠ [] := by
  intro h
  have hlength := digest.length_text raw
  rw [h] at hlength
  exact absurd hlength (by decide)

theorem bare_digest (digest : Digest) (raw : Str) : Bare (digest.text raw) := by
  have hnot : '_' ∉ digest.text raw := fun h => absurd (digest.hex raw _ h) (by decide)
  exact ⟨digest.ne_nil raw, fun h => hnot (List.mem_of_head? h), fun h =>
    hnot (List.mem_of_getLast? h)⟩

/-! ## The shape of a name -/

section Shape

variable (U : UnicodeData) (digest : Digest) (raw pre : Str) (maxLength : Nat)

theorem bare_keptName : Bare (keptName U digest raw pre maxLength) := by
  rw [keptName]
  split
  · exact bare_normalizedName U raw
  · exact (bare_normalizedName U raw).cut (by omega)

/-- The digest fits behind what is kept of a long name. -/
theorem length_keptName_le {digest : Digest} {raw pre : Str} {maxLength : Nat}
    (h : pre.length + 10 ≤ maxLength)
    (hlong : ¬ (pre ++ normalizedName U raw).length ≤ maxLength) :
    pre.length + (keptName U digest raw pre maxLength).length + 9 ≤ maxLength := by
  set available : Int := maxLength - pre.length - (digest.text raw).length - 1 with havailable
  have hkept : keptName U digest raw pre maxLength =
      rstripChar '_' ((normalizedName U raw).take (max 1 available).toNat) := if_neg hlong
  have hle :=
    (rstripChar_isPrefix '_' ((normalizedName U raw).take (max 1 available).toNat)).length_le
  have htake := List.length_take_le (max 1 available).toNat (normalizedName U raw)
  rw [digest.length_text] at havailable
  rw [hkept]
  omega

/-- A generated name is its prefix and a bare text, no longer than it may be: the whole normalised
name where that fits, otherwise a text that ends in the digest. -/
theorem stableIdentifier_shape (h : pre.length + 10 ≤ maxLength) :
    ∃ rest, stableIdentifier U digest raw pre maxLength = pre ++ rest ∧
      (pre ++ rest).length ≤ maxLength ∧ Bare rest ∧
      if (pre ++ normalizedName U raw).length ≤ maxLength then rest = normalizedName U raw
      else ('_' :: digest.text raw) <:+ rest := by
  rw [stableIdentifier]
  split
  · rename_i hfits
    have hkept : keptName U digest raw pre maxLength = normalizedName U raw := if_pos hfits
    exact ⟨_, by rw [hkept], hfits, bare_normalizedName U raw, rfl⟩
  · rename_i hlong
    refine ⟨_, List.append_assoc _ _ _, ?_,
      (bare_keptName U digest raw pre maxLength).append (bare_digest digest raw),
      List.suffix_append _ _⟩
    have hlength : pre.length + (keptName U digest raw pre maxLength).length + 9 ≤ maxLength :=
      length_keptName_le U h hlong
    rw [List.length_append, List.length_append, List.length_cons, digest.length_text]
    omega

end Shape

/-- A source whose name is too long for a code. -/
def longSource : Str := "Yanyin-TestDB of the orders that were shipped before the year 2020"

/-- Its code is cut, and ends in the digest of the name. -/
theorem stableIdentifier_shape_code :
    makeStableIdentifier asciiData longSource "spy_src_" 64 =
      "spy_src_yanyin_testdb_of_the_orders_that_were_shipped_b_fd57a65e" ∧
    ∃ rest, makeStableIdentifier asciiData longSource "spy_src_" 64 = "spy_src_" ++ rest ∧
      (("spy_src_" : Str) ++ rest).length ≤ 64 ∧ Bare rest ∧
      ('_' :: sha1Digest.text longSource) <:+ rest := by
  refine ⟨by decide +kernel, ?_⟩
  rw [makeStableIdentifier_eq]
  obtain ⟨rest, heq, hlength, hbare, hrest⟩ :=
    stableIdentifier_shape asciiData sha1Digest longSource "spy_src_" 64 (by decide)
  rw [if_neg (by decide +kernel)] at hrest
  exact ⟨rest, heq, hlength, hbare, hrest⟩

end SqlGatekeeper
