import Mathlib

/-!
# Python text

The part of Python's `str` and `int` the gatekeeper leans on, over lists of code
points.

* `Str`: a Python string that has an encoding, so without lone surrogates; positions are code
  point positions, as in Python.
* `UnicodeData`: the character tables behind `isalnum`, `isdecimal`, `lower`
  and `upper`.  They change from one Unicode version to the next (and with them
  from one interpreter to the next), so they are a parameter; the fields say what
  every version has in common.
* `strip`, `lower`, `intText`, `intOf`: the string operations.
-/

namespace Py

/-- A Python string, as its code points; surrogates, which have no UTF-8 encoding, are left out. -/
abbrev Str := List Char

instance : Coe String Str := ⟨String.toList⟩

instance : LawfulBEq Str := inferInstance

/-- The exceptions the modelled code raises itself or meets in what it calls. -/
inductive PyError where
  | valueError
  | typeError
  | nameError
  | syntaxError
  | zeroDivisionError
  | keyError
  | indexError
  | assertionError
  /-- SQLAlchemy: `scalar_one_or_none` saw more than one row. -/
  | multipleResultsFound
  /-- SQLAlchemy: a unique or foreign key constraint was violated. -/
  | integrityError
  /-- SQLAlchemy: a bind parameter of a `text()` statement has no value. -/
  | statementError
  /-- An error reply of a database or Redis server. -/
  | serverError (detail : Str)
  /-- Any other exception, by class name. -/
  | other (name : Str)
  deriving DecidableEq, Repr

/-! ## Whitespace -/

/-- `str.isspace` on one character; `\s` of `re` accepts the same characters. -/
def isSpace (c : Char) : Bool :=
  let n := c.toNat
  (9 ≤ n && n ≤ 13) || (28 ≤ n && n ≤ 32) || n == 0x85 || n == 0xA0 || n == 0x1680 ||
    (0x2000 ≤ n && n ≤ 0x200A) || n == 0x2028 || n == 0x2029 || n == 0x202F || n == 0x205F ||
    n == 0x3000

/-- `str.lstrip`. -/
def lstrip (s : Str) : Str := s.dropWhile isSpace

/-- `str.rstrip`. -/
def rstrip (s : Str) : Str := (s.reverse.dropWhile isSpace).reverse

/-- `str.strip`. -/
def strip (s : Str) : Str := rstrip (lstrip s)

/-- `str.rstrip(chars)` for a single character. -/
def rstripChar (d : Char) (s : Str) : Str := (s.reverse.dropWhile (· == d)).reverse

/-- `sep.join(parts)`. -/
def join (sep : Str) : List Str → Str
  | [] => []
  | [p] => p
  | p :: q :: ps => p ++ sep ++ join sep (q :: ps)

/-- `s.split(sep)` for a single character; never empty. -/
def splitOn (sep : Char) : Str → List Str
  | [] => [[]]
  | c :: cs =>
      if c = sep then [] :: splitOn sep cs
      else
        match splitOn sep cs with
        | [] => [[c]]
        | p :: ps => (c :: p) :: ps

/-- `s.startswith(p)`. -/
def startsWith (s p : Str) : Bool := p.isPrefixOf s

/-- `p in s` for strings. -/
def contains (s p : Str) : Bool :=
  match s with
  | [] => p.isEmpty
  | c :: cs => p.isPrefixOf (c :: cs) || contains cs p

/-- Stripped text does not start with whitespace. -/
theorem strip_head (s : Str) : ∀ c ∈ (strip s).head?, isSpace c = false := by
  intro c hc
  have hpre : strip s <+: lstrip s := by
    rw [strip, rstrip, ← List.reverse_suffix, List.reverse_reverse]
    exact List.dropWhile_suffix _
  obtain ⟨t, ht⟩ := hpre
  have hhead : (lstrip s).head? = some c := by
    rw [← ht, List.head?_append_of_ne_nil _ (by rintro h; simp [h] at hc)]
    exact hc
  have := List.head?_dropWhile_not isSpace s
  rw [lstrip] at hhead
  rw [hhead] at this
  simpa using this

/-! ## ASCII classes -/

theorem isDigit_iff {c : Char} : c.isDigit = true ↔ 48 ≤ c.toNat ∧ c.toNat ≤ 57 := by
  simp only [Char.isDigit, Bool.and_eq_true, decide_eq_true_eq, ge_iff_le, UInt32.le_iff_toNat_le]
  rfl

theorem isAlpha_iff {c : Char} : c.isAlpha = true ↔
    (65 ≤ c.toNat ∧ c.toNat ≤ 90) ∨ (97 ≤ c.toNat ∧ c.toNat ≤ 122) := by
  simp only [Char.isAlpha, Char.isUpper, Char.isLower, Bool.or_eq_true, Bool.and_eq_true,
    decide_eq_true_eq, ge_iff_le, UInt32.le_iff_toNat_le]
  rfl

theorem isAlphanum_iff {c : Char} : c.isAlphanum = true ↔
    (65 ≤ c.toNat ∧ c.toNat ≤ 90) ∨ (97 ≤ c.toNat ∧ c.toNat ≤ 122) ∨
      (48 ≤ c.toNat ∧ c.toNat ≤ 57) := by
  rw [Char.isAlphanum, Bool.or_eq_true, isAlpha_iff, isDigit_iff, or_assoc]

theorem isSpace_eq_false_of_isAlphanum {c : Char} (hc : c.isAlphanum = true) :
    isSpace c = false := by
  have := isAlphanum_iff.1 hc
  simp only [isSpace, Bool.or_eq_false_iff, Bool.and_eq_false_iff, decide_eq_false_iff_not,
    beq_eq_false_iff_ne]
  omega

/-! ## Identifiers -/

/-- The first character of an ASCII identifier. -/
def isNameStart (c : Char) : Bool := c.isAlpha || c == '_'

/-- A further character of an ASCII identifier. -/
def isNameChar (c : Char) : Bool := c.isAlphanum || c == '_'

/-- An ASCII identifier. -/
def isIdentifier : Str → Bool
  | [] => false
  | c :: cs => isNameStart c && cs.all isNameChar

theorem isIdentifier_cons {x : Str} (hx : isIdentifier x = true) :
    ∃ c cs, x = c :: cs ∧ isNameStart c = true ∧ ∀ d ∈ cs, isNameChar d = true := by
  cases x with
  | nil => exact absurd hx (by simp [isIdentifier])
  | cons c cs =>
    rw [isIdentifier, Bool.and_eq_true, List.all_eq_true] at hx
    exact ⟨c, cs, rfl, hx.1, hx.2⟩

/-! ## The character tables -/

/-- LATIN CAPITAL LETTER I WITH DOT ABOVE: its lowercase is `i` and a combining dot. -/
def dottedI : Char := Char.ofNat 0x130

/-- LATIN SMALL LETTER DOTLESS I: `re.IGNORECASE` matches it with `i`. -/
def dotlessI : Char := Char.ofNat 0x131

/-- LATIN SMALL LETTER LONG S: `re.IGNORECASE` matches it with `s`. -/
def longS : Char := Char.ofNat 0x17F

/-- KELVIN SIGN: its lowercase is `k`. -/
def kelvin : Char := Char.ofNat 0x212A

/-- GREEK CAPITAL LETTER SIGMA, the one letter whose lowercase depends on context. -/
def capitalSigma : Char := Char.ofNat 0x3A3

/-- The four letters outside ASCII that `re.IGNORECASE` adds to `[A-Za-z]`. -/
def asciiFolding : List Char := [dottedI, dotlessI, longS, kelvin]

/-- The Unicode character tables of an interpreter. -/
structure UnicodeData where
  /-- `str.isalnum` on one character. -/
  isAlnum : Char → Bool
  /-- `unicodedata.decimal`: the digit a decimal character stands for. -/
  decimal : Char → Option Nat
  /-- The full lowercase mapping of a character other than capital sigma. -/
  lowerChar : Char → Str
  /-- The full uppercase mapping of a character. -/
  upperChar : Char → Str
  /-- Is a capital sigma between these two texts in word-final position? -/
  finalSigma : Str → Str → Bool
  isAlnum_ascii : ∀ c : Char, c.toNat < 128 → isAlnum c = c.isAlphanum
  isAlnum_folding : ∀ c ∈ asciiFolding, isAlnum c = true
  isAlnum_of_decimal : ∀ c d, decimal c = some d → isAlnum c = true
  isAlnum_not_space : ∀ c, isAlnum c = true → isSpace c = false
  decimal_ascii : ∀ c : Char, c.toNat < 128 →
    decimal c = if c.isDigit then some (c.toNat - 48) else none
  decimal_folding : ∀ c ∈ asciiFolding, decimal c = none
  decimal_lt : ∀ c d, decimal c = some d → d < 10
  lowerChar_ascii : ∀ c : Char, c.toNat < 128 → lowerChar c = [c.toLower]
  lowerChar_dottedI : lowerChar dottedI = ['i', Char.ofNat 0x307]
  lowerChar_kelvin : lowerChar kelvin = ['k']
  lowerChar_ne_nil : ∀ c, lowerChar c ≠ []
  /-- No other character has ASCII in its lowercase. -/
  lowerChar_ascii_mem : ∀ c, ∀ d ∈ lowerChar c, d.toNat < 128 →
    c.toNat < 128 ∨ c = dottedI ∨ c = kelvin
  lowerChar_space_mem : ∀ c, ∀ d ∈ lowerChar c, isSpace d = true → isSpace c = true
  upperChar_ascii : ∀ c : Char, c.toNat < 128 → upperChar c = [c.toUpper]

/-! ## Letter case -/

/-- `str.lower`, with the text before the current character at hand. -/
def lowerFrom (U : UnicodeData) : Str → Str → Str
  | _, [] => []
  | before, c :: cs =>
      (if c = capitalSigma then
        [if U.finalSigma before cs then Char.ofNat 0x3C2 else Char.ofNat 0x3C3]
      else U.lowerChar c) ++ lowerFrom U (before ++ [c]) cs

/-- `str.lower`. -/
def lower (U : UnicodeData) (s : Str) : Str := lowerFrom U [] s

/-- `str.upper`. -/
def upper (U : UnicodeData) (s : Str) : Str := s.flatMap U.upperChar

/-- A string of ASCII characters. -/
def Ascii (s : Str) : Prop := ∀ c ∈ s, c.toNat < 128

instance (s : Str) : Decidable (Ascii s) :=
  List.decidableBAll (fun c : Char => c.toNat < 128) s

theorem Ascii.cons {c : Char} {s : Str} (hc : c.toNat < 128) (hs : Ascii s) : Ascii (c :: s) := by
  intro d hd
  rcases List.mem_cons.1 hd with rfl | hd
  · exact hc
  · exact hs d hd

theorem Ascii.append {s t : Str} (hs : Ascii s) (ht : Ascii t) : Ascii (s ++ t) := by
  intro c hc
  rcases List.mem_append.1 hc with h | h
  · exact hs c h
  · exact ht c h

theorem ne_capitalSigma_of_ascii {c : Char} (hc : c.toNat < 128) : c ≠ capitalSigma := by
  rintro rfl
  exact absurd hc (by decide)

theorem lowerFrom_ascii (U : UnicodeData) {s : Str} (hs : Ascii s) (before : Str) :
    lowerFrom U before s = s.map Char.toLower := by
  induction s generalizing before with
  | nil => rfl
  | cons c cs ih =>
    have hc : c.toNat < 128 := hs c List.mem_cons_self
    rw [lowerFrom, if_neg (ne_capitalSigma_of_ascii hc), U.lowerChar_ascii c hc,
      ih (fun d hd => hs d (List.mem_cons_of_mem _ hd))]
    rfl

/-- On ASCII text `str.lower` is the ASCII mapping, whatever the tables. -/
theorem lower_ascii (U : UnicodeData) {s : Str} (hs : Ascii s) :
    lower U s = s.map Char.toLower := lowerFrom_ascii U hs []

theorem toNat_lt_of_isAlphanum {c : Char} (hc : c.isAlphanum = true) : c.toNat < 128 := by
  have := isAlphanum_iff.1 hc
  omega

theorem toNat_lt_of_isAlpha {c : Char} (hc : c.isAlpha = true) : c.toNat < 128 :=
  toNat_lt_of_isAlphanum (by rw [Char.isAlphanum, hc, Bool.true_or])

theorem isAlpha_toLower (c : Char) : c.toLower.isAlpha = c.isAlpha := by
  by_cases hu : c.isUpper = true
  · simp [Char.isAlpha, hu]
  · rw [Char.toLower_eq_of_not_isUpper hu]

/-- The first character of a lowercase text that is not empty. -/
theorem lowerFrom_cons (U : UnicodeData) (before : Str) (c : Char) (cs : Str) :
    ∃ d ds, lowerFrom U before (c :: cs) = d :: (ds ++ lowerFrom U (before ++ [c]) cs) ∧
      (c = capitalSigma ∧ 128 ≤ d.toNat ∧ isSpace d = false ∨
        c ≠ capitalSigma ∧ U.lowerChar c = d :: ds) := by
  rw [lowerFrom]
  by_cases hc : c = capitalSigma
  · rw [if_pos hc]
    refine ⟨_, [], rfl, Or.inl ⟨hc, ?_⟩⟩
    split <;> decide
  · rw [if_neg hc]
    obtain ⟨d, ds, hd⟩ := List.exists_cons_of_ne_nil (U.lowerChar_ne_nil c)
    exact ⟨d, ds, by rw [hd]; rfl, Or.inr ⟨hc, hd⟩⟩

/-- Lowercase text starts with whitespace only if the text does. -/
theorem isSpace_head_lower (U : UnicodeData) {s : Str} (hs : ∀ c ∈ s.head?, isSpace c = false) :
    ∀ c ∈ (lower U s).head?, isSpace c = false := by
  cases s with
  | nil => simp [lower, lowerFrom]
  | cons c cs =>
    obtain ⟨d, ds, heq, h⟩ := lowerFrom_cons U [] c cs
    rw [lower, heq]
    rintro x hx
    obtain rfl : d = x := by simpa using hx
    rcases h with ⟨-, -, hsp⟩ | ⟨-, hd⟩
    · exact hsp
    · by_contra hsp
      have := U.lowerChar_space_mem c d (by rw [hd]; exact List.mem_cons_self) (by simpa using hsp)
      rw [hs c rfl] at this
      exact absurd this (by simp)

/-- The leading letters of a lowercase text, for a word that `İ` and the Kelvin sign
have no part in. -/
theorem takeWhile_isAlpha_lowerFrom (U : UnicodeData) {l : Str} (hi : 'i' ∉ l) (hk : 'k' ∉ l)
    {before s : Str} (h : (lowerFrom U before s).takeWhile Char.isAlpha = l) :
    (s.takeWhile Char.isAlpha).map Char.toLower = l := by
  induction s generalizing before l with
  | nil => simpa [lowerFrom] using h
  | cons c cs ih =>
    obtain ⟨d, ds, heq, hc⟩ := lowerFrom_cons U before c cs
    rw [heq] at h
    by_cases hd : d.isAlpha = true
    · rw [List.takeWhile_cons_of_pos hd] at h
      have hdl : d ∈ l := by rw [← h]; exact List.mem_cons_self
      have hlow : U.lowerChar c = d :: ds := by
        rcases hc with ⟨-, hge, -⟩ | ⟨-, hlow⟩
        · exact absurd (toNat_lt_of_isAlpha hd) (by omega)
        · exact hlow
      have hascii : c.toNat < 128 := by
        rcases U.lowerChar_ascii_mem c d (by rw [hlow]; exact List.mem_cons_self)
          (toNat_lt_of_isAlpha hd) with h | rfl | rfl
        · exact h
        · rw [U.lowerChar_dottedI] at hlow
          injection hlow with hlow
          exact absurd (hlow ▸ hdl) hi
        · rw [U.lowerChar_kelvin] at hlow
          injection hlow with hlow
          exact absurd (hlow ▸ hdl) hk
      rw [U.lowerChar_ascii c hascii] at hlow
      injection hlow with hd' hds
      subst hds hd'
      rw [isAlpha_toLower] at hd
      rw [List.takeWhile_cons_of_pos hd, List.map_cons, ← h]
      congr 1
      refine ih ?_ ?_ rfl
      · intro hm
        exact hi (h ▸ List.mem_cons_of_mem _ (by simpa using hm))
      · intro hm
        exact hk (h ▸ List.mem_cons_of_mem _ (by simpa using hm))
    · rw [List.takeWhile_cons_of_neg hd] at h
      have hcal : ¬ c.isAlpha = true := by
        intro hal
        have hascii := toNat_lt_of_isAlpha hal
        rcases hc with ⟨hc, -⟩ | ⟨-, hlow⟩
        · exact ne_capitalSigma_of_ascii hascii hc
        · rw [U.lowerChar_ascii c hascii] at hlow
          injection hlow with hlow
          rw [← hlow, isAlpha_toLower] at hd
          exact hd hal
      rw [List.takeWhile_cons_of_neg hcal, ← h]
      rfl

/-! ## Integers -/

/-- `str(n)` for a non-negative integer. -/
def natText (n : Nat) : Str := Nat.toDigits 10 n

/-- `str(k)` for an integer. -/
def intText (k : Int) : Str := if k < 0 then '-' :: natText k.natAbs else natText k.natAbs

theorem natText_ne_nil (n : Nat) : natText n ≠ [] := Nat.toDigits_ne_nil

theorem natText_isDigit {n : Nat} : ∀ c ∈ natText n, c.isDigit = true :=
  fun _ hc => Nat.isDigit_of_mem_toDigits (by decide) (by decide) hc

/-- The decimal value of a list of digits, most significant first. -/
def ofDigits (ds : List Nat) : Nat := ds.foldl (fun n d => 10 * n + d) 0

/-- Further digits of an integer literal: single underscores may stand between
two digits. -/
def moreDigits (U : UnicodeData) : Str → Option (List Nat)
  | [] => some []
  | '_' :: c :: cs => do
      let d ← U.decimal c
      let ds ← moreDigits U cs
      pure (d :: ds)
  | c :: cs => do
      let d ← U.decimal c
      let ds ← moreDigits U cs
      pure (d :: ds)

/-- The digits of an integer literal: at least one. -/
def literalDigits (U : UnicodeData) : Str → Option (List Nat)
  | [] => none
  | c :: cs => do
      let d ← U.decimal c
      let ds ← moreDigits U cs
      pure (d :: ds)

/-- The whitespace `int` ignores at both ends: the separators `\x1c` to `\x1f` are
whitespace for `str.strip` but not for `int`. -/
def isIntSpace (c : Char) : Bool := isSpace c && !(28 ≤ c.toNat && c.toNat ≤ 31)

/-- A text without the whitespace `int` ignores. -/
def intBody (s : Str) : Str :=
  ((s.dropWhile isIntSpace).reverse.dropWhile isIntSpace).reverse

/-- Sign and digits of an integer literal. -/
def signedDigits (U : UnicodeData) (s : Str) : Option (Bool × List Nat) :=
  match intBody s with
  | '-' :: cs => (literalDigits U cs).map (true, ·)
  | '+' :: cs => (literalDigits U cs).map (false, ·)
  | cs => (literalDigits U cs).map (false, ·)

/-- May a literal of this many digits be converted?  A limit of 0 is no limit, as for
`sys.set_int_max_str_digits`. -/
def digitsFit (limit digits : Nat) : Bool := limit == 0 || digits ≤ limit

/-- `int(s)` under a limit on the number of digits. -/
def intOf (U : UnicodeData) (limit : Nat) (s : Str) : Except PyError Int :=
  match signedDigits U s with
  | none => .error .valueError
  | some (neg, ds) =>
      if digitsFit limit ds.length then
        .ok (if neg then -(ofDigits ds : Int) else (ofDigits ds : Int))
      else .error .valueError

theorem toNat_lt_of_isDigit {c : Char} (hc : c.isDigit = true) : c.toNat < 128 :=
  toNat_lt_of_isAlphanum (by simp [Char.isAlphanum, hc])

theorem decimal_isDigit (U : UnicodeData) {c : Char} (hc : c.isDigit = true) :
    U.decimal c = some (c.toNat - 48) := by
  rw [U.decimal_ascii c (toNat_lt_of_isDigit hc), if_pos hc]

/-! ## Concrete tables -/

theorem isSpace_eq_false_of_mem_asciiFolding : ∀ c ∈ asciiFolding, isSpace c = false :=
  List.forall_mem_cons.2 ⟨by decide, List.forall_mem_cons.2 ⟨by decide,
    List.forall_mem_cons.2 ⟨by decide, List.forall_mem_singleton.2 (by decide)⟩⟩⟩

theorem toNat_ge_of_mem_asciiFolding : ∀ c ∈ asciiFolding, 128 ≤ c.toNat :=
  List.forall_mem_cons.2 ⟨by decide, List.forall_mem_cons.2 ⟨by decide,
    List.forall_mem_cons.2 ⟨by decide, List.forall_mem_singleton.2 (by decide)⟩⟩⟩

/-- The tables of an interpreter that knows ASCII and the four folding letters only. -/
def asciiData : UnicodeData where
  isAlnum c := c.isAlphanum || asciiFolding.contains c
  decimal c := if c.isDigit then some (c.toNat - 48) else none
  lowerChar c :=
    if c = dottedI then ['i', Char.ofNat 0x307] else if c = kelvin then ['k'] else [c.toLower]
  upperChar c := [c.toUpper]
  finalSigma _ _ := false
  isAlnum_ascii c hc := by
    have : asciiFolding.contains c = false := by
      rw [List.contains_eq_mem, decide_eq_false_iff_not]
      intro hm
      have := toNat_ge_of_mem_asciiFolding c hm
      omega
    rw [this, Bool.or_false]
  isAlnum_folding c hc := by simp [hc]
  isAlnum_of_decimal c d hd := by
    split at hd
    · rename_i h
      simp [Char.isAlphanum, h]
    · exact absurd hd (by simp)
  isAlnum_not_space c hc := by
    rcases Bool.or_eq_true _ _ ▸ hc with h | h
    · exact isSpace_eq_false_of_isAlphanum h
    · exact isSpace_eq_false_of_mem_asciiFolding c (by simpa using h)
  decimal_ascii c _ := rfl
  decimal_folding c hc := by
    have hge := toNat_ge_of_mem_asciiFolding c hc
    rw [if_neg]
    intro h
    have := toNat_lt_of_isDigit h
    omega
  decimal_lt c d hd := by
    split at hd
    · rename_i h
      have := isDigit_iff.1 h
      simp only [Option.some.injEq] at hd
      omega
    · exact absurd hd (by simp)
  lowerChar_ascii c hc := by
    have h1 : c ≠ dottedI := by rintro rfl; exact absurd hc (by decide)
    have h2 : c ≠ kelvin := by rintro rfl; exact absurd hc (by decide)
    rw [if_neg h1, if_neg h2]
  lowerChar_dottedI := rfl
  lowerChar_kelvin := rfl
  lowerChar_ne_nil c := by split_ifs <;> simp
  lowerChar_ascii_mem c d hd hlt := by
    split_ifs at hd with h1 h2
    · exact Or.inr (Or.inl h1)
    · exact Or.inr (Or.inr h2)
    · refine Or.inl ?_
      rw [List.mem_singleton] at hd
      subst hd
      by_contra hge
      have hup : ¬ c.isUpper = true := by
        intro h
        simp only [Char.isUpper, decide_eq_true_eq] at h
        have : c.toNat ≤ 90 := h.2
        omega
      rw [Char.toLower_eq_of_not_isUpper hup] at hlt
      exact hge hlt
  lowerChar_space_mem c d hd hs := by
    split_ifs at hd with h1 h2
    · rcases List.mem_pair.1 hd with rfl | rfl
      · exact absurd hs (by decide)
      · exact absurd hs (by decide)
    · rw [List.mem_singleton] at hd
      subst hd
      exact absurd hs (by decide)
    · rw [List.mem_singleton] at hd
      subst hd
      by_cases hu : c.isUpper = true
      · have hlow : c.toLower.isAlphanum = true := by
          simp [Char.isAlphanum, Char.isAlpha, hu]
        rw [isSpace_eq_false_of_isAlphanum hlow] at hs
        exact absurd hs (by simp)
      · rwa [Char.toLower_eq_of_not_isUpper hu] at hs
  upperChar_ascii c _ := rfl

end Py
