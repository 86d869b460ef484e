import SqlGatekeeper.Python.Text
import SqlGatekeeper.Python.Effects

/-!
# Python values

* `Json`: what a JSON column or a JSON request body holds, with Python's truth value.
* `Value`: the results of evaluating a routing rule.
* `Runtime`: the interpreter the code runs on.  Besides the character tables it has
  the limit on integer digits and, as functions that are not looked into, the
  operations whose results the gatekeeper only passes on.
* `Runtime.int`, `Runtime.strInt`, `Runtime.strJson`: `int(s)` and `str(x)`.
-/

namespace Py

/-! ## JSON -/

/-- The `repr` of a float: never empty. -/
abbrev FloatRepr := { s : Str // s ≠ [] }

/-- A JSON value as `json.loads` returns it; a float is kept as its `repr`. -/
inductive Json where
  | null
  | bool (b : Bool)
  | int (k : Int)
  | float (repr : FloatRepr)
  | str (s : Str)
  | list (items : List Json)
  | dict (items : List (Str × Json))

/-- A JSON object. -/
abbrev JsonDict := List (Str × Json)

/-- `d.get(key)`, with `None` for a missing key. -/
def JsonDict.get (d : JsonDict) (key : Str) : Json := (d.lookup key).getD .null

mutual

/-- Does every integer of a value have at most so many digits?  `json.loads` reads
integers with `int`, so no other value comes out of it. -/
def Json.intsFit (fits : Nat → Bool) : Json → Bool
  | .int k => fits (natText k.natAbs).length
  | .list items => Json.intsFitList fits items
  | .dict items => Json.intsFitDict fits items
  | _ => true

/-- `Json.intsFit` on the items of a list. -/
def Json.intsFitList (fits : Nat → Bool) : List Json → Bool
  | [] => true
  | x :: xs => x.intsFit fits && Json.intsFitList fits xs

/-- `Json.intsFit` on the values of a dictionary. -/
def Json.intsFitDict (fits : Nat → Bool) : List (Str × Json) → Bool
  | [] => true
  | x :: xs => x.2.intsFit fits && Json.intsFitDict fits xs

end

theorem Json.intsFit_get {fits : Nat → Bool} {d : JsonDict} (h : Json.intsFitDict fits d = true)
    (key : Str) : (d.get key).intsFit fits = true := by
  induction d with
  | nil => rfl
  | cons e rest ih =>
    obtain ⟨k, v⟩ := e
    rw [Json.intsFitDict, Bool.and_eq_true] at h
    rw [JsonDict.get, List.lookup_cons]
    cases key == k with
    | true => exact h.1
    | false => exact ih h.2

theorem Json.intsFit_of_mem {fits : Nat → Bool} {items : List Json}
    (h : Json.intsFitList fits items = true) : ∀ x ∈ items, x.intsFit fits = true := by
  induction items with
  | nil => simp
  | cons x xs ih =>
    rw [Json.intsFitList, Bool.and_eq_true] at h
    exact List.forall_mem_cons.2 ⟨h.1, ih h.2⟩

/-- The truth value of a JSON value. -/
def Json.truthy : Json → Bool
  | .null => false
  | .bool b => b
  | .int k => k != 0
  | .float r => r.1 != ("0.0" : Str) && r.1 != ("-0.0" : Str)
  | .str s => !s.isEmpty
  | .list items => !items.isEmpty
  | .dict items => !items.isEmpty

/-- `a or b`. -/
def Json.orElse (a b : Json) : Json := if a.truthy then a else b

theorem Json.intsFit_orElse {fits : Nat → Bool} {a b : Json} (ha : a.intsFit fits = true)
    (hb : b.intsFit fits = true) : (a.orElse b).intsFit fits = true := by
  rw [Json.orElse]
  split
  · exact ha
  · exact hb

/-! ## Dictionaries -/

section Dict

variable {α : Type}

/-- `d[key] = value`. -/
def dictSet (key : Str) (value : α) : List (Str × α) → List (Str × α)
  | [] => [(key, value)]
  | (k, v) :: rest => if k = key then (key, value) :: rest else (k, v) :: dictSet key value rest

/-- A key that is new comes last. -/
theorem dictSet_of_not_mem {key : Str} {value : α} {d : List (Str × α)}
    (h : key ∉ d.map Prod.fst) : dictSet key value d = d ++ [(key, value)] := by
  induction d with
  | nil => rfl
  | cons e rest ih =>
    obtain ⟨k, v⟩ := e
    rw [List.map_cons, List.mem_cons, not_or] at h
    rw [dictSet, if_neg fun hk => h.1 hk.symm, ih h.2, List.cons_append]

@[simp] theorem lookup_dictSet_self (key : Str) (value : α) (d : List (Str × α)) :
    (dictSet key value d).lookup key = some value := by
  induction d with
  | nil => simp [dictSet]
  | cons e rest ih =>
    obtain ⟨k, v⟩ := e
    by_cases hk : k = key
    · simp [dictSet, hk]
    · have : (key == k) = false := by simpa using Ne.symm hk
      rw [dictSet, if_neg hk, List.lookup_cons, this]
      exact ih

theorem lookup_dictSet_ne {key key' : Str} (h : key' ≠ key) (value : α) (d : List (Str × α)) :
    (dictSet key value d).lookup key' = d.lookup key' := by
  have hne : (key' == key) = false := by simpa using h
  induction d with
  | nil => simp [dictSet, h]
  | cons e rest ih =>
    obtain ⟨k, v⟩ := e
    by_cases hk : k = key
    · subst hk
      rw [dictSet, if_pos rfl, List.lookup_cons, List.lookup_cons, hne]
    · rw [dictSet, if_neg hk, List.lookup_cons, List.lookup_cons, ih]

end Dict

/-! ## Values of the rules -/

/-- The values a routing rule computes with. -/
inductive Value where
  | int (k : Int)
  | str (s : Str)
  /-- One of the two builtins the rules are given: `int` and `str`. -/
  | builtin (name : Str)
  /-- Any other object, by its `str()`. -/
  | other (text : Str)
  deriving DecidableEq, Repr

/-- The interpreter: character tables, the digit limit of `int`, and the operations
of which only the result is used. -/
structure Runtime extends UnicodeData where
  /-- `sys.get_int_max_str_digits()`; 0 is no limit. -/
  intMaxStrDigits : Nat
  intMaxStrDigits_ok : intMaxStrDigits = 0 ∨ 640 ≤ intMaxStrDigits
  /-- `eval` of an expression outside the modelled fragment. -/
  evalOther : Str → List (Str × Str) → Except PyError Value
  /-- `s % v` for a string `s`. -/
  percentFormat : Str → Value → Except PyError Value
  /-- `fmt.format(value=v, **kw)` of a format string outside the modelled fragment. -/
  formatOther : Str → Value → List (Str × Str) → Except PyError Str
  /-- `str(x)` of a list or a dictionary. -/
  reprOther : Json → Str
  reprOther_ne_nil : ∀ x, reprOther x ≠ []

namespace Runtime

variable (rt : Runtime)

/-- May a literal of this many digits be converted by `int`? -/
def digitsFit (digits : Nat) : Bool := Py.digitsFit rt.intMaxStrDigits digits

/-- `int(s)`. -/
def int (s : Str) : Except PyError Int := intOf rt.toUnicodeData rt.intMaxStrDigits s

/-- `str(k)` for an integer: it has the same digit limit as `int`. -/
def strInt (k : Int) : Except PyError Str :=
  if rt.digitsFit (natText k.natAbs).length then .ok (intText k) else .error .valueError

/-- `str(x)` for a JSON value. -/
def strJson : Json → Except PyError Str
  | .null => .ok "None"
  | .bool b => .ok (if b then "True" else "False")
  | .int k => rt.strInt k
  | .float r => .ok r.1
  | .str s => .ok s
  | x => .ok (rt.reprOther x)

/-- `str(v)`. -/
def strValue : Value → Except PyError Str
  | .int k => rt.strInt k
  | .str s => .ok s
  | .builtin name => .ok ("<class '" ++ name ++ "'>")
  | .other text => .ok text

theorem intText_ne_nil (k : Int) : intText k ≠ [] := by
  rw [intText]
  split
  · simp
  · exact natText_ne_nil _

/-- The text of a true value is not empty. -/
theorem strJson_ne_nil {x : Json} (hx : x.truthy = true) {s : Str} (h : rt.strJson x = .ok s) :
    s ≠ [] := by
  cases x with
  | null => exact absurd hx (by simp [Json.truthy])
  | bool b =>
    injection h with h
    subst h
    split <;> decide
  | int k =>
    rw [strJson, strInt] at h
    split at h
    · injection h with h
      exact h ▸ intText_ne_nil k
    · exact absurd h (by simp)
  | float r =>
    injection h with h
    exact h ▸ r.2
  | str t =>
    injection h with h
    subst h
    rintro rfl
    exact absurd hx (by simp [Json.truthy])
  | list items =>
    injection h with h
    exact h ▸ rt.reprOther_ne_nil _
  | dict items =>
    injection h with h
    exact h ▸ rt.reprOther_ne_nil _

/-- `str` returns on every value that `json.loads` returns. -/
theorem strJson_returns {x : Json} (hx : x.intsFit rt.digitsFit = true) :
    Returns (rt.strJson x) := by
  cases x with
  | int k =>
    rw [Json.intsFit] at hx
    rw [strJson, strInt, if_pos hx]
    exact returns_ok _
  | _ => exact returns_ok _

theorem digitsFit_of_le {m n : Nat} (hmn : m ≤ n) (h : rt.digitsFit n = true) :
    rt.digitsFit m = true := by
  simp only [digitsFit, Py.digitsFit, Bool.or_eq_true, beq_iff_eq, decide_eq_true_eq] at h ⊢
  omega

theorem digitsFit_natText {m n : Nat} (hmn : m ≤ n)
    (h : rt.digitsFit (natText n).length = true) : rt.digitsFit (natText m).length = true := by
  have hpow : n < 10 ^ (natText n).length :=
    (Nat.length_toDigits_le_iff (by decide) Nat.length_toDigits_pos).1 le_rfl
  exact rt.digitsFit_of_le
    ((Nat.length_toDigits_le_iff (by decide) Nat.length_toDigits_pos).2
      (Nat.lt_of_le_of_lt hmn hpow)) h

/-- The limit is never below 640 digits. -/
theorem digitsFit_small {n : Nat} (hn : n ≤ 640) : rt.digitsFit n = true := by
  have := rt.intMaxStrDigits_ok
  simp only [digitsFit, Py.digitsFit, Bool.or_eq_true, beq_iff_eq, decide_eq_true_eq]
  omega

end Runtime

/-! ## Reading an integer literal back -/

/-- The digits of a natural number's text. -/
def digitsOf (s : Str) : List Nat := s.map fun c => c.toNat - 48

theorem moreDigits_isDigit (U : UnicodeData) {s : Str} (hs : ∀ c ∈ s, c.isDigit = true) :
    moreDigits U s = some (digitsOf s) := by
  induction s with
  | nil => rfl
  | cons c cs ih =>
    have hc : c.isDigit = true := hs c List.mem_cons_self
    have hne : c ≠ '_' := by rintro rfl; exact absurd hc (by decide)
    rw [moreDigits.eq_3 U c cs (fun d ds h _ => hne h), decimal_isDigit U hc,
      ih (fun d hd => hs d (List.mem_cons_of_mem _ hd))]
    rfl

theorem literalDigits_isDigit (U : UnicodeData) {s : Str} (hne : s ≠ [])
    (hs : ∀ c ∈ s, c.isDigit = true) : literalDigits U s = some (digitsOf s) := by
  cases s with
  | nil => exact absurd rfl hne
  | cons c cs =>
    rw [literalDigits, decimal_isDigit U (hs c List.mem_cons_self),
      moreDigits_isDigit U (fun d hd => hs d (List.mem_cons_of_mem _ hd))]
    rfl

theorem ofDigits_digitsOf (s : Str) : ofDigits (digitsOf s) = Nat.ofDigitChars 10 s 0 := by
  rw [ofDigits, digitsOf, Nat.ofDigitChars_eq_foldl, List.foldl_map]
  rfl

theorem ofDigits_natText (n : Nat) : ofDigits (digitsOf (natText n)) = n := by
  rw [ofDigits_digitsOf, natText, Nat.ofDigitChars_ten_toDigits]

theorem isIntSpace_eq_false_of_isDigit {c : Char} (hc : c.isDigit = true) :
    isIntSpace c = false := by
  rw [isIntSpace, isSpace_eq_false_of_isAlphanum (by simp [Char.isAlphanum, hc]), Bool.false_and]

theorem intBody_eq_self {s : Str} (h1 : ∀ c ∈ s.head?, isIntSpace c = false)
    (h2 : ∀ c ∈ s.getLast?, isIntSpace c = false) : intBody s = s := by
  have hd : s.dropWhile isIntSpace = s := by
    cases s with
    | nil => rfl
    | cons c cs => rw [List.dropWhile_cons_of_neg (by simp [h1 c rfl])]
  have hr : s.reverse.dropWhile isIntSpace = s.reverse := by
    cases hs : s.reverse with
    | nil => rfl
    | cons c cs =>
      have : c ∈ s.getLast? := by rw [← List.head?_reverse, hs]; rfl
      rw [List.dropWhile_cons_of_neg (by simp [h2 c this])]
  rw [intBody, hd, hr, List.reverse_reverse]

theorem signedDigits_natText (U : UnicodeData) (n : Nat) :
    signedDigits U (natText n) = some (false, digitsOf (natText n)) := by
  have hbody : intBody (natText n) = natText n :=
    intBody_eq_self
      (fun c hc => isIntSpace_eq_false_of_isDigit (natText_isDigit c (List.mem_of_mem_head? hc)))
      (fun c hc => isIntSpace_eq_false_of_isDigit (natText_isDigit c (List.mem_of_mem_getLast? hc)))
  have hlit := literalDigits_isDigit U (natText_ne_nil n) natText_isDigit
  rw [signedDigits, hbody]
  cases hn : natText n with
  | nil => exact absurd hn (natText_ne_nil n)
  | cons c cs =>
    have hc : c.isDigit = true := natText_isDigit c (by rw [hn]; exact List.mem_cons_self)
    rw [hn] at hlit
    split
    · exact absurd hc (by simp_all)
    · exact absurd hc (by simp_all)
    · rw [hlit]; rfl

theorem signedDigits_intText (U : UnicodeData) (k : Int) :
    signedDigits U (intText k) = some (decide (k < 0), digitsOf (natText k.natAbs)) := by
  by_cases hk : k < 0
  · have hlast : ∀ c ∈ (intText k).getLast?, isIntSpace c = false := by
      intro c hc
      rw [intText, if_pos hk, List.getLast?_cons_of_ne_nil (natText_ne_nil _)] at hc
      exact isIntSpace_eq_false_of_isDigit (natText_isDigit c (List.mem_of_mem_getLast? hc))
    have hhead : ∀ c ∈ (intText k).head?, isIntSpace c = false := by
      intro c hc
      rw [intText, if_pos hk, List.head?_cons, Option.mem_some_iff] at hc
      subst hc
      decide
    rw [signedDigits, intBody_eq_self hhead hlast, intText, if_pos hk]
    simp only [literalDigits_isDigit U (natText_ne_nil _) natText_isDigit, Option.map_some, hk,
      decide_true]
  · rw [intText, if_neg hk, signedDigits_natText]
    simp [hk]

theorem digitsOf_length (s : Str) : (digitsOf s).length = s.length := by simp [digitsOf]

/-- `int(str(k)) = k`, up to the digit limit. -/
theorem Runtime.int_intText (rt : Runtime) (k : Int) :
    rt.int (intText k) =
      if rt.digitsFit (natText k.natAbs).length then .ok k else .error .valueError := by
  have hval : (if decide (k < 0) = true then -(k.natAbs : Int) else (k.natAbs : Int)) = k := by
    by_cases hk : k < 0
    · simp only [hk, decide_true, if_true]
      omega
    · simp only [hk, decide_false, Bool.false_eq_true, if_false]
      omega
  rw [Runtime.int, intOf, signedDigits_intText]
  simp only [digitsOf_length, ofDigits_natText, Runtime.digitsFit, hval]
  rfl

/-- Two integers of one text are the same. -/
theorem intText_injective {a b : Int} (h : intText a = intText b) : a = b := by
  have hdigits : ∀ {m n : Nat}, natText m = natText n → m = n := fun {m n} h => by
    have := congrArg (fun s => ofDigits (digitsOf s)) h
    simpa only [ofDigits_natText] using this
  have hminus : ∀ m n : Nat, '-' :: natText m ≠ natText n := fun m n h => by
    have := natText_isDigit (n := n) '-' (by rw [← h]; exact List.mem_cons_self)
    exact absurd this (by decide)
  rw [intText, intText] at h
  split at h <;> split at h
  · injection h with _ h
    have := hdigits h
    omega
  · exact absurd h (hminus _ _)
  · exact absurd h.symm (hminus _ _)
  · have := hdigits h
    omega

/-! ### Any decimals -/

/-- A text of decimal characters. -/
def IsDecimals (U : UnicodeData) (s : Str) : Prop := s ≠ [] ∧ ∀ c ∈ s,
    (U.decimal c).isSome = true

theorem ne_of_decimal_isSome {U : UnicodeData} {c d : Char} (hc : (U.decimal c).isSome = true)
    (hd : d.toNat < 128 ∧ d.isDigit = false) : c ≠ d := by
  rintro rfl
  rw [U.decimal_ascii c hd.1, hd.2] at hc
  exact absurd hc (by simp)

theorem exists_moreDigits {U : UnicodeData} {s : Str}
    (hs : ∀ c ∈ s, (U.decimal c).isSome = true) :
    ∃ ds, moreDigits U s = some ds ∧ ds.length = s.length := by
  induction s with
  | nil => exact ⟨[], rfl, rfl⟩
  | cons c cs ih =>
    have hc := hs c List.mem_cons_self
    obtain ⟨d, hd⟩ := Option.isSome_iff_exists.1 hc
    obtain ⟨ds, hds, hlen⟩ := ih fun e he => hs e (List.mem_cons_of_mem _ he)
    have hne : c ≠ '_' := ne_of_decimal_isSome hc (by decide)
    refine ⟨d :: ds, ?_, by rw [List.length_cons, hlen, List.length_cons]⟩
    rw [moreDigits.eq_3 U c cs (fun e es h _ => hne h), hd, hds]
    rfl

/-- `int` reads any text of decimals within the digit limit. -/
theorem Runtime.int_returns_iff (rt : Runtime) {s : Str} (hs : IsDecimals rt.toUnicodeData s) :
    Returns (rt.int s) ↔ rt.digitsFit s.length = true := by
  obtain ⟨hne, hs⟩ := hs
  obtain ⟨c, cs, rfl⟩ := List.exists_cons_of_ne_nil hne
  have hspace : ∀ d ∈ c :: cs, isIntSpace d = false := by
    intro d hd
    obtain ⟨k, hk⟩ := Option.isSome_iff_exists.1 (hs d hd)
    rw [isIntSpace, rt.isAlnum_not_space d (rt.isAlnum_of_decimal d k hk), Bool.false_and]
  have hbody : intBody (c :: cs) = c :: cs :=
    intBody_eq_self (fun d hd => hspace d (List.mem_of_mem_head? hd))
      (fun d hd => hspace d (List.mem_of_mem_getLast? hd))
  obtain ⟨d, hd⟩ := Option.isSome_iff_exists.1 (hs c List.mem_cons_self)
  obtain ⟨ds, hds, hlen⟩ := exists_moreDigits fun e he => hs e (List.mem_cons_of_mem _ he)
  have hsigned : signedDigits rt.toUnicodeData (c :: cs) = some (false, d :: ds) := by
    have hlit : literalDigits rt.toUnicodeData (c :: cs) = some (d :: ds) := by
      rw [literalDigits, hd, hds]
      rfl
    have hminus : c ≠ '-' := ne_of_decimal_isSome (hs c List.mem_cons_self) (by decide)
    have hplus : c ≠ '+' := ne_of_decimal_isSome (hs c List.mem_cons_self) (by decide)
    rw [signedDigits, hbody]
    split
    · rename_i h
      injection h with h _
      exact absurd h hminus
    · rename_i h
      injection h with h _
      exact absurd h hplus
    · rw [hlit]
      rfl
  rw [Runtime.int, intOf, hsigned, Runtime.digitsFit, List.length_cons, ← hlen]
  simp only [List.length_cons]
  by_cases hfit : Py.digitsFit rt.intMaxStrDigits (ds.length + 1) = true
  · rw [if_pos hfit]
    exact iff_of_true (returns_ok _) hfit
  · rw [if_neg hfit]
    exact iff_of_false (not_returns_error _) hfit

/-- The runtime of the concrete tables, with the digit limit of current interpreters;
everything outside the fragment is refused. -/
def asciiRuntime : Runtime where
  toUnicodeData := asciiData
  intMaxStrDigits := 4300
  intMaxStrDigits_ok := Or.inr (by decide)
  evalOther _ _ := .error (.other "Unmodelled")
  percentFormat _ _ := .error (.other "Unmodelled")
  formatOther _ _ _ := .error (.other "Unmodelled")
  reprOther _ := "..."
  reprOther_ne_nil _ := by decide

end Py
