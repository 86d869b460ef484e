import SqlGatekeeper.Python.Value

/-!
# `eval` and `str.format`

Routing rules are Python expressions kept as text and evaluated with the extracted
factors as local names, and an output format applied to the result.

* `Expr`: the expressions of the fragment: names, integer and string literals, calls
  `f(x)`, `%`, `+` and `s.replace(a, b)`.
* `lex`, `parseExpr`: from the text to the tree, with Python's precedences.
* `Expr.eval`, `Runtime.eval`: the value; a text outside the fragment goes to
  `Runtime.evalOther`.
* `Runtime.format`: `fmt.format(value=v, **kw)`.
* `eval_intMod`, `eval_strIntMod`, `eval_strInt_routeSuffix`, `format_value`: the values of the
  rules the gatekeeper is shipped with.
-/

namespace Py

/-! ## Expressions -/

/-- An expression of the fragment. -/
inductive Expr where
  | name (x : Str)
  | num (n : Nat)
  | text (s : Str)
  /-- `f(a)`. -/
  | call (f : Str) (a : Expr)
  | mod (a b : Expr)
  | add (a b : Expr)
  /-- `a.replace(old, new)`. -/
  | replace (a old new : Expr)
  deriving DecidableEq, Repr

/-- The reserved words of Python, and the one name the evaluator binds itself. -/
def reservedNames : List Str :=
  ["False", "None", "True", "and", "as", "assert", "async", "await", "break", "class", "continue",
    "def", "del", "elif", "else", "except", "finally", "for", "from", "global", "if", "import",
    "in", "is", "lambda", "nonlocal", "not", "or", "pass", "raise", "return", "try", "while",
    "with", "yield", "__builtins__"]

/-- A Python variable name: an identifier that is not reserved. -/
def isVariable (x : Str) : Bool := isIdentifier x && !reservedNames.contains x

/-! ### Tokens -/

/-- A token. -/
inductive Token where
  | name (x : Str)
  | num (digits : Str)
  | text (s : Str)
  | sym (c : Char)
  deriving DecidableEq, Repr

/-- What the tokenizer is in the middle of. -/
inductive LexMode where
  | between
  | inName (x : Str)
  | inNum (digits : Str)
  | inText (quote : Char) (s : Str)

/-- The mode and the tokens when a character comes between two tokens; `none` outside
the fragment. -/
def lexBegin (c : Char) : Option (LexMode × List Token) :=
  if c == ' ' || c == '\t' then some (.between, [])
  else if isNameStart c then some (.inName [c], [])
  else if c.isDigit then some (.inNum [c], [])
  else if c == '\'' || c == '"' then some (.inText c [], [])
  else if ("()%+,." : Str).contains c then some (.between, [.sym c])
  else none

/-- The tokens of a text; `none` outside the fragment. -/
def lex : LexMode → Str → Option (List Token)
  | .between, [] => some []
  | .inName x, [] => some [.name x]
  | .inNum ds, [] => some [.num ds]
  | .inText _ _, [] => none
  | .between, c :: cs => do
      let (mode, ts) ← lexBegin c
      let ts' ← lex mode cs
      pure (ts ++ ts')
  | .inName x, c :: cs =>
      if isNameChar c then lex (.inName (x ++ [c])) cs
      else if c == '\'' || c == '"' then none
      else do
        let (mode, ts) ← lexBegin c
        let ts' ← lex mode cs
        pure (.name x :: ts ++ ts')
  | .inNum ds, c :: cs =>
      if c.isDigit then lex (.inNum (ds ++ [c])) cs
      else if isNameStart c || c == '.' then none
      else do
        let (mode, ts) ← lexBegin c
        let ts' ← lex mode cs
        pure (.num ds :: ts ++ ts')
  | .inText q s, c :: cs =>
      if c == q then do
        let ts ← lex .between cs
        pure (.text s :: ts)
      else if c == '\\' || c == '\n' then none
      else lex (.inText q (s ++ [c])) cs

/-! ### Parsing -/

/-- The precedence levels, loosest first. -/
inductive Level where
  | sum
  | term
  | primary
  | atom
  deriving DecidableEq

/-- A number token as a literal: no leading zeros. -/
def numOf (digits : Str) : Option Expr :=
  if digits.length > 1 && digits.head? == some '0' then none
  else some (.num (ofDigits (digitsOf digits)))

mutual

/-- Parse an expression of a level off the front of the tokens. -/
def parseLevel : Nat → Level → List Token → Option (Expr × List Token)
  | 0, _, _ => none
  | fuel + 1, .sum, ts => do
      let (a, ts) ← parseLevel fuel .term ts
      parseTail fuel .sum a ts
  | fuel + 1, .term, ts => do
      let (a, ts) ← parseLevel fuel .primary ts
      parseTail fuel .term a ts
  | fuel + 1, .primary, ts => do
      let (a, ts) ← parseLevel fuel .atom ts
      parseTail fuel .primary a ts
  | fuel + 1, .atom, ts =>
      match ts with
      | .name f :: .sym '(' :: ts => do
          let (a, ts) ← parseLevel fuel .sum ts
          match ts with
          | .sym ')' :: ts => if isVariable f then some (.call f a, ts) else none
          | _ => none
      | .name x :: ts => if isVariable x then some (.name x, ts) else none
      | .num ds :: ts => (numOf ds).map (·, ts)
      | .text s :: ts => some (.text s, ts)
      | .sym '(' :: ts => do
          let (a, ts) ← parseLevel fuel .sum ts
          match ts with
          | .sym ')' :: ts => some (a, ts)
          | _ => none
      | _ => none

/-- Parse the operators of a level that follow a first operand. -/
def parseTail : Nat → Level → Expr → List Token → Option (Expr × List Token)
  | 0, _, _, _ => none
  | fuel + 1, level, a, ts =>
      match level, ts with
      | .sum, .sym '+' :: ts => do
          let (b, ts) ← parseLevel fuel .term ts
          parseTail fuel .sum (.add a b) ts
      | .term, .sym '%' :: ts => do
          let (b, ts) ← parseLevel fuel .primary ts
          parseTail fuel .term (.mod a b) ts
      | .primary, .sym '.' :: .name x :: .sym '(' :: ts =>
          if x = "replace" then do
            let (old, ts) ← parseLevel fuel .sum ts
            match ts with
            | .sym ',' :: ts => do
                let (new, ts) ← parseLevel fuel .sum ts
                match ts with
                | .sym ')' :: ts => parseTail fuel .primary (.replace a old new) ts
                | _ => none
            | _ => none
          else none
      | .primary, .sym '.' :: _ => none
      | .primary, .sym '(' :: _ => none
      | _, ts => some (a, ts)

end

/-- Parse a whole text; `none` outside the fragment. -/
def parseExpr (s : Str) : Option Expr := do
  let ts ← lex .between s
  match parseLevel (5 * ts.length + 5) .sum ts with
  | some (e, []) => some e
  | _ => none

/-! ## Evaluation -/

/-- `s.replace(old, new)` for a non-empty `old`. -/
def replaceAll (old new : Str) : Str → Nat → Str
  | [], _ => []
  | _ :: cs, skip + 1 => replaceAll old new cs skip
  | c :: cs, 0 =>
      if old.isPrefixOf (c :: cs) then new ++ replaceAll old new cs (old.length - 1)
      else c :: replaceAll old new cs 0

/-- `s.replace(old, new)`. -/
def strReplace (s old new : Str) : Str :=
  if old = [] then new ++ s.flatMap (· :: new) else replaceAll old new s 0

/-- The local names a rule sees: the extracted factors. -/
abbrev Env := List (Str × Str)

/-- The integer literals of an expression; all are converted before it runs. -/
def Expr.literals : Expr → List Nat
  | .name _ => []
  | .num n => [n]
  | .text _ => []
  | .call _ a => a.literals
  | .mod a b => a.literals ++ b.literals
  | .add a b => a.literals ++ b.literals
  | .replace a old new => a.literals ++ old.literals ++ new.literals

/-- The names that an expression looks up; `replace` is looked up in its object. -/
def Expr.names : Expr → List Str
  | .name x => [x]
  | .num _ => []
  | .text _ => []
  | .call f a => f :: a.names
  | .mod a b => a.names ++ b.names
  | .add a b => a.names ++ b.names
  | .replace a old new => a.names ++ old.names ++ new.names

/-- The names of an expression that the evaluator does not provide. -/
def Expr.freeNames (e : Expr) : List Str := e.names.filter fun x => !(x == "int" || x == "str")

/-- A name: a local first, then the two builtins. -/
def lookupName (env : Env) (x : Str) : Except PyError Value :=
  match env.lookup x with
  | some v => .ok (.str v)
  | none => if x = "int" ∨ x = "str" then .ok (.builtin x) else .error .nameError

/-- Call a value on one argument. -/
def Runtime.applyValue (rt : Runtime) : Value → Value → Except PyError Value
  | .builtin f, v =>
      if f = "int" then
        match v with
        | .int k => .ok (.int k)
        | .str s => (rt.int s).map .int
        | .builtin _ => .error .typeError
        | .other _ => .error .typeError
      else (rt.strValue v).map .str
  | _, _ => .error .typeError

/-- The value of an expression. -/
def Expr.eval (rt : Runtime) (env : Env) : Expr → Except PyError Value
  | .name x => lookupName env x
  | .num n => .ok (.int n)
  | .text s => .ok (.str s)
  | .call f a => do
      let callee ← lookupName env f
      let v ← a.eval rt env
      rt.applyValue callee v
  | .mod a b => do
      let x ← a.eval rt env
      let y ← b.eval rt env
      match x, y with
      | .int m, .int n => if n = 0 then .error .zeroDivisionError else .ok (.int (m.fmod n))
      | .str s, v => rt.percentFormat s v
      | _, _ => .error .typeError
  | .add a b => do
      let x ← a.eval rt env
      let y ← b.eval rt env
      match x, y with
      | .int m, .int n => .ok (.int (m + n))
      | .str s, .str t => .ok (.str (s ++ t))
      | _, _ => .error .typeError
  | .replace a old new => do
      let x ← a.eval rt env
      match x with
      | .str s => do
          let o ← old.eval rt env
          let n ← new.eval rt env
          match o, n with
          | .str o, .str n => .ok (.str (strReplace s o n))
          | _, _ => .error .typeError
      | _ => .error (.other "AttributeError")

/-- `eval(text, {"__builtins__": {}, "int": int, "str": str}, env)`. -/
def Runtime.eval (rt : Runtime) (text : Str) (env : Env) : Except PyError Value :=
  match parseExpr text with
  | none => rt.evalOther text env
  | some e =>
      if e.literals.all fun n => rt.digitsFit (natText n).length then e.eval rt env
      else .error .syntaxError

/-! ## Formatting -/

/-- The pieces of a format string: literal text and replacement fields. -/
inductive Piece where
  | lit (c : Char)
  | field (name : Str)
  deriving DecidableEq, Repr

/-- Split a format string; `inField` holds the name read so far inside braces.
`none` outside the fragment (conversions, format specs, attribute access). -/
def formatPieces : Option Str → Str → Option (List Piece)
  | none, [] => some []
  | some _, [] => none
  | none, '\x7b' :: '\x7b' :: cs => (formatPieces none cs).map (.lit '\x7b' :: ·)
  | none, '\x7d' :: '\x7d' :: cs => (formatPieces none cs).map (.lit '\x7d' :: ·)
  | none, '\x7b' :: cs => formatPieces (some []) cs
  | none, '\x7d' :: _ => none
  | none, c :: cs => (formatPieces none cs).map (.lit c :: ·)
  | some x, '\x7d' :: cs =>
      if isIdentifier x then (formatPieces none cs).map (.field x :: ·) else none
  | some x, c :: cs => formatPieces (some (x ++ [c])) cs

/-- The text of the pieces: `value` is the keyword of the value, the other fields are
the further keywords. -/
def formatText (rt : Runtime) (v : Value) (kw : Env) : List Piece → Except PyError Str
  | [] => .ok []
  | .lit c :: ps => do
      let rest ← formatText rt v kw ps
      pure (c :: rest)
  | .field x :: ps => do
      let s ← if x = "value" then rt.strValue v
        else match kw.lookup x with
          | some s => .ok s
          | none => .error .keyError
      let rest ← formatText rt v kw ps
      pure (s ++ rest)

/-- `fmt.format(value=v, **kw)`: a keyword given twice is a `TypeError`. -/
def Runtime.format (rt : Runtime) (fmt : Str) (v : Value) (kw : Env) : Except PyError Str :=
  if (kw.lookup ("value" : Str)).isSome then .error .typeError
  else
    match formatPieces none fmt with
    | some ps => formatText rt v kw ps
    | none => rt.formatOther fmt v kw

/-! ## Reading the rules back -/

theorem lex_inName {y : Str} (hy : ∀ c ∈ y, isNameChar c = true) (x rest : Str) :
    lex (.inName x) (y ++ rest) = lex (.inName (x ++ y)) rest := by
  induction y generalizing x with
  | nil => simp
  | cons c cs ih =>
    rw [List.cons_append, lex, if_pos (hy c List.mem_cons_self),
      ih (fun d hd => hy d (List.mem_cons_of_mem _ hd))]
    simp

theorem lex_inNum {ds : Str} (hds : ∀ c ∈ ds, c.isDigit = true) (x : Str) :
    lex (.inNum x) ds = some [.num (x ++ ds)] := by
  induction ds generalizing x with
  | nil => simp [lex]
  | cons c cs ih =>
    rw [lex, if_pos (hds c List.mem_cons_self),
      ih (fun d hd => hds d (List.mem_cons_of_mem _ hd))]
    simp

theorem lex_inNum_close {ds : Str} (hds : ∀ c ∈ ds, c.isDigit = true) (x : Str) :
    lex (.inNum x) (ds ++ [')']) = some [.num (x ++ ds), .sym ')'] := by
  induction ds generalizing x with
  | nil => simp [lex, lexBegin, isNameStart]
  | cons c cs ih =>
    rw [List.cons_append, lex, if_pos (hds c List.mem_cons_self),
      ih (fun d hd => hds d (List.mem_cons_of_mem _ hd))]
    simp

theorem lexBegin_nameStart {c : Char} (hc : isNameStart c = true) :
    lexBegin c = some (.inName [c], []) := by
  have h1 : c ≠ ' ' := by rintro rfl; exact absurd hc (by decide)
  have h2 : c ≠ '\t' := by rintro rfl; exact absurd hc (by decide)
  simp [lexBegin, h1, h2, hc]

theorem lexBegin_isDigit {c : Char} (hc : c.isDigit = true) :
    lexBegin c = some (.inNum [c], []) := by
  have h1 : c ≠ ' ' := by rintro rfl; exact absurd hc (by decide)
  have h2 : c ≠ '\t' := by rintro rfl; exact absurd hc (by decide)
  have h3 : isNameStart c = false := by
    have hd := isDigit_iff.1 hc
    have hne : c ≠ '_' := by rintro rfl; exact absurd hc (by decide)
    rw [isNameStart, Bool.or_eq_false_iff, beq_eq_false_iff_ne]
    refine ⟨?_, hne⟩
    rw [Bool.eq_false_iff, Ne, isAlpha_iff]
    omega
  simp [lexBegin, h1, h2, h3, hc]

/-- A name followed by a closing bracket. -/
theorem lex_name_close {x : Str} (hx : isIdentifier x = true) (rest : Str) :
    lex .between (x ++ ')' :: rest) =
      (lex .between rest).map fun ts => .name x :: .sym ')' :: ts := by
  obtain ⟨c, cs, rfl, hc, hcs⟩ := isIdentifier_cons hx
  rw [List.cons_append, lex, lexBegin_nameStart hc]
  simp only [Option.bind_eq_bind, Option.bind_some, lex_inName hcs, List.singleton_append]
  rw [lex]
  have : lexBegin ')' = some (.between, [.sym ')']) := rfl
  cases h : lex .between rest <;> simp [this, h, isNameChar]

theorem lex_int_open (rest : Str) :
    lex .between ("int(" ++ rest) =
      (lex .between rest).map fun ts => .name "int" :: .sym '(' :: ts := by
  show lex .between ('i' :: 'n' :: 't' :: '(' :: rest) = _
  cases h : lex .between rest <;> simp [lex, lexBegin, h, isNameStart, isNameChar]

theorem lex_str_open (rest : Str) :
    lex .between ("str(" ++ rest) =
      (lex .between rest).map fun ts => .name "str" :: .sym '(' :: ts := by
  show lex .between ('s' :: 't' :: 'r' :: '(' :: rest) = _
  cases h : lex .between rest <;> simp [lex, lexBegin, h, isNameStart, isNameChar]

theorem lex_mod_num (n : Nat) (rest : Str) (hrest : rest = [] ∨ rest = [')']) :
    lex .between (" % " ++ (natText n ++ rest)) =
      some (.sym '%' :: .num (natText n) :: rest.map .sym) := by
  obtain ⟨c, cs, hcs⟩ := List.exists_cons_of_ne_nil (natText_ne_nil n)
  have hdig : ∀ d ∈ c :: cs, d.isDigit = true := fun d hd => natText_isDigit d (hcs ▸ hd)
  have hc := lexBegin_isDigit (hdig c List.mem_cons_self)
  have hlex : lex (.inNum [c]) (cs ++ rest) = some (.num (c :: cs) :: rest.map .sym) := by
    rcases hrest with rfl | rfl
    · rw [List.append_nil, lex_inNum (fun d hd => hdig d (List.mem_cons_of_mem _ hd))]
      rfl
    · exact lex_inNum_close (fun d hd => hdig d (List.mem_cons_of_mem _ hd)) [c]
  rw [hcs]
  show lex .between (' ' :: '%' :: ' ' :: c :: (cs ++ rest)) = _
  have h1 : lexBegin ' ' = some (.between, []) := rfl
  have h2 : lexBegin '%' = some (.between, [.sym '%']) := rfl
  simp [lex, h1, h2, hc, hlex]

theorem natText_head_ne_zero {n : Nat} (hn : n ≠ 0) : (natText n).head? ≠ some '0' := by
  induction n using Nat.strong_induction_on with
  | _ n ih =>
    by_cases hlt : n < 10
    · rw [natText, Nat.toDigits_of_lt_base hlt]
      interval_cases n <;> simp_all [Nat.digitChar]
    · have hle : 10 ≤ n := by omega
      have hdiv : n / 10 ≠ 0 := by omega
      rw [natText, Nat.toDigits_of_base_le (by decide) hle, List.head?_append_of_ne_nil _
        Nat.toDigits_ne_nil]
      exact ih (n / 10) (by omega) hdiv

theorem numOf_natText (n : Nat) : numOf (natText n) = some (.num n) := by
  have hcond : (decide ((natText n).length > 1) && (natText n).head? == some '0') = false := by
    by_cases hn : n = 0
    · subst hn
      rfl
    · simp [natText_head_ne_zero hn]
  rw [numOf, hcond, ofDigits_natText]
  rfl

/-! ### The parser on the shipped rules -/

/-- Tokens at which every operator chain ends. -/
def closes : List Token → Bool
  | [] => true
  | t :: _ => t == .sym ')'

theorem parseTail_closes {ts : List Token} (h : closes ts = true) (fuel : Nat) (level : Level)
    (a : Expr) : parseTail (fuel + 1) level a ts = some (a, ts) := by
  cases ts with
  | nil => cases level <;> rfl
  | cons t ts =>
    obtain rfl : t = .sym ')' := by simpa [closes] using h
    cases level <;> rfl

theorem parseTail_primary_mod (fuel : Nat) (a : Expr) (ts : List Token) :
    parseTail (fuel + 1) .primary a (.sym '%' :: ts) = some (a, .sym '%' :: ts) := rfl

theorem parseTail_term_mod (fuel : Nat) (a : Expr) (ts : List Token) :
    parseTail (fuel + 1) .term a (.sym '%' :: ts) =
      (parseLevel fuel .primary ts).bind fun r => parseTail fuel .term (.mod a r.1) r.2 := rfl

theorem parseLevel_sum (fuel : Nat) (ts : List Token) : parseLevel (fuel + 1) .sum ts =
    (parseLevel fuel .term ts).bind fun r => parseTail fuel .sum r.1 r.2 := rfl

theorem parseLevel_term (fuel : Nat) (ts : List Token) : parseLevel (fuel + 1) .term ts =
    (parseLevel fuel .primary ts).bind fun r => parseTail fuel .term r.1 r.2 := rfl

theorem parseLevel_primary (fuel : Nat) (ts : List Token) : parseLevel (fuel + 1) .primary ts =
    (parseLevel fuel .atom ts).bind fun r => parseTail fuel .primary r.1 r.2 := rfl

/-- An atom before the end of an expression is the expression. -/
theorem parseLevel_of_atom {fuel : Nat} {ts rest : List Token} {a : Expr}
    (hatom : parseLevel (fuel + 1) .atom ts = some (a, rest)) (hrest : closes rest = true) :
    parseLevel (fuel + 4) .sum ts = some (a, rest) := by
  rw [parseLevel_sum, parseLevel_term, parseLevel_primary, hatom]
  simp only [Option.bind_some, parseTail_closes hrest]

theorem parseLevel_name {x : Str} (hx : isVariable x = true) (fuel : Nat) (ts : List Token) :
    parseLevel (fuel + 1) .atom (.name x :: .sym ')' :: ts) = some (.name x, .sym ')' :: ts) := by
  show (if isVariable x then _ else _) = _
  rw [if_pos hx]

theorem parseLevel_num (fuel n : Nat) (ts : List Token) :
    parseLevel (fuel + 1) .atom (.num (natText n) :: ts) = some (.num n, ts) := by
  show (numOf (natText n)).map _ = _
  rw [numOf_natText]
  rfl

/-- A call whose argument is known. -/
theorem parseLevel_call {f : Str} (hf : isVariable f = true) {fuel : Nat} {ts rest : List Token}
    {a : Expr} (ha : parseLevel fuel .sum ts = some (a, .sym ')' :: rest)) :
    parseLevel (fuel + 1) .atom (.name f :: .sym '(' :: ts) = some (.call f a, rest) := by
  show (parseLevel fuel .sum ts).bind _ = _
  rw [ha, Option.bind_some]
  show (if isVariable f then _ else _) = _
  rw [if_pos hf]

/-- `int(x) % n`, before the end of an expression. -/
theorem parseLevel_intMod {x : Str} (hx : isVariable x = true) (fuel n : Nat) {ts : List Token}
    (hts : closes ts = true) :
    parseLevel (fuel + 8) .sum
        (.name "int" :: .sym '(' :: .name x :: .sym ')' :: .sym '%' :: .num (natText n) :: ts) =
      some (.mod (.call "int" (.name x)) (.num n), ts) := by
  have harg : ∀ ds, parseLevel (fuel + 4) .sum (.name x :: .sym ')' :: ds) =
      some (.name x, .sym ')' :: ds) := fun ds =>
    parseLevel_of_atom (parseLevel_name hx fuel ds) rfl
  have hright : parseLevel (fuel + 5) .primary (.num (natText n) :: ts) = some (.num n, ts) := by
    rw [parseLevel_primary, parseLevel_num, Option.bind_some, parseTail_closes hts]
  rw [parseLevel_sum, parseLevel_term, parseLevel_primary, parseLevel_call (by decide) (harg _),
    Option.bind_some, parseTail_primary_mod, Option.bind_some, parseTail_term_mod, hright]
  simp only [Option.bind_some, parseTail_closes hts]

/-- `int(x) % n` reads back as the tree. -/
theorem parseExpr_intMod {x : Str} (hx : isVariable x = true) (n : Nat) :
    parseExpr ("int(" ++ x ++ ") % " ++ natText n) =
      some (.mod (.call "int" (.name x)) (.num n)) := by
  have hid : isIdentifier x = true := (Bool.and_eq_true _ _ ▸ hx).1
  have htext : ("int(" ++ x ++ ") % " ++ natText n : Str) =
      "int(" ++ (x ++ ')' :: ((" % " : Str) ++ (natText n ++ []))) := by
    simp
  rw [htext, parseExpr, lex_int_open, lex_name_close hid, lex_mod_num n [] (Or.inl rfl)]
  simp only [Option.map_some, List.map_nil, Option.bind_eq_bind, Option.bind_some,
    List.length_cons, List.length_nil]
  rw [parseLevel_intMod hx 27 n rfl]

/-- `str(int(x) % n)` reads back as the tree. -/
theorem parseExpr_strIntMod {x : Str} (hx : isVariable x = true) (n : Nat) :
    parseExpr ("str(int(" ++ x ++ ") % " ++ natText n ++ ")") =
      some (.call "str" (.mod (.call "int" (.name x)) (.num n))) := by
  have hid : isIdentifier x = true := (Bool.and_eq_true _ _ ▸ hx).1
  have htext : ("str(int(" ++ x ++ ") % " ++ natText n ++ ")" : Str) =
      "str(" ++ (("int(" : Str) ++ (x ++ ')' :: ((" % " : Str) ++ (natText n ++ [')'])))) := by
    simp
  rw [htext, parseExpr, lex_str_open, lex_int_open, lex_name_close hid,
    lex_mod_num n [')'] (Or.inr rfl)]
  simp only [Option.map_some, List.map_cons, List.map_nil, Option.bind_eq_bind, Option.bind_some,
    List.length_cons, List.length_nil]
  rw [parseLevel_of_atom (parseLevel_call (f := ("str" : Str)) (by decide)
    (parseLevel_intMod hx 38 n rfl)) rfl]

/-! ### The values of the shipped rules -/

section Values

variable (rt : Runtime) {env : Env} {x v : Str}

theorem Expr.eval_intMod (hv : env.lookup x = some v)
    (hint : env.lookup ("int" : Str) = none) (n : Nat) :
    (Expr.mod (.call "int" (.name x)) (.num n)).eval rt env =
      (rt.int v).bind fun k =>
        if n = 0 then .error .zeroDivisionError else .ok (.int (k.fmod n)) := by
  simp only [Expr.eval, lookupName, hv, hint, true_or, if_true]
  cases h : rt.int v <;>
    simp [Runtime.applyValue, h, bind, Except.bind, Except.map]

/-- The value of `int(x) % n`. -/
theorem Runtime.eval_intMod (hx : isVariable x = true) (hv : env.lookup x = some v)
    (hint : env.lookup ("int" : Str) = none) (n : Nat) :
    rt.eval ("int(" ++ x ++ ") % " ++ natText n) env =
      if rt.digitsFit (natText n).length = true then
        (rt.int v).bind fun k =>
          if n = 0 then .error .zeroDivisionError else .ok (.int (k.fmod n))
      else .error .syntaxError := by
  rw [Runtime.eval, parseExpr_intMod hx]
  simp only [Expr.literals, List.nil_append, List.all_cons, List.all_nil, Bool.and_true,
    Expr.eval_intMod rt hv hint]

/-- The value of `str(int(x) % n)`. -/
theorem Runtime.eval_strIntMod (hx : isVariable x = true) (hv : env.lookup x = some v)
    (hint : env.lookup ("int" : Str) = none) (hstr : env.lookup ("str" : Str) = none) {n : Nat}
    (hn : n ≠ 0) :
    rt.eval ("str(int(" ++ x ++ ") % " ++ natText n ++ ")") env =
      if rt.digitsFit (natText n).length = true then
        (rt.int v).map fun k => .str (intText (k.fmod n))
      else .error .syntaxError := by
  rw [Runtime.eval, parseExpr_strIntMod hx]
  simp only [Expr.literals, List.nil_append, List.all_cons, List.all_nil, Bool.and_true]
  refine ite_congr rfl (fun hfit => ?_) fun _ => rfl
  rw [Expr.eval, Expr.eval_intMod rt hv hint]
  simp only [lookupName, hstr, or_true, if_true]
  cases h : rt.int v with
  | error e => rfl
  | ok k =>
    have hlt : (k.fmod n).natAbs ≤ n := by
      have h0 := Int.fmod_nonneg_of_pos k (b := n) (by omega)
      have h1 := Int.fmod_lt_of_pos k (b := n) (by omega)
      omega
    have hs : rt.strInt (k.fmod n) = .ok (intText (k.fmod n)) := by
      rw [Runtime.strInt, if_pos (rt.digitsFit_natText hlt hfit)]
    simp [Except.map, Except.bind, bind, hn, Runtime.applyValue, Runtime.strValue, hs]

/-- The value of `str(int(route_suffix))`. -/
theorem Runtime.eval_strInt_routeSuffix (hv : env.lookup ("route_suffix" : Str) = some v)
    (hint : env.lookup ("int" : Str) = none) (hstr : env.lookup ("str" : Str) = none) :
    rt.eval "str(int(route_suffix))" env =
      (rt.int v).bind fun k => (rt.strInt k).map .str := by
  have hparse : parseExpr "str(int(route_suffix))" =
      some (.call "str" (.call "int" (.name "route_suffix"))) := by decide
  rw [Runtime.eval, hparse]
  simp only [Expr.literals, List.all_nil, if_true, Expr.eval, lookupName, hv, hint, hstr, true_or,
    or_true]
  cases h : rt.int v <;>
    simp [Runtime.applyValue, Runtime.strValue, h, bind, Except.bind, Except.map]

/-- `"{value}".format(value=v, **kw)` is `str(v)`. -/
theorem Runtime.format_value (v : Value) {kw : Env} (hkw : kw.lookup ("value" : Str) = none) :
    rt.format "\x7bvalue\x7d" v kw = rt.strValue v := by
  have hp : formatPieces none "\x7bvalue\x7d" = some [.field "value"] := by decide
  rw [Runtime.format, hkw, hp]
  cases h : rt.strValue v <;> simp [formatText, h, bind, Except.bind, pure, Except.pure]

/-- A factor named `value` collides with the keyword of the value. -/
theorem Runtime.format_keyword_twice (fmt : Str) (v : Value) {kw : Env}
    (hkw : (kw.lookup ("value" : Str)).isSome = true) :
    rt.format fmt v kw = .error .typeError := by
  rw [Runtime.format, if_pos hkw]

end Values

end Py
