import SqlGatekeeper.Services.SqlParser

/-!
# What the parser's patterns find

The three patterns on a statement that is put together from known pieces.

* `StartsWithWord`: a pattern that only starts at a word of a set; `scan_pass_words`: a scan for
  it goes over a text without such words.
* `PlainName`: an identifier that is no keyword; `NoWord`: a text without certain words.
* `Reference`: a table reference with an alias; `matchAt_reference`: the table pattern finds it.
* `tables_of_references`: the tables of a statement, in order.
* `LimitFits`, `parse_returns_iff`: a statement is read exactly when its limit is.
* `parse_eq_ok`: the fields of a parsed statement.
-/

namespace SqlGatekeeper

open Py Regex

variable {U : UnicodeData}

/-! ## Patterns that start with a word -/

/-- A pattern matches only where a word of a set stands, with whitespace behind it. -/
def StartsWithWord (U : UnicodeData) (K : Str → Bool) (r : Regex) : Prop :=
  ∀ pos prev rest, (r.matchAt ⟨pos, prev, rest⟩).isSome = true →
    ∃ x c cs, rest = x ++ c :: cs ∧ K x = true ∧ x ≠ [] ∧
      (∀ d ∈ x, isWord U d = true) ∧ isSpace c = true ∧ prev.any (isWord U) = false

/-- A pattern word matches what spells it. -/
theorem matches_word {l : Str} {cur stop : Cursor} {caps caps' : Captures}
    (h : (word l).Matches cur caps stop caps') :
    ∃ w cs, cur.rest = w ++ cs ∧ foldsToWord l w = true ∧ stop = cur.after w cs := by
  induction l generalizing cur caps with
  | nil => exact ⟨[], cur.rest, rfl, rfl, h.1⟩
  | cons d l ih =>
    obtain ⟨mid, capsm, ⟨c, cs, hr, hc, rfl, -⟩, hrest⟩ := h
    obtain ⟨w, ds, hw, hf, hstop⟩ := ih hrest
    have hcs : cs = w ++ ds := hw
    refine ⟨c :: w, ds, by rw [hr, hcs]; rfl, by rw [foldsToWord, hc, hf]; rfl, ?_⟩
    rw [hstop, after_after]
    rfl

theorem caps_of_matches_word {l : Str} {cur stop : Cursor} {caps caps' : Captures}
    (h : (word l).Matches cur caps stop caps') : caps' = caps := by
  induction l generalizing cur caps with
  | nil => exact h.2
  | cons d l ih =>
    obtain ⟨mid, capsm, ⟨-, -, -, -, -, rfl⟩, hrest⟩ := h
    exact ih hrest

/-- The letters of a pattern are name characters, in every case. -/
theorem foldClass_of_foldsTo {l c : Char} (hl : l.isAlpha = true) (h : foldsTo l c = true) :
    foldClass isNameChar c = true := by
  have hfold : c ∈ asciiFolding → foldClass isNameChar c = true := fun hc => by
    rw [foldClass, List.contains_iff_mem.2 hc, Bool.or_true]
  simp only [foldsTo, Bool.or_eq_true, Bool.and_eq_true, beq_iff_eq] at h
  rcases h with ((h | ⟨-, rfl | rfl⟩) | ⟨-, rfl⟩) | ⟨-, rfl⟩
  · have hc : c.isAlpha = true := by rw [← isAlpha_toLower, h, hl]
    rw [foldClass, isNameChar, Char.isAlphanum, hc]
    rfl
  · exact hfold (by decide)
  · exact hfold (by decide)
  · exact hfold (by decide)
  · exact hfold (by decide)

theorem foldClass_of_foldsToWord {l x : Str} (hl : l.all Char.isAlpha = true)
    (h : foldsToWord l x = true) : ∀ c ∈ x, foldClass isNameChar c = true := by
  induction l generalizing x with
  | nil =>
    cases x with
    | nil => simp
    | cons c x => exact absurd h (by simp [foldsToWord])
  | cons d l ih =>
    cases x with
    | nil => simp
    | cons c x =>
      rw [foldsToWord, Bool.and_eq_true] at h
      rw [List.all_cons, Bool.and_eq_true] at hl
      exact List.forall_mem_cons.2 ⟨foldClass_of_foldsTo hl.1 h.1, ih hl.2 h.2⟩

/-- What the patterns take for a name character is a word character. -/
theorem isWord_of_foldClass {c : Char} (h : foldClass isNameChar c = true) :
    isWord U c = true := by
  rw [foldClass, Bool.or_eq_true] at h
  rcases h with h | h
  · exact isWord_of_isNameChar U h
  · rw [isWord, U.isAlnum_folding c (List.contains_iff_mem.1 h), Bool.true_or]

theorem isWord_of_foldsToWord {l x : Str} (hl : l.all Char.isAlpha = true)
    (h : foldsToWord l x = true) : ∀ c ∈ x, isWord U c = true :=
  fun c hc => isWord_of_foldClass (foldClass_of_foldsToWord hl h c hc)

theorem ne_nil_of_foldsToWord {d : Char} {l x : Str} (h : foldsToWord (d :: l) x = true) :
    x ≠ [] := by
  rintro rfl
  exact absurd h (by simp [foldsToWord])

/-- A pattern of a boundary, some words, whitespace and more. -/
theorem startsWithWord_of {K : Str → Bool} {w r : Regex}
    (hw : ∀ {cur stop : Cursor} {caps caps' : Captures}, w.Matches cur caps stop caps' →
      ∃ x cs, cur.rest = x ++ cs ∧ stop = cur.after x cs ∧ K x = true ∧ x ≠ [] ∧
        ∀ d ∈ x, isWord U d = true) :
    StartsWithWord U K (seq (boundary (isWord U)) (seq w (seq (many1 isSpace) r))) := by
  intro pos prev rest h
  obtain ⟨stop, caps, mid, capsm, ⟨hb, rfl, rfl⟩, mid2, caps2, hword, mid3, caps3,
      hspace, -⟩ :=
    matchAt_isSome_iff.1 h
  obtain ⟨x, cs, hx, rfl, hK, hne, hall⟩ := hw hword
  obtain ⟨mid4, caps4, ⟨c, ds, hc, hsp, -, -⟩, -⟩ := hspace
  have hc' : cs = c :: ds := hc
  refine ⟨x, c, ds, by rw [← hc']; exact hx, hK, hne, hall, hsp, ?_⟩
  obtain ⟨d, y, rfl⟩ := List.exists_cons_of_ne_nil hne
  rw [Cursor.isBoundary] at hb
  simp only at hx hb
  rw [hx] at hb
  simpa [hall d List.mem_cons_self] using hb

/-- Is a text one of these words, as a pattern reads it? -/
def isWordOf (ls : List Str) (x : Str) : Bool := ls.any fun l => foldsToWord l x

theorem matches_isWordOf {ls : List Str} {l : Str} (hmem : l ∈ ls)
    (hl : (l.all Char.isAlpha && !l.isEmpty) = true) {cur stop : Cursor} {caps caps' : Captures}
    (h : (word l).Matches cur caps stop caps') :
    ∃ x cs, cur.rest = x ++ cs ∧ stop = cur.after x cs ∧ isWordOf ls x = true ∧ x ≠ [] ∧
      ∀ d ∈ x, isWord U d = true := by
  obtain ⟨x, cs, hx, hf, hstop⟩ := matches_word h
  rw [Bool.and_eq_true] at hl
  cases l with
  | nil => exact absurd hl.2 (by simp)
  | cons d l =>
    exact ⟨x, cs, hx, hstop, List.any_eq_true.2 ⟨_, hmem, hf⟩, ne_nil_of_foldsToWord hf,
      isWord_of_foldsToWord hl.1 hf⟩

/-- No word of a text is in a set. -/
def NoWord (U : UnicodeData) (K : Str → Bool) (s : Str) : Prop := ∀ x ∈ words U s, K x = false

/-- Such a pattern matches nowhere in a text that has none of the words, if no word goes over the
end of the text. -/
theorem StartsWithWord.matchAt_none {K : Str → Bool} {r : Regex} (hr : StartsWithWord U K r)
    {w rest : Str} (hK : NoWord U K w)
    (hend : ∀ a ∈ w.getLast?, ∀ b ∈ rest.head?, isWord U a = false ∨ isWord U b = false)
    (pos : Nat) (prev : Option Char) (u : Str) (c : Char) (v : Str) (hw : w = u ++ c :: v) :
    r.matchAt ⟨pos, lastOf prev u, c :: (v ++ rest)⟩ = none := by
  rw [← Option.not_isSome_iff_eq_none]
  intro hsome
  obtain ⟨x, d, cs, hx, hKx, hne, hall, hd, hprev⟩ := hr _ _ _ hsome
  -- The word lies inside the text: it cannot go over its end.
  obtain ⟨v', hv', hhead⟩ : ∃ v', c :: v = x ++ v' ∧ ∀ e ∈ v'.head?,
      isWord U e = false := by
    rw [← List.cons_append] at hx
    rcases List.append_eq_append_iff.1 hx with ⟨y, rfl, hrest⟩ | ⟨v', hv', hds⟩
    · cases y with
      | nil => exact ⟨[], by simp, by simp⟩
      | cons e y =>
        have hlast : (c :: v).getLast (by simp) ∈ w.getLast? := by
          rw [hw, Option.mem_def, List.getLast?_append_of_ne_nil _ (List.cons_ne_nil c v)]
          exact List.getLast?_eq_some_getLast _
        rcases hend _ hlast e (by rw [hrest]; rfl) with h | h
        · rw [hall _ (List.mem_append_left _ (List.getLast_mem _))] at h
          exact absurd h (by simp)
        · rw [hall e (List.mem_append_right _ List.mem_cons_self)] at h
          exact absurd h (by simp)
    · refine ⟨v', hv', fun e he => ?_⟩
      cases v' with
      | nil => exact absurd he (by simp)
      | cons f v' =>
        injection hds with hdf _
        obtain rfl : f = e := by simpa using he
        exact isWord_of_isSpace U (hdf ▸ hd)
  have hu : ∀ e ∈ u.getLast?, isWord U e = false := by
    intro e he
    rcases List.eq_nil_or_concat u with rfl | ⟨u, f, rfl⟩
    · exact absurd he (by simp)
    · rw [List.concat_eq_append, lastOf_append] at hprev
      obtain rfl : f = e := by simpa using he
      simpa using hprev
  have hmem : x ∈ words U w := by
    rw [hw, hv']
    exact mem_runs hne hall hu hhead
  rw [hK x hmem] at hKx
  exact absurd hKx (by simp)

/-- A scan for such a pattern goes over such a text. -/
theorem scan_pass_words {K : Str → Bool} {r : Regex} (hr : StartsWithWord U K r) {w rest : Str}
    (hK : NoWord U K w)
    (hend : ∀ a ∈ w.getLast?, ∀ b ∈ rest.head?, isWord U a = false ∨ isWord U b = false)
    (pos : Nat) (prev : Option Char) :
    scan r (w ++ rest) 0 pos prev = scan r rest 0 (pos + w.length) (lastOf prev w) :=
  scan_pass fun u c v hw => hr.matchAt_none hK hend _ prev u c v hw

/-! ## Texts without certain words -/

/-- The keywords of the statements. -/
def sqlKeywords : List Str :=
  ["select", "from", "join", "on", "as", "where", "and", "or", "not", "limit"]

/-- A plain identifier that is no keyword. -/
structure PlainName (x : Str) : Prop where
  identifier : isIdentifier x = true
  notKeyword : x.map Char.toLower ∉ sqlKeywords

theorem plainName_of {x : Str}
    (h : (isIdentifier x && !sqlKeywords.contains (x.map Char.toLower)) = true) : PlainName x := by
  rw [Bool.and_eq_true, Bool.not_eq_true', List.contains_eq_mem, decide_eq_false_iff_not] at h
  exact ⟨h.1, h.2⟩

theorem isNameChar_of_isNameStart {c : Char} (hc : isNameStart c = true) :
    isNameChar c = true := by
  rw [isNameStart, Bool.or_eq_true] at hc
  rw [isNameChar, Bool.or_eq_true]
  exact hc.imp_left fun h => by rw [Char.isAlphanum, h, Bool.true_or]

theorem isNameChar_of_isIdentifier {x : Str} (hx : isIdentifier x = true) :
    ∀ c ∈ x, isNameChar c = true := by
  obtain ⟨c, cs, rfl, hc, hcs⟩ := isIdentifier_cons hx
  exact List.forall_mem_cons.2 ⟨isNameChar_of_isNameStart hc, hcs⟩

theorem toNat_lt_of_isNameChar {c : Char} (hc : isNameChar c = true) : c.toNat < 128 := by
  rw [isNameChar, Bool.or_eq_true] at hc
  rcases hc with h | h
  · exact toNat_lt_of_isAlphanum h
  · rw [beq_iff_eq] at h
    rw [h]
    decide

theorem ascii_of_isIdentifier {x : Str} (hx : isIdentifier x = true) : Ascii x :=
  fun c hc => toNat_lt_of_isNameChar (isNameChar_of_isIdentifier hx c hc)

theorem isNameChar_of_isDigit {c : Char} (hc : c.isDigit = true) : isNameChar c = true := by
  rw [isNameChar, Char.isAlphanum, hc, Bool.or_true, Bool.true_or]

/-- On ASCII the word characters are the name characters. -/
theorem isWord_ascii {c : Char} (hc : c.toNat < 128) : isWord U c = isNameChar c := by
  rw [isWord, isNameChar, U.isAlnum_ascii c hc]

theorem isDecimal_of_not_isDigit {c : Char} (hascii : c.toNat < 128) (hc : c.isDigit = false) :
    isDecimal U c = false := by
  rw [isDecimal, U.decimal_ascii c hascii, hc]
  rfl

theorem isDecimal_natText (v : Nat) : ∀ c ∈ natText v, isDecimal U c = true := fun c hc => by
  rw [isDecimal, decimal_isDigit U (natText_isDigit c hc)]
  rfl

/-- On ASCII a pattern letter only matches itself, in either case. -/
theorem toLower_of_foldsTo {l c : Char} (hc : c.toNat < 128) (h : foldsTo l c = true) :
    c.toLower = l := by
  have h1 : c ≠ dottedI := by rintro rfl; exact absurd hc (by decide)
  have h2 : c ≠ dotlessI := by rintro rfl; exact absurd hc (by decide)
  have h3 : c ≠ longS := by rintro rfl; exact absurd hc (by decide)
  have h4 : c ≠ kelvin := by rintro rfl; exact absurd hc (by decide)
  simpa [foldsTo, h1, h2, h3, h4] using h

/-- On ASCII a pattern word only matches itself, in any case. -/
theorem toLower_of_foldsToWord {l x : Str} (hx : Ascii x) (h : foldsToWord l x = true) :
    x.map Char.toLower = l := by
  induction l generalizing x with
  | nil =>
    cases x with
    | nil => rfl
    | cons c x => exact absurd h (by simp [foldsToWord])
  | cons d l ih =>
    cases x with
    | nil => exact absurd h (by simp [foldsToWord])
    | cons c x =>
      rw [foldsToWord, Bool.and_eq_true] at h
      rw [List.map_cons, toLower_of_foldsTo (hx c List.mem_cons_self) h.1,
        ih (fun e he => hx e (List.mem_cons_of_mem _ he)) h.2]

section NoWord

variable {K : Str → Bool}

theorem noWord_append_cons {a b : Str} {c : Char} (hc : isWord U c = false) :
    NoWord U K (a ++ c :: b) ↔ NoWord U K a ∧ NoWord U K b := by
  simp only [NoWord, words, runs_append_cons hc, List.mem_append, or_imp, forall_and]

theorem noWord_cons {b : Str} {c : Char} (hc : isWord U c = false) :
    NoWord U K (c :: b) ↔ NoWord U K b := by
  simp only [NoWord, words, runs_cons hc]

theorem noWord_append_space {a b : Str} :
    NoWord U K (a ++ ' ' :: b) ↔ NoWord U K a ∧ NoWord U K b :=
      noWord_append_cons (isWord_space U)

theorem noWord_space {b : Str} : NoWord U K (' ' :: b) ↔ NoWord U K b :=
  noWord_cons (isWord_space U)

theorem noWord_nil : NoWord U K [] := by
  intro x hx
  exact absurd hx (by simp [words, runs, runsFrom])

/-- The words of a text can be checked one by one. -/
theorem noWord_of_all {x : Str} (h : (words U x).all (!K ·) = true) : NoWord U K x :=
  fun y hy => by
  simpa using List.all_eq_true.1 h y hy

/-- A single word that is not in the set. -/
theorem noWord_of_word {x : Str} (hx : ∀ c ∈ x, isWord U c = true) (hnot : K x = false) :
    NoWord U K x := by
  intro y hy
  by_cases hne : x = []
  · subst hne
    exact noWord_nil y hy
  · rw [words, runs_of_all hne hx, List.mem_singleton] at hy
    rw [hy, hnot]

theorem noWord_of_keyword {x : Str} (hx : x.all isNameChar = true) (hnot : K x = false) :
    NoWord U K x :=
  noWord_of_word (fun c hc => isWord_of_isNameChar U (List.all_eq_true.1 hx c hc)) hnot

end NoWord

/-- A name that is no keyword matches no word of a pattern. -/
theorem PlainName.foldsToWord {x : Str} (hx : PlainName x) {l : Str} (hl : l ∈ sqlKeywords) :
    foldsToWord l x = false := by
  by_contra h
  have := toLower_of_foldsToWord (ascii_of_isIdentifier hx.identifier) (by simpa using h)
  exact hx.notKeyword (by rw [this]; exact hl)

theorem PlainName.noWord {ls : List Str} (hls : ls ⊆ sqlKeywords) {x : Str} (hx : PlainName x) :
    NoWord U (isWordOf ls) x := by
  refine noWord_of_word
    (fun c hc => isWord_of_isNameChar U (isNameChar_of_isIdentifier hx.identifier c hc)) ?_
  rw [isWordOf, List.any_eq_false]
  exact fun l hl => by rw [hx.foldsToWord (hls hl)]; decide

/-- No number is a word of letters. -/
theorem noWord_natText {ls : List Str} (hls : ls.all (fun l => l.any Char.isAlpha) = true)
    (n : Nat) : NoWord U (isWordOf ls) (natText n) := by
  refine noWord_of_word
    (fun c hc => isWord_of_isNameChar U (isNameChar_of_isDigit (natText_isDigit c hc))) ?_
  rw [isWordOf, List.any_eq_false]
  intro l hl h
  have hlow := toLower_of_foldsToWord
    (fun c hc => toNat_lt_of_isDigit (natText_isDigit c hc)) h
  obtain ⟨d, hd, halpha⟩ := List.any_eq_true.1 (List.all_eq_true.1 hls l hl)
  rw [← hlow] at hd
  obtain ⟨c, hc, rfl⟩ := List.mem_map.1 hd
  rw [isAlpha_toLower] at halpha
  have h1 := isDigit_iff.1 (natText_isDigit c hc)
  have h2 := isAlpha_iff.1 halpha
  omega

/-! ## Table references -/

/-- The words that the table pattern starts with. -/
abbrev tableWords : List Str := ["from", "join"]

theorem tablePattern_starts : StartsWithWord U (isWordOf tableWords) (tablePattern U) := by
  refine startsWithWord_of fun {cur stop caps caps'} h => ?_
  obtain ⟨capsm, h, -⟩ := h
  rcases h with h | h
  · exact matches_isWordOf List.mem_cons_self (by decide) h
  · exact matches_isWordOf (List.mem_cons_of_mem _ List.mem_cons_self) (by decide) h

/-- What stands between a name and its alias. -/
def aliasSeparator (withAs : Bool) : Str := if withAs then ' ' :: ("as" ++ [' ']) else [' ']

/-- A table reference with an alias, as it is written. -/
structure Reference where
  keyword : Str
  name : Str
  withAs : Bool
  aliasName : Str

/-- The text of a reference. -/
def Reference.text (r : Reference) : Str :=
  r.keyword ++ ' ' :: (r.name ++ (aliasSeparator r.withAs ++ r.aliasName))

/-- The pattern reads a reference as it is meant: names are identifiers, and an alias that
stands without `as` is not `as` itself. -/
structure Reference.Valid (r : Reference) : Prop where
  keyword : r.keyword = "from" ∨ r.keyword = "join"
  name : isIdentifier r.name = true
  aliasName : isIdentifier r.aliasName = true
  notAs : r.withAs = false → foldsToWord "as" r.aliasName = false

/-- The table of a reference that stands at a position. -/
def Reference.table (r : Reference) (pos : Nat) : ParsedTable :=
  ⟨r.name, some r.aliasName, pos + r.keyword.length + 1,
    pos + r.keyword.length + 1 + r.name.length⟩

theorem spanTo_after {cur : Cursor} {w cs : Str} (h : cur.rest = w ++ cs) :
    cur.spanTo (cur.after w cs) = ⟨cur.pos, cur.pos + w.length, w⟩ := by
  rw [Cursor.spanTo, Cursor.after]
  simp only [Nat.add_sub_cancel_left]
  rw [h, List.take_left' rfl]

theorem isSpace_of_isNameChar {c : Char} (hc : isNameChar c = true) : isSpace c = false := by
  by_contra h
  have hw := isWord_of_isNameChar asciiData hc
  rw [isWord_of_isSpace asciiData (by simpa using h)] at hw
  exact absurd hw (by simp)

/-- An identifier starts with no space. -/
theorem head_of_isIdentifier {x : Str} (hx : isIdentifier x = true) (rest : Str) :
    ∀ c ∈ (x ++ rest).head?, isSpace c = false := by
  obtain ⟨c, cs, rfl, hc, -⟩ := isIdentifier_cons hx
  intro d hd
  obtain rfl : c = d := by simpa using hd
  exact isSpace_of_isNameChar (isNameChar_of_isNameStart hc)

section Match

variable {β : Type} {k : Cursor → Captures → Option β} {cur : Cursor} {caps : Captures}

theorem run_word_none {d : Char} {l : Str} (hl : l.head? = some d)
    (h : ∀ c ∈ cur.rest.head?, foldsTo d c = false) : (word l).run k cur caps = none := by
  cases l with
  | nil => exact absurd hl (by simp)
  | cons e l =>
    obtain rfl : e = d := by simpa using hl
    exact run_char_none h

/-- A word and whitespace are not found where an identifier stands that is another word. -/
theorem run_keyword_none {l a rest : Str} (hl : l.all Char.isAlpha = true)
    (hr : cur.rest = a ++ rest) (ha : isIdentifier a = true) (hnot : foldsToWord l a = false)
    (hrest : ∀ c ∈ rest.head?, foldClass isNameChar c = false) :
    (seq (word l) (many1 isSpace)).run k cur caps = none := by
  rcases h : (seq (word l) (many1 isSpace)).run k cur caps with _ | x
  · rfl
  obtain ⟨stop, caps', ⟨mid, capsm, hw, mid2, capsm2, ⟨c, cs, hc, hsp, -⟩, -⟩, -⟩ :=
    run_eq_some h
  obtain ⟨w, ds, hwds, hf, rfl⟩ := matches_word hw
  have hds : ds = c :: cs := hc
  rw [hr, hds] at hwds
  -- The word ends where the identifier does: behind it comes no name character.
  rcases List.append_eq_append_iff.1 hwds with ⟨y, hwy, hy⟩ | ⟨y, hay, hy⟩
  · cases y with
    | nil =>
      rw [List.append_nil] at hwy
      rw [hwy, hnot] at hf
      exact absurd hf (by simp)
    | cons e y =>
      have hname := foldClass_of_foldsToWord hl hf e
        (by rw [hwy]; exact List.mem_append_right _ List.mem_cons_self)
      rw [hrest e (by rw [hy]; rfl)] at hname
      exact absurd hname (by simp)
  · cases y with
    | nil =>
      rw [List.append_nil] at hay
      rw [← hay, hnot] at hf
      exact absurd hf (by simp)
    | cons e y =>
      injection hy with hce _
      have hname := isNameChar_of_isIdentifier ha e
        (by rw [hay]; exact List.mem_append_right _ List.mem_cons_self)
      rw [← hce] at hname
      rw [isSpace_of_isNameChar hname] at hsp
      exact absurd hsp (by simp)

/-- A group around an identifier. -/
theorem run_group_ident {n : Nat} {w cs : Str} {x : β} (hr : cur.rest = w ++ cs)
    (hw : isIdentifier w = true) (hcs : ∀ c ∈ cs.head?, foldClass isNameChar c = false)
    (hk : k (cur.after w cs) ((n, ⟨cur.pos, cur.pos + w.length, w⟩) :: caps) = some x) :
    (group n ident).run k cur caps = some x := by
  rw [run]
  refine run_ident hr hw hcs ?_
  rw [spanTo_after hr]
  exact hk

/-- Whitespace of one space. -/
theorem run_space {cs : Str} {x : β} (hr : cur.rest = ' ' :: cs)
    (hcs : ∀ c ∈ cs.head?, isSpace c = false) (hk : k (cur.after [' '] cs) caps = some x) :
    (many1 isSpace).run k cur caps = some x :=
  run_many1_longest (w := [' ']) hr (by simp) (by simp [isSpace]) hcs hk

end Match

theorem foldClass_space : foldClass isNameChar ' ' = false := by decide

section Reference

variable {β : Type} {k : Cursor → Captures → Option β} {cur : Cursor}
  {caps : Captures} {x : β}

/-- The alias part of the pattern reads separator and alias. -/
theorem run_alias {r : Reference} (hr : r.Valid) {rest : Str}
    (hcur : cur.rest = aliasSeparator r.withAs ++ (r.aliasName ++ rest))
    (hrest : ∀ c ∈ rest.head?, foldClass isNameChar c = false)
    (hk : k (cur.after (aliasSeparator r.withAs ++ r.aliasName) rest)
      ((3, ⟨cur.pos + (aliasSeparator r.withAs).length,
        cur.pos + (aliasSeparator r.withAs).length + r.aliasName.length,
        r.aliasName⟩) :: caps) = some x) :
    (opt (seq (many1 isSpace) (seq (opt (seq (word "as") (many1 isSpace))) (group 3 ident)))).run k
      cur caps = some x := by
  have hspace : ∀ c ∈ (r.aliasName ++ rest).head?, isSpace c = false :=
    head_of_isIdentifier hr.aliasName rest
  rw [run]
  refine Option.or_eq_some_iff.2 (Or.inl ?_)
  rw [run]
  rw [aliasSeparator] at hcur hk
  by_cases hwith : r.withAs = true
  · rw [if_pos hwith] at hcur hk
    have hcur' : cur.rest = ' ' :: ("as" ++ ' ' :: (r.aliasName ++ rest)) := hcur
    refine run_space hcur' (by simp [isSpace]) ?_
    rw [run, run]
    refine Option.or_eq_some_iff.2 (Or.inl ?_)
    rw [run, run_word (w := "as") rfl (by decide)]
    refine run_space rfl hspace ?_
    refine run_group_ident rfl hr.aliasName hrest ?_
    rw [after_after, after_after, after_after]
    exact hk
  · rw [if_neg hwith] at hcur hk
    have hcur' : cur.rest = ' ' :: (r.aliasName ++ rest) := hcur
    refine run_space hcur' hspace ?_
    rw [run, run, run_keyword_none (by decide) rfl hr.aliasName (hr.notAs (by simpa using hwith))
      hrest, Option.none_or]
    refine run_group_ident rfl hr.aliasName hrest ?_
    rw [after_after]
    exact hk

/-- Behind its first word the pattern reads name and alias. -/
theorem run_nameAndAlias {r : Reference} (hr : r.Valid) {rest : Str} {y : Nat → β}
    (hcur : cur.rest = ' ' :: (r.name ++ (aliasSeparator r.withAs ++ (r.aliasName ++ rest))))
    (hrest : ∀ c ∈ rest.head?, foldClass isNameChar c = false)
    (hk : ∀ n, k (cur.after (' ' :: (r.name ++ (aliasSeparator r.withAs ++ r.aliasName))) rest)
      ((3, ⟨n, n + r.aliasName.length, r.aliasName⟩) ::
        (2, ⟨cur.pos + 1, cur.pos + 1 + r.name.length, r.name⟩) :: caps) = some (y n)) :
    ∃ n, (seq (many1 isSpace) (seq (group 2 ident) (opt (seq (many1 isSpace)
      (seq (opt (seq (word "as") (many1 isSpace))) (group 3 ident)))))).run k cur caps =
        some (y n) := by
  have hsep : ∀ c ∈ (aliasSeparator r.withAs ++ (r.aliasName ++ rest)).head?,
      foldClass isNameChar c = false := by
    intro c hc
    rw [aliasSeparator] at hc
    split at hc
    · obtain rfl : ' ' = c := by simpa using hc
      exact foldClass_space
    · obtain rfl : ' ' = c := by simpa using hc
      exact foldClass_space
  refine ⟨cur.pos + 1 + r.name.length + (aliasSeparator r.withAs).length, ?_⟩
  rw [run]
  refine run_space hcur (head_of_isIdentifier hr.name _) ?_
  rw [run]
  refine run_group_ident rfl hr.name hsep ?_
  refine run_alias hr rfl hrest ?_
  rw [after_after, after_after]
  exact hk _

end Reference

/-- The table pattern finds a reference. -/
theorem matchAt_reference {r : Reference} (hr : r.Valid) (pos : Nat) {prev : Option Char}
    {rest : Str} (hprev : prev.any (isWord U) = false)
    (hrest : ∀ c ∈ rest.head?, foldClass isNameChar c = false) :
    ∃ m, (tablePattern U).matchAt ⟨pos, prev, r.text ++ rest⟩ = some m ∧
      m.stop = pos + r.text.length ∧ tableOfMatch m = some (r.table pos) := by
  have hboundary : (⟨pos, prev, r.text ++ rest⟩ : Cursor).isBoundary (isWord U) = true := by
    rw [Cursor.isBoundary, hprev]
    rcases hr.keyword with h | h
    · have : isWord U 'f' = true := isWord_of_isNameChar U (by decide)
      simp [Reference.text, h, this]
    · have : isWord U 'j' = true := isWord_of_isNameChar U (by decide)
      simp [Reference.text, h, this]
  have hcur : (⟨pos, prev, r.text ++ rest⟩ : Cursor).rest =
      r.keyword ++ ' ' :: (r.name ++ (aliasSeparator r.withAs ++ (r.aliasName ++ rest))) := by
    simp [Reference.text]
  set found : Nat → Match := fun n => ⟨pos, pos + r.text.length,
    [(3, ⟨n, n + r.aliasName.length, r.aliasName⟩),
      (2, ⟨pos + r.keyword.length + 1, pos + r.keyword.length + 1 + r.name.length, r.name⟩),
      (1, ⟨pos, pos + r.keyword.length, r.keyword⟩)]⟩ with hfound
  set behind : Cursor := (⟨pos, prev, r.text ++ rest⟩ : Cursor).after r.keyword
    (' ' :: (r.name ++ (aliasSeparator r.withAs ++ (r.aliasName ++ rest)))) with hbehind
  obtain ⟨n, hn⟩ : ∃ n, (seq (many1 isSpace) (seq (group 2 ident) (opt (seq (many1 isSpace)
      (seq (opt (seq (word "as") (many1 isSpace))) (group 3 ident)))))).run
        (fun stop caps => some (⟨pos, stop.pos, caps⟩ : Match)) behind
        [(1, ⟨pos, pos + r.keyword.length, r.keyword⟩)] = some (found n) :=
    run_nameAndAlias hr rfl hrest fun n => by
      rw [hbehind, after_after]
      simp [hfound, Cursor.after, Reference.text]
  refine ⟨found n, ?_, rfl, rfl⟩
  rw [matchAt, tablePattern, run, run, if_pos hboundary, run, run]
  have hspan := spanTo_after hcur
  rcases hr.keyword with h | h
  · rw [run, run_word (l := "from") hcur (by rw [h]; decide)]
    refine Option.or_eq_some_iff.2 (Or.inl ?_)
    rw [hspan]
    exact hn
  · rw [run, run_word_none (l := "from") (d := 'f') rfl (fun c hc => by
      rw [hcur, h] at hc
      obtain rfl : 'j' = c := by simpa using hc
      decide), Option.none_or, run_word (l := "join") hcur (by rw [h]; decide), hspan]
    exact hn

/-! ## The tables of a statement -/


/-- A text that may stand before a reference: no word goes over its end. -/
structure Lead (U : UnicodeData) (s : Str) : Prop where
  noTableWord : NoWord U (isWordOf tableWords) s
  last : ∃ c ∈ s.getLast?, isWord U c = false

/-- A text that may stand between two references: no name goes over its start either. -/
structure Gap (U : UnicodeData) (s : Str) : Prop extends Lead U s where
  head : ∀ c ∈ s.head?, foldClass isNameChar c = false

/-- References, each with the text behind it. -/
def referencesText : List (Reference × Str) → Str
  | [] => []
  | (r, gap) :: refs => r.text ++ (gap ++ referencesText refs)

/-- The tables of references that start at a position. -/
def referenceTables : List (Reference × Str) → Nat → List ParsedTable
  | [], _ => []
  | (r, gap) :: refs, pos => r.table pos :: referenceTables refs (pos + r.text.length + gap.length)

theorem lastOf_of_getLast? {s : Str} {c : Char} (h : c ∈ s.getLast?) (prev : Option Char) :
    lastOf prev s = some c := by
  rcases List.eq_nil_or_concat s with rfl | ⟨s, d, rfl⟩
  · exact absurd h (by simp)
  · rw [List.concat_eq_append, lastOf_append]
    simpa using h

theorem Lead.lastOf {s : Str} (h : Lead U s) (prev : Option Char) :
    (Py.lastOf prev s).any (isWord U) = false := by
  obtain ⟨c, hc, hw⟩ := h.last
  rw [lastOf_of_getLast? hc]
  simpa using hw

theorem Lead.border {s : Str} (h : Lead U s) (rest : Str) :
    ∀ a ∈ s.getLast?, ∀ b ∈ rest.head?, isWord U a = false ∨ isWord U b = false := by
  obtain ⟨c, hc, hw⟩ := h.last
  intro a ha _ _
  rw [Option.mem_def] at ha hc
  rw [ha] at hc
  obtain rfl : a = c := Option.some.inj hc
  exact Or.inl hw

theorem Reference.text_ne_nil (r : Reference) : r.text ≠ [] := by simp [Reference.text]

/-- The table pattern finds the references of a text, in order, and nothing else. -/
theorem scan_references {refs : List (Reference × Str)}
    (hrefs : ∀ p ∈ refs, p.1.Valid ∧ Gap U p.2) {tail : Str}
    (htail : NoWord U (isWordOf tableWords) tail)
    {pos : Nat} {prev : Option Char} (hprev : prev.any (isWord U) = false) :
    (scan (tablePattern U) (referencesText refs ++ tail) 0 pos prev).filterMap tableOfMatch =
      referenceTables refs pos := by
  induction refs generalizing pos prev with
  | nil =>
    have hpass : scan (tablePattern U) (tail ++ []) 0 pos prev = _ :=
      scan_pass_words tablePattern_starts htail (by simp) pos prev
    rw [List.append_nil] at hpass
    rw [referencesText, List.nil_append, hpass]
    rfl
  | cons p refs ih =>
    obtain ⟨r, gap⟩ := p
    obtain ⟨hr, hgap⟩ := hrefs (r, gap) List.mem_cons_self
    have hhead : ∀ c ∈ (gap ++ (referencesText refs ++ tail)).head?,
        foldClass isNameChar c = false := by
      obtain ⟨d, hd, -⟩ := hgap.last
      cases gap with
      | nil => exact absurd hd (by simp)
      | cons e gap => exact hgap.head
    obtain ⟨m, hm, hstop, htable⟩ := matchAt_reference hr pos hprev hhead
    rw [referencesText, List.append_assoc, List.append_assoc,
      scan_match r.text_ne_nil hm hstop, List.filterMap_cons_some htable,
      scan_pass_words tablePattern_starts hgap.noTableWord (hgap.border _),
      ih (fun q hq => hrefs q (List.mem_cons_of_mem _ hq)) (hgap.lastOf _), referenceTables]

/-- The tables of a statement that has its references behind a text without table words. -/
theorem tables_of_references {refs : List (Reference × Str)}
    (hrefs : ∀ p ∈ refs, p.1.Valid ∧ Gap U p.2) {before tail : Str} (hbefore : Lead U before)
    (htail : NoWord U (isWordOf tableWords) tail) :
    ((tablePattern U).finditer (before ++ (referencesText refs ++ tail))).filterMap tableOfMatch =
      referenceTables refs before.length := by
  rw [finditer, scan_pass_words tablePattern_starts hbefore.noTableWord (hbefore.border _),
    scan_references hrefs htail (hbefore.lastOf _), Nat.zero_add]

/-! ## The limit -/

/-- The number of a limit that the parser reads. -/
def limitText (m : Match) : Str := (groupText m 2).getD ((groupText m 1).getD [])

/-- The number of the first limit of a statement, if it has one, is within the digit limit. -/
def LimitFits (rt : Runtime) (sql : Str) : Prop :=
  ∀ m ∈ (limitPattern rt.toUnicodeData).search sql, rt.digitsFit (limitText m).length = true

theorem text_spanTo_decimals {cur stop : Cursor} {caps caps' : Captures}
    (h : (many1 (isDecimal U)).Matches cur caps stop caps') :
    caps' = caps ∧ IsDecimals U (cur.spanTo stop).text := by
  obtain ⟨mid, capsm, ⟨c, cs, hr, hc, rfl, rfl⟩, w, ds, hw, hall, rfl, rfl⟩ := h
  have hcs : cs = w ++ ds := hw
  have hrest : cur.rest = (c :: w) ++ ds := by rw [hr, hcs]; rfl
  rw [after_after, List.singleton_append, spanTo_after hrest]
  exact ⟨rfl, by simp, List.forall_mem_cons.2 ⟨hc, hall⟩⟩

/-- What the limit pattern takes for a number consists of decimals. -/
theorem isDecimals_limitText {cur : Cursor} {m : Match}
    (h : (limitPattern U).matchAt cur = some m) : IsDecimals U (limitText m) := by
  obtain ⟨stop, ⟨_, _, ⟨-, rfl, rfl⟩, mid2, caps2, hword, mid3, caps3, hspace, mid4, caps4,
    hfirst, mid5, caps5, hsecond, -, -, hcaps⟩, -, -⟩ := matchAt_eq_some h
  obtain ⟨midc, capsc, ⟨_, _, _, _, _, hcapsc⟩, _, _, _, _, _, hcaps3⟩ := hspace
  have hword := caps_of_matches_word hword
  subst hcaps3 hcapsc hword
  obtain ⟨capsn, hn, rfl⟩ := hfirst
  obtain ⟨rfl, hdec⟩ := text_spanTo_decimals hn
  rcases hsecond with ⟨_, _, _, _, _, _, _, _, _, capsk, hk, rfl⟩ | ⟨-, rfl⟩
  · rw [limitText, groupText, Match.group, hcaps]
    exact (text_spanTo_decimals hk).2
  · rw [limitText, groupText, groupText, Match.group, Match.group, hcaps]
    exact hdec

/-- The parser can read the limit exactly when its number is within the digit limit. -/
theorem parseLimitValue_returns_iff {rt : Runtime} {sql : Str} :
    Returns (parseLimitValue rt sql) ↔ LimitFits rt sql := by
  rw [parseLimitValue, LimitFits]
  cases hm : (limitPattern rt.toUnicodeData).search sql with
  | none => exact iff_of_true (returns_ok _) (by simp)
  | some m =>
    obtain ⟨cur, -, hcur⟩ := exists_of_mem_scan (List.mem_of_mem_head? hm)
    have hdec := isDecimals_limitText hcur
    simp only [Option.mem_def, Option.some.injEq, forall_eq']
    rw [← rt.int_returns_iff hdec, limitText]
    cases groupText m 2 with
    | none => simp only [returns_map, Option.getD_none]
    | some count => simp only [returns_map, Option.getD_some]

/-- A statement is read exactly when its limit is. -/
theorem parse_returns_iff {rt : Runtime} {sql : Str} : Returns (parse rt sql) ↔
    LimitFits rt sql := by
  rw [← parseLimitValue_returns_iff, parse, returns_bind]
  exact and_iff_left fun v _ => returns_ok _

/-- The number of a limit is a part of the text. -/
theorem length_limitText_le {cur : Cursor} {m : Match}
    (h : (limitPattern U).matchAt cur = some m) : (limitText m).length ≤ cur.rest.length := by
  have hspan : ∀ {a b : Cursor}, (a.spanTo b).text.length ≤ a.rest.length := fun {a b} => by
    rw [Cursor.spanTo]
    exact List.length_take_le' _ _
  have hafter : ∀ {r : Regex} {a b : Cursor} {caps caps' : Captures},
      r.Matches a caps b caps' → b.rest.length ≤ a.rest.length := fun h => by
    obtain ⟨w, hw, -⟩ := h.exists_after
    rw [hw, List.length_append]
    omega
  obtain ⟨stop, ⟨_, _, hb, mid2, caps2, hword, mid3, caps3, hspace, mid4, caps4, hfirst,
    mid5, caps5, hsecond, -, -, hcaps⟩, -, -⟩ := matchAt_eq_some h
  have h2 := hafter hb
  have h3 := hafter hword
  have h4 := hafter hspace
  have h5 := hafter hfirst
  obtain ⟨-, rfl, rfl⟩ := hb
  obtain ⟨midc, capsc, ⟨_, _, _, _, _, hcapsc⟩, _, _, _, _, _, hcaps3⟩ := hspace
  have hword := caps_of_matches_word hword
  subst hcaps3 hcapsc hword
  obtain ⟨capsn, hn, rfl⟩ := hfirst
  obtain ⟨rfl, -⟩ := text_spanTo_decimals hn
  rcases hsecond with ⟨_, _, hsp, _, _, hcomma, mid6, _, hsp2, capsk, hk, rfl⟩ | ⟨-, rfl⟩
  · rw [limitText, groupText, Match.group, hcaps]
    have h6 := hafter hsp
    have h7 := hafter hcomma
    have h8 := hafter hsp2
    have h9 : (mid6.spanTo mid5).text.length ≤ mid6.rest.length := hspan
    exact h9.trans (by omega)
  · rw [limitText, groupText, groupText, Match.group, Match.group, hcaps]
    have h9 : (mid3.spanTo mid4).text.length ≤ mid3.rest.length := hspan
    exact h9.trans (by omega)

/-- A limit is within the digit limit if it stands in a short text at the end of a statement. -/
theorem limitFits_of_scan {rt : Runtime} {sql tail : Str} {pos : Nat} {prev : Option Char}
    (hscan : (limitPattern rt.toUnicodeData).finditer sql =
      scan (limitPattern rt.toUnicodeData) tail 0 pos prev) (htail : tail.length ≤ 640) :
    LimitFits rt sql := by
  intro m hm
  rw [search, hscan] at hm
  obtain ⟨cur, hsuffix, hcur⟩ := exists_of_mem_scan (List.mem_of_mem_head? hm)
  exact rt.digitsFit_small
    (((length_limitText_le hcur).trans hsuffix.length_le).trans htail)

/-- The limit pattern starts with its word. -/
theorem limitPattern_starts : StartsWithWord U (isWordOf ["limit"]) (limitPattern U) :=
  startsWithWord_of fun h => matches_isWordOf List.mem_cons_self (by decide) h

/-- The tables and predicates of a statement that is read. -/
theorem parse_eq_ok {rt : Runtime} {sql : Str} {parsed : ParsedSql}
    (h : parse rt sql = .ok parsed) :
    parsed.originalSql = sql ∧
      parsed.tables =
        ((tablePattern rt.toUnicodeData).finditer sql).filterMap tableOfMatch ∧
      parsed.predicates =
        ((predicatePattern rt.toUnicodeData).finditer sql).filterMap predicateOfMatch := by
  obtain ⟨v, -, h⟩ := bind_eq_ok.1 h
  injection h with h
  subst h
  exact ⟨rfl, rfl, rfl⟩

end SqlGatekeeper
