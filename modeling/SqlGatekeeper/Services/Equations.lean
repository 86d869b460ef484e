import SqlGatekeeper.Services.TableScan
import SqlGatekeeper.Services.Where

/-!
# Predicates in front of a condition

What the predicate pattern finds in any text that stands in front of `where` and a condition.

* `Equation`: a predicate as the pattern reads it, in its pieces; `matchAt_equation`: what the
  pattern matches; `isSome_matchAt_predicate`: where it matches.
* `names`: the names of a text; `Equated`: a text puts an equals sign behind a name.
* `Equation.Valid.within`: no predicate that starts in front of `where` goes over it.
* `scan_before_where`: the predicates found in front of `where` are on names that the text there
  equates.
-/

namespace SqlGatekeeper

open Py Regex Logic

variable {U : UnicodeData}

/-! ## A predicate in its pieces -/

/-- A predicate as it is read. -/
structure Equation where
  qualifier : Option Str
  column : Str
  before : Str
  after : Str
  value : Str

/-- The qualifier with its dot. -/
def Equation.qualifierText (e : Equation) : Str :=
  match e.qualifier with
  | some q => q ++ ['.']
  | none => []

/-- The text of a predicate. -/
def Equation.text (e : Equation) : Str :=
  ((e.qualifierText ++ e.column) ++ e.before) ++ '=' :: (e.after ++ e.value)

/-- What the pattern takes for a value. -/
inductive IsValue (U : UnicodeData) : Str → Prop where
  | quoted {q : Char} {w : Str} (hq : q = '\'' ∨ q = '"') (hw : ∀ c ∈ w, c ≠ q) :
      IsValue U (q :: (w ++ [q]))
  | number {sign ds : Str} (hsign : sign = [] ∨ sign = ['-']) (hne : ds ≠ [])
      (hds : ∀ c ∈ ds, isDecimal U c = true) : IsValue U (sign ++ ds)

/-- The pieces are what the pattern asks for. -/
structure Equation.Valid (U : UnicodeData) (e : Equation) : Prop where
  qualifier : ∀ q ∈ e.qualifier, IsName q
  column : IsName e.column
  before : ∀ c ∈ e.before, isSpace c = true
  after : ∀ c ∈ e.after, isSpace c = true
  value : IsValue U e.value

/-- The identifier part of a pattern matches names. -/
theorem matches_name {cur stop : Cursor} {caps caps' : Captures}
    (h : ident.Matches cur caps stop caps') :
    ∃ x cs, cur.rest = x ++ cs ∧ IsName x ∧ stop = cur.after x cs := by
  obtain ⟨c, w, cs, hr, hc, hall, hstop⟩ := matches_ident h
  exact ⟨c :: w, cs, hr, ⟨hc, hall⟩, hstop⟩

theorem matches_of_name {cur : Cursor} (caps : Captures) {x cs : Str} (hr : cur.rest = x ++ cs)
    (hx : IsName x) : ident.Matches cur caps (cur.after x cs) caps := by
  obtain ⟨c, w, rfl⟩ := List.exists_cons_of_ne_nil hx.ne_nil
  refine ⟨cur.after [c] (w ++ cs), caps, ⟨c, w ++ cs, hr, hx.start, rfl, rfl⟩, w, cs, rfl,
    fun d hd => hx.parts d (List.mem_cons_of_mem _ hd), ?_, rfl⟩
  rw [after_after]
  rfl

/-- What a quoted value matches. -/
theorem matches_quoted {q : Char} (hq : q = '\'' ∨ q = '"') {cur stop : Cursor}
    {caps caps' : Captures} (h : (quoted q).Matches cur caps stop caps') :
    ∃ v cs, cur.rest = v ++ cs ∧ IsValue U v ∧ stop = cur.after v cs ∧ caps' = caps := by
  obtain ⟨mid, capsm, ⟨c, cs, hr, hc, rfl, rfl⟩, mid2, capsm2,
    ⟨w, ds, hw, hall, rfl, rfl⟩, d, es, hd,
    hdq, rfl, rfl⟩ := h
  obtain rfl : c = q := by simpa using hc
  obtain rfl : d = c := by simpa using hdq
  have hcs : cs = w ++ ds := hw
  have hds : ds = d :: es := hd
  refine ⟨d :: (w ++ [d]), es, ?_, .quoted hq fun a ha => by simpa using hall a ha, ?_, rfl⟩
  · rw [hr, hcs, hds]
    simp
  · rw [after_after, after_after]
    rfl

theorem matches_of_quoted {q : Char} {cur : Cursor} (caps : Captures) {w cs : Str}
    (hr : cur.rest = q :: (w ++ [q]) ++ cs) (hw : ∀ c ∈ w, c ≠ q) :
    (quoted q).Matches cur caps (cur.after (q :: (w ++ [q])) cs) caps := by
  have hr' : cur.rest = q :: (w ++ q :: cs) := by rw [hr]; simp
  refine ⟨_, caps, ⟨q, w ++ q :: cs, hr', by simp, rfl, rfl⟩, _, caps,
    ⟨w, q :: cs, rfl, fun c hc => by simpa using hw c hc, rfl, rfl⟩, q, cs,
      rfl, by simp, ?_, rfl⟩
  rw [after_after, after_after]
  rfl

/-- What the value part of the pattern matches. -/
theorem matches_value {cur stop : Cursor} {caps caps' : Captures}
    (h : (alt (quoted '\'') (alt (quoted '"') (seq (opt (char (· == '-')))
      (many1 (isDecimal U))))).Matches cur caps stop caps') :
    ∃ v cs, cur.rest = v ++ cs ∧ IsValue U v ∧ stop = cur.after v cs ∧ caps' = caps := by
  rcases h with h | h | ⟨mid, capsm, hsign, mid2, capsm2, ⟨c, cs, hc, hdec, rfl, rfl⟩, w, ds,
    hw, hall, rfl, rfl⟩
  · exact matches_quoted (Or.inl rfl) h
  · exact matches_quoted (Or.inr rfl) h
  · have hcs : cs = w ++ ds := hw
    have hmid : mid.rest = (c :: w) ++ ds := by rw [hc, hcs]; rfl
    have hnumber : ∀ d ∈ c :: w, isDecimal U d = true := List.forall_mem_cons.2 ⟨hdec, hall⟩
    rcases hsign with ⟨d, es, hd, hminus, rfl, rfl⟩ | ⟨rfl, rfl⟩
    · obtain rfl : d = '-' := by simpa using hminus
      have hes : es = (c :: w) ++ ds := hmid
      refine ⟨['-'] ++ c :: w, ds, by rw [hd, hes]; rfl,
        .number (Or.inr rfl) (List.cons_ne_nil c w) hnumber, ?_, rfl⟩
      rw [after_after, after_after]
      rfl
    · refine ⟨[] ++ c :: w, ds, hmid, .number (Or.inl rfl) (List.cons_ne_nil c w)
        hnumber, ?_, rfl⟩
      rw [after_after]
      rfl

theorem matches_of_value {cur : Cursor} (caps : Captures) {v cs : Str} (hr : cur.rest = v ++ cs)
    (hv : IsValue U v) :
    (alt (quoted '\'') (alt (quoted '"') (seq (opt (char (· == '-')))
      (many1 (isDecimal U))))).Matches cur caps (cur.after v cs) caps := by
  cases hv with
  | quoted hq hw =>
    rcases hq with rfl | rfl
    · exact Or.inl (matches_of_quoted caps hr hw)
    · exact Or.inr (Or.inl (matches_of_quoted caps hr hw))
  | @number sign ds hsign hne hds =>
    obtain ⟨c, w, rfl⟩ := List.exists_cons_of_ne_nil hne
    have hdigits : ∀ {start : Cursor}, start.rest = c :: (w ++ cs) →
        (many1 (isDecimal U)).Matches start caps (start.after (c :: w) cs) caps := fun hstart => by
      refine ⟨_, caps, ⟨c, w ++ cs, hstart, hds c List.mem_cons_self, rfl, rfl⟩, w, cs, rfl,
        fun d hd => hds d (List.mem_cons_of_mem _ hd), ?_, rfl⟩
      rw [after_after]
      rfl
    refine Or.inr (Or.inr ?_)
    rcases hsign with rfl | rfl
    · exact ⟨cur, caps, Or.inr ⟨rfl, rfl⟩, hdigits hr⟩
    · refine ⟨_, caps, Or.inl ⟨'-', c :: (w ++ cs), hr, by decide, rfl, rfl⟩, ?_⟩
      have hminus : (cur.after ['-'] (c :: (w ++ cs))).rest = c :: (w ++ cs) := rfl
      have hstep := hdigits hminus
      rw [after_after] at hstep
      exact hstep

/-- What the pattern matches, and the column that it reads. -/
theorem matchAt_equation {pos : Nat} {prev : Option Char} {rest : Str} {m : Match}
    (h : (predicatePattern U).matchAt ⟨pos, prev, rest⟩ = some m) :
    ∃ (e : Equation) (t : Str), rest = e.text ++ t ∧ e.Valid U ∧
      m.stop = pos + e.text.length ∧ ∃ p, predicateOfMatch m = some p ∧
        p.column = e.column := by
  obtain ⟨stop, ⟨mid, capsm, hq, mid2, capsm2, ⟨capsx, hx, rfl⟩, mid3, capsm3,
    ⟨sp, ds, hds, hsp, rfl, rfl⟩, mid4, capsm4, ⟨c, fs, hfs, hc, rfl, rfl⟩, mid5, capsm5,
    ⟨sp', gs, hgs, hsp', rfl, rfl⟩, capsv, hv, hcaps⟩, -, hstop⟩ := matchAt_eq_some h
  obtain ⟨x, cs, hxcs, hname, rfl⟩ := matches_name hx
  obtain ⟨v, t, hvt, hvalue, rfl, rfl⟩ := matches_value hv
  obtain rfl : c = '=' := by simpa using hc
  have h1 : cs = sp ++ ds := hds
  have h2 : ds = '=' :: fs := hfs
  have h3 : fs = sp' ++ gs := hgs
  have h4 : gs = v ++ t := hvt
  have hmid : mid.rest = (x ++ sp) ++ '=' :: ((sp' ++ v) ++ t) := by
    rw [hxcs, h1, h2, h3, h4]
    simp only [List.append_assoc]
  have hpredicate : ∃ p, predicateOfMatch m = some p ∧ p.column = x := by
    refine ⟨⟨groupText m 1, x, normalizeValue v⟩, ?_, rfl⟩
    have hcolumn : groupText m 2 = some x := by
      rw [groupText, Match.group, hcaps, spanTo_after hxcs]
      rfl
    have hvalueText : groupText m 3 = some v := by
      rw [groupText, Match.group, hcaps, spanTo_after hvt]
      rfl
    rw [predicateOfMatch, hcolumn, hvalueText]
    rfl
  rw [after_after, after_after, after_after, after_after] at hstop
  rcases hq with ⟨mid0, caps0, ⟨capsi, hi, -⟩, d, es, hd, hdot, rfl, -⟩ | ⟨rfl, -⟩
  · obtain ⟨q, us, hq, hqname, rfl⟩ := matches_name hi
    obtain rfl : d = '.' := by simpa using hdot
    have hrest : rest = q ++ us := hq
    have hus : us = '.' :: es := hd
    have hes : es = (x ++ sp) ++ '=' :: ((sp' ++ v) ++ t) := hmid
    refine ⟨⟨some q, x, sp, sp', v⟩, t, ?_, ⟨?_, hname, hsp, hsp', hvalue⟩, ?_,
      hpredicate⟩
    · rw [hrest, hus, hes]
      simp [Equation.text, Equation.qualifierText]
    · intro y hy
      obtain rfl : q = y := by simpa using hy
      exact hqname
    · rw [hstop]
      simp [Cursor.after, Equation.text, Equation.qualifierText]
      omega
  · have hrest : rest = (x ++ sp) ++ '=' :: ((sp' ++ v) ++ t) := hmid
    refine ⟨⟨none, x, sp, sp', v⟩, t, ?_, ⟨by simp, hname, hsp, hsp', hvalue⟩, ?_,
      hpredicate⟩
    · rw [hrest]
      simp [Equation.text, Equation.qualifierText]
    · rw [hstop]
      simp [Cursor.after, Equation.text, Equation.qualifierText]

/-- The pattern matches wherever such a text stands. -/
theorem isSome_matchAt_predicate {pos : Nat} {prev : Option Char} {rest t : Str} {e : Equation}
    (hrest : rest = e.text ++ t) (he : e.Valid U) :
    ((predicatePattern U).matchAt ⟨pos, prev, rest⟩).isSome = true := by
  obtain ⟨qualifier, x, sp, sp', v⟩ := e
  have hbehind : ∀ (cur : Cursor) (caps : Captures),
      cur.rest = x ++ (sp ++ '=' :: (sp' ++ (v ++ t))) → ∃ stop caps',
        (seq (group 2 ident) (seq (many isSpace) (seq (char (· == '=')) (seq (many isSpace)
          (group 3 (alt (quoted '\'') (alt (quoted '"')
            (seq (opt (char (· == '-'))) (many1 (isDecimal U)))))))))).Matches cur caps
              stop caps' :=
    fun cur caps hcur => ⟨_, _, _, _, ⟨caps, matches_of_name caps hcur he.column, rfl⟩, _, _,
      ⟨sp, _, rfl, he.before, rfl, rfl⟩, _, _, ⟨'=', _, rfl, by decide, rfl, rfl⟩, _, _,
      ⟨sp', _, rfl, he.after, rfl, rfl⟩, _, matches_of_value _ rfl he.value, rfl⟩
  rw [matchAt_isSome_iff]
  cases qualifier with
  | none =>
    have hr : rest = x ++ (sp ++ '=' :: (sp' ++ (v ++ t))) := by
      rw [hrest]
      simp [Equation.text, Equation.qualifierText]
    obtain ⟨stop, caps, hm⟩ := hbehind ⟨pos, prev, rest⟩ [] hr
    exact ⟨stop, caps, _, _, Or.inr ⟨rfl, rfl⟩, hm⟩
  | some q =>
    have hr : rest = q ++ '.' :: (x ++ (sp ++ '=' :: (sp' ++ (v ++ t)))) := by
      rw [hrest]
      simp [Equation.text, Equation.qualifierText]
    obtain ⟨stop, caps, hm⟩ := hbehind
      (((⟨pos, prev, rest⟩ : Cursor).after q _).after ['.'] _) _ rfl
    exact ⟨stop, caps, _, _, Or.inl ⟨_, _, ⟨_, matches_of_name [] hr (he.qualifier q rfl),
      rfl⟩, '.', _, rfl, by decide, rfl, rfl⟩, hm⟩

/-! ## Names with an equals sign behind them -/

theorem isNamePart_of_isSpace {c : Char} (hc : isSpace c = true) : isNamePart c = false := by
  by_contra h
  rw [isSpace_of_isNamePart (by simpa using h)] at hc
  exact absurd hc (by simp)

theorem isNameStart_of_not_part {c : Char} (hc : isNamePart c = false) :
    foldClass isNameStart c = false := by
  by_contra h
  rw [isNamePart_of_start (by simpa using h)] at hc
  exact absurd hc (by simp)

/-- The name in a run of name characters: digits in front do not belong to it. -/
def nameOf (w : Str) : Str := w.dropWhile fun c => !foldClass isNameStart c

/-- The names of a text. -/
def names (s : Str) : List Str := (runs isNamePart s).map nameOf

/-- A text ends in a run of name characters, and spaces. -/
def EndsIn (s w : Str) : Prop :=
  ∃ u sp, s = u ++ (w ++ sp) ∧ (∀ c ∈ u.getLast?, isNamePart c = false) ∧ w ≠ [] ∧
    (∀ c ∈ w, isNamePart c = true) ∧ ∀ c ∈ sp, isSpace c = true

/-- A text has an equals sign behind a run of name characters. -/
def Equated (s w : Str) : Prop := ∃ e t, s = e ++ '=' :: t ∧ EndsIn e w

theorem Equated.mem_runs {s w : Str} (h : Equated s w) : w ∈ runs isNamePart s := by
  obtain ⟨e, t, rfl, u, sp, rfl, hu, hne, hw, hsp⟩ := h
  have htext : (u ++ (w ++ sp)) ++ '=' :: t = u ++ (w ++ (sp ++ '=' :: t)) := by
    simp only [List.append_assoc]
  rw [htext]
  refine Py.mem_runs hne hw hu fun c hc => ?_
  cases sp with
  | nil =>
    obtain rfl : '=' = c := by simpa using hc
    decide
  | cons d sp =>
    obtain rfl : d = c := by simpa using hc
    exact isNamePart_of_isSpace (hsp d List.mem_cons_self)

/-- A text that a name may start behind: it ends in no run of name characters, or in digits. -/
def Fresh (v : Str) : Prop :=
  ∃ u ds, v = u ++ ds ∧ (∀ c ∈ u.getLast?, isNamePart c = false) ∧
    ∀ c ∈ ds, isNamePart c = true ∧ foldClass isNameStart c = false

theorem fresh_nil : Fresh [] := ⟨[], [], rfl, by simp, by simp⟩

theorem fresh_concat {c : Char} (hc : isNamePart c = false) (v : Str) : Fresh (v ++ [c]) :=
  ⟨v ++ [c], [], by simp, fun d hd => by
    obtain rfl : c = d := by simpa using hd
    exact hc, by simp⟩

/-- Behind it may come anything that starts no name. -/
theorem Fresh.append {v : Str} (hv : Fresh v) {w : Str}
    (hw : ∀ c ∈ w, foldClass isNameStart c = false) : Fresh (v ++ w) := by
  induction w generalizing v with
  | nil =>
    rw [List.append_nil]
    exact hv
  | cons c w ih =>
    have hc := hw c List.mem_cons_self
    have hstep : Fresh (v ++ [c]) := by
      by_cases hpart : isNamePart c = true
      · obtain ⟨u, ds, rfl, hu, hds⟩ := hv
        refine ⟨u, ds ++ [c], by simp, hu, fun d hd => ?_⟩
        rcases List.mem_append.1 hd with hd | hd
        · exact hds d hd
        · obtain rfl := List.mem_singleton.1 hd
          exact ⟨hpart, hc⟩
      · exact fresh_concat (by simpa using hpart) v
    have happ : v ++ c :: w = (v ++ [c]) ++ w := by simp
    rw [happ]
    exact ih hstep fun d hd => hw d (List.mem_cons_of_mem _ hd)

theorem nameOf_append {ds x : Str} (hds : ∀ c ∈ ds, foldClass isNameStart c = false)
    (hx : IsName x) : nameOf (ds ++ x) = x := by
  obtain ⟨c, cs, rfl⟩ := List.exists_cons_of_ne_nil hx.ne_nil
  have hc : foldClass isNameStart c = true := hx.start
  rw [nameOf, List.dropWhile_append_of_pos fun d hd => by simp [hds d hd],
    List.dropWhile_cons_of_neg (by simp [hc])]

/-- The column of a predicate is such a name. -/
theorem Equation.Valid.equated {e : Equation} (he : e.Valid U) {v : Str} (hv : Fresh v) (t : Str) :
    ∃ w, Equated (v ++ (e.text ++ t)) w ∧ nameOf w = e.column := by
  obtain ⟨qualifier, x, sp, sp', value⟩ := e
  cases qualifier with
  | none =>
    obtain ⟨u, ds, rfl, hu, hds⟩ := hv
    refine ⟨ds ++ x, ⟨u ++ ((ds ++ x) ++ sp), (sp' ++ value) ++ t, ?_, u, sp, rfl, hu, ?_, ?_,
      he.before⟩, nameOf_append (fun c hc => (hds c hc).2) he.column⟩
    · simp [Equation.text, Equation.qualifierText]
    · exact fun h => he.column.ne_nil (List.append_eq_nil_iff.1 h).2
    · exact List.forall_mem_append.2 ⟨fun c hc => (hds c hc).1, he.column.parts⟩
  | some q =>
    have hwhole : nameOf ([] ++ x) = x := nameOf_append (by simp) he.column
    refine ⟨x, ⟨(v ++ (q ++ ['.'])) ++ (x ++ sp), (sp' ++ value) ++ t, ?_, v ++ (q ++ ['.']),
      sp, rfl, ?_, he.column.ne_nil, he.column.parts, he.before⟩, hwhole⟩
    · simp [Equation.text, Equation.qualifierText]
    · intro c hc
      rw [← List.append_assoc, List.getLast?_concat] at hc
      obtain rfl : '.' = c := by simpa using hc
      decide

theorem isNameStart_of_isDecimal {c : Char} (hc : isDecimal U c = true) :
    foldClass isNameStart c = false := by
  by_contra h
  rw [Bool.not_eq_false, foldClass, Bool.or_eq_true] at h
  rcases h with h | h
  · have hascii := toNat_lt_of_isNameChar (isNameChar_of_isNameStart h)
    rw [isDecimal, U.decimal_ascii c hascii] at hc
    have hdigit : c.isDigit = true := by
      by_contra hnot
      rw [if_neg hnot] at hc
      exact absurd hc (by simp)
    rw [isNameStart, Bool.or_eq_true] at h
    rcases h with h | h
    · have h1 := isDigit_iff.1 hdigit
      have h2 := isAlpha_iff.1 h
      omega
    · rw [beq_iff_eq.1 h] at hdigit
      exact absurd hdigit (by decide)
  · rw [isDecimal, U.decimal_folding c (List.contains_iff_mem.1 h)] at hc
    exact absurd hc (by simp)

/-- A name may start behind a predicate. -/
theorem Equation.Valid.fresh {e : Equation} (he : e.Valid U) (v : Str) : Fresh (v ++ e.text) := by
  have hequals : Fresh (v ++ (((e.qualifierText ++ e.column) ++ e.before) ++ ['='])) := by
    rw [← List.append_assoc]
    exact fresh_concat (by decide) _
  have hafter : Fresh ((v ++ (((e.qualifierText ++ e.column) ++ e.before) ++ ['='])) ++ e.after) :=
    hequals.append fun c hc => isNameStart_of_not_part (isNamePart_of_isSpace (he.after c hc))
  have htext : v ++ e.text =
      ((v ++ (((e.qualifierText ++ e.column) ++ e.before) ++ ['='])) ++ e.after) ++ e.value := by
    simp [Equation.text]
  rw [htext]
  have hvalue := he.value
  generalize e.value = value at hvalue
  cases hvalue with
  | @quoted q w hq hw =>
    rw [← List.cons_append, ← List.append_assoc]
    refine fresh_concat ?_ _
    rcases hq with rfl | rfl <;> decide
  | @number sign ds hsign hne hds =>
    refine hafter.append (List.forall_mem_append.2 ⟨fun c hc => ?_, fun c hc =>
      isNameStart_of_isDecimal (hds c hc)⟩)
    rcases hsign with rfl | rfl
    · exact absurd hc (by simp)
    · obtain rfl := List.mem_singleton.1 hc
      decide

/-! ## In front of `where` -/

/-- A text that no predicate goes over into from in front of `where`: it continues no equation, and
has no quotes. -/
structure Barrier (R : Str) : Prop where
  head : ∃ c ds, R = c :: ds ∧ c ≠ '=' ∧ isSpace c = false
  noQuote : ∀ c ∈ R, c ≠ '\'' ∧ c ≠ '"'

/-- A predicate ends in a quote, or its value is a number. -/
theorem Equation.Valid.last {e : Equation} (he : e.Valid U) :
    ∃ c ∈ e.text.getLast?, (c = '\'' ∨ c = '"') ∨
      isDecimal U c = true ∧ ∀ d ∈ e.value, d = '-' ∨ isDecimal U d = true := by
  have hlast : ∀ x : Str, x ≠ [] → e.value = x → e.text.getLast? = x.getLast? := by
    rintro x hne rfl
    have htext : e.text =
        (((e.qualifierText ++ e.column) ++ e.before) ++ '=' :: e.after) ++ e.value := by
      simp [Equation.text]
    rw [htext, List.getLast?_append_of_ne_nil _ hne]
  have hvalue := he.value
  generalize e.value = value at hvalue hlast
  cases hvalue with
  | @quoted q w hq hw =>
    refine ⟨q, ?_, Or.inl hq⟩
    rw [hlast _ (List.cons_ne_nil _ _) rfl, ← List.cons_append, List.getLast?_concat]
    rfl
  | @number sign ds hsign hne hds =>
    refine ⟨ds.getLast hne, ?_, Or.inr ⟨hds _ (List.getLast_mem hne), fun d hd => ?_⟩⟩
    · rw [hlast _ (fun h => hne (List.append_eq_nil_iff.1 h).2) rfl,
        List.getLast?_append_of_ne_nil _ hne]
      exact List.getLast?_eq_some_getLast hne
    · rcases List.mem_append.1 hd with hd | hd
      · rcases hsign with rfl | rfl
        · exact absurd hd (by simp)
        · exact Or.inl (List.mem_singleton.1 hd)
      · exact Or.inr (hds d hd)

/-- In front of its equals sign a predicate has nothing but spaces behind a space. -/
theorem Equation.Valid.behind_space {e : Equation} (he : e.Valid U) {a b : Str}
    (h : (e.qualifierText ++ e.column) ++ e.before = a ++ ' ' :: b) :
    ∀ c ∈ b, isSpace c = true := by
  have hnot : ' ' ∉ e.qualifierText ++ e.column := by
    intro hm
    rcases List.mem_append.1 hm with hm | hm
    · rw [Equation.qualifierText] at hm
      cases hq : e.qualifier with
      | none =>
        rw [hq] at hm
        exact absurd hm (by simp)
      | some q =>
        rw [hq] at hm
        have hspace : ' ' ∈ q := by simpa using hm
        exact absurd ((he.qualifier q hq).no_space _ hspace) (by decide)
    · exact absurd (he.column.no_space _ hm) (by decide)
  rcases List.append_eq_append_iff.1 h with ⟨y, -, hy⟩ | ⟨y, hy, hb⟩
  · intro c hc
    exact he.before c (by rw [hy]; exact List.mem_append_right _ (List.mem_cons_of_mem _ hc))
  · cases y with
    | nil =>
      intro c hc
      refine he.before c ?_
      rw [← List.nil_append e.before, ← hb]
      exact List.mem_cons_of_mem _ hc
    | cons d y =>
      injection hb with hd _
      refine absurd ?_ hnot
      rw [hy, hd]
      exact List.mem_append_right _ List.mem_cons_self

/-- The characters of `where` end no predicate. -/
theorem where_ends_none : ∀ c ∈ (" where " : Str), c ≠ '\'' ∧ c ≠ '"' ∧
    isDecimal U c = false := by
  have hall : (" where " : Str).all (fun c => decide (c.toNat < 128) && !c.isDigit &&
      (c != '\'') && (c != '"')) = true := by decide
  intro c hc
  have := List.all_eq_true.1 hall c hc
  simp only [Bool.and_eq_true, decide_eq_true_eq, Bool.not_eq_true', bne_iff_ne] at this
  exact ⟨this.1.2, this.2, isDecimal_of_not_isDigit this.1.1.1 this.1.1.2⟩

/-- No predicate goes over `where` into what stands behind it. -/
theorem Equation.Valid.not_over {e : Equation} (he : e.Valid U) {R s z t : Str} (hR : Barrier R)
    (hz : R = z ++ t) : e.text ≠ s ++ (" where " ++ z) := by
  intro htext
  obtain ⟨c, hc, hlast⟩ := he.last
  obtain ⟨d, ds, hd, hequals, hspace⟩ := hR.head
  have hcz : c ∈ (" where " : Str) ++ z := by
    rw [htext, Option.mem_def, List.getLast?_append_of_ne_nil _ (by simp)] at hc
    exact List.mem_of_getLast? hc
  -- The value is a number: behind `where` there are no quotes.
  have hnumber : ∀ a ∈ e.value, a = '-' ∨ isDecimal U a = true := by
    rcases hlast with hquote | ⟨-, hnumber⟩
    · rcases List.mem_append.1 hcz with hm | hm
      · obtain ⟨h1, h2, -⟩ := where_ends_none (U := U) c hm
        exact absurd hquote (not_or.2 ⟨h1, h2⟩)
      · exact absurd hquote (not_or.2 (hR.noQuote c (by rw [hz]; exact List.mem_append_left _ hm)))
    · exact hnumber
  have hhead : ∀ a b, z = a :: b → a = d := fun a b hab => by
    rw [hd, hab] at hz
    exact (List.cons.inj hz).1.symm
  have hsplit : ((e.qualifierText ++ e.column) ++ e.before) ++ '=' :: (e.after ++ e.value) =
      (s ++ " where ") ++ z := by
    rw [List.append_assoc s]
    exact htext
  rcases List.append_eq_append_iff.1 hsplit with ⟨g, hg, hvalue⟩ | ⟨g, hg, hg'⟩
  · cases g with
    | nil => exact hequals (hhead '=' _ hvalue.symm).symm
    | cons a g =>
      -- The equals sign stands in front of `where`, or within it.
      injection hvalue with ha hvalue
      subst ha
      have hw : 'w' ∈ g := by
        rcases List.append_eq_append_iff.1 hg with ⟨k, -, hk⟩ | ⟨k, -, hk⟩
        · exact absurd (show '=' ∈ (" where " : Str) by rw [hk]; simp) (by decide)
        · cases k with
          | nil => exact absurd (List.cons.inj hk).1 (by decide)
          | cons a k =>
            rw [(List.cons.inj hk).2]
            exact List.mem_append_right _ (by decide)
      have hmem : 'w' ∈ e.after ++ e.value := by
        rw [hvalue]
        exact List.mem_append_left _ hw
      rcases List.mem_append.1 hmem with hm | hm
      · exact absurd (he.after _ hm) (by decide)
      · rcases hnumber _ hm with h | h
        · exact absurd h (by decide)
        · rw [isDecimal_of_not_isDigit (by decide) (by decide)] at h
          exact absurd h (by simp)
  · cases g with
    | nil => exact hequals (hhead '=' _ hg').symm
    | cons a g =>
      -- The equals sign stands behind `where`.
      have hbehind : (e.qualifierText ++ e.column) ++ e.before = (s ++ " where") ++
          ' ' :: (a :: g) := by
        rw [hg]
        simp
      have hs := he.behind_space hbehind a List.mem_cons_self
      rw [hhead a _ hg', hspace] at hs
      exact absurd hs (by simp)

/-- A predicate that starts in front of `where` does not go over it. -/
theorem Equation.Valid.within {e : Equation} (he : e.Valid U) {R s t : Str} (hR : Barrier R)
    (h : s ++ (" where " ++ R) = e.text ++ t) :
    ∃ s', s = e.text ++ s' ∧ s' ++ (" where " ++ R) = t := by
  obtain ⟨c, hc, hlast⟩ := he.last
  have hend : ∀ x y : Str, e.text = x ++ y → y ≠ [] → c ∈ y := fun x y hxy hne => by
    rw [hxy, Option.mem_def, List.getLast?_append_of_ne_nil _ hne] at hc
    exact List.mem_of_getLast? hc
  have hnotWhere : c ∉ (" where " : Str) := fun hm => by
    obtain ⟨h1, h2, h3⟩ := where_ends_none (U := U) c hm
    rcases hlast with (h | h) | ⟨h, -⟩
    · exact h1 h
    · exact h2 h
    · rw [h] at h3
      exact absurd h3 (by simp)
  rcases List.append_eq_append_iff.1 h with ⟨y, hy, hrest⟩ | ⟨y, hy, hrest⟩
  · by_cases hne : y = []
    · subst hne
      exact ⟨[], by rw [hy, List.append_nil, List.append_nil], hrest⟩
    have hcy := hend s y hy hne
    rcases List.append_eq_append_iff.1 hrest with ⟨z, rfl, hz⟩ | ⟨z, hz, -⟩
    · exact absurd hy (he.not_over hR hz)
    · exact absurd (by rw [hz]; exact List.mem_append_left _ hcy) hnotWhere
  · exact ⟨y, hy, hrest.symm⟩

/-! ## The scan -/

theorem matchAt_predicate_none {pos : Nat} {prev : Option Char} {c : Char} {rest : Str}
    (hc : foldClass isNameStart c = false) :
    (predicatePattern U).matchAt ⟨pos, prev, c :: rest⟩ = none := by
  rcases hm : (predicatePattern U).matchAt ⟨pos, prev, c :: rest⟩ with _ | m
  · rfl
  obtain ⟨e, t, htext, he, -⟩ := matchAt_equation hm
  have hstart : nameAhead e.text = true := by
    rw [Equation.text, List.append_assoc, List.append_assoc, Equation.qualifierText]
    cases hq : e.qualifier with
    | none =>
      rw [List.nil_append, nameAhead_append he.column.ne_nil]
      exact he.column.start
    | some q =>
      have hname := he.qualifier q hq
      simp only [List.append_assoc]
      rw [nameAhead_append hname.ne_nil]
      exact hname.start
  have hne : e.text ≠ [] := by simp [Equation.text]
  rw [← nameAhead_append hne t, ← htext, nameAhead, List.head?_cons, Option.any_some,
    hc] at hstart
  exact absurd hstart (by simp)

/-- A predicate behind a part of a name is one behind the whole name. -/
theorem Equation.Valid.extend {e : Equation} (he : e.Valid U) {u : Str} (hu : IsName u) :
    ∃ e' : Equation, e'.Valid U ∧ e'.text = u ++ e.text := by
  have happend : ∀ {x : Str}, IsName x → IsName (u ++ x) := fun hx =>
    ⟨by rw [nameAhead_append hu.ne_nil]; exact hu.start,
      List.forall_mem_append.2 ⟨hu.parts, hx.parts⟩⟩
  cases hq : e.qualifier with
  | none =>
    refine ⟨{ e with column := u ++ e.column }, ⟨he.qualifier, happend he.column, he.before,
      he.after, he.value⟩, ?_⟩
    simp [Equation.text, Equation.qualifierText, hq]
  | some q =>
    refine ⟨{ e with qualifier := some (u ++ q) }, ⟨fun x hx => ?_, he.column, he.before,
      he.after, he.value⟩, ?_⟩
    · obtain rfl : u ++ q = x := by simpa using hx
      exact happend (he.qualifier q hq)
    · simp [Equation.text, Equation.qualifierText, hq]

/-- Where no predicate starts at a name, none starts within it. -/
theorem matchAt_in_name {x rest : Str} (hx : IsName x) {pos : Nat} {prev : Option Char}
    (hnone : (predicatePattern U).matchAt ⟨pos, prev, x ++ rest⟩ = none) (pos' : Nat)
    (prev' : Option Char) (u : Str) (c : Char) (v : Str) (hxu : x = u ++ c :: v) :
    (predicatePattern U).matchAt ⟨pos', prev', c :: (v ++ rest)⟩ = none := by
  rcases hm : (predicatePattern U).matchAt ⟨pos', prev', c :: (v ++ rest)⟩ with _ | m
  · rfl
  obtain ⟨e, t, htext, he, -⟩ := matchAt_equation hm
  obtain ⟨e', he', htext'⟩ : ∃ e' : Equation, e'.Valid U ∧ e'.text = u ++ e.text := by
    by_cases hne : u = []
    · exact ⟨e, he, by rw [hne, List.nil_append]⟩
    · refine he.extend ⟨?_, fun d hd =>
        hx.parts d (by rw [hxu]; exact List.mem_append_left _ hd)⟩
      rw [← nameAhead_append hne (c :: v), ← hxu]
      exact hx.start
  have hrest : x ++ rest = e'.text ++ t := by
    rw [htext', hxu, List.append_assoc, List.append_assoc, List.cons_append, htext]
  have hsome : ((predicatePattern U).matchAt ⟨pos, prev, x ++ rest⟩).isSome = true :=
    isSome_matchAt_predicate hrest he'
  rw [hnone] at hsome
  exact absurd hsome (by simp)

/-- A scan for predicates goes over `where`. -/
theorem scan_where {R : Str} (hR : Barrier R) (pos : Nat) (prev : Option Char) :
    scan (predicatePattern U) (" where " ++ R) 0 pos prev =
      scan (predicatePattern U) R 0 (pos + 7) (some ' ') := by
  obtain ⟨d, ds, rfl, hequals, hspace⟩ := hR.head
  have hgap : AtomGap " where " := ⟨by decide, by decide, ' ', rfl, by decide⟩
  refine hgap.scan_pass (fun c hc => ?_) (fun c hc _ _ => Or.inl ?_) pos prev
  · obtain rfl : d = c := by simpa using hc
    exact hequals
  · obtain rfl : d = c := by simpa using hc
    exact hspace

/-- The predicates that a scan finds in front of `where` are on names that the text there equates,
and the scan goes on behind `where`.  The text `v` is what was scanned before. -/
theorem scan_before_where {R : Str} (hR : Barrier R) (s : Str) {v : Str}
    (hv : Fresh v ∨ s.head?.any isNamePart = false) (pos : Nat) (prev : Option Char) :
    ∃ found pos' prev',
      (scan (predicatePattern U) (s ++ (" where " ++ R)) 0 pos prev).filterMap predicateOfMatch =
        found ++ (scan (predicatePattern U) R 0 pos' prev').filterMap predicateOfMatch ∧
      ∀ p ∈ found, ∃ w, Equated (v ++ s) w ∧ nameOf w = p.column := by
  induction hn : s.length using Nat.strong_induction_on generalizing s v pos prev with
  | _ n ih =>
  subst hn
  cases s with
  | nil => exact ⟨[], _, _, by rw [List.nil_append, scan_where hR, List.nil_append], by simp⟩
  | cons c s =>
    by_cases hc : foldClass isNameStart c = true
    · have hfresh : Fresh v := hv.resolve_right (by simp [isNamePart_of_start hc])
      rcases hm : (predicatePattern U).matchAt ⟨pos, prev, (c :: s) ++
        (" where " ++ R)⟩ with _ | m
      · -- No predicate starts here, so none starts within the name.
        set x := (c :: s).takeWhile isNamePart with hx
        set s' := (c :: s).dropWhile isNamePart with hs'
        have hsplit : c :: s = x ++ s' := (List.takeWhile_append_dropWhile).symm
        have hname : IsName x := by
          refine ⟨?_, forall_takeWhile _ _⟩
          rw [hx, List.takeWhile_cons_of_pos (isNamePart_of_start hc)]
          exact hc
        have hhead : s'.head?.any isNamePart = false := by
          rw [Option.any_eq_false]
          exact fun d hd => by simpa using head_dropWhile isNamePart (c :: s) d hd
        have hshort : s'.length < (c :: s).length := by
          rw [hsplit, List.length_append]
          have := List.length_pos_of_ne_nil hname.ne_nil
          omega
        obtain ⟨found, pos', prev', hfound, hcolumns⟩ := ih s'.length hshort s' (v := v ++ x)
          (Or.inr hhead) (pos + x.length) (lastOf prev x) rfl
        refine ⟨found, pos', prev', ?_, ?_⟩
        · rw [hsplit, List.append_assoc] at hm ⊢
          rw [scan_pass fun u d w hu => matchAt_in_name hname hm _ _ u d w hu]
          exact hfound
        · rw [hsplit, ← List.append_assoc]
          exact hcolumns
      · obtain ⟨e, t, htext, he, hstop, p, hp, hcolumn⟩ := matchAt_equation hm
        obtain ⟨s', hs', rfl⟩ := he.within hR htext
        have hne : e.text ≠ [] := by simp [Equation.text]
        have hshort : s'.length < (c :: s).length := by
          rw [hs', List.length_append]
          have := List.length_pos_of_ne_nil hne
          omega
        obtain ⟨found, pos', prev', hfound, hcolumns⟩ :=
          ih s'.length hshort s' (v := v ++ e.text)
          (Or.inl (he.fresh v)) (pos + e.text.length) (lastOf prev e.text) rfl
        refine ⟨p :: found, pos', prev', ?_, List.forall_mem_cons.2 ⟨?_, ?_⟩⟩
        · rw [hs', List.append_assoc] at hm ⊢
          rw [scan_match hne hm hstop, List.filterMap_cons_some hp, hfound, List.cons_append]
        · obtain ⟨w, hw, hname⟩ := he.equated hfresh s'
          exact ⟨w, by rw [hs']; exact hw, hname.trans hcolumn.symm⟩
        · rw [hs', ← List.append_assoc]
          exact hcolumns
    · have hstart : foldClass isNameStart c = false := by simpa using hc
      have hfresh : Fresh (v ++ [c]) := by
        rcases hv with hv | hhead
        · exact hv.append fun d hd => by rw [List.mem_singleton.1 hd]; exact hstart
        · exact fresh_concat (by simpa using hhead) v
      obtain ⟨found, pos', prev', hfound, hcolumns⟩ := ih s.length (by simp) s (v := v ++ [c])
        (Or.inl hfresh) (pos + 1) (some c) rfl
      refine ⟨found, pos', prev', ?_, ?_⟩
      · rw [List.cons_append, scan, matchAt_predicate_none hstart]
        exact hfound
      · rw [List.append_assoc] at hcolumns
        exact hcolumns

/-! ## A condition behind `where` -/

theorem noQuote_of_all {s : Str} (h : s.all (fun c => c != '\'' && c != '"') = true) :
    ∀ c ∈ s, c ≠ '\'' ∧ c ≠ '"' := fun c hc => by
  simpa using List.all_eq_true.1 h c hc

/-- An atom has no quotes. -/
theorem Atom.Valid.noQuote {a : Atom} (ha : a.Valid) : ∀ c ∈ a.text, c ≠ '\'' ∧
    c ≠ '"' := by
  have hname : ∀ {x : Str}, isIdentifier x = true → ∀ c ∈ x, c ≠ '\'' ∧ c ≠ '"' :=
    fun hx c hc => by
    have hpart := isNameChar_of_isIdentifier hx c hc
    constructor <;> rintro rfl <;> exact absurd hpart (by decide)
  have hint : ∀ c ∈ intText a.value, c ≠ '\'' ∧ c ≠ '"' := fun c hc => by
    have hchar : c = '-' ∨ c.isDigit = true := by
      rw [intText] at hc
      split at hc
      · exact (List.mem_cons.1 hc).imp_right (natText_isDigit c)
      · exact Or.inr (natText_isDigit c hc)
    constructor <;> rintro rfl <;> exact absurd hchar (by decide)
  rw [Atom.text]
  refine List.forall_mem_append.2 ⟨?_, List.forall_mem_append.2 ⟨hname ha.column,
    List.forall_mem_append.2 ⟨noQuote_of_all (by decide), hint⟩⟩⟩
  rw [Atom.prefixText]
  cases hq : a.qualifier with
  | none => simp
  | some q => exact List.forall_mem_append.2 ⟨hname (ha.qualifier q hq),
      noQuote_of_all (by decide)⟩

theorem noQuote_condText {b : Binding} (c : Cond Atom b) (hc : ∀ a ∈ c.atoms, a.Valid) :
    ∀ d ∈ condText c, d ≠ '\'' ∧ d ≠ '"' := by
  induction c with
  | atom a => exact (hc a List.mem_cons_self).noQuote
  | not c ih =>
    exact List.forall_mem_append.2 ⟨noQuote_of_all (by decide),
      List.forall_mem_append.2 ⟨ih hc, noQuote_of_all (by decide)⟩⟩
  | paren c ih =>
    exact List.forall_mem_cons.2 ⟨by decide,
      List.forall_mem_append.2 ⟨ih hc, noQuote_of_all (by decide)⟩⟩
  | prim c ih => exact ih hc
  | and a b iha ihb =>
    obtain ⟨ha, hb⟩ := List.forall_mem_append.1 hc
    exact List.forall_mem_append.2 ⟨iha ha,
      List.forall_mem_append.2 ⟨noQuote_of_all (by decide), ihb hb⟩⟩
  | conj c ih => exact ih hc
  | or a b iha ihb =>
    obtain ⟨ha, hb⟩ := List.forall_mem_append.1 hc
    exact List.forall_mem_append.2 ⟨iha ha,
      List.forall_mem_append.2 ⟨noQuote_of_all (by decide), ihb hb⟩⟩

theorem barrier_condText {b : Binding} (c : Cond Atom b) (hc : ∀ a ∈ c.atoms, a.Valid)
    {tail : Str} (htail : ∀ d ∈ tail, d ≠ '\'' ∧ d ≠ '"') : Barrier
    (condText c ++ tail) where
  head := by
    obtain ⟨d, ds, hd, h⟩ := head_condText_ne c hc
    exact ⟨d, ds ++ tail, by rw [hd, List.cons_append], h⟩
  noQuote := List.forall_mem_append.2 ⟨noQuote_condText c hc, htail⟩

/-- The predicates of a statement with one condition, behind any text: those on names that the text
equates, and the atoms of the condition. -/
theorem predicates_behind_text {b : Binding} {c : Cond Atom b} (hc : ∀ a ∈ c.atoms, a.Valid)
    (s : Str) {tail : Str} (htail : ∀ d ∈ tail, d ≠ '\'' ∧ d ≠ '"')
    (hequals : '=' ∉ tail)
    (hends : Ends U tail) :
    ∃ found,
      ((predicatePattern U).finditer (s ++ (" where " ++ (condText c ++ tail)))).filterMap
        predicateOfMatch = found ++ c.atoms.map Atom.predicate ∧
      ∀ p ∈ found, ∃ w, Equated s w ∧ nameOf w = p.column := by
  obtain ⟨found, pos, prev, hscan, hfound⟩ := scan_before_where (U := U)
    (barrier_condText c hc htail) s (Or.inl fresh_nil) 0 none
  obtain ⟨pos', prev', hcond⟩ := scan_cond (U := U) c hc hends pos prev
  rw [scan_no_equals hequals, List.filterMap_nil, List.append_nil] at hcond
  exact ⟨found, by rw [finditer, hscan, hcond], hfound⟩

end SqlGatekeeper
