import SqlGatekeeper.Services.Scanning

/-!
# What the predicate pattern finds

* `Atom`: an equality of a column and an integer, as it is written; `matchAt_atom`: the predicate
  pattern finds it.
* `AtomGap`: a text that may stand before and behind atoms; `AtomGap.scan_pass`: a scan for
  predicates goes over it.
-/

namespace SqlGatekeeper

open Py Regex

variable {U : UnicodeData}

/-! ## Predicates -/

/-- An equality of a column and an integer, as it is written. -/
structure Atom where
  qualifier : Option Str
  column : Str
  value : Int
  deriving DecidableEq

/-- The qualifier of an atom with its dot. -/
def Atom.prefixText (a : Atom) : Str :=
  match a.qualifier with
  | some q => q ++ ['.']
  | none => []

/-- The text of an atom. -/
def Atom.text (a : Atom) : Str := a.prefixText ++ (a.column ++ (" = " ++ intText a.value))

/-- Qualifier and column are identifiers. -/
structure Atom.Valid (a : Atom) : Prop where
  qualifier : ∀ q ∈ a.qualifier, isIdentifier q = true
  column : isIdentifier a.column = true

/-- The predicate of an atom. -/
def Atom.predicate (a : Atom) : ParsedPredicate := ⟨a.qualifier, a.column, intText a.value⟩

/-- What the identifier part of a pattern matches. -/
theorem matches_ident {cur stop : Cursor} {caps caps' : Captures}
    (h : ident.Matches cur caps stop caps') :
    ∃ c w cs, cur.rest = (c :: w) ++ cs ∧ foldClass isNameStart c = true ∧
      (∀ d ∈ c :: w, foldClass isNameChar d = true) ∧ stop = cur.after (c :: w) cs := by
  obtain ⟨mid, capsm, ⟨c, cs, hr, hc, rfl, -⟩, w, ds, hw, hall, rfl, -⟩ := h
  have hcs : cs = w ++ ds := hw
  refine ⟨c, w, ds, by rw [hr, hcs]; rfl, hc, List.forall_mem_cons.2 ⟨?_, hall⟩, ?_⟩
  · rw [foldClass, Bool.or_eq_true] at hc ⊢
    exact hc.imp_left isNameChar_of_isNameStart
  · rw [after_after]
    rfl

/-- A predicate starts with names, a dot between them if there are two, and has an equals sign
behind them. -/
theorem predicatePattern_starts {pos : Nat} {prev : Option Char} {rest : Str}
    (h : ((predicatePattern U).matchAt ⟨pos, prev, rest⟩).isSome = true) :
    (∃ x sp z, rest = (x ++ sp) ++ '=' :: z ∧ x ≠ [] ∧
        (∀ c ∈ x, foldClass isNameChar c = true) ∧ ∀ c ∈ sp, isSpace c = true) ∨
      (∃ y z, rest = y ++ '.' :: z ∧ ∀ c ∈ y, foldClass isNameChar c = true) ∧
        '=' ∈ rest := by
  obtain ⟨stop, caps, mid, capsm, hq, mid2, capsm2, hx, mid3, capsm3, hsp, mid4, capsm4,
      heq, -⟩ :=
    matchAt_isSome_iff.1 h
  obtain ⟨capsx, hx, -⟩ := hx
  obtain ⟨x, xs, cs, hxcs, -, hall, rfl⟩ := matches_ident hx
  obtain ⟨sp, ds, hds, hspall, rfl, -⟩ := hsp
  obtain ⟨c, z, hz, hc, -⟩ := heq
  obtain rfl : c = '=' := by simpa using hc
  have hcs : cs = sp ++ ds := hds
  have hdz : ds = '=' :: z := hz
  have hmid : mid.rest = ((x :: xs) ++ sp) ++ '=' :: z := by rw [hxcs, hcs, hdz, List.append_assoc]
  rcases hq with ⟨mid0, caps0, ⟨capsi, hi, -⟩, e, es, hes, he, rfl, -⟩ | ⟨rfl, -⟩
  · obtain ⟨y, ys, fs, hy, -, hyall, rfl⟩ := matches_ident hi
    obtain rfl : e = '.' := by simpa using he
    have hfs : fs = '.' :: es := hes
    have hes' : es = ((x :: xs) ++ sp) ++ '=' :: z := hmid
    have hrest : rest = (y :: ys) ++ '.' :: es := by rw [← hfs]; exact hy
    exact Or.inr ⟨⟨y :: ys, es, hrest, hyall⟩, by rw [hrest, hes']; simp⟩
  · exact Or.inl ⟨x :: xs, sp, z, hmid, List.cons_ne_nil x xs, hall, hspall⟩

/-- A text without an equals sign has no predicates. -/
theorem scan_no_equals {s : Str} (hs : '=' ∉ s) (pos : Nat) (prev : Option Char) :
    scan (predicatePattern U) s 0 pos prev = [] := by
  have hpass : scan (predicatePattern U) (s ++ []) 0 pos prev = _ :=
    scan_pass fun u c v hw => by
      rw [← Option.not_isSome_iff_eq_none]
      intro hsome
      have hmem : '=' ∈ c :: (v ++ []) := by
        rcases predicatePattern_starts hsome with ⟨x, sp, z, hx, -⟩ | ⟨-, hx⟩
        · rw [hx]
          simp
        · exact hx
      rw [List.append_nil] at hmem
      exact hs (by rw [hw]; exact List.mem_append_right _ hmem)
  rw [List.append_nil] at hpass
  rw [hpass]
  rfl

/-- A text that no predicate starts in: it has no equals sign and no dot, and does not end in a
name. -/
structure AtomGap (s : Str) : Prop where
  noEquals : '=' ∉ s
  noDot : '.' ∉ s
  last : ∃ c ∈ s.getLast?, foldClass isNameChar c = false

theorem AtomGap.append {a b : Str} (heq : '=' ∉ a) (hdot : '.' ∉ a) (hb : AtomGap b) :
    AtomGap (a ++ b) where
  noEquals h := (List.mem_append.1 h).elim heq hb.noEquals
  noDot h := (List.mem_append.1 h).elim hdot hb.noDot
  last := by
    obtain ⟨c, hc, hname⟩ := hb.last
    have hne : b ≠ [] := by
      rintro rfl
      exact absurd hc (Option.not_mem_none c)
    exact ⟨c, by rw [List.getLast?_append_of_ne_nil _ hne]; exact hc, hname⟩

/-- A scan for predicates goes over such a text, if no equals sign comes behind it, and spaces
at most on one side of its end. -/
theorem AtomGap.scan_pass {s rest : Str} (hs : AtomGap s) (heq : ∀ c ∈ rest.head?, c ≠ '=')
    (hspace : ∀ c ∈ rest.head?, ∀ e ∈ s.getLast?, isSpace c = false ∨ isSpace e = false)
    (pos : Nat) (prev : Option Char) :
    scan (predicatePattern U) (s ++ rest) 0 pos prev =
      scan (predicatePattern U) rest 0 (pos + s.length) (Py.lastOf prev s) := by
  refine Regex.scan_pass fun u c v hw => ?_
  rw [← Option.not_isSome_iff_eq_none]
  intro hsome
  obtain ⟨e, he, hlast⟩ := hs.last
  have hecv : e ∈ c :: v := by
    have he' := he
    rw [hw, Option.mem_def, List.getLast?_append_of_ne_nil _ (List.cons_ne_nil c v)] at he'
    exact List.mem_of_getLast? he'
  have hsub : ∀ d ∈ c :: v, d ∈ s := fun d hd => by rw [hw]; exact List.mem_append_right _ hd
  have hnotName : ∀ y : Str, (∀ d ∈ y, foldClass isNameChar d = true) → e ∉ y :=
    fun y hy hm => by
    rw [hy e hm] at hlast
    exact absurd hlast (by simp)
  rcases predicatePattern_starts hsome with ⟨x, sp, z, hx, -, hxall, hspall⟩ |
    ⟨⟨y, z, hy, hyall⟩, -⟩
  · rw [← List.cons_append] at hx
    rcases List.append_eq_append_iff.1 hx with ⟨a, ha, hr⟩ | ⟨b, hb, hz⟩
    · -- The equals sign stands behind the text, so the text ends within the spaces before it.
      rcases List.append_eq_append_iff.1 ha with ⟨g, hg, hag⟩ | ⟨g, hg, -⟩
      · cases a with
        | nil => exact heq '=' (by rw [hr]; rfl) rfl
        | cons d a =>
          have hd : isSpace d = true :=
            hspall d (by rw [hag]; exact List.mem_append_right _ List.mem_cons_self)
          have hesp : isSpace e = true := by
            have heg : e ∈ x ++ g := by rw [← hg]; exact hecv
            rcases List.mem_append.1 heg with h | h
            · exact absurd h (hnotName x hxall)
            · exact hspall e (by rw [hag]; exact List.mem_append_left _ h)
          rcases hspace d (by rw [hr]; rfl) e he with h | h
          · rw [hd] at h
            exact absurd h (by simp)
          · rw [hesp] at h
            exact absurd h (by simp)
      · refine absurd ?_ (hnotName x hxall)
        rw [hg]
        exact List.mem_append_left _ hecv
    · cases b with
      | nil => exact heq '=' (by rw [List.nil_append] at hz; rw [← hz]; rfl) rfl
      | cons d b =>
        injection hz with hd _
        refine hs.noEquals (hsub '=' ?_)
        rw [hb, hd]
        exact List.mem_append_right _ List.mem_cons_self
  · rw [← List.cons_append] at hy
    rcases List.append_eq_append_iff.1 hy with ⟨a, ha, -⟩ | ⟨b, hb, hz⟩
    · refine hnotName y hyall ?_
      rw [ha]
      exact List.mem_append_left _ hecv
    · cases b with
      | nil =>
        rw [List.append_nil] at hb
        exact hnotName y hyall (hb ▸ hecv)
      | cons d b =>
        injection hz with hd _
        refine hs.noDot (hsub '.' ?_)
        rw [hb, hd]
        exact List.mem_append_right _ List.mem_cons_self

section MatchAtom

variable {β : Type} {k : Cursor → Captures → Option β} {cur : Cursor}
  {caps : Captures} {x : β}

/-- No qualifier is found where an identifier stands without a dot behind it. -/
theorem run_qualifier_none {a rest : Str} {n : Nat} (hr : cur.rest = a ++ rest)
    (ha : isIdentifier a = true)
    (hrest : ∀ c ∈ rest.head?, c ≠ '.' ∧ foldClass isNameChar c = false) :
    (seq (group n ident) (char (· == '.'))).run k cur caps = none := by
  rcases h : (seq (group n ident) (char (· == '.'))).run k cur caps with _ | y
  · rfl
  obtain ⟨stop, caps', ⟨mid, capsm, ⟨capsi, hi, -⟩, c, cs, hc, hdot, -⟩, -⟩ :=
    run_eq_some h
  obtain ⟨d, w, ds, hw, -, hall, rfl⟩ := matches_ident hi
  obtain rfl : c = '.' := by simpa using hdot
  have hds : ds = '.' :: cs := hc
  rw [hr, hds] at hw
  rcases List.append_eq_append_iff.1 hw with ⟨y, hwy, hy⟩ | ⟨y, hay, hy⟩
  · cases y with
    | nil => exact absurd rfl (hrest '.' (by rw [hy]; rfl)).1
    | cons e y =>
      have hname := hall e (by rw [hwy]; exact List.mem_append_right _ List.mem_cons_self)
      rw [(hrest e (by rw [hy]; rfl)).2] at hname
      exact absurd hname (by simp)
  · cases y with
    | nil => exact absurd rfl (hrest '.' (by rw [List.nil_append] at hy; rw [← hy]; rfl)).1
    | cons e y =>
      injection hy with he _
      have hname := isNameChar_of_isIdentifier ha e
        (by rw [hay]; exact List.mem_append_right _ List.mem_cons_self)
      rw [← he] at hname
      exact absurd hname (by decide)

/-- The head of an integer's text. -/
theorem head_intText (v : Int) :
    ∃ c cs, intText v = c :: cs ∧ (c = '-' ∧ v < 0 ∧ cs = natText v.natAbs ∨
      c.isDigit = true ∧ ¬ v < 0 ∧ c :: cs = natText v.natAbs) := by
  rw [intText]
  split
  · rename_i h
    exact ⟨_, _, rfl, Or.inl ⟨rfl, h, rfl⟩⟩
  · rename_i h
    obtain ⟨c, cs, hcs⟩ := List.exists_cons_of_ne_nil (natText_ne_nil v.natAbs)
    exact ⟨c, cs, hcs, Or.inr ⟨natText_isDigit c (by rw [hcs]; exact List.mem_cons_self), h,
      hcs.symm⟩⟩

theorem head_intText_ne (v : Int) {d : Char} (hd : d ≠ '-' ∧ d.isDigit = false) (rest : Str) :
    ∀ c ∈ (intText v ++ rest).head?, c ≠ d := by
  obtain ⟨c, cs, hcs, h⟩ := head_intText v
  intro e he
  rw [hcs] at he
  obtain rfl : c = e := by simpa using he
  rintro rfl
  rcases h with ⟨h, -⟩ | ⟨h, -⟩
  · exact hd.1 h
  · rw [hd.2] at h
    exact absurd h (by simp)

/-- The value part of the pattern reads an integer. -/
theorem run_value {v : Int} {rest : Str} (hr : cur.rest = intText v ++ rest)
    (hrest : ∀ c ∈ rest.head?, isDecimal U c = false)
    (hk : k (cur.after (intText v) rest) caps = some x) :
    (alt (quoted '\'') (alt (quoted '"') (seq (opt (char (· == '-')))
      (many1 (isDecimal U))))).run k cur caps = some x := by
  have hquote : ∀ {q : Char}, q ≠ '-' ∧ q.isDigit = false →
    ∀ {k : Cursor → Captures → Option β},
      (quoted q).run k cur caps = none := by
    intro q hq k
    rw [quoted, run]
    refine run_char_none fun c hc => ?_
    rw [hr] at hc
    simpa using head_intText_ne v hq rest c hc
  rw [run, run, hquote (by decide), hquote (by decide), Option.none_or, Option.none_or, run, run]
  obtain ⟨c, cs, hcs, ⟨rfl, -, hnat⟩ | ⟨hdig, -, hnat⟩⟩ := head_intText v
  · refine Option.or_eq_some_iff.2 (Or.inl ?_)
    rw [hcs, List.cons_append] at hr
    rw [run_char_head hr (by decide)]
    refine run_many1_longest rfl (by rw [hnat]; exact natText_ne_nil _)
      (by rw [hnat]; exact isDecimal_natText _) hrest ?_
    rw [after_after]
    rw [hcs] at hk
    exact hk
  · have hminus : c ≠ '-' := by
      rintro rfl
      exact absurd hdig (by decide)
    rw [run_char_none (by rw [hr, hcs]; simpa using hminus), Option.none_or]
    refine run_many1_longest hr (by rw [hcs]; simp) ?_ hrest hk
    rw [hcs, hnat]
    exact isDecimal_natText _

/-- Behind the qualifier the pattern reads column and value. -/
theorem run_columnValue {column rest : Str} {v : Int} (hcolumn : isIdentifier column = true)
    (hr : cur.rest = column ++ (" = " ++ (intText v ++ rest)))
    (hrest : ∀ c ∈ rest.head?, isDecimal U c = false)
    (hk : k (cur.after (column ++ (" = " ++ intText v)) rest)
      ((3, ⟨cur.pos + column.length + 3, cur.pos + column.length + 3 + (intText v).length,
        intText v⟩) :: (2, ⟨cur.pos, cur.pos + column.length, column⟩) :: caps) = some x) :
    (seq (group 2 ident) (seq (many isSpace) (seq (char (· == '=')) (seq (many isSpace)
      (group 3 (alt (quoted '\'') (alt (quoted '"')
        (seq (opt (char (· == '-'))) (many1 (isDecimal U)))))))))).run k cur caps = some x := by
  have hspace : ∀ c ∈ (intText v ++ rest).head?, isSpace c = false := by
    intro c hc
    by_contra h
    obtain ⟨d, ds, hds, hd⟩ := head_intText v
    rw [hds] at hc
    obtain rfl : d = c := by simpa using hc
    rcases hd with ⟨rfl, -⟩ | ⟨hd, -⟩
    · exact absurd h (by decide)
    · rw [isSpace_eq_false_of_isAlphanum (by rw [Char.isAlphanum, hd, Bool.or_true])] at h
      exact h rfl
  rw [run]
  refine run_group_ident hr hcolumn (by simpa using foldClass_space) ?_
  rw [run]
  refine run_many_longest (w := [' ']) (s := '=' :: ' ' :: (intText v ++ rest)) rfl
    (by simp [isSpace]) (by simp [isSpace]) ?_
  rw [run, run_char_head rfl (by decide), run]
  refine run_many_longest (w := [' ']) rfl (by simp [isSpace]) hspace ?_
  rw [run]
  refine run_value rfl hrest ?_
  rw [spanTo_after rfl, after_after, after_after, after_after, after_after]
  exact hk

end MatchAtom

/-- The text of an integer has no quotes to take off. -/
theorem normalizeValue_intText (v : Int) : normalizeValue (intText v) = intText v := by
  obtain ⟨c, cs, hcs, h⟩ := head_intText v
  have hne : c ≠ '\'' ∧ c ≠ '"' := by
    constructor <;> rintro rfl <;> rcases h with ⟨h, -⟩ | ⟨h, -⟩ <;> exact absurd
      h (by decide)
  rw [normalizeValue, if_neg]
  rw [hcs]
  simp [startsWith, hne.1.symm, hne.2.symm]

/-- The predicate pattern finds an atom. -/
theorem matchAt_atom {a : Atom} (ha : a.Valid) (pos : Nat) (prev : Option Char) {rest : Str}
    (hrest : ∀ c ∈ rest.head?, isDecimal U c = false) :
    ∃ m, (predicatePattern U).matchAt ⟨pos, prev, a.text ++ rest⟩ = some m ∧
      m.stop = pos + a.text.length ∧ predicateOfMatch m = some a.predicate := by
  obtain ⟨qualifier, column, v⟩ := a
  cases qualifier with
  | none =>
    have hr : Atom.text ⟨none, column, v⟩ ++ rest = column ++
        (" = " ++ (intText v ++ rest)) := by
      simp only [Atom.text, Atom.prefixText, List.nil_append, List.append_assoc]
    refine ⟨⟨pos, pos + (Atom.text ⟨none, column, v⟩).length,
      [(3, ⟨pos + column.length + 3, pos + column.length + 3 + (intText v).length, intText v⟩),
        (2, ⟨pos, pos + column.length, column⟩)]⟩, ?_, rfl, ?_⟩
    · rw [matchAt, predicatePattern, run, run, hr, run_qualifier_none rfl ha.column
        (by simpa using foldClass_space), Option.none_or]
      exact run_columnValue ha.column rfl hrest rfl
    · show some (ParsedPredicate.mk _ _ (normalizeValue (intText v))) = _
      rw [normalizeValue_intText]
      rfl
  | some q =>
    have hr : Atom.text ⟨some q, column, v⟩ ++ rest =
        q ++ '.' :: (column ++ (" = " ++ (intText v ++ rest))) := by
      simp only [Atom.text, Atom.prefixText, List.append_assoc, List.cons_append, List.nil_append]
    refine ⟨⟨pos, pos + (Atom.text ⟨some q, column, v⟩).length,
      [(3, ⟨pos + q.length + 1 + column.length + 3,
          pos + q.length + 1 + column.length + 3 + (intText v).length, intText v⟩),
        (2, ⟨pos + q.length + 1, pos + q.length + 1 + column.length, column⟩),
        (1, ⟨pos, pos + q.length, q⟩)]⟩, ?_, rfl, ?_⟩
    · rw [matchAt, predicatePattern, run, run, hr]
      refine Option.or_eq_some_iff.2 (Or.inl ?_)
      rw [run]
      refine run_group_ident rfl (ha.qualifier q rfl) (by simpa using (by decide)) ?_
      rw [run_char_head rfl (by decide)]
      refine run_columnValue ha.column rfl hrest ?_
      rw [after_after, after_after]
      simp only [Cursor.after, Atom.text, Atom.prefixText, List.length_append, List.length_cons,
        List.length_nil, Nat.zero_add, Nat.add_assoc]
    · show some (ParsedPredicate.mk _ _ (normalizeValue (intText v))) = _
      rw [normalizeValue_intText]
      rfl

end SqlGatekeeper
