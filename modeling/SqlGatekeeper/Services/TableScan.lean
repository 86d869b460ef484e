import SqlGatekeeper.Services.LimitScan

/-!
# The table references of a text

The table pattern without the matcher.

* `tableAt`: the reference that the pattern reads at the start of a text, as a `TableRead`.
* `matchAt_table`: the matcher reads that reference.
* `tableAt_text`, `tableAt_eq_some`: a reference is read back from its text, and only that.
* `EndsAt.congr`: what stands behind a reference matters only by how it starts.
-/

namespace SqlGatekeeper

open Py Regex

variable {U : UnicodeData}

/-! ## Reading a reference -/

/-- The characters that the pattern takes for those of a name. -/
abbrev isNamePart : Char → Bool := foldClass isNameChar

/-- Does a name start here? -/
def nameAhead (s : Str) : Bool := s.head?.any (foldClass isNameStart)

/-- A name, and the text behind it. -/
def nameAt (s : Str) : Option (Str × Str) :=
  if nameAhead s then some (s.takeWhile isNamePart, s.dropWhile isNamePart) else none

/-- An alias behind `as`: what stands in front of it, the alias, and the text behind it. -/
def asAliasAt (s : Str) : Option (Str × Str × Str) :=
  if foldsToWord "as" (s.take 2) && (s.drop 2).head?.any isSpace then
    (nameAt ((s.drop 2).dropWhile isSpace)).map fun r =>
      (s.take 2 ++ (s.drop 2).takeWhile isSpace, r)
  else none

/-- An alias behind whitespace, with or without `as`. -/
def aliasAt (s : Str) : Option (Str × Str × Str) :=
  if s.head?.any isSpace then
    ((asAliasAt (s.dropWhile isSpace)).or ((nameAt (s.dropWhile isSpace)).map fun r => ([], r))).map
      fun r => (s.takeWhile isSpace ++ r.1, r.2)
  else none

/-- A table reference in the text, in its pieces. -/
structure TableRead where
  keyword : Str
  spaces : Str
  name : Str
  /-- What stands in front of the alias, and the alias. -/
  aliasPart : Option (Str × Str)

/-- Does a text start with `from` or `join`? -/
def tableWordAhead (s : Str) : Bool :=
  foldsToWord "from" (s.take 4) || foldsToWord "join" (s.take 4)

/-- The reference that a text starts with, and the text behind it. -/
def tableAt (s : Str) : Option (TableRead × Str) :=
  if tableWordAhead s && (s.drop 4).head?.any isSpace then
    (nameAt ((s.drop 4).dropWhile isSpace)).map fun r =>
      ({  keyword := s.take 4
          spaces := (s.drop 4).takeWhile isSpace
          name := r.1
          aliasPart := (aliasAt r.2).map fun a => (a.1, a.2.1) },
        ((aliasAt r.2).map fun a => a.2.2).getD r.2)
  else none

/-- The text of the alias part. -/
def TableRead.aliasText (r : TableRead) : Str := (r.aliasPart.map fun a => a.1 ++ a.2).getD []

/-- The text in front of the name. -/
def TableRead.lead (r : TableRead) : Str := r.keyword ++ r.spaces

/-- The text of a reference. -/
def TableRead.text (r : TableRead) : Str := r.lead ++ (r.name ++ r.aliasText)

/-- The table of a reference that stands at a position. -/
def TableRead.table (r : TableRead) (pos : Nat) : ParsedTable :=
  ⟨r.name, r.aliasPart.map Prod.snd, pos + r.lead.length, pos + r.lead.length + r.name.length⟩

/-! ## The matcher -/

theorem isNamePart_of_start {c : Char}
    (hc : foldClass isNameStart c = true) : isNamePart c = true := by
  rw [foldClass, Bool.or_eq_true] at hc
  rw [isNamePart, foldClass, Bool.or_eq_true]
  exact hc.imp_left isNameChar_of_isNameStart

theorem isSpace_of_isNamePart {c : Char} (hc : isNamePart c = true) : isSpace c = false := by
  by_contra h
  have hw := isWord_of_foldClass (U := asciiData) hc
  rw [isWord_of_isSpace asciiData (by simpa using h)] at hw
  exact absurd hw (by simp)

/-- What follows the name of a reference, in its groups. -/
def TableRead.aliasCaps (r : TableRead) (pos : Nat) : Captures :=
  (r.aliasPart.map fun a => (3, ⟨pos + a.1.length, pos + a.1.length + a.2.length, a.2⟩)).toList

/-- The letters that `from` and `join` start with. -/
def isTableLetter (c : Char) : Bool := c.toLower == 'f' || c.toLower == 'j'

theorem toLower_of_foldsTo_plain {l c : Char} (hl : l ∉ ['i', 's', 'k'])
    (h : foldsTo l c = true) :
    c.toLower = l := by
  have h1 : l ≠ 'i' := by rintro rfl; exact hl (by decide)
  have h2 : l ≠ 's' := by rintro rfl; exact hl (by decide)
  have h3 : l ≠ 'k' := by rintro rfl; exact hl (by decide)
  simpa [foldsTo, h1, h2, h3] using h

theorem head_of_foldsToWord {d : Char} {l s : Str} {n : Nat} (hd : d ∉ ['i', 's', 'k'])
    (h : foldsToWord (d :: l) (s.take n) = true) : ∃ c, s.head? = some c ∧ c.toLower = d := by
  cases s with
  | nil => exact absurd h (by simp [foldsToWord])
  | cons c s =>
    cases n with
    | zero => exact absurd h (by simp [foldsToWord])
    | succ n =>
      rw [List.take_succ_cons, foldsToWord, Bool.and_eq_true] at h
      exact ⟨c, rfl, toLower_of_foldsTo_plain hd h.1⟩

theorem head_of_from {s : Str} (h : foldsToWord "from" (s.take 4) = true) :
    ∃ c, s.head? = some c ∧ c.toLower = 'f' :=
  head_of_foldsToWord (d := 'f') (l := "rom") (by decide) h

theorem head_of_join {s : Str} (h : foldsToWord "join" (s.take 4) = true) :
    ∃ c, s.head? = some c ∧ c.toLower = 'j' :=
  head_of_foldsToWord (d := 'j') (l := "oin") (by decide) h

theorem tableLetter_ahead {s : Str} (h : tableWordAhead s = true) :
    s.head?.any isTableLetter = true := by
  rw [tableWordAhead, Bool.or_eq_true] at h
  rcases h with h | h
  · obtain ⟨c, hc, hf⟩ := head_of_from h
    simp [hc, isTableLetter, hf]
  · obtain ⟨c, hc, hj⟩ := head_of_join h
    simp [hc, isTableLetter, hj]

theorem isAlpha_of_isTableLetter {c : Char} (hc : isTableLetter c = true) : c.isAlpha = true := by
  rw [isTableLetter, Bool.or_eq_true, beq_iff_eq, beq_iff_eq] at hc
  rw [← isAlpha_toLower]
  rcases hc with hc | hc <;> rw [hc] <;> decide

/-- The match of a reference at a position. -/
def TableRead.found (pos : Nat) (r : TableRead) : Match where
  start := pos
  stop := pos + r.text.length
  caps := r.aliasCaps (pos + r.lead.length + r.name.length) ++
    [(2, ⟨pos + r.lead.length, pos + r.lead.length + r.name.length, r.name⟩),
      (1, ⟨pos, pos + r.keyword.length, r.keyword⟩)]

theorem tableOfMatch_found (pos : Nat) (r : TableRead) :
    tableOfMatch (r.found pos) = some (r.table pos) := by
  obtain ⟨keyword, spaces, name, aliasPart⟩ := r
  cases aliasPart <;> rfl

section Run

variable {β : Type} {k : Cursor → Captures → Option β} {cur : Cursor} {caps : Captures}

/-- A name is read to its end, if whatever comes behind it succeeds. -/
theorem run_name {n : Nat} (hk : ∀ cur caps, (k cur caps).isSome = true) :
    (group n ident).run k cur caps = (nameAt cur.rest).bind fun r =>
      k (cur.after r.1 r.2) ((n, ⟨cur.pos, cur.pos + r.1.length, r.1⟩) :: caps) := by
  obtain ⟨pos, prev, rest⟩ := cur
  cases rest with
  | nil => rfl
  | cons c cs =>
    by_cases hc : foldClass isNameStart c = true
    · have hname : nameAt (c :: cs) = some (c :: cs.takeWhile isNamePart,
        cs.dropWhile isNamePart) := by
        rw [nameAt, nameAhead, List.head?_cons, Option.any_some, if_pos hc,
          List.takeWhile_cons_of_pos (isNamePart_of_start hc),
          List.dropWhile_cons_of_pos (isNamePart_of_start hc)]
      obtain ⟨x, hx⟩ := Option.isSome_iff_exists.1 (hk
        ((⟨pos, prev, c :: cs⟩ : Cursor).after (c :: cs.takeWhile isNamePart)
          (cs.dropWhile isNamePart))
        ((n, ⟨pos, pos + (c :: cs.takeWhile isNamePart).length, c :: cs.takeWhile isNamePart⟩)
          :: caps))
      have hrest : (⟨pos, prev, c :: cs⟩ : Cursor).rest =
          (c :: cs.takeWhile isNamePart) ++ cs.dropWhile isNamePart := by simp
      have hspan := spanTo_after hrest
      rw [hname, Option.bind_some, hx, run, ident, run, run_char_head rfl hc]
      refine run_many_longest (w := cs.takeWhile isNamePart) (s := cs.dropWhile isNamePart)
        (List.takeWhile_append_dropWhile).symm (forall_takeWhile _ cs) (head_dropWhile _ cs) ?_
      rw [after_after, List.singleton_append]
      exact (congrArg (fun span => k _ ((n, span) :: caps)) hspan).trans hx
    · have hname : nameAt (c :: cs) = none := by
        rw [nameAt, nameAhead, List.head?_cons, Option.any_some, if_neg hc]
      rw [hname, Option.bind_none, run, ident, run]
      exact run_char_none fun d hd => by
        obtain rfl : c = d := Option.some.inj hd
        simpa using hc

/-- A name starts with no whitespace. -/
theorem nameAhead_of_space {s : Str} (hs : s.head?.any isSpace = true) : nameAhead s = false := by
  cases s with
  | nil => rfl
  | cons c s =>
    by_contra h
    have hc : foldClass isNameStart c = true := by simpa [nameAhead] using h
    rw [List.head?_cons, Option.any_some, isSpace_of_isNamePart (isNamePart_of_start hc)] at hs
    exact absurd hs (by simp)

theorem failsOn_name {n : Nat} (hk : ∀ cur caps, (k cur caps).isSome = true) :
    FailsOn isSpace ((group n ident).run k) := by
  intro cur caps c cs hr hc
  rw [run_name hk, nameAt, nameAhead_of_space (by rw [hr]; exact hc)]
  rfl

end Run

section Matcher

variable {pos : Nat} {cur : Cursor} {caps : Captures}

theorem isSome_finish (cur : Cursor) (caps : Captures) : (finish pos cur caps).isSome = true := rfl

/-- The match that an alias ends. -/
def aliasFound (pos : Nat) (cur : Cursor) (caps : Captures)
    (a : Str × Str × Str) : Option Match :=
  finish pos (cur.after (a.1 ++ a.2.1) a.2.2)
    ((3, ⟨cur.pos + a.1.length, cur.pos + a.1.length + a.2.1.length, a.2.1⟩) :: caps)

/-- Behind the whitespace the pattern reads an alias with `as` or without. -/
theorem run_alias_name : (seq (opt (seq (word "as") (many1 isSpace))) (group 3 ident)).run
    (finish pos)
    cur caps = ((asAliasAt cur.rest).or ((nameAt cur.rest).map fun r => ([], r))).bind
      (aliasFound pos cur caps) := by
  have hplain : (group 3 ident).run (finish pos) cur caps =
      ((nameAt cur.rest).map fun r => (([] : Str), r)).bind (aliasFound pos cur caps) := by
    rw [run_name isSome_finish]
    cases nameAt cur.rest <;> rfl
  have has : (seq (word "as") (many1 isSpace)).run ((group 3 ident).run (finish pos)) cur caps =
      (asAliasAt cur.rest).bind (aliasFound pos cur caps) := by
    rw [run, asAliasAt]
    cases hf : foldsToWord "as" (cur.rest.take 2) with
    | false =>
      rw [run_word_fails hf]
      rfl
    | true =>
      have hrest : (cur.after (cur.rest.take 2) (cur.rest.drop 2)).rest = cur.rest.drop 2 := rfl
      rw [run_word (List.take_append_drop 2 _).symm hf,
        run_many1_of_failsOn (failsOn_name isSome_finish), hrest, Bool.true_and]
      split
      · rw [run_name isSome_finish]
        cases hname : nameAt ((cur.rest.drop 2).dropWhile isSpace) with
        | none => simp [Cursor.after, hname]
        | some r => simp [Cursor.after, hname, aliasFound, lastOf_append, Nat.add_assoc]
      · rfl
  rw [run, run, has, hplain]
  cases asAliasAt cur.rest <;> rfl

theorem failsOn_alias_name :
    FailsOn isSpace ((seq (opt (seq (word "as") (many1 isSpace))) (group 3 ident)).run
      (finish pos)) := by
  intro cur caps c cs hr hc
  have hword : foldsToWord "as" (cur.rest.take 2) = false := by
    by_contra h
    have hname := foldClass_of_foldsToWord (l := "as") (by decide) (by simpa using h) c
      (by rw [hr]; simp)
    rw [isSpace_of_isNamePart hname] at hc
    exact absurd hc (by simp)
  have hnone : nameAt cur.rest = none := by
    rw [nameAt, nameAhead_of_space (by rw [hr]; exact hc)]
    rfl
  rw [run_alias_name, asAliasAt, hword, hnone]
  rfl

/-- Behind the name the pattern reads an alias, if there is one. -/
theorem run_aliasAt : (opt (seq (many1 isSpace) (seq (opt (seq (word "as") (many1 isSpace)))
    (group 3 ident)))).run (finish pos) cur caps =
      ((aliasAt cur.rest).bind (aliasFound pos cur caps)).or (finish pos cur caps) := by
  rw [run, run, run_many1_of_failsOn failsOn_alias_name, run_alias_name, aliasAt]
  split
  · have hrest : (cur.after (cur.rest.takeWhile isSpace) (cur.rest.dropWhile isSpace)).rest =
        cur.rest.dropWhile isSpace := rfl
    rw [hrest]
    cases (asAliasAt (cur.rest.dropWhile isSpace)).or
        ((nameAt (cur.rest.dropWhile isSpace)).map fun r => ([], r)) with
    | none => rfl
    | some a => simp [aliasFound, Cursor.after, lastOf_append, Nat.add_assoc]
  · rfl

/-- The first word of a reference. -/
theorem run_tableWord {k : Cursor → Captures → Option Match} :
    (group 1 (alt (word "from") (word "join"))).run k cur caps =
      if tableWordAhead cur.rest then
        k (cur.after (cur.rest.take 4) (cur.rest.drop 4))
          ((1, ⟨cur.pos, cur.pos + (cur.rest.take 4).length, cur.rest.take 4⟩) :: caps)
      else none := by
  have hsplit := (List.take_append_drop 4 cur.rest).symm
  have hspan := spanTo_after hsplit
  rw [run, run, tableWordAhead]
  cases hfrom : foldsToWord "from" (cur.rest.take 4) with
  | true =>
    have hjoin : foldsToWord "join" (cur.rest.take 4) = false := by
      by_contra h
      obtain ⟨c, hc, hf⟩ := head_of_from hfrom
      obtain ⟨d, hd, hj⟩ := head_of_join (by simpa using h)
      obtain rfl : c = d := Option.some.inj (hc.symm.trans hd)
      exact absurd (hf.symm.trans hj) (by decide)
    rw [run_word hsplit hfrom, run_word_fails hjoin, hspan, Option.or_none]
    rfl
  | false =>
    rw [run_word_fails hfrom, Option.none_or, Bool.false_or]
    cases hjoin : foldsToWord "join" (cur.rest.take 4) with
    | true =>
      rw [run_word hsplit hjoin, hspan]
      rfl
    | false =>
      rw [run_word_fails hjoin]
      rfl

theorem failsOn_tableName {r : Regex}
    (hr : ∀ cur caps, (r.run (finish pos) cur caps).isSome = true) :
    FailsOn isSpace ((seq (group 2 ident) r).run (finish pos)) := by
  intro cur caps c cs hc hsp
  rw [run]
  exact failsOn_name hr cur caps c cs hc hsp

theorem isSome_run_opt {r : Regex} (cur : Cursor) (caps : Captures) :
    ((opt r).run (finish pos) cur caps).isSome = true := by
  rw [run, Option.isSome_or, isSome_finish, Bool.or_true]

end Matcher

/-- The reference that starts here, if no word goes over this place. -/
def tableHere (U : UnicodeData) (prev : Option Char) (s : Str) : Option (TableRead × Str) :=
  if prev.any (isWord U) then none else tableAt s

/-- The table pattern reads the reference that a text starts with, behind no word character. -/
theorem matchAt_table (pos : Nat) (prev : Option Char) (s : Str) :
    (tablePattern U).matchAt ⟨pos, prev, s⟩ = (tableHere U prev s).map fun p =>
    p.1.found pos := by
  have hboundary : tableWordAhead s = true →
      (⟨pos, prev, s⟩ : Cursor).isBoundary (isWord U) = !prev.any (isWord U) := by
    intro h
    obtain ⟨c, hc, hletter⟩ := (Option.any_eq_true _ _).1 (tableLetter_ahead h)
    have hword : isWord U c = true := isWord_of_isNameChar U (by
      rw [isNameChar, Char.isAlphanum, isAlpha_of_isTableLetter hletter]
      rfl)
    rw [Cursor.isBoundary]
    simp only [hc, Option.any_some, hword]
    cases prev.any (isWord U) <;> rfl
  rw [matchAt, tablePattern, run, run, run, run_tableWord, tableHere, tableAt]
  cases hahead : tableWordAhead s with
  | false =>
    cases (⟨pos, prev, s⟩ : Cursor).isBoundary (isWord U) <;> cases prev.any (isWord U) <;> rfl
  | true =>
    rw [hboundary hahead, if_pos rfl, Bool.true_and]
    cases prev.any (isWord U) with
    | true => rfl
    | false =>
      have hrest : ((⟨pos, prev, s⟩ : Cursor).after (s.take 4) (s.drop 4)).rest = s.drop 4 :=
        rfl
      rw [Bool.not_false, if_pos rfl, if_neg Bool.false_ne_true, run,
        run_many1_of_failsOn (failsOn_tableName isSome_run_opt), hrest]
      split
      · rw [run, run_name isSome_run_opt, after_after]
        have hspaces : ((⟨pos, prev, s⟩ : Cursor).after
          (s.take 4 ++ (s.drop 4).takeWhile isSpace)
          ((s.drop 4).dropWhile isSpace)).rest = (s.drop 4).dropWhile isSpace := rfl
        rw [hspaces]
        cases nameAt ((s.drop 4).dropWhile isSpace) with
        | none => rfl
        | some r =>
          rw [Option.bind_some, run_aliasAt]
          simp only [Option.map_some, TableRead.found, TableRead.text, TableRead.lead,
            TableRead.aliasText, TableRead.aliasCaps, Cursor.after]
          cases aliasAt r.2 with
          | none => simp [finish, Nat.add_assoc]
          | some a => simp [finish, aliasFound, Cursor.after, Nat.add_assoc]
      · rfl

/-! ## The pieces of a reference -/

/-- A run of the class is read to its end. -/
theorem span_of_all {p : Char → Bool} {w t : Str} (hw : ∀ c ∈ w, p c = true)
    (ht : t.head?.any p = false) : (w ++ t).takeWhile p = w ∧ (w ++ t).dropWhile p = t := by
  rw [(span_append ht w).1, (span_append ht w).2, List.takeWhile_eq_self_iff.2 hw,
    List.dropWhile_eq_nil_iff.2 hw]
  exact ⟨rfl, rfl⟩

/-- The head of a text that is not empty is its own. -/
theorem head_append_any {p : Char → Bool} {w : Str} (hw : w ≠ []) (t : Str) :
    (w ++ t).head?.any p = w.head?.any p := by
  rw [List.head?_append_of_ne_nil _ hw]

theorem head_any_of_all {p : Char → Bool} {w : Str} (hne : w ≠ [])
    (hw : ∀ c ∈ w, p c = true) :
    w.head?.any p = true := by
  obtain ⟨c, cs, rfl⟩ := List.exists_cons_of_ne_nil hne
  exact hw c List.mem_cons_self

/-- What the pattern takes for a name. -/
structure IsName (x : Str) : Prop where
  start : nameAhead x = true
  parts : ∀ c ∈ x, isNamePart c = true

theorem IsName.ne_nil {x : Str} (hx : IsName x) : x ≠ [] := by
  rintro rfl
  exact absurd hx.start (by decide)

theorem isName_of_isIdentifier {x : Str} (hx : isIdentifier x = true) : IsName x := by
  obtain ⟨c, cs, rfl, hc, hcs⟩ := isIdentifier_cons hx
  have hstart : foldClass isNameStart c = true := by rw [foldClass, hc, Bool.true_or]
  exact ⟨hstart, List.forall_mem_cons.2 ⟨isNamePart_of_start hstart, fun d hd => by
    rw [isNamePart, foldClass, hcs d hd, Bool.true_or]⟩⟩

theorem IsName.no_space {x : Str} (hx : IsName x) : ∀ c ∈ x, isSpace c = false :=
  fun c hc => isSpace_of_isNamePart (hx.parts c hc)

theorem nameAhead_append {x : Str} (hx : x ≠ []) (t : Str) : nameAhead (x ++ t) = nameAhead x :=
  head_append_any hx t

/-- A name is read to its end. -/
theorem nameAt_append {x t : Str} (hx : IsName x) (ht : t.head?.any isNamePart = false) :
    nameAt (x ++ t) = some (x, t) := by
  rw [nameAt, nameAhead_append hx.ne_nil, if_pos hx.start, (span_of_all hx.parts ht).1,
    (span_of_all hx.parts ht).2]

theorem nameAt_eq_some {s x t : Str} (h : nameAt s = some (x, t)) :
    s = x ++ t ∧ IsName x ∧ t.head?.any isNamePart = false := by
  rw [nameAt] at h
  split at h
  · rename_i hahead
    injection h with h
    injection h with hx ht
    subst hx ht
    refine ⟨(List.takeWhile_append_dropWhile).symm, ⟨?_, forall_takeWhile _ _⟩, ?_⟩
    · cases s with
      | nil => exact absurd hahead (by decide)
      | cons c s =>
        rw [List.takeWhile_cons_of_pos (isNamePart_of_start hahead)]
        exact hahead
    · rw [Option.any_eq_false]
      exact head_dropWhile _ _
  · exact absurd h (by simp)

/-- Whitespace that is not empty. -/
structure IsSpaces (w : Str) : Prop where
  ne_nil : w ≠ []
  all : ∀ c ∈ w, isSpace c = true

theorem isSpaces_takeWhile {s : Str} (h : s.head?.any isSpace = true) :
    IsSpaces (s.takeWhile isSpace) := ⟨takeWhile_ne_nil_iff.2 h, forall_takeWhile _ _⟩

theorem isSpace_of_head_name {s : Str} (h : s.head?.any isNamePart = true) :
    s.head?.any isSpace = false := by
  cases s with
  | nil => rfl
  | cons c s => exact isSpace_of_isNamePart h

theorem head_isNamePart_of_foldsToWord {l w : Str} (hl : l.all Char.isAlpha = true) (hne : w ≠ [])
    (hw : foldsToWord l w = true) : w.head?.any isNamePart = true :=
  head_any_of_all hne (foldClass_of_foldsToWord hl hw)

/-- An alias behind `as` is read as one. -/
theorem asAliasAt_append {w spaces x t : Str} (hw : foldsToWord "as" w = true)
    (hspaces : IsSpaces spaces) (hx : IsName x) (ht : t.head?.any isNamePart = false) :
    asAliasAt (w ++ (spaces ++ (x ++ t))) = some (w ++ spaces, x, t) := by
  have hlength : w.length = 2 := length_of_foldsToWord hw
  have hname : (x ++ t).head?.any isSpace = false := by
    rw [head_append_any hx.ne_nil]
    exact isSpace_of_head_name (head_any_of_all hx.ne_nil hx.parts)
  rw [asAliasAt, List.take_left' hlength, List.drop_left' hlength, hw,
    head_append_any hspaces.ne_nil, head_any_of_all hspaces.ne_nil hspaces.all, Bool.and_self,
    if_pos rfl, (span_of_all hspaces.all hname).1, (span_of_all hspaces.all hname).2,
    nameAt_append hx ht]
  rfl

theorem asAliasAt_eq_some {s lead x t : Str} (h : asAliasAt s = some (lead, x, t)) :
    ∃ w spaces, lead = w ++ spaces ∧ s = w ++ (spaces ++ (x ++ t)) ∧
      foldsToWord "as" w = true ∧ IsSpaces spaces ∧ IsName x ∧
        t.head?.any isNamePart = false := by
  rw [asAliasAt] at h
  split at h
  · rename_i hif
    rw [Bool.and_eq_true] at hif
    obtain ⟨⟨y, u⟩, hname, h⟩ := Option.map_eq_some_iff.1 h
    injection h with hlead h
    injection h with hx ht
    subst hx ht
    obtain ⟨hs, hx, ht⟩ := nameAt_eq_some hname
    refine ⟨s.take 2, (s.drop 2).takeWhile isSpace, hlead.symm, ?_, hif.1,
      isSpaces_takeWhile hif.2, hx, ht⟩
    rw [← hs, List.takeWhile_append_dropWhile, List.take_append_drop]
  · exact absurd h (by simp)

/-- Is there an alias behind `as` here? -/
theorem isSome_asAliasAt (s : Str) : (asAliasAt s).isSome = (foldsToWord "as" (s.take 2) &&
    (s.drop 2).head?.any isSpace && nameAhead ((s.drop 2).dropWhile isSpace)) := by
  rw [asAliasAt, nameAt]
  cases foldsToWord "as" (s.take 2) && (s.drop 2).head?.any isSpace with
  | false => rfl
  | true => cases nameAhead ((s.drop 2).dropWhile isSpace) <;> rfl

/-- Is there an alias here? -/
theorem isSome_aliasAt (s : Str) :
    (aliasAt s).isSome = (s.head?.any isSpace && nameAhead (s.dropWhile isSpace)) := by
  rw [aliasAt]
  cases s.head?.any isSpace with
  | false => rfl
  | true =>
    rw [if_pos rfl, Option.isSome_map, Option.isSome_or, Option.isSome_map, isSome_asAliasAt,
      nameAt, Bool.true_and]
    cases hahead : nameAhead (s.dropWhile isSpace) with
    | true => rw [if_pos rfl, Option.isSome_some, Bool.or_true]
    | false =>
      -- `as` would be a name.
      have hword : foldsToWord "as" ((s.dropWhile isSpace).take 2) = false := by
        by_contra h
        have hl : 'a' ∉ ['i', 's', 'k'] := by decide
        obtain ⟨c, hc, ha⟩ := head_of_foldsToWord (d := 'a') (l := ['s']) hl (by simpa using h)
        have hname : foldClass isNameStart c = true := by
          rw [foldClass, isNameStart, ← isAlpha_toLower, ha]
          rfl
        rw [nameAhead, hc, Option.any_some, hname] at hahead
        exact absurd hahead (by simp)
      rw [hword]
      rfl

/-- Two texts go on alike: with a name, with whitespace, and behind whitespace with a name. -/
structure SameEnd (t t' : Str) : Prop where
  namePart : t.head?.any isNamePart = t'.head?.any isNamePart
  space : t.head?.any isSpace = t'.head?.any isSpace
  behind : nameAhead (t.dropWhile isSpace) = nameAhead (t'.dropWhile isSpace)

theorem isSome_asAliasAt_congr {x t t' : Str} (hx : IsName x) (ht : t.head?.any isNamePart = false)
    (h : SameEnd t t') : (asAliasAt (x ++ t)).isSome = (asAliasAt (x ++ t')).isSome := by
  rw [isSome_asAliasAt, isSome_asAliasAt]
  have hshort : ∀ {c : Char} {u : Str}, u.head?.any isNamePart = false →
      foldsToWord "as" ((c :: u).take 2) = false := by
    intro c u hu
    by_contra hf
    have hf : foldsToWord "as" ((c :: u).take 2) = true := by simpa using hf
    have hparts := foldClass_of_foldsToWord (l := "as") (by decide) hf
    cases u with
    | nil => exact absurd (length_of_foldsToWord hf) (show ¬ (1 : Nat) = 2 by decide)
    | cons d u =>
      have hd : isNamePart d = true := hparts d (by simp)
      rw [List.head?_cons, Option.any_some, hd] at hu
      exact absurd hu (by simp)
  -- By the length of the name: `as` reaches into the text behind it, is the name, or ends in it.
  rcases x with _ | ⟨c, _ | ⟨d, _ | ⟨e, x⟩⟩⟩
  · exact absurd rfl hx.ne_nil
  · rw [List.singleton_append, List.singleton_append, hshort ht, hshort (h.namePart ▸ ht)]
    rfl
  · have htake : ∀ u : Str, ([c, d] ++ u).take 2 = [c, d] ∧ ([c, d] ++ u).drop 2 = u :=
      fun u => ⟨rfl, rfl⟩
    rw [(htake t).1, (htake t').1, (htake t).2, (htake t').2, h.space, h.behind]
  · have hspace : isSpace e = false := hx.no_space e (by simp)
    have hdrop : ∀ u : Str, ((c :: d :: e :: x) ++ u).drop 2 = e :: (x ++ u) := fun u => rfl
    rw [hdrop, hdrop, List.head?_cons, Option.any_some, hspace, Bool.and_false, Bool.false_and,
      List.head?_cons, Option.any_some, hspace, Bool.and_false, Bool.false_and]

/-- An alias behind whitespace is read as one. -/
theorem aliasAt_append {spaces s : Str} (hspaces : IsSpaces spaces)
    (hs : s.head?.any isSpace = false) : aliasAt (spaces ++ s) =
      ((asAliasAt s).or ((nameAt s).map fun r => ([], r))).map fun r => (spaces ++ r.1, r.2) := by
  rw [aliasAt, head_append_any hspaces.ne_nil, head_any_of_all hspaces.ne_nil hspaces.all,
    if_pos rfl, (span_of_all hspaces.all hs).1, (span_of_all hspaces.all hs).2]

/-- The text of an alias part, and what stands behind it. -/
theorem aliasAt_eq_some {s lead x t : Str} (h : aliasAt s = some (lead, x, t)) :
    s = lead ++ (x ++ t) ∧ IsName x ∧ t.head?.any isNamePart = false ∧
      ∃ spaces, IsSpaces spaces ∧
        ((∃ w spaces', lead = spaces ++ (w ++ spaces') ∧ foldsToWord "as" w = true ∧
          IsSpaces spaces') ∨ lead = spaces ∧ asAliasAt (x ++ t) = none) := by
  rw [aliasAt] at h
  split at h
  · rename_i hspace
    have hs : s = s.takeWhile isSpace ++ s.dropWhile isSpace :=
      (List.takeWhile_append_dropWhile).symm
    obtain ⟨⟨l, y, u⟩, hor, h⟩ := Option.map_eq_some_iff.1 h
    injection h with hlead h
    injection h with hx ht
    subst hlead hx ht
    rcases Option.or_eq_some_iff.1 hor with has | ⟨hnone, hname⟩
    · obtain ⟨w, spaces', rfl, hrest, hw, hspaces', hy, hu⟩ := asAliasAt_eq_some has
      refine ⟨?_, hy, hu, _, isSpaces_takeWhile hspace,
        Or.inl ⟨w, spaces', rfl, hw, hspaces'⟩⟩
      rw [hrest] at hs
      simpa only [List.append_assoc] using hs
    · obtain ⟨r, hr, hreq⟩ := Option.map_eq_some_iff.1 hname
      injection hreq with hl hreq
      subst hl hreq
      obtain ⟨hrest, hy, hu⟩ := nameAt_eq_some hr
      refine ⟨?_, hy, hu, _, isSpaces_takeWhile hspace, Or.inr ⟨List.append_nil _, ?_⟩⟩
      · rw [hrest] at hs
        simpa only [List.append_nil] using hs
      · rw [← hrest]
        exact hnone
  · exact absurd h (by simp)

/-- The alias of a reference does not change if what stands behind it starts alike. -/
theorem aliasAt_congr {lead x t t' : Str} (h : aliasAt (lead ++ (x ++ t)) = some (lead, x, t))
    (ht : SameEnd t t') : aliasAt (lead ++ (x ++ t')) = some (lead, x, t') := by
  obtain ⟨-, hx, hend, spaces, hspaces, hcase⟩ := aliasAt_eq_some h
  have hend' : t'.head?.any isNamePart = false := ht.namePart ▸ hend
  rcases hcase with ⟨w, spaces', rfl, hw, hspaces'⟩ | ⟨rfl, hnone⟩
  · have hne : w ≠ [] := ne_nil_of_foldsToWord hw
    have hhead : (w ++ (spaces' ++ (x ++ t'))).head?.any isSpace = false := by
      rw [head_append_any hne]
      exact isSpace_of_head_name (head_isNamePart_of_foldsToWord (l := "as") (by decide) hne hw)
    rw [List.append_assoc, List.append_assoc, aliasAt_append hspaces hhead,
      asAliasAt_append hw hspaces' hx hend', Option.some_or]
    rfl
  · have hhead : (x ++ t').head?.any isSpace = false := by
      rw [head_append_any hx.ne_nil]
      exact isSpace_of_head_name (head_any_of_all hx.ne_nil hx.parts)
    have hnone' : asAliasAt (x ++ t') = none := by
      rw [← Option.isNone_iff_eq_none, ← Option.not_isSome, ← isSome_asAliasAt_congr hx
        hend ht, hnone]
      rfl
    rw [aliasAt_append hspaces hhead, hnone', nameAt_append hx hend', Option.none_or,
      Option.map_some, Option.map_some, List.append_nil]

/-! ## The text of a reference -/

/-- The pieces of a reference are what the pattern reads. -/
structure TableRead.Valid (r : TableRead) : Prop where
  keyword : tableWordAhead r.keyword = true
  length : r.keyword.length = 4
  spaces : IsSpaces r.spaces
  name : IsName r.name
  aliasName : ∀ a ∈ r.aliasPart, IsName a.2

/-- The pattern reads the alias of a reference, if it has one, and stops in front of a text. -/
structure TableRead.EndsAt (r : TableRead) (t : Str) : Prop where
  nameEnd : (r.aliasText ++ t).head?.any isNamePart = false
  aliasEnd : aliasAt (r.aliasText ++ t) = r.aliasPart.map fun a => (a.1, a.2, t)

theorem tableWordAhead_append {w : Str} (hw : w.length = 4) (t : Str) :
    tableWordAhead (w ++ t) = tableWordAhead w := by
  rw [tableWordAhead, tableWordAhead, List.take_left' hw, List.take_of_length_le hw.le]

theorem TableRead.Valid.keyword_parts {r : TableRead} (hr : r.Valid) :
    ∀ c ∈ r.keyword, isNamePart c = true := by
  have hword := hr.keyword
  rw [tableWordAhead, List.take_of_length_le hr.length.le, Bool.or_eq_true] at hword
  rcases hword with hword | hword
  · exact foldClass_of_foldsToWord (l := "from") (by decide) hword
  · exact foldClass_of_foldsToWord (l := "join") (by decide) hword

theorem TableRead.text_append (r : TableRead) (t : Str) :
    r.text ++ t = r.keyword ++ (r.spaces ++ (r.name ++ (r.aliasText ++ t))) := by
  rw [TableRead.text, TableRead.lead]
  simp only [List.append_assoc]

/-- A reference is read back. -/
theorem tableAt_text {r : TableRead} (hr : r.Valid) {t : Str} (ht : r.EndsAt t) :
    tableAt (r.text ++ t) = some (r, t) := by
  have hname : (r.name ++ (r.aliasText ++ t)).head?.any isSpace = false := by
    rw [head_append_any hr.name.ne_nil]
    exact isSpace_of_head_name (head_any_of_all hr.name.ne_nil hr.name.parts)
  rw [r.text_append, tableAt, tableWordAhead_append hr.length, hr.keyword,
    List.take_left' hr.length, List.drop_left' hr.length, head_append_any hr.spaces.ne_nil,
    head_any_of_all hr.spaces.ne_nil hr.spaces.all, Bool.and_self, if_pos rfl,
    (span_of_all hr.spaces.all hname).1, (span_of_all hr.spaces.all hname).2,
    nameAt_append hr.name ht.nameEnd]
  obtain ⟨keyword, spaces, name, aliasPart⟩ := r
  simp only [Option.map_some, ht.aliasEnd]
  cases aliasPart <;> rfl

/-- What the pattern reads is the text of a reference. -/
theorem tableAt_eq_some {s t : Str} {r : TableRead} (h : tableAt s = some (r, t)) :
    s = r.text ++ t ∧ r.Valid ∧ r.EndsAt t := by
  rw [tableAt] at h
  split at h
  · rename_i hif
    rw [Bool.and_eq_true] at hif
    obtain ⟨⟨x, u⟩, hname, h⟩ := Option.map_eq_some_iff.1 h
    injection h with hr ht
    obtain ⟨hs, hx, hu⟩ := nameAt_eq_some hname
    have hlength : (s.take 4).length = 4 := by
      rw [List.length_take, Nat.min_eq_left]
      by_contra hlt
      rw [List.drop_eq_nil_of_le (by omega)] at hif
      exact absurd hif.2 (by simp)
    have hkeyword : tableWordAhead (s.take 4) = true := by
      rw [← tableWordAhead_append hlength (s.drop 4), List.take_append_drop]
      exact hif.1
    have hsplit : s = s.take 4 ++ ((s.drop 4).takeWhile isSpace ++ (x ++ u)) := by
      rw [← hs, List.takeWhile_append_dropWhile, List.take_append_drop]
    cases ha : aliasAt u with
    | none =>
      rw [ha] at hr ht
      subst hr ht
      have hend : (⟨s.take 4, (s.drop 4).takeWhile isSpace, x, none⟩ : TableRead).EndsAt u :=
        ⟨hu, ha⟩
      refine ⟨?_, ⟨hkeyword, hlength, isSpaces_takeWhile hif.2, hx, by simp⟩, hend⟩
      rw [TableRead.text_append]
      exact hsplit
    | some a =>
      obtain ⟨lead, y, v⟩ := a
      rw [ha] at hr ht
      subst hr ht
      obtain ⟨hau, hy, hv, -⟩ := aliasAt_eq_some ha
      have hassoc : (lead ++ y) ++ v = u := by rw [List.append_assoc, ← hau]
      have hend : (⟨s.take 4, (s.drop 4).takeWhile isSpace, x,
          some (lead, y)⟩ : TableRead).EndsAt v :=
        ⟨by rw [← hassoc] at hu; exact hu, by rw [← hassoc] at ha; exact ha⟩
      refine ⟨?_, ⟨hkeyword, hlength, isSpaces_takeWhile hif.2, hx, fun a ha => ?_⟩, hend⟩
      · rw [TableRead.text_append]
        rw [← hassoc] at hsplit
        exact hsplit
      · obtain rfl : (lead, y) = a := Option.some.inj ha
        exact hy
  · exact absurd h (by simp)

/-- What stands behind a reference matters only by how it starts. -/
theorem TableRead.EndsAt.congr {r : TableRead} {t t' : Str} (h : r.EndsAt t) (ht : SameEnd t t') :
    r.EndsAt t' := by
  obtain ⟨keyword, spaces, name, aliasPart⟩ := r
  obtain ⟨hname, halias⟩ := h
  cases aliasPart with
  | none =>
    have hnone : (aliasAt t).isSome = false := by
      rw [show aliasAt t = none from halias]
      rfl
    refine ⟨?_, Option.not_isSome_iff_eq_none.1 ?_⟩
    · have hend : t.head?.any isNamePart = false := hname
      rw [ht.namePart] at hend
      exact hend
    · rw [isSome_aliasAt, ht.space, ht.behind, ← isSome_aliasAt] at hnone
      simpa [TableRead.aliasText] using hnone
  | some a =>
    obtain ⟨lead, x⟩ := a
    have hread : aliasAt ((lead ++ x) ++ t) = some (lead, x, t) := halias
    rw [List.append_assoc] at hread
    obtain ⟨-, hx, -⟩ := aliasAt_eq_some hread
    refine ⟨?_, ?_⟩
    · have hne : lead ++ x ≠ [] := fun h => hx.ne_nil (List.append_eq_nil_iff.1 h).2
      have hend : ((lead ++ x) ++ t).head?.any isNamePart = false := hname
      rw [head_append_any hne] at hend
      exact (head_append_any hne t').trans hend
    · have hread' := aliasAt_congr hread ht
      rw [← List.append_assoc] at hread'
      exact hread'

/-- Is there a reference here? -/
theorem isSome_tableAt (s : Str) : (tableAt s).isSome = (tableWordAhead s &&
    (s.drop 4).head?.any isSpace && nameAhead ((s.drop 4).dropWhile isSpace)) := by
  rw [tableAt, nameAt]
  cases tableWordAhead s && (s.drop 4).head?.any isSpace with
  | false => rfl
  | true => cases nameAhead ((s.drop 4).dropWhile isSpace) <;> rfl

end SqlGatekeeper
