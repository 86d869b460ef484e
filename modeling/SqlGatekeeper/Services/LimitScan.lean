import SqlGatekeeper.Services.Scanning

/-!
# The first limit of a text

The limit pattern without the matcher: which number stands at the first place where it matches.

* `limitNumber`: the number that the pattern reads at the start of a text.
* `limitText_matchAt`: the matcher reads that number.
* `firstLimit`: the number of the first match of a text; `parseLimitValue_eq`.
* `limitNumber_congr`: the pattern does not look behind a place where it cannot go on.
-/

namespace SqlGatekeeper

open Py Regex

variable {U : UnicodeData}

/-! ## The number of a limit -/

/-- A number, and then more. -/
def numberThen (U : UnicodeData) (more : Str → Str → Option Str) (s : Str) : Option Str :=
  if s.head?.any (isDecimal U) then
    more (s.takeWhile (isDecimal U)) (s.dropWhile (isDecimal U))
  else none

/-- A number that no word character follows. -/
def endedNumber (U : UnicodeData) (n s : Str) : Option Str :=
  if s.head?.any (isWord U) then none else some n

/-- The number behind a comma. -/
def secondNumber (U : UnicodeData) (s : Str) : Option Str :=
  let t := s.dropWhile isSpace
  if t.head? = some ',' then numberThen U (endedNumber U) (t.tail.dropWhile isSpace) else none

/-- The number of a limit: the second one, if there are two. -/
def limitCount (U : UnicodeData) (n s : Str) : Option Str :=
  (secondNumber U s).or (endedNumber U n s)

/-- The number of a limit that a text starts with. -/
def limitNumber (U : UnicodeData) (s : Str) : Option Str :=
  if foldsToWord "limit" (s.take 5) && (s.drop 5).head?.any isSpace then
    numberThen U (limitCount U) ((s.drop 5).dropWhile isSpace)
  else none

theorem isWord_of_isDecimal {c : Char} (hc : isDecimal U c = true) : isWord U c = true := by
  obtain ⟨d, hd⟩ := Option.isSome_iff_exists.1 hc
  rw [isWord, U.isAlnum_of_decimal c d hd, Bool.true_or]

theorem isSpace_of_isDecimal {c : Char} (hc : isDecimal U c = true) : isSpace c = false := by
  obtain ⟨d, hd⟩ := Option.isSome_iff_exists.1 hc
  exact U.isAlnum_not_space c (U.isAlnum_of_decimal c d hd)

theorem isDecimal_of_isSpace {c : Char} (hc : isSpace c = true) : isDecimal U c = false := by
  by_contra h
  rw [isSpace_of_isDecimal (U := U) (by simpa using h)] at hc
  exact absurd hc (by simp)

theorem isDecimal_comma : isDecimal U ',' = false := by
  rw [isDecimal, U.decimal_ascii ',' (by decide)]
  rfl

section Run

variable {β : Type} {k : Cursor → Captures → Option β} {cur : Cursor} {caps : Captures}

/-- A number is read to its end, if what comes behind fails between two digits. -/
theorem run_number {n : Nat}
    (hk : ∀ (cur : Cursor) (caps : Captures), cur.prev.any (isDecimal U) = true →
      (∃ c cs, cur.rest = c :: cs ∧ isDecimal U c = true) → k cur caps = none) :
    (group n (many1 (isDecimal U))).run k cur caps = if cur.rest.head?.any (isDecimal U) then
      k (cur.after (cur.rest.takeWhile (isDecimal U)) (cur.rest.dropWhile (isDecimal U)))
        ((n, ⟨cur.pos, cur.pos + (cur.rest.takeWhile (isDecimal U)).length,
          cur.rest.takeWhile (isDecimal U)⟩) :: caps) else none := by
  obtain ⟨pos, prev, rest⟩ := cur
  rw [run]
  split
  · rename_i hhead
    obtain ⟨c, cs, rfl⟩ : ∃ c cs, rest = c :: cs := by
      cases rest with
      | nil => exact absurd hhead (by simp)
      | cons c cs => exact ⟨c, cs, rfl⟩
    have hc : isDecimal U c = true := hhead
    have hlast : ∀ u : Str, (∀ d ∈ u, isDecimal U d = true) →
        (lastOf (some c) u).any (isDecimal U) = true := by
      intro u hu
      rcases List.eq_nil_or_concat u with rfl | ⟨u, d, rfl⟩
      · exact hc
      · rw [List.concat_eq_append, lastOf_append]
        exact hu d (by simp)
    have hcur : ((⟨pos, prev, c :: cs⟩ : Cursor).after [c] cs).rest = cs := rfl
    rw [many1, run, run_char_head rfl hc, run_many_span, hcur, after_after,
      List.takeWhile_cons_of_pos hc, List.dropWhile_cons_of_pos hc]
    · have hrest : (⟨pos, prev, c :: cs⟩ : Cursor).rest =
          (c :: cs.takeWhile (isDecimal U)) ++ cs.dropWhile (isDecimal U) := by simp
      have hspan := spanTo_after hrest
      exact congrArg (fun span => k _ ((n, span) :: caps)) hspan
    · intro u d v huv
      have hall : ∀ e ∈ u ++ d :: v, isDecimal U e = true := fun e he =>
        forall_takeWhile _ _ e (by rw [hcur] at huv; rw [huv]; exact he)
      exact hk _ _ (hlast u fun e he => hall e (List.mem_append_left _ he))
        ⟨d, _, rfl, hall d (List.mem_append_right _ List.mem_cons_self)⟩
  · rename_i hhead
    refine run_many1_none fun c hc => ?_
    rw [Option.mem_def.1 hc] at hhead
    simpa using hhead

/-- No word ends between two digits. -/
theorem boundary_fails (hprev : cur.prev.any (isDecimal U) = true)
    (hrest : ∃ c cs, cur.rest = c :: cs ∧ isDecimal U c = true) :
    (boundary (isWord U)).run k cur caps = none := by
  obtain ⟨c, cs, hr, hc⟩ := hrest
  obtain ⟨d, hd, hdec⟩ := (Option.any_eq_true _ _).1 hprev
  rw [run, Cursor.isBoundary, hr, hd]
  simp [isWord_of_isDecimal hc, isWord_of_isDecimal hdec]

/-- A word ends behind a digit exactly if no word character follows. -/
theorem isBoundary_behind_digits {w : Str} (hne : w ≠ []) (hw : ∀ c ∈ w, isDecimal U c = true)
    (s : Str) : (cur.after w s).isBoundary (isWord U) = !s.head?.any (isWord U) := by
  have hlast : (lastOf cur.prev w).any (isWord U) = true := by
    rcases List.eq_nil_or_concat w with rfl | ⟨u, d, rfl⟩
    · exact absurd rfl hne
    · rw [List.concat_eq_append, lastOf_append]
      exact isWord_of_isDecimal (hw d (by simp))
  rw [Cursor.isBoundary, Cursor.after]
  simp only [hlast]
  cases s.head?.any (isWord U) <;> rfl

end Run

/-! ## The matcher -/

section Matcher

variable {pos : Nat} {cur : Cursor} {caps : Captures}

/-- The match with its captures. -/
abbrev finish (pos : Nat) : Cursor → Captures → Option Match :=
  fun stop caps => some ⟨pos, stop.pos, caps⟩

/-- Behind digits the pattern ends if no word character follows. -/
theorem run_ended {w : Str} (hne : w ≠ []) (hw : ∀ c ∈ w, isDecimal U c = true) {s : Str} :
    ((boundary (isWord U)).run (finish pos) (cur.after w s) caps) =
      if s.head?.any (isWord U) then none else finish pos (cur.after w s) caps := by
  rw [run, isBoundary_behind_digits hne hw]
  cases s.head?.any (isWord U) <;> rfl

theorem takeWhile_isDecimal_ne_nil {s : Str} (h : s.head?.any (isDecimal U) = true) :
    s.takeWhile (isDecimal U) ≠ [] := takeWhile_ne_nil_iff.2 h

/-- The numbers of the pattern do not start with whitespace. -/
theorem failsOn_number {n : Nat} {k : Cursor → Captures → Option Match} :
    FailsOn isSpace ((group n (many1 (isDecimal U))).run k) := by
  intro cur caps c cs hr hc
  rw [run]
  refine run_many1_none fun d hd => ?_
  rw [hr] at hd
  obtain rfl : c = d := by simpa using hd
  exact isDecimal_of_isSpace hc

theorem run_secondEnded :
    ((group 2 (many1 (isDecimal U))).run ((boundary (isWord U)).run (finish pos)) cur caps).map
      limitText = numberThen U (endedNumber U) cur.rest := by
  rw [run_number fun cur caps => boundary_fails, numberThen]
  by_cases hhead : cur.rest.head?.any (isDecimal U) = true
  · rw [if_pos hhead, if_pos hhead, run_ended (takeWhile_isDecimal_ne_nil hhead)
      (forall_takeWhile _ _), endedNumber]
    split <;> rfl
  · rw [if_neg hhead, if_neg hhead]
    rfl

/-- The optional part reads the second number. -/
theorem run_secondNumber :
    ((seq (many isSpace) (seq (char (· == ',')) (seq (many isSpace)
      (group 2 (many1 (isDecimal U)))))).run ((boundary (isWord U)).run (finish pos)) cur caps).map
        limitText = secondNumber U cur.rest := by
  have hcomma : FailsOn isSpace ((seq (char (· == ',')) (seq (many isSpace)
      (group 2 (many1 (isDecimal U))))).run ((boundary (isWord U)).run (finish pos))) := by
    intro cur caps c cs hr hc
    rw [run]
    refine run_char_none fun d hd => ?_
    rw [hr] at hd
    obtain rfl : c = d := by simpa using hd
    by_contra h
    obtain rfl : c = ',' := by simpa using h
    exact absurd hc (by decide)
  rw [run, run_many_of_failsOn hcomma, run, secondNumber]
  cases cur.rest.dropWhile isSpace with
  | nil => rfl
  | cons c more =>
    by_cases hc : c = ','
    · subst hc
      rw [run_char_head (show _ = ',' :: more from rfl) rfl, run,
        run_many_of_failsOn failsOn_number, run_secondEnded]
      rfl
    · have hhead : (c :: more).head? ≠ some ',' := by simpa using hc
      rw [if_neg hhead, run_char_none]
      · rfl
      · intro d hd
        obtain rfl : c = d := Option.some.inj hd
        simpa using hc

theorem failsOn_firstNumber {r : Regex} {k : Cursor → Captures → Option Match} :
    FailsOn isSpace ((seq (group 1 (many1 (isDecimal U))) r).run k) := by
  intro cur caps c cs hr hc
  rw [run]
  exact failsOn_number cur caps c cs hr hc

/-- Behind the whitespace the pattern reads one number or two. -/
theorem run_firstNumber :
    ((seq (group 1 (many1 (isDecimal U))) (seq (opt (seq (many isSpace) (seq (char (· == ','))
      (seq (many isSpace) (group 2 (many1 (isDecimal U))))))) (boundary (isWord U)))).run
        (finish pos) cur []).map limitText = numberThen U (limitCount U) cur.rest := by
  have hfails : ∀ (cur : Cursor) (caps : Captures), cur.prev.any (isDecimal U) = true →
      (∃ c cs, cur.rest = c :: cs ∧ isDecimal U c = true) →
      (seq (opt (seq (many isSpace) (seq (char (· == ',')) (seq (many isSpace)
        (group 2 (many1 (isDecimal U))))))) (boundary (isWord U))).run (finish pos) cur caps =
          none := by
    intro cur caps hprev hrest
    have hsecond := @run_secondNumber U pos cur caps
    rw [run, run, boundary_fails hprev hrest, Option.or_none]
    obtain ⟨c, cs, hr, hc⟩ := hrest
    have hcomma : c ≠ ',' := by
      rintro rfl
      rw [isDecimal_comma] at hc
      exact absurd hc (by simp)
    rw [secondNumber, hr, List.dropWhile_cons_of_neg (by simp [isSpace_of_isDecimal hc]),
      if_neg (by simpa using hcomma)] at hsecond
    exact Option.map_eq_none_iff.1 hsecond
  rw [run, run_number hfails, numberThen]
  by_cases hhead : cur.rest.head?.any (isDecimal U) = true
  · rw [if_pos hhead, if_pos hhead, run, run, Option.map_or, run_secondNumber,
      run_ended (takeWhile_isDecimal_ne_nil hhead) (forall_takeWhile _ _), limitCount, endedNumber]
    congr 1
    split <;> rfl
  · rw [if_neg hhead, if_neg hhead]
    rfl

/-- The limit pattern reads the number that a text starts with, behind no word character. -/
theorem limitText_matchAt (pos : Nat) (prev : Option Char) (s : Str) :
    ((limitPattern U).matchAt ⟨pos, prev, s⟩).map limitText =
      if prev.any (isWord U) then none else limitNumber U s := by
  have hboundary : foldsToWord "limit" (s.take 5) = true →
      (⟨pos, prev, s⟩ : Cursor).isBoundary (isWord U) = !prev.any (isWord U) := by
    intro hf
    have hword := isWord_of_foldsToWord (U := U) (by decide) hf
    cases s with
    | nil => exact absurd hf (by decide)
    | cons c s =>
      rw [Cursor.isBoundary]
      simp only [List.head?_cons, Option.any_some, hword c (by simp)]
      cases prev.any (isWord U) <;> rfl
  rw [matchAt, limitPattern, run, run, limitNumber]
  cases hf : foldsToWord "limit" (s.take 5) with
  | false =>
    rw [run, run_word_fails hf]
    cases (⟨pos, prev, s⟩ : Cursor).isBoundary (isWord U) <;> cases prev.any (isWord U) <;> rfl
  | true =>
    rw [hboundary hf]
    cases prev.any (isWord U) with
    | true => rfl
    | false =>
      have hrest : ((⟨pos, prev, s⟩ : Cursor).after (s.take 5) (s.drop 5)).rest = s.drop 5 :=
        rfl
      rw [run, run_word (List.take_append_drop 5 s).symm hf, run,
        run_many1_of_failsOn failsOn_firstNumber, hrest, Bool.not_false, if_pos rfl,
        if_neg Bool.false_ne_true, Bool.true_and]
      by_cases hhead : (s.drop 5).head?.any isSpace = true
      · rw [if_pos hhead, if_pos hhead]
        exact run_firstNumber
      · rw [if_neg hhead, if_neg hhead]
        rfl

end Matcher

/-! ## The first match -/

/-- The number of a limit that starts here, if no word goes over this place. -/
def limitHere (U : UnicodeData) (prev : Option Char) (s : Str) : Option Str :=
  if prev.any (isWord U) then none else limitNumber U s

/-- The number of the first limit of a text. -/
def firstLimit (U : UnicodeData) : Option Char → Str → Option Str
  | _, [] => none
  | prev, c :: cs => (limitHere U prev (c :: cs)).or (firstLimit U (some c) cs)

theorem head_scan_limit (s : Str) (pos : Nat) (prev : Option Char) :
    (scan (limitPattern U) s 0 pos prev).head?.map limitText = firstLimit U prev s := by
  induction s generalizing pos prev with
  | nil => rfl
  | cons c cs ih =>
    have hhere : ((limitPattern U).matchAt ⟨pos, prev, c :: cs⟩).map limitText =
        limitHere U prev (c :: cs) := limitText_matchAt pos prev (c :: cs)
    rw [scan, firstLimit, ← hhere]
    cases (limitPattern U).matchAt ⟨pos, prev, c :: cs⟩ with
    | none => exact ih _ _
    | some m => rfl

theorem limitText_search (sql : Str) :
    ((limitPattern U).search sql).map limitText = firstLimit U none sql :=
    head_scan_limit sql 0 none

/-- The parser reads the number of the first limit. -/
theorem parseLimitValue_eq (rt : Runtime) (sql : Str) : parseLimitValue rt sql =
    ((firstLimit rt.toUnicodeData none sql).map fun n => (rt.int n).map some).getD (.ok none) := by
  rw [parseLimitValue, ← limitText_search]
  cases (limitPattern rt.toUnicodeData).search sql with
  | none => rfl
  | some m =>
    simp only [Option.map_some, Option.getD_some, limitText]
    cases groupText m 2 <;> rfl

/-- A statement has a limit exactly if there is a first one. -/
theorem isSome_search_limit (sql : Str) :
    ((limitPattern U).search sql).isSome = (firstLimit U none sql).isSome := by
  rw [← limitText_search, Option.isSome_map]

/-- What the parser says about the limit of a statement. -/
theorem parse_limit {rt : Runtime} {sql : Str} {parsed : ParsedSql}
    (h : parse rt sql = .ok parsed) :
    parseLimitValue rt sql = .ok parsed.limitValue ∧
      parsed.hasLimit = (firstLimit rt.toUnicodeData none sql).isSome := by
  obtain ⟨v, hv, h⟩ := bind_eq_ok.1 h
  injection h with h
  subst h
  exact ⟨hv, isSome_search_limit sql⟩

/-! ## What the pattern looks at -/

/-- A text that no match of the pattern goes into: it starts with no letter of `limit`, with no
number, and behind its whitespace there is neither a number nor a comma. -/
structure Inert (U : UnicodeData) (t : Str) : Prop where
  letter : ∀ c ∈ t.head?, ("limit" : Str).all (fun l => !foldsTo l c) = true
  number : t.head?.any (isDecimal U) = false
  behind : ∀ c ∈ (t.dropWhile isSpace).head?, isDecimal U c = false ∧ c ≠ ','

theorem inert_nil : Inert U [] := ⟨by simp, rfl, by simp⟩

/-- A run ends at the latest where a text starts that is not in the class. -/
theorem span_append {p : Char → Bool} {t : Str} (ht : t.head?.any p = false) (w : Str) :
    (w ++ t).takeWhile p = w.takeWhile p ∧ (w ++ t).dropWhile p = w.dropWhile p ++ t := by
  induction w with
  | nil =>
    cases t with
    | nil => exact ⟨rfl, rfl⟩
    | cons c t =>
      have hc : p c = false := ht
      exact ⟨List.takeWhile_cons_of_neg (by simp [hc]), List.dropWhile_cons_of_neg
        (by simp [hc])⟩
  | cons c w ih =>
    by_cases hc : p c = true
    · rw [List.cons_append, List.takeWhile_cons_of_pos hc, List.takeWhile_cons_of_pos hc,
        List.dropWhile_cons_of_pos hc, List.dropWhile_cons_of_pos hc, ih.1]
      exact ⟨rfl, ih.2⟩
    · rw [List.cons_append, List.takeWhile_cons_of_neg hc, List.takeWhile_cons_of_neg hc,
        List.dropWhile_cons_of_neg hc, List.dropWhile_cons_of_neg hc]
      exact ⟨rfl, rfl⟩

/-- What spells a word has only letters of the word. -/
theorem exists_letter_of_foldsToWord {l x : Str} (h : foldsToWord l x = true) :
    ∀ c ∈ x, ∃ d ∈ l, foldsTo d c = true := by
  induction l generalizing x with
  | nil =>
    cases x with
    | nil => simp
    | cons c x => exact absurd h (by simp [foldsToWord])
  | cons d l ih =>
    cases x with
    | nil => simp
    | cons c x =>
      rw [foldsToWord, Bool.and_eq_true] at h
      refine List.forall_mem_cons.2 ⟨⟨d, List.mem_cons_self, h.1⟩, fun e he => ?_⟩
      obtain ⟨f, hf, hfe⟩ := ih h.2 e he
      exact ⟨f, List.mem_cons_of_mem _ hf, hfe⟩

/-- The word does not go into an inert text. -/
theorem foldsToWord_of_inert {t w : Str} (ht : Inert U t) (hw : w.length < 5) :
    foldsToWord "limit" ((w ++ t).take 5) = false := by
  by_contra h
  have hf : foldsToWord "limit" ((w ++ t).take 5) = true := by simpa using h
  cases t with
  | nil =>
    have hlength := length_of_foldsToWord hf
    rw [List.append_nil, List.length_take] at hlength
    have hfive : ("limit" : Str).length = 5 := rfl
    omega
  | cons c t =>
    have hmem : c ∈ (w ++ c :: t).take 5 := by
      rw [List.take_append, List.mem_append]
      right
      obtain ⟨k, hk⟩ : ∃ k, 5 - w.length = k + 1 := ⟨4 - w.length, by omega⟩
      rw [hk, List.take_succ_cons]
      exact List.mem_cons_self
    obtain ⟨d, hd, hfold⟩ := exists_letter_of_foldsToWord hf c hmem
    have hnot := List.all_eq_true.1 (ht.letter c rfl) d hd
    rw [hfold] at hnot
    exact absurd hnot (by simp)

section Congr

variable {t t' : Str} (ht : Inert U t) (ht' : Inert U t')
  (hword : t.head?.any (isWord U) = t'.head?.any (isWord U))

include ht ht'

theorem numberThen_congr {more : Str → Str → Option Str}
    (hmore : ∀ n w, more n (w ++ t) = more n (w ++ t')) (w : Str) :
    numberThen U more (w ++ t) = numberThen U more (w ++ t') := by
  cases w with
  | nil => rw [List.nil_append, List.nil_append, numberThen, numberThen, ht.number, ht'.number]; rfl
  | cons c w =>
    rw [numberThen, numberThen, (span_append ht.number _).1, (span_append ht.number _).2,
      (span_append ht'.number _).1, (span_append ht'.number _).2, hmore]
    rfl

omit ht' in
/-- No number stands behind the whitespace of an inert text. -/
theorem numberThen_behind (more : Str → Str → Option Str) :
    numberThen U more (t.dropWhile isSpace) = none := by
  rw [numberThen, if_neg]
  intro h
  obtain ⟨c, hc, hdec⟩ := (Option.any_eq_true _ _).1 h
  rw [(ht.behind c hc).1] at hdec
  exact absurd hdec (by simp)

theorem numberThen_spaces_congr {more : Str → Str → Option Str}
    (hmore : ∀ n w, more n (w ++ t) = more n (w ++ t')) (w : Str) :
    numberThen U more ((w ++ t).dropWhile isSpace) =
      numberThen U more ((w ++ t').dropWhile isSpace) := by
  by_cases hw : w.dropWhile isSpace = []
  · rw [List.dropWhile_append, List.dropWhile_append, hw, List.isEmpty_nil, if_pos rfl, if_pos rfl,
      numberThen_behind ht, numberThen_behind ht']
  · have hempty : ¬ (w.dropWhile isSpace).isEmpty = true := by simpa using hw
    rw [List.dropWhile_append, List.dropWhile_append, if_neg hempty, if_neg hempty]
    exact numberThen_congr ht ht' hmore _

include hword

omit ht ht' in
theorem endedNumber_congr (n w : Str) : endedNumber U n (w ++ t) = endedNumber U n (w ++ t') := by
  cases w with
  | nil => rw [List.nil_append, List.nil_append, endedNumber, endedNumber, hword]
  | cons c w => rfl

theorem secondNumber_congr (w : Str) : secondNumber U (w ++ t) = secondNumber U (w ++ t') := by
  have hnone : ∀ {t : Str}, Inert U t → (t.dropWhile isSpace).head? ≠ some ',' := fun ht h =>
    (ht.behind ',' h).2 rfl
  rw [secondNumber, secondNumber, List.dropWhile_append, List.dropWhile_append]
  cases hw : w.dropWhile isSpace with
  | nil => rw [List.isEmpty_nil, if_pos rfl, if_pos rfl, if_neg (hnone ht), if_neg (hnone ht')]
  | cons c w =>
    rw [List.isEmpty_cons, if_neg Bool.false_ne_true, if_neg Bool.false_ne_true]
    simp only [List.cons_append, List.head?_cons, List.tail_cons]
    rw [numberThen_spaces_congr ht ht' (endedNumber_congr hword)]
    rfl

/-- The pattern reads the same number in front of two inert texts. -/
theorem limitNumber_congr (w : Str) : limitNumber U (w ++ t) = limitNumber U (w ++ t') := by
  have hcount : ∀ n w, limitCount U n (w ++ t) = limitCount U n (w ++ t') := fun n w => by
    rw [limitCount, limitCount, secondNumber_congr ht ht' hword, endedNumber_congr hword]
  rw [limitNumber, limitNumber]
  by_cases hlength : 5 ≤ w.length
  · rw [List.take_append_of_le_length hlength, List.take_append_of_le_length hlength,
      List.drop_append_of_le_length hlength, List.drop_append_of_le_length hlength,
      numberThen_spaces_congr ht ht' hcount]
    cases hdrop : w.drop 5 with
    | nil =>
      rw [List.nil_append, List.nil_append, numberThen_behind ht', ite_self, ite_self]
    | cons c w' => rfl
  · rw [foldsToWord_of_inert ht (by omega), foldsToWord_of_inert ht' (by omega)]
    rfl

end Congr

/-- A scan that reaches an inert text has read the first limit in front of it. -/
theorem firstLimit_append {t : Str} (ht : Inert U t) (hword : t.head?.any (isWord U) = false)
    (w : Str) (prev : Option Char) :
    firstLimit U prev (w ++ t) = (firstLimit U prev w).or (firstLimit U (lastOf prev w) t) := by
  induction w generalizing prev with
  | nil => rfl
  | cons c w ih =>
    have hhere : limitHere U prev (c :: (w ++ t)) = limitHere U prev (c :: w) := by
      have hcongr := limitNumber_congr ht inert_nil hword (c :: w)
      rw [List.append_nil, List.cons_append] at hcongr
      rw [limitHere, limitHere, hcongr]
    rw [List.cons_append, firstLimit, firstLimit, hhere, ih, Option.or_assoc]
    rfl

end SqlGatekeeper
