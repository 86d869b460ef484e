import SqlGatekeeper.Python.Text

/-!
# A backtracking matcher for Python's `re`

The patterns of the gatekeeper use literals, character classes, greedy repetition of
a class, options, alternatives, groups and word boundaries.  This file gives these
the semantics of `re`: leftmost match first, alternatives in order, repetition and
options greedy, groups recording where they matched.

* `Regex.run`: the matcher, with the rest of the match as a continuation; the first
  success in priority order is the answer.
* `Regex.Matches`: what can match at all, without the priorities;
  `run_eq_some` and `run_isSome` connect the two.
* `scan`, `finditer`, `search`: the non-overlapping matches of a text, left to right.
* `scan_pass`, `scan_skip`, `scan_match`: how a scan goes over a piece of text in
  which nothing starts, and over a match.

A pattern that matches the empty text is outside this file: after a match the scan
goes on one character further at least.
-/

namespace Py

/-- A place in a text: its position, the character before it, and what is ahead. -/
structure Cursor where
  pos : Nat
  prev : Option Char
  rest : Str
  deriving DecidableEq, Repr

/-- What a group captured: where it starts, where it stops, and the text. -/
structure Span where
  start : Nat
  stop : Nat
  text : Str
  deriving DecidableEq, Repr

/-- The groups that took part in a match, the last one recorded first. -/
abbrev Captures := List (Nat × Span)

/-- A regular expression of the fragment. -/
inductive Regex where
  /-- The empty text. -/
  | eps
  /-- One character of a class. -/
  | char (p : Char → Bool)
  | seq (a b : Regex)
  | alt (a b : Regex)
  /-- `a?`, greedy. -/
  | opt (a : Regex)
  /-- `[p]*`, greedy. -/
  | many (p : Char → Bool)
  /-- A numbered capturing group. -/
  | group (n : Nat) (a : Regex)
  /-- `\b`, for the given word characters. -/
  | boundary (isWord : Char → Bool)

/-- The last character of a text read after `prev`. -/
def lastOf (prev : Option Char) : Str → Option Char
  | [] => prev
  | c :: cs => lastOf (some c) cs

@[simp] theorem lastOf_nil (prev : Option Char) : lastOf prev [] = prev := rfl

@[simp] theorem lastOf_cons (prev : Option Char) (c : Char) (cs : Str) :
    lastOf prev (c :: cs) = lastOf (some c) cs := rfl

theorem lastOf_append (prev : Option Char) (u v : Str) :
    lastOf prev (u ++ v) = lastOf (lastOf prev u) v := by
  induction u generalizing prev with
  | nil => rfl
  | cons c cs ih => exact ih (some c)

/-- Is there a word boundary here? -/
def Cursor.isBoundary (isWord : Char → Bool) (cur : Cursor) : Bool :=
  cur.prev.any isWord != cur.rest.head?.any isWord

/-- The span between two cursors of one text. -/
def Cursor.spanTo (cur stop : Cursor) : Span :=
  ⟨cur.pos, stop.pos, cur.rest.take (stop.pos - cur.pos)⟩

/-- The cursor after reading `w`, with `rest` ahead. -/
def Cursor.after (cur : Cursor) (w rest : Str) : Cursor :=
  ⟨cur.pos + w.length, lastOf cur.prev w, rest⟩

namespace Regex

/-! ## The matcher -/

/-- Greedy repetition of a class: the longest run first. -/
def manyRun {β : Type} (p : Char → Bool) (k : Cursor → Option β) :
    Nat → Option Char → Str → Option β
  | pos, prev, [] => k ⟨pos, prev, []⟩
  | pos, prev, c :: cs =>
      if p c then (manyRun p k (pos + 1) (some c) cs).or (k ⟨pos, prev, c :: cs⟩)
      else k ⟨pos, prev, c :: cs⟩

/-- Match here, then continue with `k`. -/
def run {β : Type} : Regex → (Cursor → Captures → Option β) → Cursor →
    Captures → Option β
  | eps, k, cur, caps => k cur caps
  | char p, k, cur, caps =>
      match cur.rest with
      | [] => none
      | c :: cs => if p c then k ⟨cur.pos + 1, some c, cs⟩ caps else none
  | seq a b, k, cur, caps => a.run (b.run k) cur caps
  | alt a b, k, cur, caps => (a.run k cur caps).or (b.run k cur caps)
  | opt a, k, cur, caps => (a.run k cur caps).or (k cur caps)
  | many p, k, cur, caps => manyRun p (fun stop => k stop caps) cur.pos cur.prev cur.rest
  | group n a, k, cur, caps =>
      a.run (fun stop caps' => k stop ((n, cur.spanTo stop) :: caps')) cur caps
  | boundary w, k, cur, caps => if cur.isBoundary w then k cur caps else none

/-- A match: where it starts and stops, and its groups. -/
structure Match where
  start : Nat
  stop : Nat
  caps : Captures
  deriving DecidableEq, Repr

/-- `match.group(n)` with its span. -/
def Match.group (m : Match) (n : Nat) : Option Span := m.caps.lookup n

/-- The match that starts at a cursor. -/
def matchAt (r : Regex) (cur : Cursor) : Option Match :=
  r.run (fun stop caps => some ⟨cur.pos, stop.pos, caps⟩) cur []

/-- The non-overlapping matches of a text; the first `skip` characters belong to the
match before. -/
def scan (r : Regex) : Str → Nat → Nat → Option Char → List Match
  | [], _, _, _ => []
  | c :: cs, skip + 1, pos, _ => scan r cs skip (pos + 1) (some c)
  | c :: cs, 0, pos, prev =>
      match r.matchAt ⟨pos, prev, c :: cs⟩ with
      | none => scan r cs 0 (pos + 1) (some c)
      | some m => m :: scan r cs (m.stop - pos - 1) (pos + 1) (some c)

/-- `pattern.finditer(s)`. -/
def finditer (r : Regex) (s : Str) : List Match := scan r s 0 0 none

/-- `pattern.search(s)`. -/
def search (r : Regex) (s : Str) : Option Match := (finditer r s).head?

/-- `pattern.match(s)`: only at the start. -/
def matchStart (r : Regex) (s : Str) : Option Match := r.matchAt ⟨0, none, s⟩

/-! ## Letter case -/

/-- Does a character match a pattern letter under `re.IGNORECASE`?  The letter is
lowercase ASCII; `i`, `s` and `k` have further case variants outside ASCII. -/
def foldsTo (l c : Char) : Bool :=
  c.toLower == l || (l == 'i' && (c == dottedI || c == dotlessI)) ||
    (l == 's' && c == longS) || (l == 'k' && c == kelvin)

/-- A word of a pattern under `re.IGNORECASE`. -/
def word : Str → Regex
  | [] => eps
  | l :: ls => seq (char (foldsTo l)) (word ls)

/-- Does a text match a pattern word under `re.IGNORECASE`? -/
def foldsToWord : Str → Str → Bool
  | [], [] => true
  | l :: ls, c :: cs => foldsTo l c && foldsToWord ls cs
  | _, _ => false

/-- A class that contains `[A-Za-z]`, under `re.IGNORECASE`. -/
def foldClass (p : Char → Bool) (c : Char) : Bool := p c || asciiFolding.contains c

/-- `[p]+`. -/
def many1 (p : Char → Bool) : Regex := seq (char p) (many p)

/-- `[A-Za-z_][A-Za-z0-9_]*` under `re.IGNORECASE`. -/
def ident : Regex := seq (char (foldClass isNameStart)) (many (foldClass isNameChar))

/-! ## What can match -/

/-- The matches of a pattern from one cursor to another, without priorities. -/
def Matches : Regex → Cursor → Captures → Cursor → Captures → Prop
  | eps, cur, caps, stop, caps' => stop = cur ∧ caps' = caps
  | char p, cur, caps, stop, caps' =>
      ∃ c cs, cur.rest = c :: cs ∧ p c = true ∧ stop = cur.after [c] cs ∧ caps' = caps
  | seq a b, cur, caps, stop, caps' =>
      ∃ mid capsm, a.Matches cur caps mid capsm ∧ b.Matches mid capsm stop caps'
  | alt a b, cur, caps, stop, caps' =>
      a.Matches cur caps stop caps' ∨ b.Matches cur caps stop caps'
  | opt a, cur, caps, stop, caps' =>
      a.Matches cur caps stop caps' ∨ (stop = cur ∧ caps' = caps)
  | many p, cur, caps, stop, caps' =>
      ∃ w cs, cur.rest = w ++ cs ∧ (∀ c ∈ w, p c = true) ∧ stop = cur.after w cs ∧
        caps' = caps
  | group n a, cur, caps, stop, caps' =>
      ∃ capsm, a.Matches cur caps stop capsm ∧ caps' = (n, cur.spanTo stop) :: capsm
  | boundary w, cur, caps, stop, caps' =>
      cur.isBoundary w = true ∧ stop = cur ∧ caps' = caps

theorem after_after (cur : Cursor) (u v cs ds : Str) :
    (cur.after u ds).after v cs = cur.after (u ++ v) cs := by
  simp [Cursor.after, lastOf_append, Nat.add_assoc]

/-- A match moves the cursor over a piece of the text ahead. -/
theorem Matches.exists_after {r : Regex} {cur stop : Cursor} {caps caps' : Captures}
    (h : r.Matches cur caps stop caps') :
    ∃ w, cur.rest = w ++ stop.rest ∧ stop = cur.after w stop.rest := by
  induction r generalizing cur stop caps caps' with
  | eps => exact ⟨[], by rw [h.1]; rfl, by rw [h.1]; rfl⟩
  | char p =>
    obtain ⟨c, cs, hr, -, rfl, -⟩ := h
    exact ⟨[c], hr, rfl⟩
  | seq a b iha ihb =>
    obtain ⟨mid, capsm, ha, hb⟩ := h
    obtain ⟨u, hu, hmid⟩ := iha ha
    obtain ⟨v, hv, hstop⟩ := ihb hb
    refine ⟨u ++ v, ?_, ?_⟩
    · rw [hu, hv, List.append_assoc]
    · rw [← after_after cur u v stop.rest mid.rest, ← hmid]
      exact hstop
  | alt a b iha ihb => exact h.elim iha ihb
  | opt a iha =>
    rcases h with h | ⟨rfl, -⟩
    · exact iha h
    · exact ⟨[], rfl, rfl⟩
  | many p =>
    obtain ⟨w, cs, hr, -, rfl, -⟩ := h
    exact ⟨w, hr, rfl⟩
  | group n a iha =>
    obtain ⟨capsm, ha, -⟩ := h
    exact iha ha
  | boundary w => exact ⟨[], by rw [h.2.1]; rfl, by rw [h.2.1]; rfl⟩

section RunSpec

variable {β : Type}

theorem manyRun_eq_some {p : Char → Bool} {k : Cursor → Option β} {x : β} {rest : Str}
    {pos : Nat} {prev : Option Char} (h : manyRun p k pos prev rest = some x) :
    ∃ w cs, rest = w ++ cs ∧ (∀ c ∈ w, p c = true) ∧
      k ((⟨pos, prev, rest⟩ : Cursor).after w cs) = some x := by
  induction rest generalizing pos prev with
  | nil => exact ⟨[], [], rfl, by simp, h⟩
  | cons c cs ih =>
    rw [manyRun] at h
    split at h
    · rename_i hp
      rcases hm : manyRun p k (pos + 1) (some c) cs with _ | y
      · rw [hm, Option.none_or] at h
        exact ⟨[], c :: cs, rfl, by simp, h⟩
      · rw [hm, Option.some_or, Option.some.injEq] at h
        subst h
        obtain ⟨w, ds, hw, hpw, hk⟩ := ih hm
        refine ⟨c :: w, ds, by rw [hw]; rfl, List.forall_mem_cons.2 ⟨hp, hpw⟩, ?_⟩
        simpa [Cursor.after, Nat.add_assoc, Nat.add_comm 1] using hk
    · exact ⟨[], c :: cs, rfl, by simp, h⟩

theorem manyRun_isSome {p : Char → Bool} {k : Cursor → Option β} {w cs : Str}
    {pos : Nat} {prev : Option Char} (hw : ∀ c ∈ w, p c = true)
    (hk : (k ((⟨pos, prev, w ++ cs⟩ : Cursor).after w cs)).isSome = true) :
    (manyRun p k pos prev (w ++ cs)).isSome = true := by
  induction w generalizing pos prev with
  | nil =>
    cases cs with
    | nil => exact hk
    | cons c cs =>
      simp only [List.nil_append, manyRun]
      split
      · rw [Option.isSome_or]
        exact Bool.or_eq_true _ _ ▸ Or.inr hk
      · exact hk
  | cons c w ih =>
    rw [List.cons_append, manyRun, if_pos (hw c List.mem_cons_self), Option.isSome_or]
    refine Bool.or_eq_true _ _ ▸ Or.inl (ih (fun d hd => hw d (List.mem_cons_of_mem _ hd)) ?_)
    simpa [Cursor.after, Nat.add_assoc, Nat.add_comm 1] using hk

/-- The matcher only answers with matches. -/
theorem run_eq_some {r : Regex} {k : Cursor → Captures → Option β} {cur : Cursor}
    {caps : Captures} {x : β} (h : r.run k cur caps = some x) :
    ∃ stop caps', r.Matches cur caps stop caps' ∧ k stop caps' = some x := by
  induction r generalizing k cur caps with
  | eps => exact ⟨cur, caps, ⟨rfl, rfl⟩, h⟩
  | char p =>
    rw [run] at h
    split at h
    · exact absurd h (by simp)
    · rename_i c cs hr
      split at h
      · rename_i hp
        exact ⟨cur.after [c] cs, caps, ⟨c, cs, hr, hp, rfl, rfl⟩, h⟩
      · exact absurd h (by simp)
  | seq a b iha ihb =>
    obtain ⟨mid, capsm, ha, hk⟩ := iha h
    obtain ⟨stop, caps', hb, hk⟩ := ihb hk
    exact ⟨stop, caps', ⟨mid, capsm, ha, hb⟩, hk⟩
  | alt a b iha ihb =>
    rw [run] at h
    rcases ha : a.run k cur caps with _ | y
    · rw [ha, Option.none_or] at h
      obtain ⟨stop, caps', hm, hk⟩ := ihb h
      exact ⟨stop, caps', Or.inr hm, hk⟩
    · rw [ha, Option.some_or] at h
      obtain ⟨stop, caps', hm, hk⟩ := iha (ha.trans h)
      exact ⟨stop, caps', Or.inl hm, hk⟩
  | opt a iha =>
    rw [run] at h
    rcases ha : a.run k cur caps with _ | y
    · rw [ha, Option.none_or] at h
      exact ⟨cur, caps, Or.inr ⟨rfl, rfl⟩, h⟩
    · rw [ha, Option.some_or] at h
      obtain ⟨stop, caps', hm, hk⟩ := iha (ha.trans h)
      exact ⟨stop, caps', Or.inl hm, hk⟩
  | many p =>
    obtain ⟨w, cs, hr, hw, hk⟩ := manyRun_eq_some h
    exact ⟨cur.after w cs, caps, ⟨w, cs, hr, hw, rfl, rfl⟩, hk⟩
  | group n a iha =>
    obtain ⟨stop, capsm, hm, hk⟩ := iha h
    exact ⟨stop, _, ⟨capsm, hm, rfl⟩, hk⟩
  | boundary w =>
    rw [run] at h
    split at h
    · rename_i hb
      exact ⟨cur, caps, ⟨hb, rfl, rfl⟩, h⟩
    · exact absurd h (by simp)

/-- The matcher finds a match whenever there is one that the continuation accepts. -/
theorem run_isSome {r : Regex} {k : Cursor → Captures → Option β} {cur stop : Cursor}
    {caps caps' : Captures} (h : r.Matches cur caps stop caps')
    (hk : (k stop caps').isSome = true) : (r.run k cur caps).isSome = true := by
  induction r generalizing k cur stop caps caps' with
  | eps =>
    obtain ⟨rfl, rfl⟩ := h
    exact hk
  | char p =>
    obtain ⟨c, cs, hr, hp, rfl, rfl⟩ := h
    simp only [run, hr, hp, if_true]
    exact hk
  | seq a b iha ihb =>
    obtain ⟨mid, capsm, ha, hb⟩ := h
    exact iha ha (ihb hb hk)
  | alt a b iha ihb =>
    rw [run, Option.isSome_or, Bool.or_eq_true]
    exact h.imp (fun h => iha h hk) (fun h => ihb h hk)
  | opt a iha =>
    rw [run, Option.isSome_or, Bool.or_eq_true]
    rcases h with h | ⟨rfl, rfl⟩
    · exact Or.inl (iha h hk)
    · exact Or.inr hk
  | many p =>
    obtain ⟨w, cs, hr, hw, rfl, rfl⟩ := h
    rw [run, hr]
    refine manyRun_isSome hw ?_
    exact hk
  | group n a iha =>
    obtain ⟨capsm, ha, rfl⟩ := h
    exact iha ha hk
  | boundary w =>
    obtain ⟨hb, rfl, rfl⟩ := h
    rw [run, if_pos hb]
    exact hk

/-! ### Running forward -/

/-- The longest run is tried first. -/
theorem manyRun_longest {p : Char → Bool} {k : Cursor → Option β} {w cs : Str} {pos : Nat}
    {prev : Option Char} {x : β} (hw : ∀ c ∈ w, p c = true)
    (hcs : ∀ c ∈ cs.head?, p c = false)
    (hk : k ((⟨pos, prev, w ++ cs⟩ : Cursor).after w cs) = some x) :
    manyRun p k pos prev (w ++ cs) = some x := by
  induction w generalizing pos prev with
  | nil =>
    cases cs with
    | nil => exact hk
    | cons c cs =>
      rw [List.nil_append, manyRun, hcs c rfl]
      exact hk
  | cons c w ih =>
    rw [List.cons_append, manyRun, if_pos (hw c List.mem_cons_self),
      ih (fun d hd => hw d (List.mem_cons_of_mem _ hd)), Option.some_or]
    simpa [Cursor.after, Nat.add_assoc, Nat.add_comm 1] using hk

theorem run_many_longest {p : Char → Bool} {k : Cursor → Captures → Option β} {cur : Cursor}
    {caps : Captures} {w s : Str} {x : β} (hr : cur.rest = w ++ s) (hw : ∀ c ∈ w, p c = true)
    (hcs : ∀ c ∈ s.head?, p c = false) (hk : k (cur.after w s) caps = some x) :
    (many p).run k cur caps = some x := by
  obtain ⟨pos, prev, rest⟩ := cur
  simp only at hr
  subst hr
  exact manyRun_longest hw hcs hk

theorem run_many1_longest {p : Char → Bool} {k : Cursor → Captures → Option β} {cur : Cursor}
    {caps : Captures} {w cs : Str} {x : β} (hr : cur.rest = w ++ cs) (hne : w ≠ [])
    (hw : ∀ c ∈ w, p c = true) (hcs : ∀ c ∈ cs.head?, p c = false)
    (hk : k (cur.after w cs) caps = some x) : (many1 p).run k cur caps = some x := by
  cases w with
  | nil => exact absurd rfl hne
  | cons c w =>
    rw [List.cons_append] at hr
    simp only [many1, run, hr, hw c List.mem_cons_self, if_true]
    refine manyRun_longest (fun d hd => hw d (List.mem_cons_of_mem _ hd)) hcs ?_
    simpa [Cursor.after, Nat.add_assoc, Nat.add_comm 1] using hk

theorem run_char_head {p : Char → Bool} {k : Cursor → Captures → Option β} {cur : Cursor}
    {caps : Captures} {c : Char} {cs : Str} (hr : cur.rest = c :: cs) (hc : p c = true) :
    (char p).run k cur caps = k (cur.after [c] cs) caps := by
  simp only [run, hr, hc, if_true]
  rfl

theorem run_char_none {p : Char → Bool} {k : Cursor → Captures → Option β} {cur : Cursor}
    {caps : Captures} (h : ∀ c ∈ cur.rest.head?, p c = false) : (char p).run k cur
    caps = none := by
  rw [run]
  split
  · rfl
  · rename_i c cs hr
    rw [h c (by rw [hr]; rfl)]
    rfl

/-- A pattern word on a text that spells it. -/
theorem run_word {l w : Str} {k : Cursor → Captures → Option β} {cur : Cursor}
    {caps : Captures} {cs : Str} (hr : cur.rest = w ++ cs) (hw : foldsToWord l w = true) :
    (word l).run k cur caps = k (cur.after w cs) caps := by
  induction l generalizing w cur with
  | nil =>
    cases w with
    | nil =>
      obtain ⟨pos, prev, rest⟩ := cur
      simp only [List.nil_append] at hr
      subst hr
      rfl
    | cons c w => exact absurd hw (by simp [foldsToWord])
  | cons d l ih =>
    cases w with
    | nil => exact absurd hw (by simp [foldsToWord])
    | cons c w =>
      rw [foldsToWord, Bool.and_eq_true] at hw
      rw [word, run, run_char_head (by rw [hr]; rfl) hw.1, ih (w := w) rfl hw.2, after_after]
      rfl

/-- A pattern word only matches texts that spell it. -/
theorem run_word_eq_some {l : Str} {k : Cursor → Captures → Option β} {cur : Cursor}
    {caps : Captures} {x : β} (h : (word l).run k cur caps = some x) :
    ∃ w cs, cur.rest = w ++ cs ∧ foldsToWord l w = true ∧ k (cur.after w cs) caps =
      some x := by
  induction l generalizing cur with
  | nil => exact ⟨[], cur.rest, rfl, rfl, h⟩
  | cons d l ih =>
    rw [word, run, run] at h
    split at h
    · exact absurd h (by simp)
    · rename_i c cs hr
      split at h
      · rename_i hc
        obtain ⟨w, ds, hw, hf, hk⟩ := ih h
        simp only at hw
        refine ⟨c :: w, ds, by rw [hr, hw]; rfl, by rw [foldsToWord, hc, hf]; rfl, ?_⟩
        rw [show c :: w = [c] ++ w from rfl, ← after_after cur [c] w ds cs]
        exact hk
      · exact absurd h (by simp)

/-- What spells a word is as long as the word. -/
theorem length_of_foldsToWord {l w : Str} (h : foldsToWord l w = true) : w.length = l.length := by
  induction l generalizing w with
  | nil =>
    cases w with
    | nil => rfl
    | cons c w => exact absurd h (by simp [foldsToWord])
  | cons d l ih =>
    cases w with
    | nil => exact absurd h (by simp [foldsToWord])
    | cons c w =>
      rw [foldsToWord, Bool.and_eq_true] at h
      rw [List.length_cons, List.length_cons, ih h.2]

theorem run_ident {k : Cursor → Captures → Option β} {cur : Cursor} {caps : Captures}
    {w cs : Str} {x : β} (hr : cur.rest = w ++ cs) (hw : isIdentifier w = true)
    (hcs : ∀ c ∈ cs.head?, foldClass isNameChar c = false)
    (hk : k (cur.after w cs) caps = some x) : ident.run k cur caps = some x := by
  obtain ⟨c, w, rfl, hc, hw⟩ := isIdentifier_cons hw
  have hc' : foldClass isNameStart c = true := by rw [foldClass, hc, Bool.true_or]
  rw [ident, run, run_char_head (by rw [hr]; rfl) hc']
  refine run_many_longest rfl (fun d hd => by rw [foldClass, hw d hd, Bool.true_or]) hcs ?_
  rw [after_after]
  exact hk

/-! ### Running exactly

When the rest of a pattern fails behind every shorter run, greedy repetition is no choice. -/

/-- A continuation fails behind every proper part of a run. -/
def FailsShort (k : Cursor → Captures → Option β) (cur : Cursor) (caps : Captures)
    (w s : Str) :
    Prop :=
  ∀ u c v, w = u ++ c :: v → k (cur.after u (c :: (v ++ s))) caps = none

theorem manyRun_exact {p : Char → Bool} {k : Cursor → Option β} {w s : Str} {pos : Nat}
    {prev : Option Char} (hw : ∀ c ∈ w, p c = true) (hs : ∀ c ∈ s.head?, p c = false)
    (hshort : ∀ u c v, w = u ++ c :: v →
      k ((⟨pos, prev, w ++ s⟩ : Cursor).after u (c :: (v ++ s))) = none) :
    manyRun p k pos prev (w ++ s) = k ((⟨pos, prev, w ++ s⟩ : Cursor).after w s) := by
  induction w generalizing pos prev with
  | nil =>
    cases s with
    | nil => rfl
    | cons c s =>
      rw [List.nil_append, manyRun, hs c rfl]
      rfl
  | cons c w ih =>
    have hcur : k ⟨pos, prev, c :: (w ++ s)⟩ = none := hshort [] c w rfl
    rw [List.cons_append, manyRun, if_pos (hw c List.mem_cons_self), hcur, Option.or_none, ih]
    · simp [Cursor.after, Nat.add_assoc, Nat.add_comm 1]
    · exact fun d hd => hw d (List.mem_cons_of_mem _ hd)
    · intro u d v hu
      have := hshort (c :: u) d v (by rw [hu]; rfl)
      simpa [Cursor.after, Nat.add_assoc, Nat.add_comm 1] using this

theorem run_many_exact {p : Char → Bool} {k : Cursor → Captures → Option β} {cur : Cursor}
    {caps : Captures} {w s : Str} (hr : cur.rest = w ++ s) (hw : ∀ c ∈ w, p c = true)
    (hs : ∀ c ∈ s.head?, p c = false) (hshort : FailsShort k cur caps w s) :
    (many p).run k cur caps = k (cur.after w s) caps := by
  obtain ⟨pos, prev, rest⟩ := cur
  simp only at hr
  subst hr
  exact manyRun_exact hw hs hshort

theorem run_many1_exact {p : Char → Bool} {k : Cursor → Captures → Option β} {cur : Cursor}
    {caps : Captures} {w s : Str} (hr : cur.rest = w ++ s) (hne : w ≠ [])
    (hw : ∀ c ∈ w, p c = true) (hs : ∀ c ∈ s.head?, p c = false)
    (hshort : FailsShort k cur caps w s) : (many1 p).run k cur caps = k (cur.after w s) caps := by
  cases w with
  | nil => exact absurd rfl hne
  | cons c w =>
    have hcs : cur.rest = c :: (w ++ s) := hr
    rw [many1, run, run_char_head hcs (hw c List.mem_cons_self),
      run_many_exact (w := w) (s := s) rfl (fun d hd => hw d (List.mem_cons_of_mem _ hd)) hs,
      after_after]
    · rfl
    · intro u d v hu
      have := hshort (c :: u) d v (by rw [hu]; rfl)
      rwa [after_after]

theorem run_many1_none {p : Char → Bool} {k : Cursor → Captures → Option β} {cur : Cursor}
    {caps : Captures} (h : ∀ c ∈ cur.rest.head?, p c = false) :
    (many1 p).run k cur caps = none := by
  rw [many1, run]
  exact run_char_none h

theorem head_dropWhile (p : Char → Bool) (s : Str) : ∀ c ∈ (s.dropWhile p).head?,
    p c = false := by
  intro c hc
  have := List.head?_dropWhile_not p s
  rw [Option.mem_def.1 hc] at this
  simpa using this

theorem forall_takeWhile (p : Char → Bool) (s : Str) : ∀ c ∈ s.takeWhile p, p c = true :=
  fun _ hc => List.mem_takeWhile_imp hc

/-- The longest run is there exactly if the first character is in the class. -/
theorem takeWhile_ne_nil_iff {p : Char → Bool} {s : Str} :
    s.takeWhile p ≠ [] ↔ s.head?.any p = true := by
  cases s with
  | nil => simp
  | cons c s =>
    by_cases hc : p c = true
    · simp [hc]
    · simp [hc]

/-- The rest of a pattern fails behind every part of a run but the longest. -/
theorem run_many_span {p : Char → Bool} {k : Cursor → Captures → Option β} {cur : Cursor}
    {caps : Captures}
    (hshort : FailsShort k cur caps (cur.rest.takeWhile p) (cur.rest.dropWhile p)) :
    (many p).run k cur caps = k (cur.after (cur.rest.takeWhile p) (cur.rest.dropWhile p)) caps :=
  run_many_exact (List.takeWhile_append_dropWhile).symm (forall_takeWhile p _) (head_dropWhile p _)
    hshort

theorem run_many1_span {p : Char → Bool} {k : Cursor → Captures → Option β} {cur : Cursor}
    {caps : Captures}
    (hshort : FailsShort k cur caps (cur.rest.takeWhile p) (cur.rest.dropWhile p)) :
    (many1 p).run k cur caps = if cur.rest.head?.any p then
      k (cur.after (cur.rest.takeWhile p) (cur.rest.dropWhile p)) caps else none := by
  split
  · rename_i hhead
    exact run_many1_exact (List.takeWhile_append_dropWhile).symm (takeWhile_ne_nil_iff.2 hhead)
      (forall_takeWhile p _) (head_dropWhile p _) hshort
  · rename_i hhead
    refine run_many1_none fun c hc => ?_
    rw [Option.mem_def.1 hc] at hhead
    simpa using hhead

/-- A continuation fails in front of every character of a class. -/
def FailsOn (p : Char → Bool) (k : Cursor → Captures → Option β) : Prop :=
  ∀ (cur : Cursor) (caps : Captures) (c : Char) (cs : Str), cur.rest = c :: cs → p c = true →
    k cur caps = none

theorem FailsOn.failsShort {p : Char → Bool} {k : Cursor → Captures → Option β}
    (hk : FailsOn p k) {cur : Cursor} {caps : Captures} {w s : Str} (hw : ∀ c ∈ w, p c = true) :
    FailsShort k cur caps w s := by
  rintro u c v rfl
  exact hk _ _ c _ rfl (hw c (List.mem_append_right _ List.mem_cons_self))

theorem run_many_of_failsOn {p : Char → Bool} {k : Cursor → Captures → Option β}
    (hk : FailsOn p k) {cur : Cursor} {caps : Captures} :
    (many p).run k cur caps = k (cur.after (cur.rest.takeWhile p) (cur.rest.dropWhile p)) caps :=
  run_many_span (hk.failsShort (forall_takeWhile p _))

theorem run_many1_of_failsOn {p : Char → Bool} {k : Cursor → Captures → Option β}
    (hk : FailsOn p k) {cur : Cursor} {caps : Captures} :
    (many1 p).run k cur caps = if cur.rest.head?.any p then
      k (cur.after (cur.rest.takeWhile p) (cur.rest.dropWhile p)) caps else none :=
  run_many1_span (hk.failsShort (forall_takeWhile p _))

/-- A pattern word fails on a text that does not start with it. -/
theorem run_word_fails {l : Str} {k : Cursor → Captures → Option β} {cur : Cursor}
    {caps : Captures} (h : foldsToWord l (cur.rest.take l.length) = false) : (word l).run k cur
    caps = none := by
  rcases hrun : (word l).run k cur caps with _ | x
  · rfl
  · obtain ⟨w, cs, hr, hf, -⟩ := run_word_eq_some hrun
    rw [hr, ← length_of_foldsToWord hf, List.take_left' rfl, hf] at h
    exact absurd h (by simp)

end RunSpec

/-- The match at a cursor is one of the matches there. -/
theorem matchAt_eq_some {r : Regex} {cur : Cursor} {m : Match} (h : r.matchAt cur = some m) :
    ∃ stop, r.Matches cur [] stop m.caps ∧ m.start = cur.pos ∧ m.stop = stop.pos := by
  obtain ⟨stop, caps, hm, hk⟩ := run_eq_some h
  simp only [Option.some.injEq] at hk
  subst hk
  exact ⟨stop, hm, rfl, rfl⟩

/-- There is a match at a cursor exactly when the pattern can match there. -/
theorem matchAt_isSome_iff {r : Regex} {cur : Cursor} :
    (r.matchAt cur).isSome = true ↔ ∃ stop caps, r.Matches cur [] stop caps := by
  constructor
  · intro h
    obtain ⟨m, hm⟩ := Option.isSome_iff_exists.1 h
    obtain ⟨stop, hs, -, -⟩ := matchAt_eq_some hm
    exact ⟨stop, _, hs⟩
  · rintro ⟨stop, caps, h⟩
    exact run_isSome h rfl

/-! ## Scanning -/

/-- What a scan reports is a match somewhere in the text. -/
theorem exists_of_mem_scan {r : Regex} {s : Str} {skip pos : Nat} {prev : Option Char} {m : Match}
    (h : m ∈ scan r s skip pos prev) : ∃ cur, cur.rest <:+ s ∧ r.matchAt cur = some m := by
  induction s generalizing skip pos prev with
  | nil => exact absurd h (by simp [scan])
  | cons c cs ih =>
    have hcons : ∀ {skip pos prev}, m ∈ scan r cs skip pos prev →
        ∃ cur, cur.rest <:+ c :: cs ∧ r.matchAt cur = some m := fun h => by
      obtain ⟨cur, hcur, hm⟩ := ih h
      exact ⟨cur, hcur.trans (List.suffix_cons c cs), hm⟩
    cases skip with
    | succ skip => exact hcons h
    | zero =>
      rw [scan] at h
      split at h
      · exact hcons h
      · rename_i m' hm
        rcases List.mem_cons.1 h with rfl | h
        · exact ⟨_, List.suffix_rfl, hm⟩
        · exact hcons h

/-- Skipping the rest of a match. -/
theorem scan_skip (r : Regex) (w rest : Str) (pos : Nat) (prev : Option Char) :
    scan r (w ++ rest) w.length pos prev = scan r rest 0 (pos + w.length) (lastOf prev w) := by
  induction w generalizing pos prev with
  | nil => rfl
  | cons c w ih =>
    rw [List.cons_append, List.length_cons, scan, ih]
    simp [Nat.add_assoc, Nat.add_comm 1]

/-- Where nothing starts, a scan goes on behind the piece. -/
theorem scan_pass {r : Regex} {w rest : Str} {pos : Nat} {prev : Option Char}
    (h : ∀ u c v, w = u ++ c :: v →
      r.matchAt ⟨pos + u.length, lastOf prev u, c :: (v ++ rest)⟩ = none) :
    scan r (w ++ rest) 0 pos prev = scan r rest 0 (pos + w.length) (lastOf prev w) := by
  induction w generalizing pos prev with
  | nil => rfl
  | cons c w ih =>
    have hc := h [] c w rfl
    simp only [List.length_nil, Nat.add_zero, lastOf_nil] at hc
    rw [List.cons_append, scan, hc]
    simp only
    rw [ih]
    · simp [Nat.add_assoc, Nat.add_comm 1]
    · intro u d v hw
      have := h (c :: u) d v (by rw [hw]; rfl)
      simpa [Nat.add_assoc, Nat.add_comm 1] using this

/-- A match is reported and the scan goes on behind it. -/
theorem scan_match {r : Regex} {w rest : Str} {pos : Nat} {prev : Option Char} {m : Match}
    (hw : w ≠ []) (hm : r.matchAt ⟨pos, prev, w ++ rest⟩ = some m)
    (hstop : m.stop = pos + w.length) :
    scan r (w ++ rest) 0 pos prev = m :: scan r rest 0 (pos + w.length) (lastOf prev w) := by
  cases w with
  | nil => exact absurd rfl hw
  | cons c w =>
    rw [List.cons_append] at hm ⊢
    rw [scan, hm]
    have hlen : m.stop - pos - 1 = w.length := by
      rw [hstop, List.length_cons]
      omega
    simp only [hlen, scan_skip]
    simp [Nat.add_assoc, Nat.add_comm 1]

end Regex

end Py
