import SqlGatekeeper.Python.Text

/-!
# Words

A text as a sequence of runs of characters of a class, with other characters between them.

* `runs`: the maximal runs of a class; `words`: of the word characters of `re`.
* `runs_append_cons`: a character outside the class separates.
* `mem_runs`: a piece of a text with nothing of the class around it is one of the runs.
-/

namespace Py

/-! ## Runs -/

/-- The maximal runs of a class in a text, the current run first. -/
def runsFrom (p : Char → Bool) : Str → Str → List Str
  | run, [] => if run = [] then [] else [run]
  | run, c :: cs =>
      if p c then runsFrom p (run ++ [c]) cs
      else if run = [] then runsFrom p [] cs
      else run :: runsFrom p [] cs

/-- The maximal runs of a class in a text. -/
def runs (p : Char → Bool) (s : Str) : List Str := runsFrom p [] s

section Runs

variable {p : Char → Bool}

theorem runsFrom_append_cons {c : Char} (hc : p c = false) (run a b : Str) :
    runsFrom p run (a ++ c :: b) = runsFrom p run a ++ runs p b := by
  induction a generalizing run with
  | nil =>
    rw [List.nil_append, runsFrom, runsFrom, if_neg (by rw [hc]; decide), runs]
    by_cases hrun : run = []
    · rw [if_pos hrun, if_pos hrun, List.nil_append]
    · rw [if_neg hrun, if_neg hrun, List.singleton_append]
  | cons d a ih =>
    rw [List.cons_append, runsFrom, runsFrom]
    split
    · exact ih _
    · split
      · exact ih []
      · rw [ih, List.cons_append]

/-- A character outside the class separates. -/
theorem runs_append_cons {c : Char} (hc : p c = false) (a b : Str) :
    runs p (a ++ c :: b) = runs p a ++ runs p b := runsFrom_append_cons hc [] a b

theorem runs_cons {c : Char} (hc : p c = false) (b : Str) : runs p (c :: b) = runs p b :=
  runs_append_cons hc [] b

theorem runsFrom_of_all {x : Str} (hx : ∀ c ∈ x, p c = true) (run : Str) :
    runsFrom p run x = if run ++ x = [] then [] else [run ++ x] := by
  induction x generalizing run with
  | nil => rw [runsFrom, List.append_nil]
  | cons c x ih =>
    rw [runsFrom, if_pos (hx c List.mem_cons_self),
      ih (fun d hd => hx d (List.mem_cons_of_mem _ hd)), List.append_assoc, List.singleton_append]

/-- A text of the class is one run. -/
theorem runs_of_all {x : Str} (hne : x ≠ []) (hx : ∀ c ∈ x, p c = true) : runs p x = [x] := by
  rw [runs, runsFrom_of_all hx, List.nil_append, if_neg hne]

theorem mem_runsFrom (run : Str) {x v : Str} (hx : ∀ c ∈ x, p c = true)
    (hv : ∀ c ∈ v.head?, p c = false) (hne : run ++ x ≠ []) : run ++ x ∈ runsFrom p run
    (x ++ v) := by
  induction x generalizing run with
  | nil =>
    rw [List.append_nil] at hne ⊢
    cases v with
    | nil => rw [List.append_nil, runsFrom, if_neg hne]; exact List.mem_singleton_self _
    | cons c v =>
      rw [List.nil_append, runsFrom, hv c rfl, if_neg Bool.false_ne_true, if_neg hne]
      exact List.mem_cons_self
  | cons c x ih =>
    have happ : run ++ c :: x = (run ++ [c]) ++ x := by simp
    rw [List.cons_append, runsFrom, if_pos (hx c List.mem_cons_self), happ]
    exact ih _ (fun d hd => hx d (List.mem_cons_of_mem _ hd)) (by simp)

/-- A piece of a text with nothing of the class around it is one of the runs. -/
theorem mem_runs {u x v : Str} (hne : x ≠ []) (hx : ∀ c ∈ x, p c = true)
    (hu : ∀ c ∈ u.getLast?, p c = false) (hv : ∀ c ∈ v.head?, p c = false) :
    x ∈ runs p (u ++ (x ++ v)) := by
  rcases List.eq_nil_or_concat u with rfl | ⟨u, c, rfl⟩
  · exact mem_runsFrom [] hx hv hne
  · rw [List.concat_eq_append, List.append_assoc, List.singleton_append,
      runs_append_cons (hu c (by simp))]
    exact List.mem_append_right _ (mem_runsFrom [] hx hv hne)

end Runs

/-! ## Words -/

/-- The word characters of `re`: what `\w` accepts, and what `\b` looks at. -/
def isWord (U : UnicodeData) (c : Char) : Bool := U.isAlnum c || c == '_'

/-- The words of a text. -/
def words (U : UnicodeData) (s : Str) : List Str := runs (isWord U) s

theorem isWord_of_isNameChar (U : UnicodeData) {c : Char} (hc : isNameChar c = true) :
    isWord U c = true := by
  rw [isNameChar, Bool.or_eq_true] at hc
  rw [isWord, Bool.or_eq_true]
  exact hc.imp_left fun h => by rw [U.isAlnum_ascii c (toNat_lt_of_isAlphanum h), h]

theorem isWord_space (U : UnicodeData) : isWord U ' ' = false := by
  rw [isWord, U.isAlnum_ascii ' ' (by decide)]
  decide

/-- A character that `re` takes for whitespace is no word character. -/
theorem isWord_of_isSpace (U : UnicodeData) {c : Char} (hc : isSpace c = true) :
    isWord U c = false := by
  rw [isWord, Bool.or_eq_false_iff]
  constructor
  · by_contra h
    rw [U.isAlnum_not_space c (by simpa using h)] at hc
    exact absurd hc (by simp)
  · rw [beq_eq_false_iff_ne]
    rintro rfl
    exact absurd hc (by decide)

end Py
