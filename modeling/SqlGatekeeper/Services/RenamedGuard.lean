import SqlGatekeeper.Services.Precheck
import SqlGatekeeper.Services.Rewriting

/-!
# The guard on a text under other names

* `rdropWhile_append`: what is stripped off the end of a text.
* `Middle.strip_around`: a text that is stripped around a middle part.
* `Middle.evaluate_congr`: the guard looks at such a text alike, whatever the middle part.
* `evaluate_renamed`: the guard allows an ASCII text under other names if it allows the text.
-/

namespace SqlGatekeeper

open Py Regex

/-! ## Stripped texts -/

/-- What is dropped off the end of a text ends at the latest at a character outside the class. -/
theorem rdropWhile_append {p : Char → Bool} {a : Str}
    (ha : a.getLast?.any (!p ·) = true) (b : Str) :
    (a ++ b).rdropWhile p = a ++ b.rdropWhile p := by
  obtain ⟨u, c, rfl⟩ : ∃ u c, a = u ++ [c] := by
    rcases List.eq_nil_or_concat a with rfl | ⟨u, c, rfl⟩
    · exact absurd ha (by simp)
    · exact ⟨u, c, List.concat_eq_append⟩
  have hc : ¬ p c = true := by simpa using ha
  induction b using List.reverseRecOn with
  | nil => rw [List.append_nil, List.rdropWhile_concat_neg _ _ _ hc, List.rdropWhile_nil,
      List.append_nil]
  | append_singleton b d ih =>
    rw [← List.append_assoc, List.rdropWhile_concat, List.rdropWhile_concat]
    split
    · exact ih
    · rw [List.append_assoc]

theorem mem_strip {d : Char} (hd : isSpace d = false) {s : Str} : d ∈ strip s ↔ d ∈ s := by
  have hdrop : ∀ t : Str, d ∈ t.dropWhile isSpace ↔ d ∈ t := fun t => by
    refine ⟨fun h => (List.dropWhile_sublist _).mem h, fun h => ?_⟩
    rw [← List.takeWhile_append_dropWhile (p := isSpace) (l := t)] at h
    refine (List.mem_append.1 h).resolve_left fun htake => ?_
    rw [forall_takeWhile _ _ d htake] at hd
    exact absurd hd (by simp)
  rw [strip, rstrip, lstrip, List.mem_reverse, hdrop, List.mem_reverse, hdrop]

/-- A middle part of a text that no whitespace starts or ends. -/
structure Middle (m : Str) : Prop where
  head : m.head?.any isTableLetter = true
  last : m.getLast?.any isNamePart = true

theorem Middle.lstrip_around {m : Str} (hm : Middle m) (a t : Str) :
    lstrip (a ++ (m ++ t)) = lstrip a ++ (m ++ t) := by
  obtain ⟨c, hc, hletter⟩ := (Option.any_eq_true _ _).1 hm.head
  obtain ⟨m, rfl⟩ := List.head?_eq_some_iff.1 hc
  have hspace : isSpace c = false := not_space_of_letter (t := [c]) fun d hd => by
    obtain rfl : c = d := Option.some.inj hd
    exact hletter
  rw [lstrip, lstrip, List.dropWhile_append]
  split
  · rename_i hempty
    rw [List.isEmpty_iff.1 hempty, List.cons_append, List.dropWhile_cons_of_neg (by simp [hspace])]
    rfl
  · rfl

/-- A text is stripped around its middle part. -/
theorem Middle.strip_around {m : Str} (hm : Middle m) (a t : Str) :
    strip (a ++ (m ++ t)) = lstrip a ++ (m ++ rstrip t) := by
  have hlast : (lstrip a ++ m).getLast?.any (!isSpace ·) = true := by
    obtain ⟨c, hc, hpart⟩ := (Option.any_eq_true _ _).1 hm.last
    rw [List.getLast?_append, hc, Option.some_or, Option.any_some, isSpace_of_isNamePart hpart]
    rfl
  rw [strip, hm.lstrip_around, ← List.append_assoc, ← List.append_assoc]
  exact rdropWhile_append hlast t

/-! ## Semicolons -/

theorem contains_semicolon (s : Str) : contains s ";" = true ↔ ';' ∈ s := by
  induction s with
  | nil => exact iff_of_false (by decide) List.not_mem_nil
  | cons c s ih =>
    have hprefix : List.isPrefixOf (";" : Str) (c :: s) = true ↔ ';' = c :=
      List.isPrefixOf_iff_prefix.trans List.singleton_prefix_cons_iff
    rw [contains, Bool.or_eq_true, hprefix, ih, List.mem_cons]

theorem toLower_eq_semicolon {c : Char} : c.toLower = ';' ↔ c = ';' := by
  constructor
  · intro h
    by_cases hu : c.isUpper = true
    · have halpha : c.toLower.isAlpha = true := by rw [isAlpha_toLower, Char.isAlpha, hu,
        Bool.true_or]
      rw [h] at halpha
      exact absurd halpha (by decide)
    · rwa [Char.toLower_eq_of_not_isUpper hu] at h
  · rintro rfl
    decide

theorem mem_lowered {s : Str} : ';' ∈ s.map Char.toLower ↔ ';' ∈ s := by
  rw [List.mem_map]
  exact ⟨fun ⟨c, hc, h⟩ => toLower_eq_semicolon.1 h ▸ hc, fun h =>
    ⟨';', h, by decide⟩⟩

/-- A lowered text has no semicolon in front of the trailing ones: neither up to its middle part nor
behind it. -/
theorem Middle.mem_withoutTrailing {m : Str} (hm : Middle m) (a t : Str) :
    ';' ∈ withoutTrailingSemicolon ((a ++ (m ++ t)).map Char.toLower) ↔
      ';' ∈ a ∨ ';' ∈ m ∨ ';' ∈ rstripChar ';' (t.map Char.toLower) := by
  have hlast : ((a ++ m).map Char.toLower).getLast?.any (fun c => !(c == ';')) = true := by
    obtain ⟨c, hc, hpart⟩ := (Option.any_eq_true _ _).1 hm.last
    rw [List.getLast?_map, List.getLast?_append, hc, Option.some_or, Option.map_some,
      Option.any_some]
    have hne : ¬ c.toLower = ';' := by
      rw [toLower_eq_semicolon]
      rintro rfl
      exact absurd hpart (by decide)
    simpa using hne
  have hrstrip : rstripChar ';' ((a ++ (m ++ t)).map Char.toLower) =
      (a ++ m).map Char.toLower ++ rstripChar ';' (t.map Char.toLower) := by
    rw [← List.append_assoc, List.map_append]
    exact rdropWhile_append hlast _
  rw [withoutTrailingSemicolon, mem_strip (by decide), hrstrip, List.mem_append, mem_lowered,
    List.mem_append, or_assoc]

/-! ## The first word -/

theorem isSpace_toLower (c : Char) : isSpace c.toLower = isSpace c := by
  by_cases hu : c.isUpper = true
  · have hletter : ∀ {d : Char}, d.isAlpha = true → isSpace d = false := fun hd =>
      isSpace_eq_false_of_isAlphanum (by rw [Char.isAlphanum, hd, Bool.true_or])
    have halpha : c.isAlpha = true := by rw [Char.isAlpha, hu, Bool.true_or]
    rw [hletter halpha, hletter (isAlpha_toLower c ▸ halpha)]
  · rw [Char.toLower_eq_of_not_isUpper hu]

theorem leadingLetters_lowered (s : Str) :
    leadingLetters (s.map Char.toLower) = (leadingLetters s).map Char.toLower := by
  have hspace : isSpace ∘ Char.toLower = isSpace := funext isSpace_toLower
  have halpha : Char.isAlpha ∘ Char.toLower = Char.isAlpha := funext isAlpha_toLower
  rw [leadingLetters, leadingLetters, List.dropWhile_map, List.takeWhile_map, hspace, halpha]

/-- The first word goes over the start of the text behind, or does not depend on that text. -/
theorem leadingLetters_append (w : Str) {t : Str} {c : Char} (hc : t.head? = some c)
    (halpha : c.isAlpha = true) : c ∈ leadingLetters (w ++ t) ∨
      ∀ t', leadingLetters (w ++ t') = leadingLetters (w ++ t) := by
  obtain ⟨t, rfl⟩ := List.head?_eq_some_iff.1 hc
  have hspace : isSpace c = false :=
    isSpace_eq_false_of_isAlphanum (by rw [Char.isAlphanum, halpha, Bool.true_or])
  simp only [leadingLetters, List.dropWhile_append]
  by_cases hempty : (w.dropWhile isSpace).isEmpty = true
  · left
    rw [if_pos hempty, List.dropWhile_cons_of_neg (by simp [hspace]),
      List.takeWhile_cons_of_pos halpha]
    exact List.mem_cons_self
  · simp only [if_neg hempty, List.takeWhile_append]
    split
    · left
      rw [List.takeWhile_cons_of_pos halpha]
      exact List.mem_append_right _ List.mem_cons_self
    · exact Or.inr fun t' => rfl

theorem not_select_of_isTableLetter {w : Str} {c : Char} (hc : isTableLetter c = true)
    (hmem : c ∈ w) :
    w.map Char.toLower ≠ "select" := by
  intro h
  have hlow : c.toLower ∈ ("select" : Str) := h ▸ List.mem_map_of_mem hmem
  have hother : ("select" : Str).all (fun l => !(l == 'f' || l == 'j')) = true := by decide
  have hnot := List.all_eq_true.1 hother _ hlow
  rw [isTableLetter] at hc
  rw [hc] at hnot
  exact absurd hnot (by simp)

/-! ## The guard -/

theorem ascii_strip {s : Str} (hs : Ascii s) : Ascii (strip s) := by
  intro c hc
  rw [strip, rstrip, lstrip, List.mem_reverse] at hc
  have hreverse := (List.dropWhile_sublist _).mem hc
  rw [List.mem_reverse] at hreverse
  exact hs c ((List.dropWhile_sublist _).mem hreverse)

variable {U : UnicodeData}

/-- The conditions of the guard on an ASCII text. -/
theorem evaluate_ascii {sql : Str} (hsql : Ascii sql) : (BasicSqlGuard.evaluate U sql).allowed =
    true ↔ ';' ∉ withoutTrailingSemicolon ((strip sql).map Char.toLower) ∧
      (leadingLetters (strip sql)).map Char.toLower = "select" := by
  rw [BasicSqlGuard.evaluate_allowed_iff, lower_ascii U (ascii_strip hsql), leadingLetters_lowered,
    ← Bool.not_eq_true, contains_semicolon]

/-- The guard allows a text with another middle part that has no new semicolon. -/
theorem Middle.evaluate_congr {a m m' t : Str} (hm : Middle m) (hm' : Middle m')
    (hsql : Ascii (a ++ (m ++ t))) (hsql' : Ascii (a ++ (m' ++ t)))
    (hsemi : ';' ∈ m' → ';' ∈ m)
    (h : (BasicSqlGuard.evaluate U (a ++ (m ++ t))).allowed = true) :
    (BasicSqlGuard.evaluate U (a ++ (m' ++ t))).allowed = true := by
  obtain ⟨hsingle, hselect⟩ := (evaluate_ascii hsql).1 h
  refine (evaluate_ascii hsql').2 ⟨?_, ?_⟩
  · rw [hm.strip_around, hm.mem_withoutTrailing] at hsingle
    rw [hm'.strip_around, hm'.mem_withoutTrailing]
    exact fun h => hsingle (h.imp_right (Or.imp_left hsemi))
  · rw [hm.strip_around] at hselect
    rw [hm'.strip_around]
    obtain ⟨c, hc, hletter⟩ := (Option.any_eq_true _ _).1 hm.head
    have hhead : (m ++ rstrip t).head? = some c := by rw [List.head?_append, hc, Option.some_or]
    rcases leadingLetters_append (lstrip a) hhead (isAlpha_of_isTableLetter hletter)
      with hmem | hsame
    · exact absurd hselect (not_select_of_isTableLetter hletter hmem)
    · rw [hsame, hselect]

/-! ## Other names -/

theorem Middle.append {m w : Str} (hm : Middle m) (hw : w.head?.any isTableLetter = true) :
    Middle (w ++ m) := by
  have hne : w ≠ [] := by
    rintro rfl
    exact absurd hw (by simp)
  refine ⟨(head_append_any hne m).trans hw, ?_⟩
  obtain ⟨c, hc, hpart⟩ := (Option.any_eq_true _ _).1 hm.last
  rw [List.getLast?_append, hc]
  exact hpart

/-- A reference up to its name. -/
theorem middle_of_name {r : TableRead} (hr : r.Valid) {x : Str} (hx : IsName x) :
    Middle (r.lead ++ x) := by
  refine ⟨?_, ?_⟩
  · rw [TableRead.lead, List.append_assoc, head_append_any hr.keyword_ne_nil]
    exact tableLetter_ahead hr.keyword
  · obtain ⟨y, c, rfl⟩ := (List.eq_nil_or_concat x).resolve_left hx.ne_nil
    rw [List.concat_eq_append] at hx ⊢
    rw [← List.append_assoc, List.getLast?_concat]
    exact hx.parts c (by simp)

theorem not_mem_name {x : Str} (hx : IsName x) : ';' ∉ x :=
  fun hmem => absurd (hx.parts _ hmem) (by decide)

theorem TableRead.Valid.mem_renamed {r : TableRead} {x : Str} (hx : IsName x)
    (h : ';' ∈ (r.rename x).text) : ';' ∈ r.text := by
  have htext : (r.rename x).text = r.lead ++ (x ++ r.aliasText) := rfl
  rw [htext, List.mem_append, List.mem_append] at h
  rw [TableRead.text, List.mem_append, List.mem_append]
  exact h.imp_right fun h => Or.inr (h.resolve_left (not_mem_name hx))

/-- The references of a text have a middle part up to the last name, also under other names. -/
theorem exists_middle {ps qs : List (TableRead × Str)} (hps : ReadsFit ps)
    (h : List.Forall₂ Renamed ps qs) (hne : ps ≠ []) : ∃ m m' t, readsText ps = m ++ t ∧
      readsText qs = m' ++ t ∧ Middle m ∧ Middle m' ∧ (';' ∈ m' → ';' ∈ m) := by
  induction h with
  | nil => exact absurd rfl hne
  | @cons p q ps qs hpq hrest ih =>
    obtain ⟨x, hx, rfl⟩ := hpq
    cases hps with
    | @cons r gap _ valid ends rest =>
      by_cases hlast : ps = []
      · subst hlast
        obtain rfl := List.forall₂_nil_left_iff.1 hrest
        refine ⟨r.lead ++ r.name, r.lead ++ x, r.aliasText ++ (gap ++ []), ?_, ?_,
          middle_of_name valid valid.name, middle_of_name valid hx, fun h => ?_⟩
        · simp only [readsText, TableRead.text, List.append_assoc]
        · simp only [readsText, TableRead.text, TableRead.rename, List.append_assoc]
          rfl
        · rw [List.mem_append] at h ⊢
          exact Or.inl (h.resolve_right (not_mem_name hx))
      · obtain ⟨m, m', t, hm, hm', hmiddle, hmiddle', hsemi⟩ := ih rest hlast
        have hhead : ∀ {y : Str}, IsName y →
            ((r.rename y).text ++ gap).head?.any isTableLetter = true := fun hy => by
          rw [(valid.rename hy).head]
          exact tableLetter_ahead valid.keyword
        refine ⟨(r.text ++ gap) ++ m, ((r.rename x).text ++ gap) ++ m', t, ?_, ?_,
          hmiddle.append (hhead valid.name), hmiddle'.append (hhead hx), fun h => ?_⟩
        · simp only [readsText, hm, List.append_assoc]
        · simp only [readsText, hm', List.append_assoc]
        · rw [List.mem_append, List.mem_append] at h ⊢
          exact h.imp (Or.imp_left (TableRead.Valid.mem_renamed hx)) hsemi

/-- The guard allows an ASCII text under other names if it allows the text. -/
theorem evaluate_renamed {gap : Str} {ps qs : List (TableRead × Str)} (hps : ReadsFit ps)
    (h : List.Forall₂ Renamed ps qs) (hsql : Ascii (gap ++ readsText ps))
    (hsql' : Ascii (gap ++ readsText qs))
    (hallowed : (BasicSqlGuard.evaluate U (gap ++ readsText ps)).allowed = true) :
    (BasicSqlGuard.evaluate U (gap ++ readsText qs)).allowed = true := by
  by_cases hne : ps = []
  · subst hne
    rw [List.forall₂_nil_left_iff.1 h]
    exact hallowed
  · obtain ⟨m, m', t, hm, hm', hmiddle, hmiddle', hsemi⟩ := exists_middle hps h hne
    rw [hm] at hallowed hsql
    rw [hm'] at hsql' ⊢
    exact hmiddle.evaluate_congr hmiddle' hsql hsql' hsemi hallowed

end SqlGatekeeper
