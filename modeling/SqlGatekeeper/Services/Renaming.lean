import SqlGatekeeper.Services.TableScan

/-!
# Other names for the tables of a text

A text with its table references and the gaps between them, and the same text under other names.

* `Scanned`: a scan for references goes over the gaps and finds the references.
* `exists_scanned`: every text is scanned so; `Scanned.tables`: the tables the pattern finds.
* `Scanned.renamed`: under other names the same references are found.
* `firstLimit_renamed`: the first limit of the text stays the same.
-/

namespace SqlGatekeeper

open Py Regex

variable {U : UnicodeData}

/-! ## References and gaps -/

/-- References, each with the gap behind it. -/
def readsText : List (TableRead × Str) → Str
  | [] => []
  | p :: ps => p.1.text ++ (p.2 ++ readsText ps)

/-- The tables of references that start at a position. -/
def readTables : List (TableRead × Str) → Nat → List ParsedTable
  | [], _ => []
  | p :: ps, pos => p.1.table pos :: readTables ps (pos + p.1.text.length + p.2.length)

/-- Each reference is read back in front of what follows it. -/
inductive ReadsFit : List (TableRead × Str) → Prop
  | nil : ReadsFit []
  | cons {r : TableRead} {gap : Str} {ps : List (TableRead × Str)} (valid : r.Valid)
      (ends : r.EndsAt (gap ++ readsText ps)) (rest : ReadsFit ps) : ReadsFit ((r, gap) :: ps)

/-- A scan for references, from a place on: it goes over the gap and finds the references. -/
inductive Scanned (U : UnicodeData) : Option Char → Str → List (TableRead × Str) → Prop
  | nil (prev : Option Char) : Scanned U prev [] []
  | pass {prev : Option Char} {c : Char} {gap : Str} {ps : List (TableRead × Str)}
      (here : tableHere U prev (c :: (gap ++ readsText ps)) = none)
      (rest : Scanned U (some c) gap ps) : Scanned U prev (c :: gap) ps
  | found {prev : Option Char} {r : TableRead} {gap : Str} {ps : List (TableRead × Str)}
      (start : prev.any (isWord U) = false) (valid : r.Valid)
      (ends : r.EndsAt (gap ++ readsText ps))
      (rest : Scanned U (lastOf prev r.text) gap ps) : Scanned U prev [] ((r, gap) :: ps)

theorem TableRead.Valid.keyword_ne_nil {r : TableRead} (hr : r.Valid) : r.keyword ≠ [] := by
  intro h
  have hlength := hr.length
  rw [h] at hlength
  exact absurd hlength (by decide)

theorem TableRead.Valid.text_ne_nil {r : TableRead} (hr : r.Valid) : r.text ≠ [] := by
  rw [TableRead.text, TableRead.lead]
  simp [hr.keyword_ne_nil]

/-- Every text is scanned: it is a gap and references. -/
theorem exists_scanned (U : UnicodeData) (prev : Option Char) (s : Str) :
    ∃ gap ps, s = gap ++ readsText ps ∧ Scanned U prev gap ps := by
  cases s with
  | nil => exact ⟨[], [], rfl, .nil prev⟩
  | cons c s =>
    cases here : tableHere U prev (c :: s) with
    | none =>
      obtain ⟨gap, ps, hs, hscan⟩ := exists_scanned U (some c) s
      exact ⟨c :: gap, ps, by rw [hs]; rfl, .pass (by rw [← hs]; exact here) hscan⟩
    | some p =>
      obtain ⟨r, t⟩ := p
      have hstart : prev.any (isWord U) = false := by
        by_contra h
        rw [tableHere, if_pos (by simpa using h)] at here
        exact absurd here (by simp)
      rw [tableHere, hstart, if_neg Bool.false_ne_true] at here
      obtain ⟨hs, hvalid, hends⟩ := tableAt_eq_some here
      have hle : t.length ≤ s.length := by
        have hlength := congrArg List.length hs
        have hpos := List.length_pos_iff.2 hvalid.text_ne_nil
        rw [List.length_cons, List.length_append] at hlength
        omega
      obtain ⟨gap, ps, ht, hscan⟩ := exists_scanned U (lastOf prev r.text) t
      refine ⟨[], (r, gap) :: ps, ?_, .found hstart hvalid (ht ▸ hends) hscan⟩
      rw [hs, ht]
      rfl
termination_by s.length

/-- The table pattern finds the references of a scan. -/
theorem Scanned.tables {prev : Option Char} {gap : Str} {ps : List (TableRead × Str)}
    (h : Scanned U prev gap ps) (pos : Nat) :
    (scan (tablePattern U) (gap ++ readsText ps) 0 pos prev).filterMap tableOfMatch =
      readTables ps (pos + gap.length) := by
  induction h generalizing pos with
  | nil prev => rfl
  | @pass prev c gap ps here rest ih =>
    have hmatch : (tablePattern U).matchAt ⟨pos, prev, c :: (gap ++ readsText ps)⟩ = none := by
      rw [matchAt_table, here]
      rfl
    rw [List.cons_append, scan, hmatch]
    simp only
    rw [ih, List.length_cons, Nat.add_right_comm, Nat.add_assoc]
  | @found prev r gap ps start valid ends rest ih =>
    have hmatch : (tablePattern U).matchAt ⟨pos, prev, r.text ++ (gap ++ readsText ps)⟩ =
        some (r.found pos) := by
      rw [matchAt_table, tableHere, start, if_neg Bool.false_ne_true, tableAt_text valid ends]
      rfl
    rw [List.nil_append, readsText, scan_match valid.text_ne_nil hmatch rfl,
      List.filterMap_cons_some (tableOfMatch_found pos r), ih, readTables]
    rfl

/-- The parser reads the references of a scan as its tables. -/
theorem Scanned.parsed_tables {rt : Runtime} {gap : Str} {ps : List (TableRead × Str)}
    (h : Scanned rt.toUnicodeData none gap ps) {parsed : ParsedSql}
    (hparsed : parse rt (gap ++ readsText ps) = .ok parsed) :
    parsed.tables = readTables ps gap.length := by
  rw [(parse_eq_ok hparsed).2.1, finditer, h.tables 0, Nat.zero_add]

theorem Scanned.fits {prev : Option Char} {gap : Str} {ps : List (TableRead × Str)}
    (h : Scanned U prev gap ps) : ReadsFit ps := by
  induction h with
  | nil prev => exact .nil
  | pass here rest ih => exact ih
  | found start valid ends rest ih => exact .cons valid ends ih

/-! ## Renaming -/

/-- The same reference to another table. -/
def TableRead.rename (r : TableRead) (name : Str) : TableRead := { r with name }

/-- The same references and gaps under other names. -/
def Renamed (p q : TableRead × Str) : Prop := ∃ x, IsName x ∧ q = (p.1.rename x, p.2)

/-- Two texts that are empty or start with the same letter of `from` or `join`. -/
structure SameStart (t t' : Str) : Prop where
  head : t.head? = t'.head?
  letter : ∀ c ∈ t.head?, isTableLetter c = true

theorem TableRead.Valid.rename {r : TableRead} (hr : r.Valid) {x : Str} (hx : IsName x) :
    (r.rename x).Valid := ⟨hr.keyword, hr.length, hr.spaces, hx, hr.aliasName⟩

/-- A reference starts like its keyword. -/
theorem TableRead.Valid.head {r : TableRead} (hr : r.Valid) (t : Str) :
    (r.text ++ t).head? = r.keyword.head? := by
  obtain ⟨c, cs, hc⟩ := List.exists_cons_of_ne_nil hr.keyword_ne_nil
  rw [r.text_append, hc]
  rfl

theorem sameStart_renamed {ps qs : List (TableRead × Str)} (hps : ReadsFit ps)
    (h : List.Forall₂ Renamed ps qs) : SameStart (readsText ps) (readsText qs) := by
  cases h with
  | nil => exact ⟨rfl, fun c hc => absurd hc (Option.not_mem_none c)⟩
  | @cons p q ps qs hpq hrest =>
    obtain ⟨x, hx, rfl⟩ := hpq
    cases hps with
    | @cons r gap _ valid ends rest =>
      have hhead : (readsText ((r, gap) :: ps)).head? = r.keyword.head? := valid.head _
      refine ⟨hhead.trans ((valid.rename hx).head _).symm, fun c hc => ?_⟩
      have hletter := tableLetter_ahead valid.keyword
      rwa [← hhead, Option.mem_def.1 hc] at hletter

/-- Two texts go on alike behind any text, if they do without one and start with no whitespace. -/
theorem SameEnd.append {t t' : Str} (h : SameEnd t t')
    (ht : t.head?.any isSpace = false) (w : Str) :
    SameEnd (w ++ t) (w ++ t') := by
  have ht' : t'.head?.any isSpace = false := h.space ▸ ht
  cases w with
  | nil => exact h
  | cons c w =>
    refine ⟨rfl, rfl, ?_⟩
    have hdrop : ∀ {u : Str}, u.head?.any isSpace = false → u.dropWhile isSpace = u := by
      intro u hu
      cases u with
      | nil => rfl
      | cons d u => exact List.dropWhile_cons_of_neg (by simpa using hu)
    rw [List.dropWhile_append, List.dropWhile_append]
    split
    · rw [hdrop ht, hdrop ht', ← hdrop ht, ← hdrop ht', h.behind]
    · rename_i hne
      have hgap : (c :: w).dropWhile isSpace ≠ [] := by simpa using hne
      rw [nameAhead_append hgap, nameAhead_append hgap]

theorem not_space_of_letter {t : Str} (ht : ∀ c ∈ t.head?, isTableLetter c = true) :
    t.head?.any isSpace = false := by
  cases t with
  | nil => rfl
  | cons c t =>
    have halpha := isAlpha_of_isTableLetter (ht c rfl)
    exact isSpace_eq_false_of_isAlphanum (by rw [Char.isAlphanum, halpha, Bool.true_or])

/-- A gap goes on as before. -/
theorem SameStart.sameEnd {t t' : Str} (h : SameStart t t') (gap : Str) :
    SameEnd (gap ++ t) (gap ++ t') := by
  have hdrop : ∀ {u : Str}, (∀ c ∈ u.head?, isTableLetter c = true) →
      u.dropWhile isSpace = u := by
    intro u hu
    have hspace := not_space_of_letter hu
    cases u with
    | nil => rfl
    | cons c u => exact List.dropWhile_cons_of_neg (by simpa using hspace)
  have hsame : SameEnd t t' := by
    refine ⟨by rw [h.head], by rw [h.head], ?_⟩
    rw [hdrop h.letter, hdrop (h.head ▸ h.letter), nameAhead, nameAhead, h.head]
  exact hsame.append (not_space_of_letter h.letter) gap

/-- No word of the pattern goes over the start of the next one. -/
theorem tableWordAhead_short {w t : Str} {c : Char} (hne : w ≠ []) (hw : w.length < 4)
    (hc : isTableLetter c = true) : tableWordAhead (w ++ c :: t) = false := by
  have hascii : c.toNat < 128 := toNat_lt_of_isAlpha (isAlpha_of_isTableLetter hc)
  have hnot : ∀ l ∈ ['r', 'o', 'm', 'i', 'n'], foldsTo l c = false := by
    intro l hl
    by_contra h
    have hlow := toLower_of_foldsTo hascii (by simpa using h)
    have hother : ['r', 'o', 'm', 'i', 'n'].all (fun l => !(l == 'f' || l == 'j')) =
        true := by decide
    have hl := List.all_eq_true.1 hother l hl
    rw [isTableLetter, hlow] at hc
    rw [hc] at hl
    exact absurd hl (by simp)
  have hr := hnot 'r' (by decide)
  have ho := hnot 'o' (by decide)
  have hm := hnot 'm' (by decide)
  have hi := hnot 'i' (by decide)
  have hn := hnot 'n' (by decide)
  rcases w with _ | ⟨a, _ | ⟨b, _ | ⟨d, _ | ⟨e, w⟩⟩⟩⟩
  · exact absurd rfl hne
  · simp [tableWordAhead, foldsToWord, hr, ho]
  · simp [tableWordAhead, foldsToWord, ho, hi]
  · simp [tableWordAhead, foldsToWord, hm, hn]
  · exact absurd hw (by simp)

/-- A gap has a reference in it or not, whatever the names behind it. -/
theorem isSome_tableAt_congr {t t' gap : Str} (h : SameStart t t') (hgap : gap ≠ []) :
    (tableAt (gap ++ t)).isSome = (tableAt (gap ++ t')).isSome := by
  rw [isSome_tableAt, isSome_tableAt]
  by_cases hlength : 4 ≤ gap.length
  · have hend := h.sameEnd (gap.drop 4)
    rw [tableWordAhead, tableWordAhead, List.take_append_of_le_length hlength,
      List.take_append_of_le_length hlength, List.drop_append_of_le_length hlength,
      List.drop_append_of_le_length hlength, hend.space, hend.behind]
  · cases t with
    | nil =>
      have ht' : t' = [] := List.head?_eq_none_iff.1 h.head.symm
      rw [ht']
    | cons c t =>
      obtain ⟨t1, rfl⟩ : ∃ t1, t' = c :: t1 := List.head?_eq_some_iff.1 h.head.symm
      have hletter := h.letter c rfl
      rw [tableWordAhead_short hgap (by omega) hletter, tableWordAhead_short hgap
        (by omega) hletter]
      rfl

theorem ReadsFit.renamed {ps qs : List (TableRead × Str)} (hps : ReadsFit ps)
    (h : List.Forall₂ Renamed ps qs) : ReadsFit qs := by
  induction h with
  | nil => exact .nil
  | @cons p q ps qs hpq hrest ih =>
    obtain ⟨x, hx, rfl⟩ := hpq
    cases hps with
    | @cons r gap _ valid ends rest =>
      have hends : (r.rename x).EndsAt (gap ++ readsText ps) := ⟨ends.nameEnd, ends.aliasEnd⟩
      exact .cons (valid.rename hx) (hends.congr ((sameStart_renamed rest hrest).sameEnd gap))
        (ih rest)

theorem ReadsFit.renamed_refl {ps : List (TableRead × Str)} (hps : ReadsFit ps) :
    List.Forall₂ Renamed ps ps := by
  induction hps with
  | nil => exact .nil
  | cons valid ends rest ih => exact .cons ⟨_, valid.name, rfl⟩ ih

theorem map_tableName_readTables (ps : List (TableRead × Str)) (pos : Nat) :
    (readTables ps pos).map (·.tableName) = ps.map fun p => p.1.name := by
  induction ps generalizing pos with
  | nil => rfl
  | cons p ps ih => rw [readTables, List.map_cons, List.map_cons, ih]; rfl

theorem isWord_of_isNamePart {c : Char} (hc : isNamePart c = true) : isWord U c = true :=
  isWord_of_foldClass hc

theorem lastOf_of_ne_nil {w : Str} (hw : w ≠ []) (prev prev' : Option Char) :
    lastOf prev w = lastOf prev' w := by
  cases w with
  | nil => exact absurd rfl hw
  | cons c w => rfl

theorem lastOf_name {x : Str} (hx : IsName x) (prev : Option Char) :
    (lastOf prev x).any (isWord U) = true := by
  obtain ⟨y, c, rfl⟩ := (List.eq_nil_or_concat x).resolve_left hx.ne_nil
  rw [List.concat_eq_append, lastOf_append]
  exact isWord_of_isNamePart (hx.parts c (by simp))

/-- Behind a reference a word goes on or not, whatever the name. -/
theorem lastOf_text {r : TableRead} {x : Str} (hr : r.Valid) (hx : IsName x)
    (prev prev' : Option Char) :
    (lastOf prev r.text).any (isWord U) = (lastOf prev' (r.rename x).text).any (isWord U) := by
  have htext : (r.rename x).text = r.lead ++ (x ++ r.aliasText) := rfl
  rw [TableRead.text, htext, lastOf_append, lastOf_append, lastOf_append, lastOf_append]
  by_cases halias : r.aliasText = []
  · rw [halias, lastOf_nil, lastOf_nil, lastOf_name hr.name, lastOf_name hx]
  · rw [lastOf_of_ne_nil halias]

/-- Under other names the same references are found. -/
theorem Scanned.renamed {prev : Option Char} {gap : Str} {ps qs : List (TableRead × Str)}
    (h : Scanned U prev gap ps) (hqs : List.Forall₂ Renamed ps qs) {prev' : Option Char}
    (hprev : prev.any (isWord U) = prev'.any (isWord U)) : Scanned U prev' gap qs := by
  induction h generalizing qs prev' with
  | nil prev =>
    rw [List.forall₂_nil_left_iff.1 hqs]
    exact .nil prev'
  | @pass prev c gap ps here rest ih =>
    refine .pass ?_ (ih hqs rfl)
    rw [tableHere, ← hprev]
    rw [tableHere] at here
    split
    · rfl
    · rename_i hword
      rw [if_neg hword] at here
      have hcongr := isSome_tableAt_congr (sameStart_renamed rest.fits hqs) (List.cons_ne_nil c gap)
      rw [List.cons_append, here] at hcongr
      exact Option.not_isSome_iff_eq_none.1 (by rw [← List.cons_append, ← hcongr]; simp)
  | @found prev r gap ps start valid ends rest ih =>
    obtain ⟨q, qs, ⟨x, hx, rfl⟩, hrest, rfl⟩ := List.forall₂_cons_left_iff.1 hqs
    have hfits := (ReadsFit.cons valid ends rest.fits).renamed hqs
    cases hfits with
    | cons valid' ends' _ =>
      exact .found (hprev ▸ start) valid' ends' (ih hrest (lastOf_text valid hx _ _))

/-! ## Texts around the references -/

theorem tableHere_eq_none_iff {pos : Nat} {prev : Option Char} {s : Str} :
    (tablePattern U).matchAt ⟨pos, prev, s⟩ = none ↔ tableHere U prev s = none := by
  rw [matchAt_table, Option.map_eq_none_iff]

/-- A scan goes over a text without table words, if no word goes over its end. -/
theorem Scanned.of_noWord {w gap : Str} {ps : List (TableRead × Str)} {prev : Option Char}
    (hw : NoWord U (isWordOf tableWords) w)
    (hend : ∀ a ∈ w.getLast?, ∀ b ∈ (gap ++ readsText ps).head?,
      isWord U a = false ∨ isWord U b = false)
    (hrest : Scanned U (lastOf prev w) gap ps) : Scanned U prev (w ++ gap) ps := by
  have hnone := tablePattern_starts.matchAt_none hw hend 0 prev
  have hpass : ∀ u c v, w = u ++ c :: v →
      tableHere U (lastOf prev u) (c :: ((v ++ gap) ++ readsText ps)) = none := fun u c v hu => by
    rw [List.append_assoc]
    exact tableHere_eq_none_iff.1 (hnone u c v hu)
  clear hnone hw hend
  induction w generalizing prev with
  | nil => exact hrest
  | cons c w ih =>
    refine .pass (hpass [] c w rfl) (ih hrest fun u d v hu => ?_)
    exact hpass (c :: u) d v (by rw [hu]; rfl)

/-- A text that ends every reference in front of it. -/
structure Closing (U : UnicodeData) (q : Str) : Prop where
  noTableWord : NoWord U (isWordOf tableWords) q
  namePart : q.head?.any isNamePart = false
  space : q.head?.any isSpace = false

theorem Closing.sameEnd {q : Str} (hq : Closing U q) (t : Str) : SameEnd t (t ++ q) := by
  have hbase : SameEnd [] q := by
    refine ⟨hq.namePart.symm, hq.space.symm, ?_⟩
    have hname : nameAhead q = false := by
      cases q with
      | nil => rfl
      | cons c q =>
        by_contra h
        have hpart := isNamePart_of_start (c := c) (by simpa [nameAhead] using h)
        exact absurd (hq.namePart.symm.trans hpart) (by simp)
    have hdrop : q.dropWhile isSpace = q := by
      cases q with
      | nil => rfl
      | cons c q => exact List.dropWhile_cons_of_neg (by simpa using hq.space)
    rw [hdrop, hname]
    rfl
  have happend := hbase.append rfl t
  rwa [List.append_nil] at happend

/-- The pattern does not look into a closing text. -/
theorem Closing.isSome_tableAt {q : Str} (hq : Closing U q) (w : Str) :
    (tableAt (w ++ q)).isSome = (tableAt w).isSome := by
  rw [SqlGatekeeper.isSome_tableAt, SqlGatekeeper.isSome_tableAt]
  by_cases hlength : 4 ≤ w.length
  · have hend := hq.sameEnd (w.drop 4)
    rw [tableWordAhead, tableWordAhead, List.take_append_of_le_length hlength,
      List.drop_append_of_le_length hlength, hend.space, hend.behind]
  · have hshort : ∀ {l : Str}, l.length = 4 → foldsToWord l (w.take 4) = false := fun hl => by
      by_contra h
      have hlen := length_of_foldsToWord (by simpa using h)
      rw [List.length_take] at hlen
      omega
    have hword : tableWordAhead w = false := by
      rw [tableWordAhead, hshort (l := "from") rfl, hshort (l := "join") rfl]
      rfl
    cases q with
    | nil => rw [List.append_nil]
    | cons c q =>
      have hmem : c ∈ (w ++ c :: q).take 4 := by
        obtain ⟨k, hk⟩ : ∃ k, 4 - w.length = k + 1 := ⟨3 - w.length, by omega⟩
        rw [List.take_append, hk, List.take_succ_cons]
        exact List.mem_append_right _ List.mem_cons_self
      have hnot : ∀ {l : Str}, l.all Char.isAlpha = true →
          foldsToWord l ((w ++ c :: q).take 4) = false := fun hl => by
        by_contra h
        have hpart := foldClass_of_foldsToWord hl (by simpa using h) c hmem
        exact absurd (hq.namePart.symm.trans hpart) (by simp)
      have hword' : tableWordAhead (w ++ c :: q) = false := by
        rw [tableWordAhead, hnot (l := "from") (by decide), hnot (l := "join") (by decide)]
        rfl
      rw [hword, hword']
      rfl

/-- In front of a closing text the same references are found. -/
theorem Scanned.append_closing {q : Str} (hq : Closing U q) {prev : Option Char} {gap : Str}
    {ps : List (TableRead × Str)} (h : Scanned U prev gap ps) :
    ∃ gap' ps', gap' ++ readsText ps' = (gap ++ readsText ps) ++ q ∧ Scanned U prev gap' ps' ∧
      ps'.map (·.1) = ps.map (·.1) := by
  induction h with
  | nil prev =>
    have hscan : Scanned U prev (q ++ []) [] :=
      Scanned.of_noWord hq.noTableWord (by simp [readsText]) (.nil _)
    exact ⟨q ++ [], [], by simp [readsText], hscan, rfl⟩
  | @pass prev c gap ps here rest ih =>
    obtain ⟨gap', ps', htext, hscan, hreads⟩ := ih
    refine ⟨c :: gap', ps', by rw [List.cons_append, htext]; rfl, .pass ?_ hscan, hreads⟩
    have hsome := hq.isSome_tableAt (c :: (gap ++ readsText ps))
    rw [List.cons_append] at hsome
    rw [htext]
    rw [tableHere] at here ⊢
    split
    · rfl
    · rename_i hword
      rw [if_neg hword] at here
      rw [here] at hsome
      exact Option.not_isSome_iff_eq_none.1 (by rw [hsome]; simp)
  | @found prev r gap ps start valid ends rest ih =>
    obtain ⟨gap', ps', htext, hscan, hreads⟩ := ih
    have hends : r.EndsAt (gap' ++ readsText ps') := by
      rw [htext]
      exact ends.congr (hq.sameEnd _)
    refine ⟨[], (r, gap') :: ps', ?_, .found start valid hends hscan, by simp [hreads]⟩
    rw [List.nil_append, readsText, htext, List.nil_append, readsText]
    exact (List.append_assoc _ _ _).symm

/-! ## The first limit -/

theorem inert_of_letter {t : Str} (ht : ∀ c ∈ t.head?, isTableLetter c = true) : Inert U t := by
  cases t with
  | nil => exact inert_nil
  | cons c t =>
    have hletter := ht c rfl
    have halpha := isAlpha_of_isTableLetter hletter
    have hascii := toNat_lt_of_isAlpha halpha
    have hnumber : isDecimal U c = false := by
      rw [isDecimal, U.decimal_ascii c hascii, if_neg]
      · rfl
      · intro hdigit
        have h1 := isDigit_iff.1 hdigit
        have h2 := isAlpha_iff.1 halpha
        omega
    have hspace : isSpace c = false :=
      isSpace_eq_false_of_isAlphanum (by rw [Char.isAlphanum, halpha, Bool.true_or])
    refine ⟨fun d hd => ?_, hnumber, fun d hd => ?_⟩
    · obtain rfl : c = d := Option.some.inj hd
      refine List.all_eq_true.2 fun l hl => ?_
      by_contra h
      have hlow := toLower_of_foldsTo hascii (l := l) (by simpa using h)
      have hother : ("limit" : Str).all (fun l => !(l == 'f' || l == 'j')) = true := by decide
      have hl := List.all_eq_true.1 hother l hl
      rw [isTableLetter, hlow] at hletter
      rw [hletter] at hl
      exact absurd hl (by simp)
    · rw [List.dropWhile_cons_of_neg (by simp [hspace])] at hd
      obtain rfl : c = d := Option.some.inj hd
      refine ⟨hnumber, ?_⟩
      rintro rfl
      exact absurd halpha (by decide)

/-- A text where no limit starts is passed over. -/
theorem firstLimit_skip {w t : Str} {prev : Option Char}
    (h : ∀ u c v, w = u ++ c :: v → limitHere U (lastOf prev u) (c :: (v ++ t)) = none) :
    firstLimit U prev (w ++ t) = firstLimit U (lastOf prev w) t := by
  induction w generalizing prev with
  | nil => rfl
  | cons c w ih =>
    have hhere : limitHere U prev (c :: (w ++ t)) = none := h [] c w rfl
    rw [List.cons_append, firstLimit, hhere, Option.none_or, ih]
    · rfl
    · intro u d v hw
      exact h (c :: u) d v (by rw [hw]; rfl)

/-- A limit starts with its first letter. -/
theorem limitHere_of_not_l {c : Char} (hc : foldsTo 'l' c = false) (prev : Option Char) (t : Str) :
    limitHere U prev (c :: t) = none := by
  have hword : foldsToWord "limit" ((c :: t).take 5) = false := by
    rw [List.take_succ_cons, show ("limit" : Str) = 'l' :: ['i', 'm', 'i', 't'] from rfl,
      foldsToWord, hc, Bool.false_and]
  rw [limitHere, limitNumber, hword]
  split <;> rfl

/-- A name that is not `limit` is no limit. -/
theorem limitNumber_name {x t : Str} (hx : IsName x) (ht : t.head?.any isNamePart = false)
    (hnot : foldsToWord "limit" x = false) : limitNumber U (x ++ t) = none := by
  rw [limitNumber, if_neg]
  intro h
  rw [Bool.and_eq_true] at h
  have hend : ((x ++ t).drop 5).head?.any isNamePart = false := by
    obtain ⟨c, hc, hspace⟩ := (Option.any_eq_true _ _).1 h.2
    rw [hc, Option.any_some]
    by_contra hpart
    rw [isSpace_of_isNamePart (by simpa using hpart)] at hspace
    exact absurd hspace (by simp)
  have hparts := foldClass_of_foldsToWord (l := "limit") (by decide) h.1
  have htake := (span_of_all hparts hend).1
  rw [List.take_append_drop, (span_of_all hx.parts ht).1] at htake
  rw [← htake, hnot] at h
  exact absurd h.1 (by simp)

/-- No letter of `from` and `join` is the first one of `limit`. -/
theorem not_l_of_keyword {w : Str} (hlength : w.length = 4) (hw : tableWordAhead w = true) :
    ∀ c ∈ w, foldsTo 'l' c = false := by
  intro c hc
  by_contra h
  have hl : c.toLower = 'l' := toLower_of_foldsTo_plain (by decide) (by simpa using h)
  have hascii : c.toNat < 128 := toNat_lt_of_isAlpha (by rw [← isAlpha_toLower, hl]; decide)
  have hletters : ∃ d ∈ ("fromjoin" : Str), foldsTo d c = true := by
    rw [tableWordAhead, List.take_of_length_le hlength.le, Bool.or_eq_true] at hw
    rcases hw with hw | hw
    · obtain ⟨d, hd, hf⟩ := exists_letter_of_foldsToWord hw c hc
      exact ⟨d, List.mem_append_left ("join" : Str) hd, hf⟩
    · obtain ⟨d, hd, hf⟩ := exists_letter_of_foldsToWord hw c hc
      exact ⟨d, List.mem_append_right ("from" : Str) hd, hf⟩
  obtain ⟨d, hd, hf⟩ := hletters
  rw [← toLower_of_foldsTo hascii hf, hl] at hd
  exact absurd hd (by decide)

/-- No limit starts in a reference up to its alias. -/
theorem firstLimit_reference {r : TableRead} (hr : r.Valid) {t : Str}
    (hend : (r.aliasText ++ t).head?.any isNamePart = false)
    (hnot : foldsToWord "limit" r.name = false) (prev : Option Char) :
    firstLimit U prev (r.text ++ t) =
      firstLimit U (lastOf prev (r.lead ++ r.name)) (r.aliasText ++ t) := by
  have hlead : firstLimit U prev (r.lead ++ (r.name ++ (r.aliasText ++ t))) =
      firstLimit U (lastOf prev r.lead) (r.name ++ (r.aliasText ++ t)) := by
    refine firstLimit_skip fun u c v hw => limitHere_of_not_l ?_ _ _
    have hc : c ∈ r.keyword ++ r.spaces := by
      rw [← TableRead.lead, hw]
      exact List.mem_append_right _ List.mem_cons_self
    rcases List.mem_append.1 hc with hc | hc
    · exact not_l_of_keyword hr.length hr.keyword c hc
    · by_contra h
      have hl : c.toLower = 'l' := toLower_of_foldsTo_plain (by decide) (by simpa using h)
      have halpha : c.isAlpha = true := by rw [← isAlpha_toLower, hl]; decide
      have hspace := hr.spaces.all c hc
      rw [isSpace_eq_false_of_isAlphanum (by rw [Char.isAlphanum, halpha, Bool.true_or])] at hspace
      exact absurd hspace (by simp)
  have hname : firstLimit U (lastOf prev r.lead) (r.name ++ (r.aliasText ++ t)) =
      firstLimit U (lastOf (lastOf prev r.lead) r.name) (r.aliasText ++ t) := by
    refine firstLimit_skip fun u c v hw => ?_
    rcases List.eq_nil_or_concat u with rfl | ⟨u, d, rfl⟩
    · have hnone := limitNumber_name (U := U) hr.name hend hnot
      rw [hw] at hnone
      rw [limitHere]
      split
      · rfl
      · exact hnone
    · have hword : (lastOf (lastOf prev r.lead) (u.concat d)).any (isWord U) = true := by
        rw [List.concat_eq_append, lastOf_append]
        exact isWord_of_isNamePart (hr.name.parts d (by rw [hw]; simp))
      rw [limitHere, if_pos hword]
  rw [TableRead.text, List.append_assoc, List.append_assoc, hlead, hname, ← lastOf_append]

/-- The first limit of a text is the same if it is so from a reference on. -/
theorem firstLimit_congr {t t' : Str} (ht : SameStart t t')
    (h : ∀ prev prev' : Option Char, prev.any (isWord U) = prev'.any (isWord U) →
      firstLimit U prev t = firstLimit U prev' t') (w : Str) {prev prev' : Option Char}
    (hprev : prev.any (isWord U) = prev'.any (isWord U)) :
    firstLimit U prev (w ++ t) = firstLimit U prev' (w ++ t') := by
  induction w generalizing prev prev' with
  | nil => exact h prev prev' hprev
  | cons c w ih =>
    have hnumber := limitNumber_congr (inert_of_letter (U := U) ht.letter)
      (inert_of_letter (ht.head ▸ ht.letter)) (by rw [ht.head]) (c :: w)
    rw [List.cons_append, List.cons_append] at hnumber ⊢
    rw [firstLimit, firstLimit, limitHere, limitHere, hprev, hnumber, ih rfl]

/-- Under other names than `limit` the first limit stays the same. -/
theorem firstLimit_renamed {ps qs : List (TableRead × Str)} (hps : ReadsFit ps)
    (h : List.Forall₂ Renamed ps qs) (hnot : ∀ p ∈ ps, foldsToWord "limit" p.1.name = false)
    (hnot' : ∀ q ∈ qs, foldsToWord "limit" q.1.name = false) (gap : Str)
    {prev prev' : Option Char}
    (hprev : prev.any (isWord U) = prev'.any (isWord U)) :
    firstLimit U prev (gap ++ readsText ps) = firstLimit U prev' (gap ++ readsText qs) := by
  induction h generalizing gap prev prev' with
  | nil =>
    have hstart : SameStart (readsText []) (readsText []) := sameStart_renamed hps .nil
    exact firstLimit_congr hstart (fun _ _ _ => rfl) gap hprev
  | @cons p q ps qs hpq hrest ih =>
    refine firstLimit_congr (sameStart_renamed hps (.cons hpq hrest))
      (fun prev prev' hprev => ?_) gap
      hprev
    have hqs := hps.renamed (.cons hpq hrest)
    obtain ⟨x, hx, rfl⟩ := hpq
    cases hps with
    | @cons r gap' _ valid ends rest =>
      cases hqs with
      | cons valid' ends' _ =>
        have hlast : ∀ {y : Str} (p : Option Char), IsName y →
            (lastOf p (r.lead ++ y)).any (isWord U) = true := fun p hy => by
          rw [lastOf_append]
          exact lastOf_name hy _
        have hih := ih rest (fun p hp => hnot p (List.mem_cons_of_mem _ hp))
          (fun q hq => hnot' q (List.mem_cons_of_mem _ hq)) (r.aliasText ++ gap')
          (((hlast prev valid.name).trans (hlast prev' hx).symm))
        rw [List.append_assoc, List.append_assoc] at hih
        have hleft := firstLimit_reference (U := U) valid ends.nameEnd
          (hnot _ List.mem_cons_self) prev
        have hright := firstLimit_reference (U := U) valid' ends'.nameEnd
          (hnot' _ List.mem_cons_self)
          prev'
        exact hleft.trans (hih.trans hright.symm)

end SqlGatekeeper
