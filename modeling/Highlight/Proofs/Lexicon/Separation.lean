import Highlight.Proofs.Lexicon.Words

/-!
# Separators

A character that belongs to no word, no mark and no number separates the lexemes in front of it
from what follows. Each part of a step meets it in one of two ways (`Step.Meets`): the step stays
in front of it whatever follows, or it takes the whole text with the separator, and then the span
of the text grows. So if a separator behind a text adds nothing to its spans, the text is scanned
in front of it as if nothing followed, and what follows as if nothing stood before it
(`scan_append_cons`).
-/

namespace Highlight

section Closing

variable {closing : Text} {escape : Option Char} {sep : Char}

theorem findClosing_zero (closing : Text) (escape : Option Char) (c : Char) (t : Text) :
    findClosing closing escape (some 0) (c :: t) =
      if (Text.after? (c :: t) closing).isSome then some closing.length else none := by
  cases t <;> simp [findClosing]

theorem findClosing_zero_append_cons (hc : sep ∉ closing) (hne : closing ≠ []) (t u : Text) :
    findClosing closing escape (some 0) (t ++ sep :: u) =
      findClosing closing escape (some 0) t := by
  cases t with
  | nil =>
    obtain ⟨m, ms, rfl⟩ := List.exists_cons_of_ne_nil hne
    have hafter := isSome_after?_append_cons hc [] u
    rw [List.nil_append] at hafter ⊢
    rw [findClosing_zero, hafter]
    rfl
  | cons c t =>
    rw [List.cons_append, findClosing_zero, findClosing_zero, ← List.cons_append,
      isSome_after?_append_cons hc]

theorem findClosing_one_append_cons (hc : sep ∉ closing) (hne : closing ≠ []) {t : Text}
    (ht : t ≠ []) (hlast : ∀ c ∈ t.getLast?, escape ≠ some c) (u : Text) :
    findClosing closing escape (some 1) (t ++ sep :: u) =
      findClosing closing escape (some 1) t := by
  have hzero (t u : Text) : findClosing closing escape (some 0) (t ++ sep :: u) =
      findClosing closing escape (some 0) t := findClosing_zero_append_cons hc hne t u
  obtain ⟨c, t, rfl⟩ := List.exists_cons_of_ne_nil ht
  have hafter := isSome_after?_append_cons hc (c :: t) u
  cases t with
  | nil =>
    have hescape : escape ≠ some c := hlast c rfl
    have hrest : findClosing closing escape (some 0) (sep :: u) = none := hzero [] u
    simp only [List.cons_append, List.nil_append] at hafter ⊢
    simp [findClosing, hafter, hescape, hrest]
  | cons d t =>
    simp only [List.cons_append] at hafter hzero ⊢
    have hskip := hzero t u
    have hnext := hzero (d :: t) u
    rw [List.cons_append] at hnext
    simp [findClosing, hafter, hskip, hnext]

end Closing

section Words

variable {sep : Char}

theorem wordRun_append_cons (hsep : ¬ isWordChar sep) (t u : Text) :
    wordRun (t ++ sep :: u) = wordRun t := by
  obtain ⟨rest, ht, hrun⟩ := exists_isRun t
  have hends : ¬ (rest ++ sep :: u).head?.any isWordChar := by
    cases rest with
    | nil => exact hsep
    | cons c rest => exact hrun.ends
  have hlong : wordRun (wordRun t ++ (rest ++ sep :: u)) = wordRun t :=
    IsRun.wordRun_eq ⟨hrun.all, hends⟩
  rwa [← List.append_assoc, ← ht] at hlong

theorem leadingWord_append_cons (hsep : ¬ isWordChar sep) (t u : Text) :
    leadingWord (t ++ sep :: u) = leadingWord t := by
  unfold leadingWord
  rw [wordRun_append_cons hsep]
  cases t with
  | nil =>
    have hstart : ¬ isWordStart sep := mt isWordChar_of_isWordStart hsep
    simp [hstart]
  | cons c t => rfl

theorem length_wordRun_le (t : Text) : (wordRun t).length ≤ t.length :=
  (List.takeWhile_sublist isWordChar).length_le

theorem length_leadingWord_le (t : Text) : (leadingWord t).length ≤ t.length := by
  unfold leadingWord
  split
  · exact length_wordRun_le t
  · exact Nat.zero_le _

end Words

namespace Step

/-- How a step from a text meets a separator behind it. Either it stays in front of the separator,
whatever follows, or it runs on over it. -/
inductive Meets (sep : Char) (f : Text → Option Step) (t : Text) : Prop
  | stays (hle : ∀ s, f t = some s → s.length ≤ t.length) (h : ∀ u, f (t ++ sep :: u) = f t)
  | runsOn {v : Verdict} {c : Category} (hv : v.category? = some c)
      (hshort : f t = some ⟨t.length, v⟩) (hlong : f (t ++ [sep]) = some ⟨t.length + 1, v⟩)

namespace Meets

variable {sep : Char} {f g : Text → Option Step} {t : Text}

theorem of_none (h : ∀ t, f t = none) : Meets sep f t :=
  .stays (by simp [h]) (by simp [h])

theorem or (hf : Meets sep f t) (hg : Meets sep g t) :
    Meets sep (fun t => (f t).or (g t)) t := by
  cases hf with
  | runsOn hv hshort hlong => exact .runsOn hv (by simp [hshort]) (by simp [hlong])
  | stays hle h =>
    cases hft : f t with
    | some s =>
      rw [hft] at h
      exact .stays (by simpa [hft] using hle) (by simp [h, hft])
    | none =>
      rw [hft] at h
      cases hg with
      | runsOn hv hshort hlong =>
        exact .runsOn hv (by simp [hft, hshort]) (by simp [h, hlong])
      | stays hle' h' => exact .stays (by simpa [hft] using hle') (by simp [h, hft, h'])

theorem ite {b : Text → Bool} (hb : ∀ u, b (t ++ sep :: u) = b t) (hf : b t → Meets sep f t) :
    Meets sep (fun t => if b t then f t else none) t := by
  by_cases h : b t
  · cases hf h with
    | stays hle hlong => exact .stays (by simpa [h] using hle) (by simp [hb, h, hlong])
    | runsOn hv hshort hlong => exact .runsOn hv (by simp [h, hshort]) (by simp [hb, h, hlong])
  · exact .stays (by simp [h]) (by simp [hb, h])

theorem findSome? {f : Rule → Text → Option Step} {rules : List Rule}
    (h : ∀ r ∈ rules, Meets sep (f r) t) :
    Meets sep (fun t => rules.findSome? fun r => f r t) t := by
  induction rules with
  | nil => exact of_none fun _ => rfl
  | cons r rules ih =>
    obtain ⟨hr, hrules⟩ := List.forall_mem_cons.1 h
    have hcons : (fun t => (r :: rules).findSome? fun r => f r t) =
        fun t => (f r t).or (rules.findSome? fun r => f r t) := by
      funext t
      rw [List.findSome?_cons]
      cases f r t <;> rfl
    rw [hcons]
    exact hr.or (ih hrules)

end Meets

end Step

/-- A separator is no part of a delimited piece's marks, and does not stand within a bounded one:
between the marks of such a piece there is one unit, and the characters that could glue the
separator to the text in front of it are named. -/
structure Delimited.SeparatedBy (sep : Char) (glue : Char → Bool) (d : Delimited) : Prop where
  opening : sep ∉ d.opening
  closing : sep ∉ d.closing
  closing_ne_nil : d.closing ≠ []
  escape : d.escape ≠ some sep
  bounded : d.limit = none ∨
    d.limit = some 1 ∧ (∀ c ∈ d.opening.getLast?, glue c) ∧ ∀ c ∈ d.escape, glue c

def Rule.SeparatedBy (sep : Char) (glue : Char → Bool) : Rule → Prop
  | .toLineEnd mark _ => sep ∉ mark
  | .region r => sep ∉ r.opening ∧ sep ∉ r.closing ∧ r.escape ≠ some sep
  | .delimited d => d.SeparatedBy sep glue
  | .numbers m => ∀ t u, m.reach? (t ++ sep :: u) = m.reach? t
  | .sigilWord _ _ => True
  | .markedWord mark _ => mark ≠ sep

/-- No rule reaches over a separator, unless it takes the rest of the line or the text in front of
the separator ends in a character that glues. -/
structure Lexicon.SeparatedBy (sep : Char) (glue : Char → Bool) (lexicon : Lexicon) : Prop where
  not_isWordChar : ¬ isWordChar sep
  rules : ∀ r ∈ lexicon.rules, r.SeparatedBy sep glue

namespace Step

variable {sep : Char} {glue : Char → Bool} {rules : List Rule} {t : Text}

theorem meets_toLineEnd? (h : ∀ r ∈ rules, r.SeparatedBy sep glue) :
    Meets sep (toLineEnd? rules) t := by
  refine Meets.findSome? fun r hr => ?_
  cases r with
  | toLineEnd mark c =>
    have hmark (u : Text) := isSome_after?_append_cons (h _ hr) t u
    by_cases ht : (t.after? mark).isSome
    · refine .runsOn (v := .span c) rfl (if_pos ht) ?_
      simp [hmark, ht]
    · exact .stays (by simp [ht]) (by simp [hmark, ht])
  | _ => exact .of_none fun _ => rfl

def between? (opening closing : Text) (escape : Option Char) (closed unclosed : Verdict)
    (t : Text) : Option Step :=
  match t.after? opening with
  | none => none
  | some rest =>
    match findClosing closing escape none rest with
    | some n => some ⟨opening.length + n, closed⟩
    | none => some ⟨t.length, unclosed⟩

theorem meets_between? {opening closing : Text} {escape : Option Char} {closed unclosed : Verdict}
    {c : Category} (hopening : sep ∉ opening) (hclosing : sep ∉ closing) (hne : closing ≠ [])
    (hescape : escape ≠ some sep) (hv : unclosed.category? = some c) :
    Meets sep (between? opening closing escape closed unclosed) t := by
  have hlong (u : Text) := after?_append_cons hopening t u
  cases hrest : t.after? opening with
  | none => exact .stays (by simp [between?, hrest]) (by simp [between?, hlong, hrest])
  | some rest =>
    have hfind (u : Text) := findClosing_append_cons hclosing hne hescape rest u
    cases hn : findClosing closing escape none rest with
    | some n =>
      have hlength : t.length = opening.length + rest.length := by
        rw [Text.after?_eq_some_iff.1 hrest, List.length_append]
      have hle := findClosing_le_length hn
      refine .stays ?_ (by simp [between?, hlong, hrest, hfind, hn])
      simp only [between?, hrest, hn, Option.some.injEq]
      rintro s rfl
      dsimp only
      omega
    | none =>
      refine .runsOn hv (by simp [between?, hrest, hn]) ?_
      simp [between?, hlong, hrest, hfind, hn, findClosing]

theorem meets_region? (h : ∀ r ∈ rules, r.SeparatedBy sep glue) :
    Meets sep (region? rules) t := by
  refine Meets.findSome? fun r hr => ?_
  cases r with
  | region r =>
    obtain ⟨hopening, hclosing, hescape⟩ := h _ hr
    have hbetween : Meets sep (between? r.opening r.closing r.escape (.span r.category)
        (.unclosed r.category r.id)) t :=
      meets_between? hopening hclosing r.closing_ne_nil hescape rfl
    exact hbetween
  | _ => exact .of_none fun _ => rfl

theorem le_length_of_length? {d : Delimited} {n : Nat} (h : d.length? t = some n) :
    n ≤ t.length := by
  unfold Delimited.length? at h
  split at h
  · cases h
  · next rest hrest =>
    split at h
    · next m hm =>
      cases h
      have hle := findClosing_le_length hm
      rw [Text.after?_eq_some_iff.1 hrest, List.length_append]
      omega
    · split at h
      · cases h
      · cases h
        exact Nat.le_refl _

theorem meets_bounded {d : Delimited} (hd : d.SeparatedBy sep glue) (hlimit : d.limit = some 1)
    (hopening : ∀ c ∈ d.opening.getLast?, glue c) (hescape : ∀ c ∈ d.escape, glue c)
    (ht : t ≠ []) (hlast : ∀ c ∈ t.getLast?, ¬ glue c) :
    Meets sep (fun t => (d.length? t).map fun n => ⟨n, .span d.category⟩) t := by
  have hlong (u : Text) := after?_append_cons hd.opening t u
  cases hrest : t.after? d.opening with
  | none =>
    exact .stays (by simp [Delimited.length?, hrest]) (by simp [Delimited.length?, hlong, hrest])
  | some rest =>
    have htext := Text.after?_eq_some_iff.1 hrest
    have hne : rest ≠ [] := by
      rintro rfl
      rw [List.append_nil] at htext
      have hc := List.getLast?_eq_some_getLast ht
      exact hlast _ hc (hopening _ (htext ▸ hc))
    have hunit : ∀ c ∈ rest.getLast?, d.escape ≠ some c := by
      intro c hc he
      rw [htext, Text.getLast?_append_of_ne_nil hne] at hlast
      exact hlast c hc (hescape c he)
    have hfind (u : Text) : d.findClose (rest ++ sep :: u) = d.findClose rest := by
      rw [Delimited.findClose, Delimited.findClose, hlimit]
      exact findClosing_one_append_cons hd.closing hd.closing_ne_nil hne hunit u
    have hbounded : d.isBounded := by rw [Delimited.isBounded, hlimit]; rfl
    refine .stays ?_ ?_
    · intro s hs
      obtain ⟨n, hn, rfl⟩ := Option.map_eq_some_iff.1 hs
      exact le_length_of_length? hn
    · intro u
      simp only [Delimited.length?, hlong, hrest, hfind, Option.map_some, hbounded, if_true]

theorem meets_delimited? (h : ∀ r ∈ rules, r.SeparatedBy sep glue) (ht : t ≠ [])
    (hlast : ∀ c ∈ t.getLast?, ¬ glue c) : Meets sep (delimited? rules) t := by
  refine Meets.findSome? fun r hr => ?_
  cases r with
  | delimited d =>
    have hd : d.SeparatedBy sep glue := h _ hr
    rcases hd.bounded with hlimit | ⟨hlimit, hopening, hescape⟩
    · have hbetween : (fun t => (d.length? t).map fun n => (⟨n, .span d.category⟩ : Step)) =
          between? d.opening d.closing d.escape (.span d.category) (.span d.category) := by
        funext t
        rw [Delimited.length?, between?]
        cases t.after? d.opening with
        | none => rfl
        | some rest =>
          have hbounded : d.isBounded = false := by rw [Delimited.isBounded, hlimit]; rfl
          simp only [Delimited.findClose, hlimit, hbounded]
          cases findClosing d.closing d.escape none rest <;> rfl
      rw [hbetween]
      exact meets_between? hd.opening hd.closing hd.closing_ne_nil hd.escape rfl
    · exact meets_bounded hd hlimit hopening hescape ht hlast
  | _ => exact .of_none fun _ => rfl

theorem meets_number? (hsep : ¬ isWordChar sep) (h : ∀ r ∈ rules, r.SeparatedBy sep glue)
    (previous : Option Char) (ht : t ≠ []) : Meets sep (number? rules previous) t := by
  refine Meets.ite ?_ fun _ => Meets.findSome? fun r hr => ?_
  · intro u
    rw [Text.head?_append_of_ne_nil ht]
  · cases r with
    | numbers m =>
      have hlong : ∀ t u, m.reach? (t ++ sep :: u) = m.reach? t := h _ hr
      cases hn : m.reach? t with
      | none => exact .stays (by simp [hn]) (by simp [hlong, hn])
      | some n =>
        have hle := (Matcher.reach?_bounds hn).2
        have hglued (u : Text) : wordRun ((t ++ sep :: u).drop n) = wordRun (t.drop n) := by
          rw [List.drop_append_of_le_length hle, wordRun_append_cons hsep]
        refine .stays ?_ (by simp [hlong, hn, hglued])
        intro s hs
        obtain ⟨m, hm, rfl⟩ := Option.map_eq_some_iff.1 hs
        cases hn.symm.trans hm
        have hrun := length_wordRun_le (t.drop n)
        rw [List.length_drop] at hrun
        dsimp only
        split
        · exact hle
        · dsimp only
          omega
    | _ => exact .of_none fun _ => rfl

theorem meets_sigilWord? (hsep : ¬ isWordChar sep) (ht : t ≠ []) :
    Meets sep (sigilWord? rules) t := by
  obtain ⟨d, t, rfl⟩ := List.exists_cons_of_ne_nil ht
  refine Meets.findSome? fun r hr => ?_
  cases r with
  | sigilWord sigil c =>
    by_cases hd : sigil = d
    · have hword (u : Text) := leadingWord_append_cons hsep t u
      by_cases hnil : leadingWord t = []
      · exact .stays (by simp [Text.after?, hd, hnil]) (by simp [Text.after?, hd, hword, hnil])
      · refine .stays ?_ (by simp [Text.after?, hd, hword, hnil])
        have hle := length_leadingWord_le t
        simp only [Text.after?, hd, if_true, if_neg hnil, Option.some.injEq, List.length_cons]
        rintro s rfl
        dsimp only
        omega
    · exact .stays (by simp [Text.after?, hd]) (by simp [Text.after?, hd])
  | _ => exact .of_none fun _ => rfl

theorem markedCategory?_append_cons (h : ∀ r ∈ rules, r.SeparatedBy sep glue) (t u : Text) :
    markedCategory? rules (t ++ sep :: u) = markedCategory? rules t := by
  cases t with
  | nil =>
    have hnone (rest : Text) (hrest : ∀ r ∈ rules, ∀ mark c, r = .markedWord mark c →
        rest.head? ≠ some mark) : markedCategory? rules rest = none := by
      refine List.findSome?_eq_none_iff.2 fun r hr => ?_
      cases r with
      | markedWord mark c => exact if_neg (hrest _ hr mark c rfl)
      | _ => rfl
    have hlong : markedCategory? rules (sep :: u) = none := by
      refine hnone _ ?_
      rintro _ hr mark c rfl hmark
      have hne : mark ≠ sep := h _ hr
      cases hmark
      exact hne rfl
    have hshort : markedCategory? rules [] = none := hnone _ (by simp)
    rw [List.nil_append, hlong, hshort]
  | cons c t => rfl

theorem meets_word? {lexicon : Lexicon} (h : lexicon.SeparatedBy sep glue) :
    Meets sep (word? lexicon) t := by
  have hword (u : Text) := leadingWord_append_cons h.not_isWordChar t u
  have hle := length_leadingWord_le t
  have hmark (u : Text) : markedCategory? lexicon.rules
      ((t ++ sep :: u).drop (leadingWord t).length) =
        markedCategory? lexicon.rules (t.drop (leadingWord t).length) := by
    rw [List.drop_append_of_le_length hle, markedCategory?_append_cons h.rules]
  refine .stays ?_ (by simp [word?, hword, hmark])
  intro s hs
  unfold word? at hs
  dsimp only at hs
  split at hs
  · cases hs
  · cases hs
    exact hle

theorem meets_other (hsep : ¬ isWordChar sep) (ht : t ≠ []) :
    Meets sep (fun t => some (other t)) t := by
  have hhead (u : Text) : (t ++ sep :: u).head? = t.head? := Text.head?_append_of_ne_nil ht _
  have hrun (u : Text) := wordRun_append_cons hsep t u
  refine .stays ?_ (by simp [other, hhead, hrun])
  rintro s hs
  cases hs
  unfold other
  split
  · exact length_wordRun_le t
  · exact List.length_pos_iff.2 ht

end Step

namespace Lexicon

variable {lexicon : Lexicon} {sep : Char} {glue : Char → Bool}

theorem meets_step (h : lexicon.SeparatedBy sep glue) (previous : Option Char) {t : Text}
    (ht : t ≠ []) (hlast : ∀ c ∈ t.getLast?, ¬ glue c) :
    Step.Meets sep (fun t => some (lexicon.step previous t)) t := by
  have hsep := h.not_isWordChar
  have hstep : (fun t => some (lexicon.step previous t)) = fun t =>
      (Step.toLineEnd? lexicon.rules t).or ((Step.region? lexicon.rules t).or
        ((Step.delimited? lexicon.rules t).or ((Step.number? lexicon.rules previous t).or
          ((Step.sigilWord? lexicon.rules t).or
            ((Step.word? lexicon t).or (some (Step.other t))))))) := by
    funext t
    simp only [step, ← Option.or_some, Option.or_assoc]
  rw [hstep]
  refine (Step.meets_toLineEnd? h.rules).or ?_
  refine (Step.meets_region? h.rules).or ?_
  refine (Step.meets_delimited? h.rules ht hlast).or ?_
  refine (Step.meets_number? hsep h.rules previous ht).or ?_
  refine (Step.meets_sigilWord? hsep ht).or ?_
  exact (Step.meets_word? h).or (Step.meets_other hsep ht)

theorem scan_of_ne_nil (previous : Option Char) {t : Text} (ht : t ≠ []) :
    lexicon.scan previous t =
      ⟨t.take (lexicon.step previous t).length, (lexicon.step previous t).verdict⟩ ::
        lexicon.scan (t.take (lexicon.step previous t).length).getLast?
          (t.drop (lexicon.step previous t).length) := by
  obtain ⟨c, t, rfl⟩ := List.exists_cons_of_ne_nil ht
  rw [scan]

theorem spansFrom_scan_of_whole {previous : Option Char} {t : Text} {v : Verdict} {c : Category}
    (ht : t ≠ []) (hstep : lexicon.step previous t = ⟨t.length, v⟩) (hv : v.category? = some c)
    (pos : Nat) :
    Lexeme.spansFrom pos (lexicon.scan previous t) = [⟨pos, pos + t.byteSize, c⟩] := by
  rw [scan_of_ne_nil previous ht, hstep]
  dsimp only
  rw [List.take_length, List.drop_length, scan, Lexeme.spansFrom_cons, Lexeme.span?, hv]
  rfl

theorem not_glue_drop {t : Text} (h : ∀ c ∈ t.getLast?, ¬ glue c) (n : Nat) :
    ∀ c ∈ (t.drop n).getLast?, ¬ glue c := by
  intro c hc
  rw [List.getLast?_drop] at hc
  split at hc
  · cases hc
  · exact h c hc

theorem step_of_not_isDigit {c : Char} (hc : ¬ c.isDigit) (previous : Option Char) (t : Text) :
    lexicon.step previous (c :: t) = lexicon.step none (c :: t) := by
  have hnumber (previous : Option Char) :
      Step.number? lexicon.rules previous (c :: t) = none := by
    simp [Step.number?, hc]
  rw [step, step, hnumber, hnumber]

theorem scan_append_cons (h : lexicon.SeparatedBy sep glue) {previous : Option Char} {t : Text}
    {pos : Nat} (hlast : ∀ c ∈ t.getLast?, ¬ glue c)
    (hspans : Lexeme.spansFrom pos (lexicon.scan previous (t ++ [sep])) =
      Lexeme.spansFrom pos (lexicon.scan previous t)) (u : Text) :
    lexicon.scan previous (t ++ sep :: u) =
      lexicon.scan previous t ++ lexicon.scan none (sep :: u) := by
  fun_induction scan lexicon previous t generalizing pos with
  | case1 previous =>
    have hdigit : ¬ sep.isDigit := mt isWordChar_of_isDigit h.not_isWordChar
    rw [List.nil_append, List.nil_append, scan, scan, step_of_not_isDigit hdigit]
  | case2 previous c t s piece =>
    rename_i ih
    have hne : c :: t ≠ [] := List.cons_ne_nil c t
    have hscan (u : Text) := lexicon.scan_of_ne_nil previous (t := c :: t ++ sep :: u) (by simp)
    cases lexicon.meets_step h previous hne hlast with
    | @runsOn v category hv hshort hlong =>
      -- The span of the text would have grown.
      have hwhole : lexicon.step previous (c :: t ++ [sep]) = ⟨(c :: t ++ [sep]).length, v⟩ := by
        rw [Option.some.inj hlong, List.length_append]
        rfl
      have hshorter := spansFrom_scan_of_whole hne (Option.some.inj hshort) hv pos
      have hlonger := spansFrom_scan_of_whole (by simp) hwhole hv pos
      rw [scan_of_ne_nil previous hne] at hshorter
      have hgrown := hlonger.symm.trans (hspans.trans hshorter)
      have hstop := congrArg Span.stop (List.cons.inj hgrown).1
      have hsep := Text.byteSize_pos (List.cons_ne_nil sep [])
      simp only [Text.byteSize_append] at hstop
      omega
    | stays hle hlong =>
      have hs (u : Text) : lexicon.step previous (c :: t ++ sep :: u) = s :=
        Option.some.inj (hlong u)
      have hle : s.length ≤ (c :: t).length := hle s rfl
      have hlonger (u : Text) : lexicon.scan previous (c :: t ++ sep :: u) =
          ⟨piece, s.verdict⟩ ::
            lexicon.scan piece.getLast? ((c :: t).drop s.length ++ sep :: u) := by
        rw [hscan, hs, List.take_append_of_le_length hle, List.drop_append_of_le_length hle]
      rw [hlonger, Lexeme.spansFrom_cons, Lexeme.spansFrom_cons] at hspans
      rw [hlonger, ih (not_glue_drop hlast _) (List.append_cancel_left hspans), List.cons_append]

variable {before : LineState} {t u : Text}

theorem lex_append_cons (h : lexicon.SeparatedBy sep glue) {x y : LexedLine}
    (hnewline : '\n' ∉ t ++ sep :: u) (hlast : ∀ c ∈ t.getLast?, ¬ glue c)
    (hx : lexicon.lex before t = .ok x) (hafter : x.after = .normal)
    (hy : lexicon.lex before (t ++ [sep]) = .ok y)
    (hspans : Lexeme.spansFrom 0 y.lexemes = Lexeme.spansFrom 0 x.lexemes) :
    lexicon.lex before (t ++ sep :: u) =
      .ok ⟨x.lexemes ++ lexicon.scan none (sep :: u),
        Lexeme.stateAfter (lexicon.scan none (sep :: u))⟩ := by
  have hne : lexicon.scan none (sep :: u) ≠ [] := by
    rw [scan]
    exact List.cons_ne_nil _ _
  have ht : '\n' ∉ t := fun hmem => hnewline (List.mem_append_left _ hmem)
  have hshort : '\n' ∉ t ++ [sep] := by
    rw [List.append_cons] at hnewline
    exact fun hmem => hnewline (List.mem_append_left u hmem)
  cases before with
  | normal =>
    cases (lex_normal ht).symm.trans hx
    cases (lex_normal hshort).symm.trans hy
    rw [lex_normal hnewline, scan_append_cons h hlast hspans, Lexeme.stateAfter_append _ hne]
  | inside id =>
    cases hr : findRegion? lexicon.rules id with
    | none => simp [lex, ht, hr] at hx
    | some r =>
      obtain ⟨-, hclosing, hescape⟩ := h.rules _ (region_of_findRegion? hr).1
      have hfind (u : Text) : r.findEnd (t ++ sep :: u) =
          (r.findEnd t).or ((r.findEnd u).map (· + (t.length + 1))) :=
        findClosing_append_cons hclosing r.closing_ne_nil hescape t u
      cases hn : r.findEnd t with
      | none =>
        simp only [lex, ht, hr, hn, if_false, Except.ok.injEq] at hx
        rw [← hx] at hafter
        cases hafter
      | some n =>
        have hlong (u : Text) : r.findEnd (t ++ sep :: u) = some n := by
          rw [hfind, hn, Option.some_or]
        have hle : n ≤ t.length := findClosing_le_length hn
        cases (lex_inside ht hr hn).symm.trans hx
        cases (lex_inside hshort hr (hlong [])).symm.trans hy
        rw [List.take_append_of_le_length hle, List.drop_append_of_le_length hle,
          Lexeme.spansFrom_cons, Lexeme.spansFrom_cons] at hspans
        rw [lex_inside hnewline hr (hlong u), List.take_append_of_le_length hle,
          List.drop_append_of_le_length hle,
          scan_append_cons h (not_glue_drop hlast n) (List.append_cancel_left hspans),
          Lexeme.stateAfter_append _ hne, List.cons_append]

theorem classify_append_cons (h : lexicon.SeparatedBy sep glue) {c d : ClassifiedLine}
    (hnewline : '\n' ∉ t ++ sep :: u) (hlast : ∀ c ∈ t.getLast?, ¬ glue c)
    (hc : lexicon.classify before t = .ok c) (hafter : c.after = .normal)
    (hd : lexicon.classify before (t ++ [sep]) = .ok d) (hspans : d.spans = c.spans) :
    ∃ e, lexicon.classify .normal (sep :: u) = .ok e ∧
      lexicon.classify before (t ++ sep :: u) =
        .ok ⟨c.spans ++ e.spans.map (Span.shift t.byteSize), e.after⟩ := by
  have hu : '\n' ∉ sep :: u := fun hmem => hnewline (List.mem_append_right _ hmem)
  cases hx : lexicon.lex before t with
  | error e => simp [classify, hx, Except.map] at hc
  | ok x =>
  cases hy : lexicon.lex before (t ++ [sep]) with
  | error e => simp [classify, hy, Except.map] at hd
  | ok y =>
  cases (classify_eq_ok hx).symm.trans hc
  cases (classify_eq_ok hy).symm.trans hd
  have hlex := lex_append_cons h hnewline hlast hx hafter hy hspans
  refine ⟨_, classify_normal hu, ?_⟩
  rw [classify_eq_ok hlex]
  dsimp only
  rw [Lexeme.spansFrom_append, (pieces_lex hx).1, Nat.zero_add, ← Lexeme.spansFrom_add,
    Nat.add_zero]

end Lexicon

end Highlight
