import Highlight.Proofs.Lexicon.Brackets
import Highlight.Proofs.Lexicon.Offsets

/-!
# Words

Where no bracket opens, a step goes by the words of the text: it takes a number with what is
glued to it, a word with its sigil or without, a run of digits, or a single character that
belongs to no word. `WordStep` has a case for each of these, and `wordStep_step` says that
there is no other one. None of them ends in the middle of a run of word characters
(`WordStep.wordBreak`).
-/

namespace Highlight

structure IsRun (run rest : Text) : Prop where
  all : ∀ c ∈ run, isWordChar c
  ends : ¬ rest.head?.any isWordChar

structure IsWord (word rest : Text) : Prop extends IsRun word rest where
  starts : word.head?.any isWordStart

def WordBreak (before after : Text) : Prop :=
  ¬ (before.getLast?.any isWordChar ∧ after.head?.any isWordChar)

theorem Text.head?_append_of_ne_nil {t : Text} (h : t ≠ []) (u : Text) :
    (t ++ u).head? = t.head? := by
  rw [List.head?_append, List.head?_eq_some_head h, Option.some_or]

theorem not_isDigit_of_isWordStart {c : Char} (h : isWordStart c) : ¬ c.isDigit := by
  intro hdigit
  have hle : c ≤ '9' := of_decide_eq_true (Bool.and_eq_true_iff.1 hdigit).2
  simp only [isWordStart, Bool.or_eq_true, isAlpha_iff, decide_eq_true_eq] at h
  rcases h with (⟨hge, -⟩ | ⟨hge, -⟩) | rfl
  · exact absurd (Char.le_trans hge hle) (by decide)
  · exact absurd (Char.le_trans hge hle) (by decide)
  · exact absurd hle (by decide)

theorem any_getLast? {t : Text} (h : ∀ c ∈ t, isWordChar c) (hne : t ≠ []) :
    t.getLast?.any isWordChar := by
  rw [List.getLast?_eq_some_getLast hne]
  exact h _ (List.getLast_mem hne)

variable {run run' word rest rest' t : Text}

theorem exists_isRun (t : Text) : ∃ rest, t = wordRun t ++ rest ∧ IsRun (wordRun t) rest := by
  induction t with
  | nil => exact ⟨[], rfl, by simp [wordRun], by simp⟩
  | cons c t ih =>
    by_cases hc : isWordChar c
    · obtain ⟨rest, ht, hrun⟩ := ih
      have hcons : wordRun (c :: t) = c :: wordRun t := List.takeWhile_cons_of_pos hc
      rw [hcons]
      exact ⟨rest, congrArg (c :: ·) ht, List.forall_mem_cons.2 ⟨hc, hrun.all⟩, hrun.ends⟩
    · have hnil : wordRun (c :: t) = [] := List.takeWhile_cons_of_neg hc
      rw [hnil]
      exact ⟨c :: t, rfl, by simp, hc⟩

theorem IsRun.wordRun_eq (h : IsRun run rest) : wordRun (run ++ rest) = run := by
  have hrest : rest.takeWhile isWordChar = [] := wordRun_eq_nil_iff.2 (Bool.eq_false_iff.2 h.ends)
  rw [wordRun, List.takeWhile_append_of_pos h.all, hrest, List.append_nil]

theorem IsRun.unique (h : IsRun run rest) (h' : IsRun run' rest')
    (heq : run ++ rest = run' ++ rest') : run = run' ∧ rest = rest' := by
  have hrun : run = run' := by rw [← h.wordRun_eq, heq, h'.wordRun_eq]
  subst hrun
  exact ⟨rfl, List.append_cancel_left heq⟩

theorem WordBreak.of_append {u piece : Text} (h : WordBreak (u ++ piece) rest) :
    WordBreak piece rest := by
  rintro ⟨hlast, hhead⟩
  have hne : piece ≠ [] := by
    rintro rfl
    cases hlast
  exact h ⟨by rwa [Text.getLast?_append_of_ne_nil hne], hhead⟩

theorem IsRun.exists_append {piece after : Text} (hrun : IsRun run after)
    (h : run ++ after = piece ++ rest) (hne : piece ≠ []) (hbreak : WordBreak piece rest) :
    ∃ tail, piece = run ++ tail ∧ after = tail ++ rest := by
  rcases List.append_eq_append_iff.1 h with ⟨tail, hpiece, hafter⟩ | ⟨tail, hrun', hrest⟩
  · exact ⟨tail, hpiece, hafter⟩
  · cases tail with
    | nil => exact ⟨[], by simpa using hrun'.symm, by simpa using hrest.symm⟩
    | cons c tail =>
      -- The run goes on behind the part, and so does a word.
      have hlast : piece.getLast hne ∈ run := by
        rw [hrun']
        exact List.mem_append_left _ (List.getLast_mem hne)
      have hc : c ∈ run := by
        rw [hrun']
        exact List.mem_append_right _ List.mem_cons_self
      refine absurd ⟨?_, ?_⟩ hbreak
      · rw [List.getLast?_eq_some_getLast hne]
        exact hrun.all _ hlast
      · rw [hrest]
        exact hrun.all c hc

theorem IsWord.ne_nil (h : IsWord word rest) : word ≠ [] := by
  rintro rfl
  cases h.starts

theorem exists_isWord (h : leadingWord t ≠ []) :
    ∃ rest, t = leadingWord t ++ rest ∧ IsWord (leadingWord t) rest := by
  unfold leadingWord at h ⊢
  split at h
  · next hstart =>
    rw [if_pos hstart]
    obtain ⟨rest, ht, hrun⟩ := exists_isRun t
    have hne := wordRun_ne_nil_of_isWordStart hstart
    generalize wordRun t = word at ht hrun hne ⊢
    subst ht
    rw [Text.head?_append_of_ne_nil hne] at hstart
    exact ⟨rest, rfl, hrun, hstart⟩
  · exact absurd rfl h

structure IsWholeWord (before word after : Text) : Prop extends IsWord word after where
  begins : ¬ before.getLast?.any isWordChar

theorem IsWholeWord.eq_run {before back after p q : Text}
    (hword : IsWholeWord (before ++ p) word back)
    (hrun : IsRun run after) (hpiece : run = p ++ q) (htext : word ++ back = q ++ after) :
    p = [] ∧ run = word ∧ after = back := by
  have hp : p = [] := by
    by_cases hne : p = []
    · exact hne
    · have hchars (c : Char) (hc : c ∈ p) : isWordChar c := by
        refine hrun.all c ?_
        rw [hpiece]
        exact List.mem_append_left q hc
      have hbegins := hword.begins
      rw [Text.getLast?_append_of_ne_nil hne] at hbegins
      exact absurd (any_getLast? hchars hne) hbegins
  subst hp
  exact ⟨rfl, hrun.unique hword.toIsRun (by rw [hpiece, htext, List.nil_append])⟩

namespace Lexicon

/-- What a step can take where no bracket opens: a piece, the text behind it and its verdict. -/
inductive WordStep (lexicon : Lexicon) (previous : Option Char) : Text → Text → Verdict → Prop
  | number {m : Matcher} {literal glued rest : Text} (hm : .numbers m ∈ lexicon.rules)
      (hdigit : literal.head?.any Char.isDigit) (hprevious : ¬ previous.any isWordChar)
      (hreach : m.reach? (literal ++ (glued ++ rest)) = some literal.length)
      (hglued : IsRun glued rest) :
      WordStep lexicon previous (literal ++ glued) rest
        (if glued = [] then .span .number else .plain)
  | sigilWord {sigil : Char} {c : Category} {word rest : Text}
      (hsigil : .sigilWord sigil c ∈ lexicon.rules) (hword : IsWord word rest) :
      WordStep lexicon previous (sigil :: word) rest (.span c)
  | word {word rest : Text} (hword : IsWord word rest) :
      WordStep lexicon previous word rest
        (((Step.markedCategory? lexicon.rules rest).or (lexicon.keywords.get? word)).elim
          .plain .span)
  | digits {run rest : Text} (hdigit : run.head?.any Char.isDigit) (hrun : IsRun run rest) :
      WordStep lexicon previous run rest .plain
  | single {c : Char} {rest : Text} (hc : ¬ isWordChar c)
      (hsigil : Step.sigilWord? lexicon.rules (c :: rest) = none) :
      WordStep lexicon previous [c] rest .plain

variable {lexicon : Lexicon} {previous : Option Char} {s : Step} {piece : Text} {v : Verdict}

theorem WordStep.take_drop {rest : Text} (h : lexicon.WordStep previous piece rest v) :
    lexicon.WordStep previous ((piece ++ rest).take piece.length)
      ((piece ++ rest).drop piece.length) v := by
  rwa [List.take_left, List.drop_left]

theorem wordStep_of_number? (h : Step.number? lexicon.rules previous t = some s) :
    lexicon.WordStep previous (t.take s.length) (t.drop s.length) s.verdict := by
  unfold Step.number? at h
  split at h
  · next hcond =>
    obtain ⟨hdigit, hprevious⟩ := Bool.and_eq_true_iff.1 hcond
    have hprevious : ¬ previous.any isWordChar := by simpa using hprevious
    obtain ⟨r, hr, hstep⟩ := List.exists_of_findSome?_eq_some h
    cases r with
    | numbers m =>
      obtain ⟨n, hn, hs⟩ := Option.map_eq_some_iff.1 hstep
      obtain ⟨hpos, hle⟩ := Matcher.reach?_bounds hn
      obtain ⟨literal, tail, rfl, rfl⟩ : ∃ literal tail, t = literal ++ tail ∧ n = literal.length :=
        ⟨t.take n, t.drop n, (List.take_append_drop n t).symm, (List.length_take_of_le hle).symm⟩
      rw [Text.head?_append_of_ne_nil (List.length_pos_iff.1 hpos)] at hdigit
      -- What is glued to the literal belongs to the step, and decides what the step is.
      obtain ⟨rest, htail, hrun⟩ := exists_isRun tail
      rw [List.drop_left] at hs
      generalize wordRun tail = glued at hs htail hrun
      subst htail
      have hs : s = ⟨(literal ++ glued).length, if glued = [] then .span .number else .plain⟩ := by
        rw [← hs, List.length_append]
        split
        · next hnil => rw [if_pos hnil, hnil, List.length_nil, Nat.add_zero]
        · next hne => rw [if_neg hne]
      rw [hs, ← List.append_assoc]
      exact (WordStep.number hr hdigit hprevious hn hrun).take_drop
    | _ => cases hstep
  · cases h

theorem wordStep_of_sigilWord? (h : Step.sigilWord? lexicon.rules t = some s) :
    lexicon.WordStep previous (t.take s.length) (t.drop s.length) s.verdict := by
  obtain ⟨r, hr, hs⟩ := List.exists_of_findSome?_eq_some h
  cases r with
  | sigilWord sigil c =>
    simp only at hs
    split at hs
    · cases hs
    · next tail htail =>
      obtain rfl := Text.after?_eq_some_iff.1 htail
      split at hs
      · cases hs
      · next hne =>
        obtain ⟨rest, htail, hword⟩ := exists_isWord hne
        generalize leadingWord tail = word at hs htail hword
        subst htail
        cases hs
        rw [Nat.add_comm]
        exact (WordStep.sigilWord hr hword).take_drop
  | _ => cases hs

theorem wordStep_of_word? (h : Step.word? lexicon t = some s) :
    lexicon.WordStep previous (t.take s.length) (t.drop s.length) s.verdict := by
  unfold Step.word? at h
  dsimp only at h
  split at h
  · cases h
  · next hne =>
    obtain ⟨rest, ht, hword⟩ := exists_isWord hne
    generalize leadingWord t = word at h ht hword
    subst ht
    rw [List.drop_left] at h
    cases h
    exact (WordStep.word hword).take_drop

theorem wordStep_other (ht : t ≠ []) (hsigil : Step.sigilWord? lexicon.rules t = none)
    (hword : Step.word? lexicon t = none) :
    lexicon.WordStep previous (t.take (Step.other t).length) (t.drop (Step.other t).length)
      (Step.other t).verdict := by
  obtain ⟨c, t, rfl⟩ := List.exists_cons_of_ne_nil ht
  unfold Step.other
  split
  · next hdigit =>
    obtain ⟨rest, ht, hrun⟩ := exists_isRun (c :: t)
    have hne : wordRun (c :: t) ≠ [] := wordRun_ne_nil (isWordChar_of_isDigit hdigit)
    generalize wordRun (c :: t) = run at ht hrun hne ⊢
    rw [ht, Text.head?_append_of_ne_nil hne] at hdigit
    rw [ht]
    exact (WordStep.digits hdigit hrun).take_drop
  · next hdigit =>
    have hstart : ¬ isWordStart c := by
      intro hc
      have hhead : (c :: t).head?.any isWordStart := hc
      have hleading : leadingWord (c :: t) = wordRun (c :: t) := if_pos hhead
      rw [Step.word?, hleading, if_neg (wordRun_ne_nil_of_isWordStart hhead)] at hword
      cases hword
    have hdigit : ¬ c.isDigit := hdigit
    have hc : ¬ isWordChar c := by
      rw [isWordChar_eq, Bool.or_eq_true]
      exact not_or.2 ⟨hstart, hdigit⟩
    exact .single hc hsigil

theorem wordStep_step (previous : Option Char) (ht : t ≠ [])
    (h : Step.bracketed? lexicon.rules t = none) :
    let s := lexicon.step previous t
    lexicon.WordStep previous (t.take s.length) (t.drop s.length) s.verdict := by
  rw [step_eq_bracketed_getD, h, Option.none_or]
  cases hnumber : Step.number? lexicon.rules previous t with
  | some s => exact wordStep_of_number? hnumber
  | none =>
  cases hsigil : Step.sigilWord? lexicon.rules t with
  | some s => exact wordStep_of_sigilWord? hsigil
  | none =>
  cases hword : Step.word? lexicon t with
  | some s => exact wordStep_of_word? hword
  | none => exact wordStep_other ht hsigil hword

theorem exists_scan_eq_cons (ht : t ≠ []) (h : Step.bracketed? lexicon.rules t = none)
    (previous : Option Char) :
    ∃ piece rest v, t = piece ++ rest ∧ piece ≠ [] ∧ lexicon.WordStep previous piece rest v ∧
      lexicon.scan previous t = ⟨piece, v⟩ :: lexicon.scan piece.getLast? rest := by
  obtain ⟨c, t, rfl⟩ := List.exists_cons_of_ne_nil ht
  refine ⟨_, _, _, (List.take_append_drop _ _).symm, lexicon.take_step_ne_nil previous ht,
    wordStep_step previous ht h, ?_⟩
  rw [scan]

theorem WordStep.verdict_eq {rest : Text} (h : lexicon.WordStep previous piece rest v) :
    v = .plain ∨ ∃ c, v = .span c := by
  cases h with
  | number =>
    split
    · exact .inr ⟨_, rfl⟩
    · exact .inl rfl
  | sigilWord => exact .inr ⟨_, rfl⟩
  | word =>
    cases (Step.markedCategory? lexicon.rules rest).or (lexicon.keywords.get? piece) with
    | none => exact .inl rfl
    | some c => exact .inr ⟨c, rfl⟩
  | digits | single => exact .inl rfl

theorem WordStep.wordBreak {rest : Text} (h : lexicon.WordStep previous piece rest v) :
    WordBreak piece rest := by
  rintro ⟨hlast, hhead⟩
  cases h with
  | number _ _ _ _ hrun => exact hrun.ends hhead
  | sigilWord _ hword => exact hword.ends hhead
  | word hword => exact hword.ends hhead
  | digits _ hrun => exact hrun.ends hhead
  | single hc _ => exact hc hlast

end Lexicon

end Highlight
