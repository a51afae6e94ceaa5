import Highlight.Proofs.Zig.Brackets
import Mathlib.Data.List.Basic

/-!
# Words of Zig

Which words of a Zig line get a category, and which one, can be told from the text around them
(`wordSpan?`): a word behind `@` is a builtin function, one in front of a parenthesis is a call,
any other word is what the keywords say. That holds for all words that stand in no comment, no
string and no number, and there are no other spans in the line but those of brackets and numbers
(`classify_words`).
-/

namespace Highlight

namespace Zig

/-- The text behind another one begins within what reads as a number if one starts at some digit
in front of it. -/
def BeginsInNumber (before rest : Text) : Prop :=
  ∃ front back n, before = front ++ back ∧ back.head?.any Char.isDigit ∧
    ¬ front.getLast?.any isWordChar ∧
    Pattern.standardNumber.matcher.reach? (back ++ rest) = some n ∧ back.length < n

/-- The span that a word has by what stands around it. -/
def wordSpan? (keywords : Table Text Category) (before word after : Text) : Option Span :=
  let start := before.byteSize
  let stop := start + word.byteSize
  if before.getLast? = some '@' then some ⟨start - 1, stop, .preprocessorLike⟩
  else if after.head? = some '(' then some ⟨start, stop, .call⟩
  else (keywords.get? word).map (Span.mk start stop)

theorem markedCategory?_rules (rest : Text) :
    Step.markedCategory? rules rest = if rest.head? = some '(' then some .call else none := by
  unfold Step.markedCategory?
  by_cases h : rest.head? = some '('
  · simp [rules, h]
  · simp [rules, h]

theorem opensBracket_getLast? {r : Rule} (hr : r ∈ rules) {mark piece : Text}
    (hmark : r.closing? = some mark) (hends : mark <:+ piece) :
    piece.getLast?.any opensBracket := by
  obtain ⟨body, rfl⟩ := hends
  have hlast : mark.getLast?.any opensBracket := by
    simp only [rules, List.mem_cons, List.not_mem_nil, or_false] at hr
    rcases hr with rfl | rfl | rfl | rfl | rfl | rfl | rfl | rfl <;> cases hmark <;> rfl
  have hne : mark ≠ [] := by
    rintro rfl
    cases hlast
  rwa [Text.getLast?_append_of_ne_nil hne]

/-- A comment or a string stands in a line. It ends in a character that brackets open with, too, or
with the line. -/
structure IsBracketAt (state : LineState) (t before : Text) (l : Lexeme) (after : Text) :
    Prop where
  isBracket : ∃ s, l.span? before.byteSize = some s ∧ s.isBracket opensBracket state t
  ends : after = [] ∨ l.piece.getLast?.any opensBracket

variable {lexicon : Lexicon} {state : LineState} {t before after : Text} {x : LexedLine}
  {l : Lexeme}

theorem stands_cases (h : lexicon.rules = rules) (hx : lexicon.lex state t = .ok x)
    (hs : Lexeme.Stands x.lexemes before l after) :
    IsBracketAt state t before l after ∨
      lexicon.WordStep before.getLast? l.piece after l.verdict := by
  have hline := Lexicon.eq_append_of_stands hx hs
  rcases Lexicon.stands_lex_cases hx hs with ⟨rfl, hcarries⟩ | hstep
  · obtain ⟨r, hr, hc, hends⟩ := hcarries.exists_region
    rw [h] at hr
    refine .inl ⟨⟨_, congrArg (Option.map _) hc, ?_⟩, hends.imp_right ?_⟩
    · rw [Span.isBracket, hcarries.isInside]
      rfl
    · exact opensBracket_getLast? hr rfl
  · cases hb : Step.bracketed? lexicon.rules (l.piece ++ after) with
    | none =>
      right
      have hword := Lexicon.wordStep_step before.getLast?
        (List.append_ne_nil_of_left_ne_nil hstep.ne_nil after) hb
      dsimp only at hword
      rwa [hstep.piece, hstep.rest, hstep.verdict] at hword
    | some b =>
      left
      have hbracket := Step.isBracket_of_bracketed? hb
      rw [← Lexicon.step_of_bracketed hb before.getLast?] at hbracket
      obtain ⟨-, ⟨c, hc⟩, hends⟩ := hbracket
      rw [hstep.verdict] at hc
      rw [hstep.rest, hstep.piece] at hends
      have hhead := (bracketsMarked h).head_of_bracketed hb
      rw [Text.head?_append_of_ne_nil hstep.ne_nil] at hhead
      refine ⟨⟨_, congrArg (Option.map _) hc, ?_⟩, hends.imp_right ?_⟩
      · rw [Span.isBracket, hline, Span.startsWith_append, hhead, Bool.or_true]
      · rintro ⟨r, hr, mark, hmark, hsuffix⟩
        rw [h] at hr
        exact opensBracket_getLast? hr hmark hsuffix

theorem getLast?_literal_append {literal rest u : Text} (hdigit : literal.head?.any Char.isDigit)
    (hreach : Pattern.standardNumber.matcher.reach? (literal ++ rest) = some literal.length)
    (hu : ∀ c ∈ u, isWordChar c) : (literal ++ u).getLast?.any isWordChar := by
  by_cases hne : u = []
  · have hlast := Pattern.isWordChar_getLast?_of_reach?_standardNumber hreach
    rw [List.take_left] at hlast
    have hliteral : literal ≠ [] := by
      rintro rfl
      cases hdigit
    rw [hne, List.append_nil, List.getLast?_eq_some_getLast hliteral]
    exact hlast _ (List.getLast?_eq_some_getLast hliteral)
  · rw [Text.getLast?_append_of_ne_nil hne]
    exact any_getLast? hu hne

theorem wordStep_getLast? (h : lexicon.rules = rules) {previous : Option Char} {piece rest : Text}
    {v : Verdict} (hs : lexicon.WordStep previous piece rest v) :
    piece.getLast?.any isWordChar ∨
      ∃ c, piece = [c] ∧ Step.sigilWord? rules (c :: rest) = none := by
  rw [← h]
  cases hs with
  | number hm hdigit _ hreach hglued =>
    rw [h] at hm
    obtain rfl := numbers_mem_rules hm
    exact .inl (getLast?_literal_append hdigit hreach hglued.all)
  | @sigilWord sigil _ word _ _ hword =>
    rw [show sigil :: word = [sigil] ++ word from rfl, Text.getLast?_append_of_ne_nil hword.ne_nil]
    exact .inl (any_getLast? hword.all hword.ne_nil)
  | word hword => exact .inl (any_getLast? hword.all hword.ne_nil)
  | digits hdigit hrun =>
    refine .inl (any_getLast? hrun.all ?_)
    rintro rfl
    cases hdigit
  | single _ hsigil => exact .inr ⟨_, rfl, hsigil⟩

theorem sigilWord?_ne_none {t : Text} (h : t.head?.any isWordStart) :
    Step.sigilWord? rules ('@' :: t) ≠ none := by
  have hword : leadingWord t ≠ [] := by
    rw [leadingWord, if_pos h]
    exact wordRun_ne_nil_of_isWordStart h
  simp [Step.sigilWord?, rules, Text.after?, hword]

theorem begins_of_stands (h : lexicon.rules = rules) (hx : lexicon.lex state t = .ok x)
    (hs : Lexeme.Stands x.lexemes before l after) (hhead : l.piece.head?.any isWordStart) :
    ¬ before.getLast?.any isWordChar ∧ before.getLast? ≠ some '@' := by
  have hstart : (l.piece ++ after).head?.any isWordStart := by
    rwa [Text.head?_append_of_ne_nil]
    rintro hnil
    rw [hnil] at hhead
    cases hhead
  rcases hs.eq_nil_or_follows with rfl | ⟨before, k, hk, rfl⟩
  · simp
  · rw [Text.getLast?_append_of_ne_nil ((Lexicon.pieces_lex hx).2 k hk.mem)]
    rcases stands_cases h hx hk with hbracket | hstep
    · -- A bracket ends in a character of its own, or no text follows it.
      rcases hbracket.ends with hnil | hopens
      · rw [hnil] at hstart
        cases hstart
      · obtain ⟨c, hc, hopens⟩ := (Option.any_eq_true _ _).1 hopens
        rw [hc]
        constructor
        · intro hword
          exact (bracketsMarked h).word c hword hopens
        · rintro ⟨⟩
          cases hopens
    · have hword : (l.piece ++ after).head?.any isWordChar := by
        obtain ⟨c, hc, hstart⟩ := (Option.any_eq_true _ _).1 hstart
        rw [hc]
        exact isWordChar_of_isWordStart hstart
      refine ⟨fun hlast => hstep.wordBreak ⟨hlast, hword⟩, ?_⟩
      -- The sigil would have taken the word with it.
      intro hat
      rcases wordStep_getLast? h hstep with hlast | ⟨c, hc, hsigil⟩
      · exact hstep.wordBreak ⟨hlast, hword⟩
      · rw [hc] at hat
        cases hat
        exact sigilWord?_ne_none hstart hsigil

structure IsWordAt (lexicon : Lexicon) (before : Text) (l : Lexeme) (after front word : Text) :
    Prop where
  isWhole : IsWholeWord front word after
  begins : before <+: front
  ends : before ++ l.piece = front ++ word
  span? : l.span? before.byteSize = wordSpan? lexicon.keywords front word after

theorem isWordAt_sigil {word : Text} (hword : IsWord word after) :
    IsWordAt lexicon before ⟨'@' :: word, .span .preprocessorLike⟩ after (before ++ ['@'])
      word where
  isWhole := ⟨hword, by rw [Text.getLast?_append_of_ne_nil (List.cons_ne_nil _ _)]; decide⟩
  begins := List.prefix_append _ _
  ends := by rw [List.append_assoc]; rfl
  span? := by
    have hlast : (before ++ ['@']).getLast? = some '@' := List.getLast?_concat
    have hbefore : (before ++ ['@']).byteSize = before.byteSize + 1 := Text.byteSize_append _ _
    have hword : Text.byteSize ('@' :: word) = 1 + word.byteSize := rfl
    rw [wordSpan?, if_pos hlast, Lexeme.span?, hbefore, hword, Nat.add_sub_cancel, Nat.add_assoc]
    rfl

theorem isWordAt_word (h : lexicon.rules = rules) {word : Text} (hword : IsWord word after)
    (hbegins : ¬ before.getLast?.any isWordChar) (hat : before.getLast? ≠ some '@') :
    IsWordAt lexicon before ⟨word, ((Step.markedCategory? lexicon.rules after).or
      (lexicon.keywords.get? word)).elim .plain .span⟩ after before word where
  isWhole := ⟨hword, hbegins⟩
  begins := List.prefix_rfl
  ends := rfl
  span? := by
    rw [wordSpan?, if_neg hat, h, markedCategory?_rules, Lexeme.span?]
    split
    · rfl
    · cases lexicon.keywords.get? word with
      | none => rfl
      | some c => rfl

theorem beginsInNumber_of_literal {literal glued rest p q : Text} {c : Char}
    (hdigit : literal.head?.any Char.isDigit) (hprevious : ¬ before.getLast?.any isWordChar)
    (hreach : Pattern.standardNumber.matcher.reach? (literal ++ (glued ++ rest)) =
      some literal.length)
    (hglued : ∀ c ∈ glued, isWordChar c) (hpiece : literal ++ glued = p ++ c :: q)
    (hc : isWordStart c) (hbegins : ¬ (before ++ p).getLast?.any isWordChar) :
    BeginsInNumber (before ++ p) (c :: q ++ rest) := by
  -- Behind the literal, or at its end, a word character stands in front of the word.
  have hwithin (u : Text) (hu : ∀ c ∈ u, isWordChar c) : p ≠ literal ++ u := by
    rintro rfl
    have hlast := getLast?_literal_append hdigit hreach hu
    have hne : literal ++ u ≠ [] := by
      intro hnil
      rw [hnil] at hlast
      cases hlast
    rw [Text.getLast?_append_of_ne_nil hne] at hbegins
    exact hbegins hlast
  rcases List.append_eq_append_iff.1 hpiece with ⟨u, hp, hu⟩ | ⟨u, hu, hq⟩
  · refine absurd hp (hwithin u fun d hd => hglued d ?_)
    rw [hu]
    exact List.mem_append_left _ hd
  · cases u with
    | nil => exact absurd (by rw [hu, List.append_nil, List.append_nil]) (hwithin [] (by simp))
    | cons d u =>
      rw [List.cons_append] at hq
      obtain ⟨rfl, rfl⟩ := List.cons.inj hq
      have hne : p ≠ [] := by
        rintro rfl
        rw [hu] at hdigit
        exact not_isDigit_of_isWordStart hc hdigit
      refine ⟨before, p, literal.length, rfl, ?_, hprevious, ?_, ?_⟩
      · rwa [hu, Text.head?_append_of_ne_nil hne] at hdigit
      · rw [← hreach, hu]
        simp only [List.append_assoc, List.cons_append]
      · rw [hu, List.length_append, List.length_cons]
        omega

theorem isWordAt_of_wordStep (h : lexicon.rules = rules) (hx : lexicon.lex state t = .ok x)
    (hs : Lexeme.Stands x.lexemes before l after)
    (hstep : lexicon.WordStep before.getLast? l.piece after l.verdict) {word back p q : Text}
    {c : Char} (hpiece : l.piece = p ++ c :: q) (hword : IsWholeWord (before ++ p) word back)
    (htext : word ++ back = c :: q ++ after)
    (hnumber : ¬ BeginsInNumber (before ++ p) (word ++ back)) :
    after = back ∧ IsWordAt lexicon before l after (before ++ p) word := by
  have hstart : isWordStart c := by
    have hstart := hword.starts
    rwa [← Text.head?_append_of_ne_nil hword.ne_nil back, htext] at hstart
  obtain ⟨piece, v⟩ := l
  dsimp only at hpiece hstep
  cases hstep with
  | number hm hdigit hprevious hreach hglued =>
    rw [h] at hm
    obtain rfl := numbers_mem_rules hm
    rw [htext] at hnumber
    exact absurd (beginsInNumber_of_literal hdigit hprevious hreach hglued.all hpiece hstart
      hword.begins) hnumber
  | sigilWord hsigil hrun =>
    rw [h] at hsigil
    obtain ⟨rfl, rfl⟩ := sigilWord_mem_rules hsigil
    cases p with
    | nil =>
      obtain ⟨rfl, -⟩ := List.cons.inj hpiece
      exact absurd hstart (by decide)
    | cons d p =>
      rw [List.cons_append] at hpiece
      obtain ⟨rfl, htail⟩ := List.cons.inj hpiece
      have happend : before ++ '@' :: p = (before ++ ['@']) ++ p := List.append_cons before '@' p
      rw [happend] at hword
      obtain ⟨rfl, rfl, rfl⟩ := hword.eq_run hrun.toIsRun htail htext
      exact ⟨rfl, isWordAt_sigil hrun⟩
  | word hrun =>
    obtain ⟨rfl, rfl, rfl⟩ := hword.eq_run hrun.toIsRun hpiece htext
    obtain ⟨hbegins, hat⟩ := begins_of_stands h hx hs hword.starts
    rw [List.append_nil]
    exact ⟨rfl, isWordAt_word h hrun hbegins hat⟩
  | digits hdigit hrun =>
    obtain ⟨rfl, rfl, rfl⟩ := hword.eq_run hrun hpiece htext
    rw [hpiece] at hdigit
    exact absurd hdigit (not_isDigit_of_isWordStart hstart)
  | single hd =>
    have hmem : c ∈ p ++ c :: q := List.mem_append_right p List.mem_cons_self
    rw [← hpiece] at hmem
    rw [List.mem_singleton.1 hmem] at hstart
    exact absurd (isWordChar_of_isWordStart hstart) hd

/-- No comment and no string among the spans meets a part of the line. -/
def IsFree (state : LineState) (t : Text) (spans : List Span) (start stop : Nat) : Prop :=
  ∀ s ∈ spans, s.isBracket opensBracket state t → ¬ s.Meets start stop

theorem exists_isWordAt (h : lexicon.rules = rules) (hx : lexicon.lex state t = .ok x)
    {front word back : Text} (ht : t = front ++ (word ++ back))
    (hword : IsWholeWord front word back)
    (hfree : IsFree state t (Lexeme.spansFrom 0 x.lexemes) front.byteSize
      (front.byteSize + word.byteSize))
    (hnumber : ¬ BeginsInNumber front (word ++ back)) :
    ∃ before l, Lexeme.Stands x.lexemes before l back ∧
      IsWordAt lexicon before l back front word := by
  have hflatten := (Lexicon.pieces_lex hx).1.trans ht
  have hne := List.append_ne_nil_of_left_ne_nil hword.ne_nil back
  obtain ⟨before, l, after, p, q, hs, hq, hpiece, rfl, htext⟩ :=
    Lexeme.exists_stands_of_flatten_eq hflatten hne
  rcases stands_cases h hx hs with hbracket | hstep
  · obtain ⟨s, hspan, hbracket⟩ := hbracket.isBracket
    have hmem : s ∈ Lexeme.spansFrom 0 x.lexemes :=
      Lexeme.mem_spansFrom_zero_iff.2 ⟨before, l, after, hs, hspan⟩
    obtain ⟨c, -, rfl⟩ := Option.map_eq_some_iff.1 hspan
    refine absurd ⟨?_, ?_⟩ (hfree _ hmem hbracket)
    · have hpos := Text.byteSize_pos hword.ne_nil
      rw [Text.byteSize_append]
      dsimp only
      omega
    · have hpos := Text.byteSize_pos hq
      rw [hpiece, Text.byteSize_append, Text.byteSize_append]
      dsimp only
      omega
  · obtain ⟨c, q, rfl⟩ := List.exists_cons_of_ne_nil hq
    obtain ⟨rfl, hat⟩ := isWordAt_of_wordStep h hx hs hstep hpiece hword htext hnumber
    exact ⟨before, l, hs, hat⟩

theorem isWordAt_of_span? (h : lexicon.rules = rules) (hx : lexicon.lex state t = .ok x)
    (hs : Lexeme.Stands x.lexemes before l after) {s : Span}
    (hspan : l.span? before.byteSize = some s) (hbracket : ¬ s.isBracket opensBracket state t)
    (hdigit : ¬ s.startsWith Char.isDigit t) :
    ∃ front word, IsWordAt lexicon before l after front word := by
  have hline := Lexicon.eq_append_of_stands hx hs
  rcases stands_cases h hx hs with hb | hstep
  · obtain ⟨s', hs', hbracket'⟩ := hb.isBracket
    cases hspan.symm.trans hs'
    exact absurd hbracket' hbracket
  · obtain ⟨c, hc, rfl⟩ := Option.map_eq_some_iff.1 hspan
    rw [hline, Span.startsWith_append] at hdigit
    have hbegins := begins_of_stands h hx hs
    obtain ⟨piece, v⟩ := l
    dsimp only at hstep hdigit hc hbegins
    cases hstep with
    | @number _ literal _ _ _ hd =>
      have hne : literal ≠ [] := by
        rintro rfl
        cases hd
      rw [Text.head?_append_of_ne_nil hne] at hdigit
      exact absurd hd hdigit
    | @sigilWord sigil category word _ hsigil hword =>
      rw [h] at hsigil
      obtain ⟨rfl, rfl⟩ := sigilWord_mem_rules hsigil
      exact ⟨before ++ ['@'], word, isWordAt_sigil hword⟩
    | word hword =>
      obtain ⟨hbegins, hat⟩ := hbegins hword.starts
      exact ⟨before, piece, isWordAt_word h hword hbegins hat⟩
    | digits => cases hc
    | single => cases hc

/-- The spans of a Zig line and its words determine each other: each word that stands in no bracket
and in no number has the span that it should have, or none, and each span that is no bracket and no
number is that of a word. -/
structure WordsExact (keywords : Table Text Category) (state : LineState) (t : Text)
    (spans : List Span) : Prop where
  complete : ∀ front word back, t = front ++ (word ++ back) → IsWholeWord front word back →
    IsFree state t spans front.byteSize (front.byteSize + word.byteSize) →
    ¬ BeginsInNumber front (word ++ back) →
    match wordSpan? keywords front word back with
    | some s => s ∈ spans
    | none => ∀ s ∈ spans, ¬ s.Meets front.byteSize (front.byteSize + word.byteSize)
  -- The word may begin within what reads as a number from a later digit on, as `f` in `1.0x1.f(`.
  sound : ∀ s ∈ spans, ¬ s.isBracket opensBracket state t → ¬ s.startsWith Char.isDigit t →
    ∃ front word back, t = front ++ (word ++ back) ∧ IsWholeWord front word back ∧
      IsFree state t spans front.byteSize (front.byteSize + word.byteSize) ∧
      wordSpan? keywords front word back = some s

theorem IsWordAt.wordSpan?_of_meets {front word : Text} {ls : List Lexeme}
    (hat : IsWordAt lexicon before l after front word) (hs : Lexeme.Stands ls before l after)
    {s : Span} (hmem : s ∈ Lexeme.spansFrom 0 ls)
    (hmeets : s.Meets front.byteSize (front.byteSize + word.byteSize)) :
    wordSpan? lexicon.keywords front word after = some s := by
  have hbegins := Text.byteSize_mono hat.begins
  have hends := congrArg Text.byteSize hat.ends
  rw [Text.byteSize_append, Text.byteSize_append] at hends
  rw [← hat.span?]
  refine hs.span?_of_meets hmem ⟨?_, Nat.lt_of_le_of_lt hbegins hmeets.2⟩
  rw [hends]
  exact hmeets.1

theorem wordsExact_of_lex (h : lexicon.rules = rules) (hx : lexicon.lex state t = .ok x) :
    WordsExact lexicon.keywords state t (Lexeme.spansFrom 0 x.lexemes) where
  complete := by
    intro front word back ht hword hfree hnumber
    obtain ⟨before, l, hs, hat⟩ := exists_isWordAt h hx ht hword hfree hnumber
    split
    · next s hspan =>
      exact Lexeme.mem_spansFrom_zero_iff.2 ⟨before, l, back, hs, hat.span?.trans hspan⟩
    · next hnone =>
      intro s hmem hmeets
      cases hnone.symm.trans (hat.wordSpan?_of_meets hs hmem hmeets)
  sound := by
    intro s hmem hbracket hdigit
    obtain ⟨before, l, after, hs, hspan⟩ := Lexeme.mem_spansFrom_zero_iff.1 hmem
    obtain ⟨front, word, hat⟩ := isWordAt_of_span? h hx hs hspan hbracket hdigit
    have hword : wordSpan? lexicon.keywords front word after = some s := hat.span?.symm.trans hspan
    refine ⟨front, word, after, ?_, hat.isWhole, ?_, hword⟩
    · rw [Lexicon.eq_append_of_stands hx hs, ← List.append_assoc, hat.ends, List.append_assoc]
    · intro r hr hopens hmeets
      cases hword.symm.trans (hat.wordSpan?_of_meets hs hr hmeets)
      exact hbracket hopens

/-- The words of a Zig line are classified by what stands around them and by the keywords, those
that are added among them. -/
theorem classify_words (words : List (Text × Category)) {state : LineState} {t : Text}
    (ht : '\n' ∉ t) (hstate : state = .normal ∨ state = .inside blockComment.id) :
    let l := language.addKeywords words
    ∃ c, l.classify state t = .ok c ∧ WordsExact l.lexicon.keywords state t c.spans := by
  intro l
  have hrules : l.lexicon.rules = rules := language.rules_addKeywords words
  obtain ⟨x, hx⟩ := exists_lex hrules ht hstate
  exact ⟨_, congrArg (Except.mapError _) (Lexicon.classify_eq_ok hx), wordsExact_of_lex hrules hx⟩

theorem classify_words_called :
    let l := language.addKeywords [(['f'], .constant)]
    let t : Text := ['*', '/', '@', 'i', 'f', '(', '1', '.', '0', 'f', ')', '.', 'f', '(', 'f', ')']
    '\n' ∉ t ∧ ∃ c, l.classify (.inside blockComment.id) t = .ok c ∧
      WordsExact l.lexicon.keywords (.inside blockComment.id) t c.spans ∧
      c.spans = [⟨0, 2, .comment⟩, ⟨2, 5, .preprocessorLike⟩, ⟨12, 13, .call⟩,
        ⟨14, 15, .constant⟩] := by
  intro l t
  have ht : '\n' ∉ t := by decide
  obtain ⟨c, hc, hwords⟩ := classify_words [(['f'], .constant)] ht (.inr rfl)
  have hspans : (l.classify (.inside blockComment.id) t).map ClassifiedLine.spans =
      .ok [⟨0, 2, .comment⟩, ⟨2, 5, .preprocessorLike⟩, ⟨12, 13, .call⟩, ⟨14, 15, .constant⟩] := by
    decide +kernel
  rw [hc] at hspans
  exact ⟨ht, c, hc, hwords, Except.ok.inj hspans⟩

end Zig

end Highlight
