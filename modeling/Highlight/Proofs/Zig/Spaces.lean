import Highlight.Proofs.Lexicon.Separation
import Highlight.Proofs.Pattern.Lookahead
import Highlight.Proofs.Zig.Brackets

/-!
# Spaces in a line of Zig

No rule of Zig reaches over a space, apart from the comments and strings that take the rest of the
line. What could draw a space into a character literal is a quote or a backslash directly in front
of it. So behind any other text that a space adds nothing to, the line goes on as a line of its own
would begin.
-/

namespace Highlight.Zig

/-- The characters that could glue a space to the text in front of it. -/
def glues (c : Char) : Bool := c = '\'' || c = '\\'

theorem glues_iff {c : Char} : glues c ↔ c = '\'' ∨ c = '\\' := by
  simp only [glues, Bool.or_eq_true, decide_eq_true_eq]

variable {lexicon : Lexicon}

theorem separatedBy_space (h : lexicon.rules = rules) : lexicon.SeparatedBy ' ' glues where
  not_isWordChar := by decide
  rules := by
    rw [h]
    intro r hr
    simp only [rules, List.mem_cons, List.not_mem_nil, or_false] at hr
    rcases hr with rfl | rfl | rfl | rfl | rfl | rfl | rfl | rfl
    · trivial
    · have hmark : '(' ≠ ' ' := by decide
      exact hmark
    · exact Pattern.reach?_standardNumber_append_space
    · exact ⟨by decide, by decide, by decide, by decide, .inl rfl⟩
    · have hopening : ∀ c ∈ charLiteral.opening.getLast?, glues c := by
        rintro c ⟨⟩
        rfl
      have hescape : ∀ c ∈ charLiteral.escape, glues c := by
        rintro c ⟨⟩
        rfl
      exact ⟨by decide, by decide, by decide, by decide, .inr ⟨rfl, hopening, hescape⟩⟩
    · have hmark : ' ' ∉ ['/', '/'] := by decide
      exact hmark
    · have hmark : ' ' ∉ ['\\', '\\'] := by decide
      exact hmark
    · have hmarks : ' ' ∉ blockComment.opening ∧ ' ' ∉ blockComment.closing ∧
          blockComment.escape ≠ some ' ' := by decide
      exact hmarks

/-- A space parts a line of Zig. If the text in front of it leaves nothing open, has no more spans
with a space behind it, and ends in no character that glues, then the line has the spans of that
text and behind them those of its rest as a line of its own, and it leaves what that rest
leaves. -/
theorem classify_append_space (words : List (Text × Category)) {state : LineState} {t u : Text}
    (ht : '\n' ∉ t) (hu : '\n' ∉ u) (hstate : state = .normal ∨ state = .inside blockComment.id)
    (hspace : u = [] ∨ u.head? = some ' ') (hquote : t.getLast? ≠ some '\'')
    (hbackslash : t.getLast? ≠ some '\\') :
    let l := language.addKeywords words
    ∃ c d e, l.classify state t = .ok c ∧ l.classify state (t ++ [' ']) = .ok d ∧
      l.classify .normal u = .ok e ∧
      (c.after = .normal → d.spans = c.spans →
        l.classify state (t ++ u) =
          .ok ⟨c.spans ++ e.spans.map (Span.shift t.byteSize), e.after⟩) := by
  intro l
  have hrules : l.lexicon.rules = rules := language.rules_addKeywords words
  have hshort : '\n' ∉ t ++ [' '] := by simp [ht]
  obtain ⟨x, hx⟩ := exists_lex hrules ht hstate
  obtain ⟨y, hy⟩ := exists_lex hrules hshort hstate
  have hc := Lexicon.classify_eq_ok hx
  have hd := Lexicon.classify_eq_ok hy
  obtain ⟨e, he⟩ : ∃ e, l.lexicon.classify .normal u = .ok e := ⟨_, Lexicon.classify_normal hu⟩
  refine ⟨_, _, e, congrArg (Except.mapError _) hc, congrArg (Except.mapError _) hd,
    congrArg (Except.mapError _) he, fun hafter hspans => ?_⟩
  have hlast : ∀ c ∈ t.getLast?, ¬ glues c := by
    intro c hc hglues
    rcases glues_iff.1 hglues with rfl | rfl
    · exact hquote hc
    · exact hbackslash hc
  cases u with
  | nil =>
    have hnil : l.lexicon.classify .normal [] = .ok ⟨[], .normal⟩ := by
      rw [Lexicon.classify_normal hu, Lexicon.scan]
      rfl
    cases he.symm.trans hnil
    rw [List.append_nil, List.map_nil, List.append_nil, ← hafter]
    exact congrArg (Except.mapError _) hc
  | cons a u =>
    obtain rfl : a = ' ' := by simpa using hspace
    have hnewline : '\n' ∉ t ++ ' ' :: u := fun h => (List.mem_append.1 h).elim ht hu
    obtain ⟨e', he', hline⟩ :=
      Lexicon.classify_append_cons (separatedBy_space hrules) hnewline hlast hc hafter hd hspans
    cases he.symm.trans he'
    exact congrArg (Except.mapError _) hline

theorem classify_append_space_reopened :
    let l := language.addKeywords [(['e', '2'], .type)]
    let state := LineState.inside blockComment.id
    let t : Text := ['*', '/', '\'', 'a', '\'', '1', '.', '0', 'e', '-', '5']
    let u : Text := [' ', '\'', '/', '*']
    ∃ c e, l.classify state t = .ok c ∧ l.classify .normal u = .ok e ∧
      l.classify state (t ++ u) =
        .ok ⟨c.spans ++ e.spans.map (Span.shift t.byteSize), e.after⟩ ∧
      c.spans = [⟨0, 2, .comment⟩, ⟨2, 5, .char⟩, ⟨5, 11, .number⟩] ∧
      e = ⟨[⟨2, 4, .comment⟩], .inside blockComment.id⟩ := by
  intro l state t u
  have hafter : (l.classify state t).map ClassifiedLine.after = .ok .normal := by decide +kernel
  have hspans : (l.classify state (t ++ [' '])).map ClassifiedLine.spans =
      (l.classify state t).map ClassifiedLine.spans := by decide +kernel
  obtain ⟨c, d, e, hc, hd, he, hline⟩ := classify_append_space (t := t) (u := u)
    [(['e', '2'], .type)] (by decide) (by decide) (.inr rfl) (.inr rfl) (by decide) (by decide)
  have hpinned : (l.classify state t).map ClassifiedLine.spans =
      .ok [⟨0, 2, .comment⟩, ⟨2, 5, .char⟩, ⟨5, 11, .number⟩] := by decide +kernel
  have hrest : l.classify .normal u = .ok ⟨[⟨2, 4, .comment⟩], .inside blockComment.id⟩ := by
    decide +kernel
  rw [hc] at hafter hpinned
  rw [hc, hd] at hspans
  exact ⟨c, e, hc, he, hline (Except.ok.inj hafter) (Except.ok.inj hspans),
    Except.ok.inj hpinned, Except.ok.inj (he.symm.trans hrest)⟩

end Highlight.Zig
