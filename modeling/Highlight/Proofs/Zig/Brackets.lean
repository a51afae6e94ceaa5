import Highlight.Proofs.Lexicon.BracketsOnly
import Highlight.Proofs.Pattern.Alphabet
import Mathlib.Data.List.Basic

/-!
# Comments and strings of Zig

The brackets of Zig open with four characters, which stand in no number and in no word. So
neither its words and numbers nor any keyword that is added ever hide a comment or a string, or
begin one.
-/

namespace Highlight

theorem Language.rules_addKeywords (l : Language) (words : List (Text × Category)) :
    (l.addKeywords words).lexicon.rules = l.lexicon.rules := by
  unfold addKeywords
  induction words generalizing l with
  | nil => rfl
  | cons w words ih => exact ih (l.addKeyword w.1 w.2)

namespace Zig

def opensBracket (c : Char) : Bool := c = '/' || c = '\\' || c = '"' || c = '\''

theorem opensBracket_iff {c : Char} :
    opensBracket c ↔ c = '/' ∨ c = '\\' ∨ c = '"' ∨ c = '\'' := by
  simp only [opensBracket, Bool.or_eq_true, decide_eq_true_eq, or_assoc]

theorem numbers_mem_rules {m : Matcher} (h : .numbers m ∈ rules) :
    m = Pattern.standardNumber := by
  simpa [rules] using h

theorem sigilWord_mem_rules {sigil : Char} {c : Category} (h : .sigilWord sigil c ∈ rules) :
    sigil = '@' ∧ c = .preprocessorLike := by
  simpa [rules] using h

variable {lexicon : Lexicon}

theorem bracketsMarked (h : lexicon.rules = rules) : lexicon.BracketsMarked opensBracket where
  opening := by
    rw [h]
    intro r hr mark hmark
    simp only [rules, List.mem_cons, List.not_mem_nil, or_false] at hr
    rcases hr with rfl | rfl | rfl | rfl | rfl | rfl | rfl | rfl <;> cases hmark <;> rfl
  word := by
    intro c hc hopens
    rcases opensBracket_iff.1 hopens with rfl | rfl | rfl | rfl <;> cases hc
  number := by
    rw [h]
    intro m hm t n hn c hc hopens
    obtain rfl := numbers_mem_rules hm
    have hliteral := Pattern.contains_of_reach?_standardNumber hn c hc
    rcases opensBracket_iff.1 hopens with rfl | rfl | rfl | rfl <;> cases hliteral
  sigil := by
    rw [h]
    intro sigil c hsigil hopens
    obtain ⟨rfl, -⟩ := sigilWord_mem_rules hsigil
    cases hopens

theorem exists_lex (h : lexicon.rules = rules) {before : LineState} {t : Text} (ht : '\n' ∉ t)
    (hbefore : before = .normal ∨ before = .inside blockComment.id) :
    ∃ x, lexicon.lex before t = .ok x := by
  refine lexicon.exists_lex_eq_ok ht ?_
  rintro id rfl
  rcases hbefore with hnormal | hinside
  · cases hnormal
  · cases hinside
    rw [h]
    rfl

/-- Words and numbers never disturb comments and strings: a Zig that knows any further keywords
finds the same ones as a Zig that knows no word and no number, and leaves the line in the same
state. -/
theorem classify_bracketsOnly_addKeywords (words : List (Text × Category))
    {before : LineState} {t : Text} (ht : '\n' ∉ t)
    (hbefore : before = .normal ∨ before = .inside blockComment.id) :
    let l := language.addKeywords words
    ∃ c, l.classify before t = .ok c ∧
      l.bracketsOnly.classify before t = .ok (c.filter (Span.isBracket opensBracket before t)) := by
  intro l
  have hrules : l.lexicon.rules = rules := language.rules_addKeywords words
  obtain ⟨x, hx⟩ := exists_lex hrules ht hbefore
  have hc := Lexicon.classify_eq_ok hx
  refine ⟨_, congrArg (Except.mapError _) hc, ?_⟩
  exact congrArg (Except.mapError _) ((bracketsMarked hrules).classify_bracketsOnly hc)

theorem classify_bracketsOnly_addKeywords_glued :
    let l := language.addKeywords [(['g'], .type), (['e', '2'], .constant)]
    let t : Text := ['i', 'f', '*', '/', '1', '.', '0', 'e', '-', '5', 'g', '\'', '/', '\'', '/',
      '*', 'é', '"']
    '\n' ∉ t ∧ ∃ c, l.classify (.inside blockComment.id) t = .ok c ∧
      l.bracketsOnly.classify (.inside blockComment.id) t =
        .ok (c.filter (Span.isBracket opensBracket (.inside blockComment.id) t)) ∧
      c = ⟨[⟨0, 4, .comment⟩, ⟨11, 14, .char⟩, ⟨14, 19, .comment⟩], .inside blockComment.id⟩ := by
  intro l t
  have ht : '\n' ∉ t := by decide
  obtain ⟨c, hc, hbrackets⟩ :=
    classify_bracketsOnly_addKeywords [(['g'], .type), (['e', '2'], .constant)] ht (.inr rfl)
  have hpinned : l.classify (.inside blockComment.id) t =
      .ok ⟨[⟨0, 4, .comment⟩, ⟨11, 14, .char⟩, ⟨14, 19, .comment⟩], .inside blockComment.id⟩ := by
    decide +kernel
  exact ⟨ht, c, hc, hbrackets, Except.ok.inj (hc.symm.trans hpinned)⟩

end Zig

end Highlight
