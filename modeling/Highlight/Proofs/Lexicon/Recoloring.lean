import Highlight.Proofs.Lexicon.States
import Highlight.Proofs.Lexicon.Words
import Mathlib.Data.List.Forall2

/-!
# Keywords recolor their own words

How many characters a step takes does not depend on the keywords, and of its verdict they decide
only where it is a plain word (`step_keywords`). So two tables of keywords cut a line at the same
places and leave it in the same state, and where their spans differ the text is a word that the
tables put into different categories (`classify_recolors`). The same holds line by line for whole
documents (`getElem?_recordsFrom_recolors`).
-/

namespace Highlight

/-- The text under a span is a word that has the category of the span by one table of keywords
and not by the other. -/
def Span.IsOwnWord (keywords others : Table Text Category) (line : Text) (s : Span) : Prop :=
  ∃ word, line.slice? s.start s.stop = some word ∧ IsWord word [] ∧
    keywords.get? word = some s.category ∧ others.get? word ≠ some s.category

/-- Two classifications of a line differ only in words that two tables of keywords know
differently. -/
structure ClassifiedLine.Recolors (keywords others : Table Text Category) (line : Text)
    (c d : ClassifiedLine) : Prop where
  after : c.after = d.after
  left : ∀ s ∈ c.spans, s ∉ d.spans → s.IsOwnWord keywords others line
  right : ∀ s ∈ d.spans, s ∉ c.spans → s.IsOwnWord others keywords line

variable {keywords others : Table Text Category} {line : Text}

theorem ClassifiedLine.Recolors.mem_iff {c d : ClassifiedLine}
    (h : Recolors keywords others line c d) {s : Span}
    (hs : ∀ word, line.slice? s.start s.stop = some word → keywords.get? word = others.get? word) :
    s ∈ c.spans ↔ s ∈ d.spans := by
  constructor
  · intro hc
    by_contra hd
    obtain ⟨word, hword, -, hmine, hother⟩ := h.left s hc hd
    exact hother ((hs word hword).symm.trans hmine)
  · intro hd
    by_contra hc
    obtain ⟨word, hword, -, hmine, hother⟩ := h.right s hd hc
    exact hother ((hs word hword).trans hmine)

def Verdict.ofKeyword (keywords : Table Text Category) (word : Text) : Verdict :=
  (keywords.get? word).elim .plain .span

@[simp] theorem Verdict.category?_ofKeyword (keywords : Table Text Category) (word : Text) :
    (ofKeyword keywords word).category? = keywords.get? word := by
  unfold ofKeyword
  cases keywords.get? word <;> rfl

@[simp] theorem Verdict.stateAfter_ofKeyword (keywords : Table Text Category) (word : Text) :
    (ofKeyword keywords word).stateAfter = .normal := by
  unfold ofKeyword
  cases keywords.get? word <;> rfl

namespace Lexeme

inductive Recolors (keywords others : Table Text Category) : Lexeme → Lexeme → Prop
  | same (l : Lexeme) : Recolors keywords others l l
  | word {word rest : Text} (h : IsWord word rest) :
      Recolors keywords others ⟨word, .ofKeyword keywords word⟩ ⟨word, .ofKeyword others word⟩

variable {l l' : Lexeme} {ls ls' : List Lexeme}

theorem Recolors.symm (h : Recolors keywords others l l') : Recolors others keywords l' l := by
  cases h with
  | same => exact .same l
  | word h => exact .word h

theorem Recolors.piece_eq (h : Recolors keywords others l l') : l.piece = l'.piece := by
  cases h with
  | same => rfl
  | word => rfl

theorem Recolors.stateAfter_eq (h : Recolors keywords others l l') :
    l.verdict.stateAfter = l'.verdict.stateAfter := by
  cases h with
  | same => rfl
  | word => simp

theorem stateAfter_eq_of_recolors (h : List.Forall₂ (Recolors keywords others) ls ls') :
    stateAfter ls = stateAfter ls' := by
  induction h with
  | nil => rfl
  | cons hl hls ih =>
    cases hls with
    | nil => exact hl.stateAfter_eq
    | cons => exact ih

theorem Stands.exists_recolors {before after : Text} (hs : Stands ls before l after)
    (h : List.Forall₂ (Recolors keywords others) ls ls') :
    ∃ l' after', Recolors keywords others l l' ∧ Stands ls' before l' after' := by
  induction hs generalizing ls' with
  | here l ls =>
    cases h with
    | cons hl _ => exact ⟨_, _, hl, .here _ _⟩
  | behind k _ ih =>
    cases h with
    | cons hk hls =>
      obtain ⟨l', after', hl, hs'⟩ := ih hls
      rw [hk.piece_eq]
      exact ⟨l', after', hl, .behind _ hs'⟩

theorem isOwnWord_of_recolors (h : List.Forall₂ (Recolors keywords others) ls ls') {s : Span}
    (hs : s ∈ spansFrom 0 ls) (hs' : s ∉ spansFrom 0 ls') :
    s.IsOwnWord keywords others (ls.map piece).flatten := by
  obtain ⟨before, l, after, hstands, hspan⟩ := mem_spansFrom_zero_iff.1 hs
  obtain ⟨l', after', hl, hstands'⟩ := hstands.exists_recolors h
  rw [hstands.flatten_eq]
  cases hl with
  | same => exact absurd (mem_spansFrom_zero_iff.2 ⟨before, l, after', hstands', hspan⟩) hs'
  | @word word rest hword =>
    rw [span?, Verdict.category?_ofKeyword] at hspan
    obtain ⟨c, hc, rfl⟩ := Option.map_eq_some_iff.1 hspan
    refine ⟨word, Text.slice?_append _ _ _, ⟨⟨hword.all, by simp⟩, hword.starts⟩, hc, ?_⟩
    intro hc'
    refine hs' (mem_spansFrom_zero_iff.2 ⟨before, _, after', hstands', ?_⟩)
    rw [span?, Verdict.category?_ofKeyword, hc']
    rfl

end Lexeme

namespace Lexicon

variable {rules : List Rule}

theorem step_keywords (rules : List Rule) (previous : Option Char) (t : Text) :
    (∃ s, ∀ keywords, (Lexicon.mk keywords rules).step previous t = s) ∨
      ∃ word rest, t = word ++ rest ∧ IsWord word rest ∧
        ∀ keywords, (Lexicon.mk keywords rules).step previous t =
          ⟨word.length, .ofKeyword keywords word⟩ := by
  simp only [step_eq_bracketed_getD]
  cases Step.bracketed? rules t with
  | some s => exact .inl ⟨s, fun _ => rfl⟩
  | none =>
  cases Step.number? rules previous t with
  | some s => exact .inl ⟨s, fun _ => rfl⟩
  | none =>
  cases Step.sigilWord? rules t with
  | some s => exact .inl ⟨s, fun _ => rfl⟩
  | none =>
  simp only [Option.none_or, Step.word?]
  by_cases hnil : leadingWord t = []
  · simp only [if_pos hnil]
    exact .inl ⟨Step.other t, fun _ => rfl⟩
  · simp only [if_neg hnil]
    cases Step.markedCategory? rules (t.drop (leadingWord t).length) with
    | some c => exact .inl ⟨⟨(leadingWord t).length, .span c⟩, fun _ => rfl⟩
    | none =>
      obtain ⟨rest, ht, hword⟩ := exists_isWord hnil
      exact .inr ⟨leadingWord t, rest, ht, hword, fun _ => rfl⟩

theorem forall₂_scan (keywords others : Table Text Category) (rules : List Rule)
    (previous : Option Char) (t : Text) :
    List.Forall₂ (Lexeme.Recolors keywords others)
      ((Lexicon.mk keywords rules).scan previous t) ((Lexicon.mk others rules).scan previous t) := by
  fun_induction scan (Lexicon.mk keywords rules) previous t with
  | case1 =>
    rw [scan]
    exact .nil
  | case2 previous c t s piece ih =>
    rw [scan]
    -- A hit and a miss among the keywords take the same piece.
    rcases step_keywords rules previous (c :: t) with ⟨s', hs⟩ | ⟨word, rest, ht, hword, hs⟩
    · have hsame : (Lexicon.mk others rules).step previous (c :: t) = s :=
        (hs others).trans (hs keywords).symm
      rw [hsame]
      exact .cons (.same _) ih
    · have hmine : s = ⟨word.length, .ofKeyword keywords word⟩ := hs keywords
      have hother : (Lexicon.mk others rules).step previous (c :: t) =
          ⟨s.length, .ofKeyword others word⟩ := by rw [hs others, hmine]
      have hpiece : piece = word := by simp only [piece, hmine, ht, List.take_left]
      have hhead : Lexeme.Recolors keywords others ⟨piece, s.verdict⟩
          ⟨piece, .ofKeyword others word⟩ := by
        rw [hpiece, hmine]
        exact .word hword
      rw [hother]
      exact .cons hhead ih

theorem lex_recolors (others : Table Text Category) {before : LineState} {x : LexedLine}
    (hx : (Lexicon.mk keywords rules).lex before line = .ok x) :
    ∃ y, (Lexicon.mk others rules).lex before line = .ok y ∧
      List.Forall₂ (Lexeme.Recolors keywords others) x.lexemes y.lexemes ∧ x.after = y.after := by
  unfold lex at hx ⊢
  split at hx
  · cases hx
  · next ht =>
    rw [if_neg ht]
    split at hx
    · cases hx
      have hscan := forall₂_scan keywords others rules none line
      exact ⟨_, rfl, hscan, Lexeme.stateAfter_eq_of_recolors hscan⟩
    · next id =>
      dsimp only at hx ⊢
      cases hr : findRegion? rules id with
      | none =>
        rw [hr] at hx
        cases hx
      | some r =>
        rw [hr] at hx
        dsimp only at hx ⊢
        cases hn : r.findEnd line with
        | some n =>
          rw [hn] at hx
          cases hx
          have hscan := forall₂_scan keywords others rules (line.take n).getLast? (line.drop n)
          have hlexemes := hscan.cons (.same ⟨line.take n, .span r.category⟩)
          exact ⟨_, rfl, hlexemes, Lexeme.stateAfter_eq_of_recolors hlexemes⟩
        | none =>
          rw [hn] at hx
          cases hx
          exact ⟨_, rfl, List.forall₂_same.2 fun l _ => .same l, rfl⟩

theorem classify_recolors (others : Table Text Category) {before : LineState} {c : ClassifiedLine}
    (hc : (Lexicon.mk keywords rules).classify before line = .ok c) :
    ∃ d, (Lexicon.mk others rules).classify before line = .ok d ∧
      c.Recolors keywords others line d := by
  obtain ⟨x, hx, rfl⟩ := exists_lex_of_classify hc
  obtain ⟨y, hy, hlexemes, hafter⟩ := lex_recolors others hx
  refine ⟨_, classify_eq_ok hy, hafter, ?_, ?_⟩
  · intro s hs hs'
    rw [← (pieces_lex hx).1]
    exact Lexeme.isOwnWord_of_recolors hlexemes hs hs'
  · intro s hs hs'
    rw [← (pieces_lex hy).1]
    exact Lexeme.isOwnWord_of_recolors (hlexemes.flip.imp fun _ _ h => h.symm) hs hs'

end Lexicon

def LineRecord.classified (r : LineRecord) : ClassifiedLine := ⟨r.spans, r.after⟩

namespace Language

variable {l l' : Language}

theorem record_recolors (h : l.lexicon.rules = l'.lexicon.rules) (state : LineState) (t : Text) :
    (l.record state t).classified.Recolors l.lexicon.keywords l'.lexicon.keywords t
      (l'.record state t).classified := by
  have hrules : l'.lexicon = Lexicon.mk l'.lexicon.keywords l.lexicon.rules := by rw [h]
  cases hc : l.lexicon.classify state t with
  | ok c =>
    obtain ⟨d, hd, hrecolors⟩ := Lexicon.classify_recolors l'.lexicon.keywords hc
    rw [← hrules] at hd
    rw [record_of_ok hc, record_of_ok hd]
    exact hrecolors
  | error e =>
    have he : l'.lexicon.classify state t = .error e := by
      rw [Lexicon.classify_eq_error_iff, ← h]
      exact Lexicon.classify_eq_error_iff.1 hc
    rw [record_of_error hc, record_of_error he]
    exact ⟨rfl, by simp [LineRecord.classified], by simp [LineRecord.classified]⟩

theorem getElem?_recordsFrom_recolors (h : l.lexicon.rules = l'.lexicon.rules) (state : LineState)
    {ts : List Text} {n : Nat} {t : Text} (ht : ts[n]? = some t) :
    ∃ r r', (l.recordsFrom state ts)[n]? = some r ∧ (l'.recordsFrom state ts)[n]? = some r' ∧
      r.before = r'.before ∧
      r.classified.Recolors l.lexicon.keywords l'.lexicon.keywords t r'.classified := by
  induction ts generalizing state n with
  | nil => cases ht
  | cons u ts ih =>
    have hrecolors := record_recolors h state u
    cases n with
    | zero =>
      cases ht
      refine ⟨_, _, rfl, rfl, ?_, hrecolors⟩
      rw [record_before, record_before]
    | succ n =>
      have hafter : (l.record state u).after = (l'.record state u).after := hrecolors.after
      rw [recordsFrom, recordsFrom, List.getElem?_cons_succ, List.getElem?_cons_succ, ← hafter]
      exact ih (l.record state u).after ht

end Language

end Highlight
