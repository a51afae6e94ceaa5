import Highlight.Proofs.Lexicon.Places
import Highlight.Proofs.Pattern.Alphabet
import Highlight.Proofs.Pattern.Grouping

/-!
# Where the literal of a number begins

A number reaches from its place to the end of the leftmost match behind it, so it takes the text
in front of that match too (`lengthAt?_eq_some_iff`). Nothing is skipped if each alternative of
the pattern starts with the anchor (`neverSkips_of_isAnchored`). The caret of a text that starts
with one is that of the first alternative only, and the other ones may be found later. All of this
holds of every pattern, whatever text it was read from; the reader covers a fragment of the syntax.
-/

namespace Highlight

namespace Pattern

def isAnchored : Pattern → Bool
  | atStart => true
  | seq p q => p.isAnchored || q.isAnchored
  | alt p q => p.isAnchored && q.isAnchored
  | empty | one _ | atEnd | star _ => false

/-- No match begins later than the text. -/
def NeverSkips (p : Pattern) : Prop := ∀ {t start stop}, p.find? t = some (start, stop) → start = 0

/-- Behind an offset, the text in front of the leftmost match and the literal that is matched. -/
def FoundAt (p : Pattern) (t : Text) (pos : Nat) (skipped literal : Text) : Prop :=
  ∃ before after, t = before ++ (skipped ++ (literal ++ after)) ∧ pos = Text.byteSize before ∧
    p.find? (skipped ++ (literal ++ after)) =
      some (skipped.length, skipped.length + literal.length)

def MatchedAt (p : Pattern) (t : Text) (pos n : Nat) : Prop :=
  ∃ literal, p.FoundAt t pos [] literal ∧ n = Text.byteSize literal

variable {p : Pattern} {s e : Cursor} {t : Text} {pos n : Nat}

theorem ends_of_isAnchored (hp : p.isAnchored) (hs : 0 < s.1) : p.ends s = [] := by
  induction p generalizing s with
  | atStart => exact if_neg (Nat.ne_of_gt hs)
  | seq p q ihp ihq =>
    rcases Bool.or_eq_true_iff.1 hp with hp | hq
    · rw [ends, ihp hp hs, List.flatMap_nil]
    · refine List.flatMap_eq_nil_iff.2 fun m hm => ihq hq ?_
      obtain ⟨u, -, hn, -⟩ := exists_reads_of_mem_ends hm
      omega
  | alt p q ihp ihq =>
    obtain ⟨hp, hq⟩ := Bool.and_eq_true_iff.1 hp
    rw [ends, ihp hp hs, ihq hq hs, List.append_nil]
  | empty | one | atEnd | star => cases hp

theorem findFrom?_of_isAnchored (hp : p.isAnchored) (n : Nat) (t : Text) :
    p.findFrom? (n + 1) t = none := by
  induction t generalizing n with
  | nil => rw [findFrom?, ends_of_isAnchored hp (Nat.succ_pos n), List.head?_nil]
  | cons c t ih =>
    rw [findFrom?, ends_of_isAnchored hp (Nat.succ_pos n), List.head?_nil]
    exact ih (n + 1)

theorem neverSkips_of_isAnchored (hp : p.isAnchored) : p.NeverSkips := by
  intro t start stop h
  unfold find? findFrom? at h
  split at h
  · cases h
    rfl
  · split at h
    · cases h
    · rw [findFrom?_of_isAnchored hp] at h
      cases h

theorem exists_parts {rest : Text} {start stop : Nat} (h : start ≤ stop) (hs : stop ≤ rest.length) :
    ∃ skipped literal after, rest = skipped ++ (literal ++ after) ∧ start = skipped.length ∧
      stop = skipped.length + literal.length := by
  refine ⟨rest.take start, (rest.drop start).take (stop - start),
    (rest.drop start).drop (stop - start), ?_, ?_, ?_⟩
  · rw [List.take_append_drop, List.take_append_drop]
  · rw [List.length_take]
    omega
  · rw [List.length_take, List.length_take, List.length_drop]
    omega

theorem lengthAt?_eq_some_iff : p.matcher.lengthAt? t pos = some n ↔
    ∃ skipped literal, p.FoundAt t pos skipped literal ∧
      n = Text.byteSize (skipped ++ literal) ∧ 0 < n := by
  have htake (u v w : Text) : (u ++ (v ++ w)).take (u.length + v.length) = u ++ v := by
    rw [← List.append_assoc, ← List.length_append, List.take_left]
  constructor
  · intro h
    obtain ⟨before, rest, rfl, rfl⟩ := Text.isBoundary_iff.1 (Matcher.isBoundary_of_lengthAt? h)
    rw [Matcher.lengthAt?_append, Option.map_eq_some_iff] at h
    obtain ⟨stop, hreach, rfl⟩ := h
    obtain ⟨start, hfind, hpos⟩ := Matcher.reach?_eq_some_iff.1 hreach
    obtain ⟨hle, hlength⟩ := p.matcher.find?_bounds hfind
    obtain ⟨skipped, literal, after, rfl, rfl, rfl⟩ := exists_parts hle hlength
    rw [htake]
    refine ⟨skipped, literal, ⟨before, after, rfl, rfl, hfind⟩, rfl, Text.byteSize_pos ?_⟩
    rwa [← List.length_pos_iff, List.length_append]
  · rintro ⟨skipped, literal, ⟨before, after, rfl, rfl, hfind⟩, rfl, hpos⟩
    have hne : skipped ++ literal ≠ [] := fun hnil => by
      rw [hnil] at hpos
      cases hpos
    have hlength := List.length_pos_iff.2 hne
    rw [List.length_append] at hlength
    rw [Matcher.lengthAt?_append, Matcher.reach?_eq_some_iff.2 ⟨_, hfind, hlength⟩,
      Option.map_some, htake]

theorem FoundAt.find?_eq {before rest skipped literal : Text}
    (h : p.FoundAt (before ++ rest) (Text.byteSize before) skipped literal) :
    p.find? rest = some (skipped.length, skipped.length + literal.length) := by
  obtain ⟨before', after, ht, hpos, hfind⟩ := h
  -- An offset cuts a text in one way only.
  have hcut := Text.splitAt?_eq_some_iff.2 ⟨ht, hpos⟩
  rw [Text.splitAt?_byteSize] at hcut
  cases hcut
  exact hfind

theorem FoundAt.eq_nil {skipped literal : Text} (hp : p.NeverSkips)
    (h : p.FoundAt t pos skipped literal) : skipped = [] := by
  obtain ⟨before, after, -, -, hfind⟩ := h
  exact List.eq_nil_of_length_eq_zero (hp hfind)

theorem not_matchedAt_zero {start stop : Nat} (h : p.find? t = some (start + 1, stop)) :
    ¬ p.MatchedAt t 0 n := by
  rintro ⟨literal, hfound, -⟩
  cases h.symm.trans (@FoundAt.find?_eq p [] t [] literal hfound)

theorem matchedAt_iff_neverSkips :
    (∀ t pos n, p.matcher.lengthAt? t pos = some n → p.MatchedAt t pos n) ↔ p.NeverSkips := by
  constructor
  · intro h t start stop hfind
    obtain ⟨hle, hlength⟩ := p.matcher.find?_bounds hfind
    obtain ⟨skipped, literal, after, rfl, rfl, rfl⟩ := exists_parts hle hlength
    by_cases hnil : skipped ++ literal = []
    · rw [(List.append_eq_nil_iff.1 hnil).1, List.length_nil]
    · have hfound : p.FoundAt ([] ++ (skipped ++ (literal ++ after))) 0 skipped literal :=
        ⟨[], after, rfl, rfl, hfind⟩
      obtain ⟨_, hmatched, -⟩ :=
        h _ 0 _ (lengthAt?_eq_some_iff.2 ⟨skipped, literal, hfound, rfl, Text.byteSize_pos hnil⟩)
      have hsame := hfind.symm.trans (@FoundAt.find?_eq p [] _ [] _ hmatched)
      exact congrArg Prod.fst (Option.some.inj hsame)
  · intro hp t pos n h
    obtain ⟨skipped, literal, hfound, rfl, -⟩ := lengthAt?_eq_some_iff.1 h
    obtain rfl := hfound.eq_nil hp
    exact ⟨literal, hfound, rfl⟩

end Pattern

def Rule.category? : Rule → Option Category
  | toLineEnd _ c | sigilWord _ c | markedWord _ c => some c
  | region r => some r.category
  | delimited d => some d.category
  | numbers _ => none

/-- Only the rules of numbers give the category of numbers. -/
structure Lexicon.KeepsNumbers (lexicon : Lexicon) : Prop where
  rules : ∀ {r}, r ∈ lexicon.rules → r.category? ≠ some .number
  words : ∀ {word}, lexicon.keywords.get? word ≠ some .number

namespace Step

variable {rules : List Rule} {previous : Option Char} {t : Text} {s : Step} {c : Category}

theorem exists_rule_of_toLineEnd? (h : toLineEnd? rules t = some s) :
    ∃ r ∈ rules, r.category? = s.verdict.category? := by
  obtain ⟨r, hmem, hr⟩ := List.exists_of_findSome?_eq_some h
  cases r with
  | toLineEnd mark c =>
    dsimp only at hr
    split at hr
    · cases hr
      exact ⟨_, hmem, rfl⟩
    · cases hr
  | _ => cases hr

theorem exists_rule_of_region? (h : region? rules t = some s) :
    ∃ r ∈ rules, r.category? = s.verdict.category? := by
  obtain ⟨r, hmem, hr⟩ := List.exists_of_findSome?_eq_some h
  cases r with
  | region r =>
    dsimp only at hr
    split at hr
    · cases hr
    · split at hr
      · cases hr
        exact ⟨_, hmem, rfl⟩
      · cases hr
        exact ⟨_, hmem, rfl⟩
  | _ => cases hr

theorem exists_rule_of_delimited? (h : delimited? rules t = some s) :
    ∃ r ∈ rules, r.category? = s.verdict.category? := by
  obtain ⟨r, hmem, hr⟩ := List.exists_of_findSome?_eq_some h
  cases r with
  | delimited d =>
    obtain ⟨n, -, rfl⟩ := Option.map_eq_some_iff.1 hr
    exact ⟨_, hmem, rfl⟩
  | _ => cases hr

theorem exists_rule_of_sigilWord? (h : sigilWord? rules t = some s) :
    ∃ r ∈ rules, r.category? = s.verdict.category? := by
  obtain ⟨r, hmem, hr⟩ := List.exists_of_findSome?_eq_some h
  cases r with
  | sigilWord sigil c =>
    dsimp only at hr
    split at hr
    · cases hr
    · split at hr
      · cases hr
      · cases hr
        exact ⟨_, hmem, rfl⟩
  | _ => cases hr

theorem exists_rule_of_markedCategory? (h : markedCategory? rules t = some c) :
    ∃ r ∈ rules, r.category? = some c := by
  obtain ⟨r, hmem, hr⟩ := List.exists_of_findSome?_eq_some h
  cases r with
  | markedWord mark c =>
    dsimp only at hr
    split at hr
    · cases hr
      exact ⟨_, hmem, rfl⟩
    · cases hr
  | _ => cases hr

theorem category_word? {lexicon : Lexicon} (h : word? lexicon t = some s)
    (hc : s.verdict.category? = some c) :
    (∃ r ∈ lexicon.rules, r.category? = some c) ∨ ∃ word, lexicon.keywords.get? word = some c := by
  have hplain (o : Option Category) : (o.elim Verdict.plain .span).category? = o := by
    cases o with
    | none => rfl
    | some c => rfl
  simp only [word?] at h
  split at h
  · cases h
  · cases h
    rcases Option.or_eq_some_iff.1 ((hplain _).symm.trans hc) with hmarked | ⟨-, hword⟩
    · exact .inl (exists_rule_of_markedCategory? hmarked)
    · exact .inr ⟨_, hword⟩

theorem exists_numbers_of_number? (h : number? rules previous t = some s)
    (hc : s.verdict.category? = some c) : ∃ m, .numbers m ∈ rules ∧ m.reach? t = some s.length := by
  unfold number? at h
  split at h
  · obtain ⟨r, hmem, hr⟩ := List.exists_of_findSome?_eq_some h
    cases r with
    | numbers m =>
      obtain ⟨n, hn, rfl⟩ := Option.map_eq_some_iff.1 hr
      dsimp only at hc
      split at hc
      · next hglued =>
        refine ⟨m, hmem, ?_⟩
        simp only [if_pos hglued]
        exact hn
      · cases hc
    | _ => cases hr
  · cases h

end Step

namespace Lexicon

variable {lexicon : Lexicon} {previous : Option Char} {t : Text}

theorem number?_of_category (hx : lexicon.KeepsNumbers)
    (hc : (lexicon.step previous t).verdict.category? = some .number) :
    Step.number? lexicon.rules previous t = some (lexicon.step previous t) := by
  have hrule (h : ∃ r ∈ lexicon.rules,
      r.category? = (lexicon.step previous t).verdict.category?) : False := by
    obtain ⟨r, hmem, hr⟩ := h
    exact hx.rules hmem (hr.trans hc)
  rcases lexicon.step_cases previous t with h | h | h | h | h | h | h
  · exact (hrule (Step.exists_rule_of_toLineEnd? h)).elim
  · exact (hrule (Step.exists_rule_of_region? h)).elim
  · exact (hrule (Step.exists_rule_of_delimited? h)).elim
  · exact h
  · exact (hrule (Step.exists_rule_of_sigilWord? h)).elim
  · rcases Step.category_word? h hc with ⟨r, hmem, hr⟩ | ⟨word, hword⟩
    · exact absurd hr (hx.rules hmem)
    · exact absurd hword hx.words
  · rw [h, Step.verdict_other] at hc
    cases hc

theorem lengthAt?_of_mem_spans (hx : lexicon.KeepsNumbers) {state : LineState} {y : ClassifiedLine}
    (hy : lexicon.classify state t = .ok y) {s : Span} (hs : s ∈ y.spans)
    (hc : s.category = .number) :
    ∃ m, .numbers m ∈ lexicon.rules ∧ m.lengthAt? t s.start = some (s.stop - s.start) := by
  obtain ⟨x, hlex, rfl⟩ := exists_lex_of_classify hy
  obtain ⟨before, l, after, hstands, hspan⟩ := Lexeme.mem_spansFrom_zero_iff.1 hs
  obtain ⟨_, hcategory, rfl⟩ := Option.map_eq_some_iff.1 hspan
  obtain rfl := hc
  rcases stands_lex_cases hlex hstands with ⟨-, hcarries⟩ | hstep
  · obtain ⟨r, hmem, hr, -⟩ := hcarries.exists_region
    exact absurd (hr.symm.trans hcategory) (hx.rules hmem)
  · rw [← hstep.verdict] at hcategory
    obtain ⟨m, hmem, hreach⟩ :=
      Step.exists_numbers_of_number? (number?_of_category hx hcategory) hcategory
    refine ⟨m, hmem, ?_⟩
    rw [eq_append_of_stands hlex hstands, Matcher.lengthAt?_append, hreach, Option.map_some,
      hstep.piece, Nat.add_sub_cancel_left]

end Lexicon

namespace Pattern

/-- Numbers never take text in front of their literal exactly if no match of the pattern skips any.
That is so if all its alternatives are anchored, and so for a pattern that was read from a text which
reads by itself and does not start with a caret. The spans of numbers are literals then, and
otherwise each is a literal with the text that was skipped. -/
theorem lengthAt?_matchedAt_iff (p : Pattern) :
    (∀ t pos n, p.matcher.lengthAt? t pos = some n ↔
      ∃ skipped literal, p.FoundAt t pos skipped literal ∧
        n = Text.byteSize (skipped ++ literal) ∧ 0 < n) ∧
    ((∀ t pos n, p.matcher.lengthAt? t pos = some n → p.MatchedAt t pos n) ↔ p.NeverSkips) ∧
    (p.isAnchored → p.NeverSkips) ∧
    (∀ w : Text, ofText? w = some p → w.head? ≠ some '^' →
      (Reader.read? w.length {} [] w).isSome → p.isAnchored) ∧
    ∀ lexicon : Lexicon, lexicon.KeepsNumbers →
      (∀ m, .numbers m ∈ lexicon.rules → ∃ q : Pattern, m = q.matcher) →
      ∀ state t y, lexicon.classify state t = .ok y → ∀ s ∈ y.spans, s.category = .number →
        ∃ (q : Pattern) (skipped literal : Text), .numbers q.matcher ∈ lexicon.rules ∧
          q.FoundAt t s.start skipped literal ∧
          s.stop = s.start + Text.byteSize (skipped ++ literal) ∧ (q.NeverSkips → skipped = []) := by
  refine ⟨fun _ _ _ => lengthAt?_eq_some_iff, matchedAt_iff_neverSkips, neverSkips_of_isAnchored,
    ?_, ?_⟩
  · intro w hw hcaret hread
    obtain ⟨q, hq⟩ := Option.isSome_iff_exists.1 hread
    cases hw.symm.trans (ofText?_of_read? hq hcaret)
    rfl
  · intro lexicon hkeeps hnumbers state t y hy s hs hc
    obtain ⟨m, hm, hlength⟩ := Lexicon.lengthAt?_of_mem_spans hkeeps hy hs hc
    obtain ⟨q, rfl⟩ := hnumbers m hm
    obtain ⟨skipped, literal, hfound, hsize, hpos⟩ := lengthAt?_eq_some_iff.1 hlength
    exact ⟨q, skipped, literal, hm, hfound, by omega, fun hq => hfound.eq_nil hq⟩

theorem lengthAt?_matchedAt_iff_alternatives :
    let p := anchored (alt (char '1') (char '2'))
    ofText? ['1', '|', '2'] = some p ∧
      ∀ t pos n, p.matcher.lengthAt? t pos = some n → p.MatchedAt t pos n := by
  intro p
  have hw : ofText? ['1', '|', '2'] = some p := by decide
  obtain ⟨-, hiff, hskips, hread, -⟩ := lengthAt?_matchedAt_iff p
  exact ⟨hw, hiff.2 (hskips (hread _ hw (by decide) (by decide)))⟩

/-- The caret binds the first alternative only, so the other one is found later, and the number
takes the text in front of it. -/
theorem exists_lengthAt?_not_matchedAt :
    ∃ p, ofText? ['^', '1', '|', '2'] = some p ∧
      (p.matcher.lengthAt? ['x', '2'] 0 = some 2 ∧ ¬ p.MatchedAt ['x', '2'] 0 2) ∧
      (Lexicon.classify { rules := [.numbers p.matcher] } .normal ['0', '+', '2'] =
        .ok ⟨[⟨0, 3, .number⟩], .normal⟩ ∧ ¬ p.MatchedAt ['0', '+', '2'] 0 3) := by
  refine ⟨alt (seq atStart (char '1')) (char '2'), by decide, ⟨by decide, ?_⟩,
    by decide +kernel, ?_⟩
  · exact not_matchedAt_zero (show _ = some (0 + 1, 2) by decide)
  · exact not_matchedAt_zero (show _ = some (1 + 1, 3) by decide)

end Pattern

end Highlight
