import Highlight.Lexicon.Scan

/-!
# The pieces of a line

A scan cuts a line into pieces none of which is empty and which together are the line
(`flatten_scan`, `piece_ne_nil_of_mem_scan`). Their spans are therefore well formed, and
the check before spans are handed out never discards any (`classified_eq`). A region that
is open at the end of the line is always the last piece.
-/

namespace Highlight

theorem Text.take_length_of_after? {t mark : Text} (h : (t.after? mark).isSome) :
    t.take mark.length = mark := by
  obtain ⟨r, hr⟩ := Option.isSome_iff_exists.1 h
  rw [after?_eq_some_iff.1 hr, List.take_left]

namespace Step

theorem verdict_toLineEnd? {rules : List Rule} {t : Text} {s : Step}
    (h : toLineEnd? rules t = some s) : ∃ c, s.verdict = .span c := by
  obtain ⟨r, _, hr⟩ := List.exists_of_findSome?_eq_some h
  cases r with
  | toLineEnd mark c =>
    obtain ⟨-, rfl⟩ : _ ∧ (⟨t.length, .span c⟩ : Step) = s := by simpa using hr
    exact ⟨c, rfl⟩
  | _ => cases hr

theorem length_region?_of_unclosed {rules : List Rule} {t : Text} {s : Step} {c : Category}
    {id : RegionId} (h : region? rules t = some s) (hv : s.verdict = .unclosed c id) :
    s.length = t.length := by
  obtain ⟨r, _, hr⟩ := List.exists_of_findSome?_eq_some h
  cases r with
  | region r =>
    simp only at hr
    split at hr
    · cases hr
    · split at hr
      · cases hr
        cases hv
      · cases hr
        rfl
  | _ => cases hr

theorem verdict_delimited? {rules : List Rule} {t : Text} {s : Step}
    (h : delimited? rules t = some s) : ∃ c, s.verdict = .span c := by
  obtain ⟨r, _, hr⟩ := List.exists_of_findSome?_eq_some h
  cases r with
  | delimited d =>
    obtain ⟨n, -, rfl⟩ := Option.map_eq_some_iff.1 hr
    exact ⟨d.category, rfl⟩
  | _ => cases hr

theorem verdict_number? {rules : List Rule} {previous : Option Char} {t : Text} {s : Step}
    (h : number? rules previous t = some s) : s.verdict = .plain ∨ s.verdict = .span .number := by
  unfold number? at h
  split at h
  · obtain ⟨r, _, hr⟩ := List.exists_of_findSome?_eq_some h
    cases r with
    | numbers m =>
      obtain ⟨n, -, rfl⟩ := Option.map_eq_some_iff.1 hr
      dsimp only
      split
      · exact Or.inr rfl
      · exact Or.inl rfl
    | _ => cases hr
  · cases h

theorem verdict_sigilWord? {rules : List Rule} {t : Text} {s : Step}
    (h : sigilWord? rules t = some s) : ∃ c, s.verdict = .span c := by
  obtain ⟨r, _, hr⟩ := List.exists_of_findSome?_eq_some h
  cases r with
  | sigilWord sigil c =>
    simp only at hr
    split at hr
    · cases hr
    · split at hr
      · cases hr
      · cases hr
        exact ⟨c, rfl⟩
  | _ => cases hr

theorem verdict_word? {lexicon : Lexicon} {t : Text} {s : Step} (h : word? lexicon t = some s) :
    s.verdict = .plain ∨ ∃ c, s.verdict = .span c := by
  unfold word? at h
  simp only at h
  split at h
  · cases h
  · cases h
    dsimp only
    cases (markedCategory? lexicon.rules (t.drop (leadingWord t).length)).or
        (lexicon.keywords.get? (leadingWord t)) with
    | none => exact Or.inl rfl
    | some c => exact Or.inr ⟨c, rfl⟩

theorem verdict_other (t : Text) : (other t).verdict = .plain := by
  unfold other
  split <;> rfl

end Step

namespace Lexicon

theorem step_cases (lexicon : Lexicon) (previous : Option Char) (t : Text) :
    Step.toLineEnd? lexicon.rules t = some (lexicon.step previous t) ∨
    Step.region? lexicon.rules t = some (lexicon.step previous t) ∨
    Step.delimited? lexicon.rules t = some (lexicon.step previous t) ∨
    Step.number? lexicon.rules previous t = some (lexicon.step previous t) ∨
    Step.sigilWord? lexicon.rules t = some (lexicon.step previous t) ∨
    Step.word? lexicon t = some (lexicon.step previous t) ∨
    lexicon.step previous t = Step.other t := by
  unfold step
  cases Step.toLineEnd? lexicon.rules t with
  | some s => exact Or.inl rfl
  | none =>
  right
  cases Step.region? lexicon.rules t with
  | some s => exact Or.inl rfl
  | none =>
  right
  cases Step.delimited? lexicon.rules t with
  | some s => exact Or.inl rfl
  | none =>
  right
  cases Step.number? lexicon.rules previous t with
  | some s => exact Or.inl rfl
  | none =>
  right
  cases Step.sigilWord? lexicon.rules t with
  | some s => exact Or.inl rfl
  | none =>
  right
  cases Step.word? lexicon t with
  | some s => exact Or.inl rfl
  | none => exact Or.inr rfl

theorem region?_of_unclosed {lexicon : Lexicon} {previous : Option Char} {t : Text}
    {c : Category} {id : RegionId} (hv : (lexicon.step previous t).verdict = .unclosed c id) :
    Step.region? lexicon.rules t = some (lexicon.step previous t) := by
  rcases lexicon.step_cases previous t with h | h | h | h | h | h | h
  · obtain ⟨d, hd⟩ := Step.verdict_toLineEnd? h
    cases hd.symm.trans hv
  · exact h
  · obtain ⟨d, hd⟩ := Step.verdict_delimited? h
    cases hd.symm.trans hv
  · rcases Step.verdict_number? h with hd | hd
    · cases hd.symm.trans hv
    · cases hd.symm.trans hv
  · obtain ⟨d, hd⟩ := Step.verdict_sigilWord? h
    cases hd.symm.trans hv
  · rcases Step.verdict_word? h with hd | ⟨d, hd⟩
    · cases hd.symm.trans hv
    · cases hd.symm.trans hv
  · rw [h] at hv
    cases (Step.verdict_other t).symm.trans hv

theorem length_step_of_unclosed {lexicon : Lexicon} {previous : Option Char} {t : Text}
    {c : Category} {id : RegionId} (hv : (lexicon.step previous t).verdict = .unclosed c id) :
    (lexicon.step previous t).length = t.length :=
  Step.length_region?_of_unclosed (region?_of_unclosed hv) hv

theorem take_step_ne_nil (lexicon : Lexicon) (previous : Option Char) {t : Text} (ht : t ≠ []) :
    t.take (lexicon.step previous t).length ≠ [] := by
  have hpos := lexicon.step_length_pos previous ht
  have hlen := List.length_pos_iff.2 ht
  refine List.length_pos_iff.1 ?_
  rw [List.length_take]
  omega

theorem flatten_scan (lexicon : Lexicon) (previous : Option Char) (t : Text) :
    ((lexicon.scan previous t).map Lexeme.piece).flatten = t := by
  fun_induction scan lexicon previous t with
  | case1 => rfl
  | case2 previous c t s piece ih =>
    rw [List.map_cons, List.flatten_cons, ih]
    exact List.take_append_drop s.length (c :: t)

theorem piece_ne_nil_of_mem_scan {lexicon : Lexicon} {previous : Option Char} {t : Text}
    {l : Lexeme} (h : l ∈ lexicon.scan previous t) : l.piece ≠ [] := by
  fun_induction scan lexicon previous t with
  | case1 => cases h
  | case2 previous c t s piece ih =>
    rcases List.mem_cons.1 h with rfl | h
    · exact lexicon.take_step_ne_nil previous (List.cons_ne_nil c t)
    · exact ih h

end Lexicon

namespace Lexeme

theorem wellFormedFrom_spansFrom {t : Text} {ls : List Lexeme} {pos : Nat} (before after : Text)
    (ht : t = before ++ (ls.map piece).flatten ++ after) (hne : ∀ l ∈ ls, l.piece ≠ [])
    (hpos : pos ≤ before.byteSize) :
    Span.WellFormedFrom t pos (spansFrom before.byteSize ls) := by
  induction ls generalizing before pos with
  | nil => trivial
  | cons l ls ih =>
    have hl := Text.byteSize_pos (hne l List.mem_cons_self)
    have hsize := Text.byteSize_append before l.piece
    have htail : t = (before ++ l.piece) ++ (ls.map piece).flatten ++ after := by
      rw [ht, List.map_cons, List.flatten_cons]
      simp only [List.append_assoc]
    have hrest : ∀ pos ≤ (before ++ l.piece).byteSize, Span.WellFormedFrom t pos
        (spansFrom (before.byteSize + l.piece.byteSize) ls) := by
      intro pos hpos
      rw [← hsize]
      exact ih (before ++ l.piece) htail (fun l' h => hne l' (List.mem_cons_of_mem l h)) hpos
    have hstart : t.IsBoundary before.byteSize := by
      refine Text.isBoundary_iff.2 ⟨before, (List.map piece (l :: ls)).flatten ++ after, ?_, rfl⟩
      rw [ht, List.append_assoc]
    have hstop : t.IsBoundary (before.byteSize + l.piece.byteSize) := by
      refine Text.isBoundary_iff.2 ⟨before ++ l.piece, (ls.map piece).flatten ++ after, ?_, hsize.symm⟩
      rw [htail, List.append_assoc (before ++ l.piece)]
    unfold spansFrom
    dsimp only
    split
    · exact ⟨hpos, Nat.lt_add_of_pos_right hl, hstart, hstop, hrest _ (Nat.le_of_eq hsize.symm)⟩
    · refine hrest pos ?_
      omega

theorem stateAfter_cons {l : Lexeme} (h : l.verdict.stateAfter = .normal) (ls : List Lexeme) :
    stateAfter (l :: ls) = stateAfter ls := by
  cases ls with
  | nil => exact h
  | cons m ls => rfl

end Lexeme

theorem take_findEnd_ne_nil {r : Region} {t : Text} {n : Nat} (h : r.findEnd t = some n) :
    t.take n ≠ [] := by
  have hn := findClosing_ge h
  have hc := List.length_pos_iff.2 r.closing_ne_nil
  cases t with
  | nil => cases h
  | cons c t =>
    refine List.length_pos_iff.1 ?_
    rw [List.length_take, List.length_cons]
    omega

namespace Lexicon

theorem pieces_lex {lexicon : Lexicon} {before : LineState} {t : Text} {l : LexedLine}
    (h : lexicon.lex before t = .ok l) :
    (l.lexemes.map Lexeme.piece).flatten = t ∧ ∀ x ∈ l.lexemes, x.piece ≠ [] := by
  unfold lex at h
  split at h
  · cases h
  · split at h
    · cases h
      exact ⟨lexicon.flatten_scan none t, fun x hx => piece_ne_nil_of_mem_scan hx⟩
    · split at h
      · cases h
      · split at h
        · next n hn =>
          cases h
          refine ⟨?_, ?_⟩
          · dsimp only
            rw [List.map_cons, List.flatten_cons, flatten_scan]
            exact List.take_append_drop n t
          · intro x hx
            rcases List.mem_cons.1 hx with rfl | hx
            · exact take_findEnd_ne_nil hn
            · exact piece_ne_nil_of_mem_scan hx
        · cases h
          by_cases ht : t = []
          · rw [if_pos ht, ht]
            exact ⟨rfl, by simp⟩
          · rw [if_neg ht]
            refine ⟨by simp, ?_⟩
            intro x hx
            rw [List.mem_singleton.1 hx]
            exact ht

/-- No span of a line is ever discarded. -/
theorem classified_eq {lexicon : Lexicon} {before : LineState} {t : Text} {l : LexedLine}
    (h : lexicon.lex before t = .ok l) :
    Span.WellFormed t (Lexeme.spansFrom 0 l.lexemes) ∧
      l.classified t = ⟨Lexeme.spansFrom 0 l.lexemes, l.after⟩ := by
  obtain ⟨hflat, hne⟩ := pieces_lex h
  have hwf : Span.WellFormed t (Lexeme.spansFrom 0 l.lexemes) := by
    refine Lexeme.wellFormedFrom_spansFrom [] [] ?_ hne (Nat.le_refl 0)
    rw [hflat, List.nil_append, List.append_nil]
  refine ⟨hwf, ?_⟩
  rw [LexedLine.classified, if_pos hwf]

theorem classify_eq_ok {lexicon : Lexicon} {before : LineState} {t : Text} {l : LexedLine}
    (h : lexicon.lex before t = .ok l) :
    lexicon.classify before t = .ok ⟨Lexeme.spansFrom 0 l.lexemes, l.after⟩ := by
  rw [classify, h, Except.map, (classified_eq h).2]

theorem exists_lex_of_classify {lexicon : Lexicon} {before : LineState} {t : Text}
    {c : ClassifiedLine} (h : lexicon.classify before t = .ok c) :
    ∃ l, lexicon.lex before t = .ok l ∧ c = ⟨Lexeme.spansFrom 0 l.lexemes, l.after⟩ := by
  cases hl : lexicon.lex before t with
  | error e =>
    rw [classify, hl] at h
    cases h
  | ok l =>
    rw [classify_eq_ok hl] at h
    cases h
    exact ⟨l, rfl, rfl⟩

theorem exists_lex_eq_ok (lexicon : Lexicon) {t : Text} {before : LineState} (hn : '\n' ∉ t)
    (hb : ∀ id, before = .inside id → (findRegion? lexicon.rules id).isSome) :
    ∃ l, lexicon.lex before t = .ok l := by
  unfold lex
  rw [if_neg hn]
  cases before with
  | normal => exact ⟨_, rfl⟩
  | inside id =>
    obtain ⟨r, hr⟩ := Option.isSome_iff_exists.1 (hb id rfl)
    dsimp only
    rw [hr]
    dsimp only
    cases r.findEnd t with
    | none => exact ⟨_, rfl⟩
    | some n => exact ⟨_, rfl⟩

end Lexicon

end Highlight
