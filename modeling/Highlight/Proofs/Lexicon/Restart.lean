import Highlight.Proofs.Lexicon.Carry
import Mathlib.Data.List.Basic

/-!
# Restarting behind a region

What a scan makes of a text depends on that text alone, apart from one question about what
stands in front of it: whether that is a word character (`scan_congr`). The place of the text
in its line only shifts the spans (`spansFrom_add`). So where a region that came in from the
line before is closed by a mark that ends in no word character, the rest of the line is
classified as if it were a line of its own.
-/

namespace Highlight

theorem Text.getLast?_append_of_ne_nil {u : Text} (h : u ≠ []) (t : Text) :
    (t ++ u).getLast? = u.getLast? := by
  rw [List.getLast?_append, List.getLast?_eq_some_getLast h, Option.some_or]

theorem closing_suffix_take {closing : Text} {escape : Option Char} {limit : Option Nat}
    {t : Text} {n : Nat} (h : findClosing closing escape limit t = some n) :
    closing <:+ t.take n := by
  fun_induction findClosing closing escape limit t generalizing n with
  | case1 => cases h
  | case2 l c hc =>
    cases h
    exact ⟨[], (Text.take_length_of_after? hc).symm⟩
  | case3 => cases h
  | case4 l c d t hc =>
    cases h
    exact ⟨[], (Text.take_length_of_after? hc).symm⟩
  | case5 => cases h
  | case6 l c d t _ _ _ ih =>
    obtain ⟨m, hm, rfl⟩ := Option.map_eq_some_iff.1 h
    exact (ih hm).trans (List.suffix_append [c, d] _)
  | case7 l c d t _ _ _ ih =>
    obtain ⟨m, hm, rfl⟩ := Option.map_eq_some_iff.1 h
    exact (ih hm).trans (List.suffix_cons c _)

theorem Region.getLast?_take_of_findEnd {r : Region} {t : Text} {n : Nat}
    (h : r.findEnd t = some n) : (t.take n).getLast? = r.closing.getLast? := by
  obtain ⟨body, hbody⟩ := closing_suffix_take h
  rw [← hbody, Text.getLast?_append_of_ne_nil r.closing_ne_nil]

namespace Lexeme

def span? (pos : Nat) (l : Lexeme) : Option Span :=
  l.verdict.category?.map (Span.mk pos (pos + l.piece.byteSize))

theorem spansFrom_cons (pos : Nat) (l : Lexeme) (ls : List Lexeme) :
    spansFrom pos (l :: ls) = (l.span? pos).toList ++ spansFrom (pos + l.piece.byteSize) ls := by
  rw [spansFrom, span?]
  cases l.verdict.category? with
  | none => rfl
  | some c => rfl

theorem spansFrom_append (pos : Nat) (ls ms : List Lexeme) :
    spansFrom pos (ls ++ ms) =
      spansFrom pos ls ++ spansFrom (pos + Text.byteSize (ls.map piece).flatten) ms := by
  induction ls generalizing pos with
  | nil => rfl
  | cons l ls ih =>
    rw [List.cons_append, spansFrom_cons, spansFrom_cons, ih, List.map_cons, List.flatten_cons,
      Text.byteSize_append, List.append_assoc, Nat.add_assoc]

theorem stateAfter_append (ls : List Lexeme) {ms : List Lexeme} (h : ms ≠ []) :
    stateAfter (ls ++ ms) = stateAfter ms := by
  rw [stateAfter, stateAfter, List.getLast?_append, List.getLast?_eq_some_getLast h,
    Option.some_or]

theorem spansFrom_add (n pos : Nat) (ls : List Lexeme) :
    spansFrom (n + pos) ls = (spansFrom pos ls).map (Span.shift n) := by
  induction ls generalizing pos with
  | nil => rfl
  | cons l ls ih =>
    rw [spansFrom_cons, spansFrom_cons, span?, span?, List.map_append, ← ih, Nat.add_assoc]
    cases l.verdict.category? with
    | none => rfl
    | some c => rfl

end Lexeme

namespace Lexicon

variable {lexicon : Lexicon} {previous previous' : Option Char}

theorem step_congr (h : previous.any isWordChar = previous'.any isWordChar) (t : Text) :
    lexicon.step previous t = lexicon.step previous' t := by
  have hnumber :
      Step.number? lexicon.rules previous t = Step.number? lexicon.rules previous' t := by
    rw [Step.number?, Step.number?, h]
  rw [step, step, hnumber]

theorem scan_congr (h : previous.any isWordChar = previous'.any isWordChar) (t : Text) :
    lexicon.scan previous t = lexicon.scan previous' t := by
  cases t with
  | nil => rw [scan, scan]
  | cons c t => rw [scan, scan, step_congr h]

theorem lex_normal {t : Text} (ht : '\n' ∉ t) :
    lexicon.lex .normal t =
      .ok ⟨lexicon.scan none t, Lexeme.stateAfter (lexicon.scan none t)⟩ := by
  rw [lex, if_neg ht]

theorem classify_normal {t : Text} (ht : '\n' ∉ t) :
    lexicon.classify .normal t = .ok ⟨Lexeme.spansFrom 0 (lexicon.scan none t),
      Lexeme.stateAfter (lexicon.scan none t)⟩ :=
  classify_eq_ok (lex_normal ht)

/-- A line in which a carried region ends, at a mark that ends in no word character, has the
span of that region and behind it the spans of its rest as a line of its own, shifted to
where the rest stands. It leaves what that rest leaves. -/
theorem classify_inside_restarts {id : RegionId} {r : Region} {t : Text} {e : Nat}
    (ht : '\n' ∉ t) (hr : findRegion? lexicon.rules id = some r) (he : r.endAt? t 0 = some e)
    (hclosing : ¬ r.closing.getLast?.any isWordChar) :
    ∃ region rest c, t.splitAt? e = some (region, rest) ∧ lexicon.classify .normal rest = .ok c ∧
      lexicon.classify (.inside id) t =
        .ok ⟨⟨0, e, r.category⟩ :: c.spans.map (Span.shift e), c.after⟩ := by
  rw [Region.endAt?_zero] at he
  obtain ⟨n, hn, rfl⟩ := Option.map_eq_some_iff.1 he
  have hrest : '\n' ∉ t.drop n := fun h => ht (List.mem_of_mem_drop h)
  have hscan : lexicon.scan (t.take n).getLast? (t.drop n) = lexicon.scan none (t.drop n) := by
    refine scan_congr ?_ (t.drop n)
    rw [Region.getLast?_take_of_findEnd hn]
    exact Bool.eq_false_iff.2 hclosing
  refine ⟨t.take n, t.drop n, _, ?_, classify_normal hrest, ?_⟩
  · exact Text.splitAt?_eq_some_iff.2 ⟨(List.take_append_drop n t).symm, rfl⟩
  · rw [classify_inside ht hr hn, hscan]
    dsimp only
    rw [← Lexeme.spansFrom_add, Nat.add_zero]

theorem classify_inside_restarts_reopened :
    let r : Region := ⟨['b'], ['<', '<'], ['é', '>'], some '\\', .string, ⟨2, by decide⟩,
      by decide, by decide⟩
    let lexicon : Lexicon := { rules := Zig.language.lexicon.rules ++ [.region r] }
    let t : Text := ['\\', 'é', '>', 'é', '>', '1', '0', ' ', '<', '<', 'i', 'f']
    findRegion? lexicon.rules r.id = some r ∧ r.endAt? t 0 = some 7 ∧
      ∃ region rest c, t.splitAt? 7 = some (region, rest) ∧
        lexicon.classify .normal rest = .ok c ∧
        lexicon.classify (.inside r.id) t =
          .ok ⟨⟨0, 7, .string⟩ :: c.spans.map (Span.shift 7), c.after⟩ ∧
        c = ⟨[⟨0, 2, .number⟩, ⟨3, 7, .string⟩], .inside r.id⟩ := by
  intro r lexicon t
  have hr : findRegion? lexicon.rules r.id = some r := rfl
  have he : r.endAt? t 0 = some 7 := by decide
  obtain ⟨region, rest, c, hsplit, hc, hline⟩ :=
    @classify_inside_restarts lexicon _ _ t _ (by decide) hr he (by decide)
  have hpinned : lexicon.classify .normal ['1', '0', ' ', '<', '<', 'i', 'f'] =
      .ok ⟨[⟨0, 2, .number⟩, ⟨3, 7, .string⟩], .inside r.id⟩ := by decide +kernel
  cases hsplit
  exact ⟨hr, he, _, _, c, rfl, hc, hline, Except.ok.inj (hc.symm.trans hpinned)⟩

end Lexicon

end Highlight
