import Highlight.Proofs.Lexicon.Restart

/-!
# The places of lexemes

A lexeme of a line stands between the text of the lexemes in front of it and that of those
behind it. Two places of one line are the same, or one lies wholly behind the other
(`Stands.trichotomy`), and each part of the line begins within the place of some lexeme
(`exists_stands_of_flatten_eq`). What a lexeme is can be told from its place: it is the step
of the lexicon there, or the rest of a region that was open in front of the line
(`stands_lex_cases`).
-/

namespace Highlight

def Span.Meets (s : Span) (start stop : Nat) : Prop := s.start < stop ∧ start < s.stop

theorem Text.byteSize_mono {t u : Text} (h : t <+: u) : t.byteSize ≤ u.byteSize := by
  obtain ⟨v, rfl⟩ := h
  rw [byteSize_append]
  exact Nat.le_add_right _ _

namespace Lexeme

/-- Among the lexemes of a line one stands between two texts. -/
inductive Stands : List Lexeme → Text → Lexeme → Text → Prop
  | here (l : Lexeme) (ls : List Lexeme) : Stands (l :: ls) [] l (ls.map piece).flatten
  | behind (k : Lexeme) {ls : List Lexeme} {before : Text} {l : Lexeme} {after : Text}
      (h : Stands ls before l after) : Stands (k :: ls) (k.piece ++ before) l after

variable {ls : List Lexeme} {before before' after after' : Text} {l l' : Lexeme}

theorem Stands.flatten_eq (h : Stands ls before l after) :
    (ls.map piece).flatten = before ++ (l.piece ++ after) := by
  induction h with
  | here l ls => rfl
  | behind k _ ih => rw [List.map_cons, List.flatten_cons, ih, List.append_assoc]

theorem Stands.mem (h : Stands ls before l after) : l ∈ ls := by
  induction h with
  | here l ls => exact List.mem_cons_self
  | behind k _ ih => exact List.mem_cons_of_mem k ih

theorem mem_spansFrom_iff {pos : Nat} {s : Span} :
    s ∈ spansFrom pos ls ↔
      ∃ before l after, Stands ls before l after ∧ l.span? (pos + before.byteSize) = some s := by
  induction ls generalizing pos with
  | nil =>
    constructor
    · intro hs
      cases hs
    · rintro ⟨_, _, _, h, -⟩
      cases h
  | cons k ls ih =>
    have hsize (before : Text) : pos + k.piece.byteSize + before.byteSize =
        pos + (k.piece ++ before).byteSize := by
      rw [Text.byteSize_append, Nat.add_assoc]
    rw [spansFrom_cons, List.mem_append, Option.mem_toList, ih]
    constructor
    · rintro (hs | ⟨before, l, after, h, hs⟩)
      · exact ⟨[], k, _, .here k ls, hs⟩
      · exact ⟨k.piece ++ before, l, after, .behind k h, by rwa [← hsize]⟩
    · rintro ⟨_, l, after, h, hs⟩
      cases h with
      | here => exact .inl hs
      | @behind _ _ before _ _ h => exact .inr ⟨before, l, after, h, by rwa [hsize]⟩

theorem mem_spansFrom_zero_iff {s : Span} :
    s ∈ spansFrom 0 ls ↔
      ∃ before l after, Stands ls before l after ∧ l.span? before.byteSize = some s := by
  simp only [mem_spansFrom_iff, Nat.zero_add]

theorem le_start_of_mem_spansFrom {pos : Nat} {s : Span} (h : s ∈ spansFrom pos ls) :
    pos ≤ s.start := by
  obtain ⟨before, l, after, -, hs⟩ := mem_spansFrom_iff.1 h
  obtain ⟨c, -, rfl⟩ := Option.map_eq_some_iff.1 hs
  exact Nat.le_add_right _ _

theorem exists_stands_of_flatten_eq {u v : Text} (h : (ls.map piece).flatten = u ++ v)
    (hv : v ≠ []) : ∃ before l after p q, Stands ls before l after ∧ q ≠ [] ∧
      l.piece = p ++ q ∧ u = before ++ p ∧ v = q ++ after := by
  induction ls generalizing u with
  | nil => exact absurd (List.append_eq_nil_iff.1 h.symm).2 hv
  | cons k ls ih =>
    have hlater {w : Text} (hu : u = k.piece ++ w) (hw : (ls.map piece).flatten = w ++ v) :
        ∃ before l after p q, Stands (k :: ls) before l after ∧ q ≠ [] ∧ l.piece = p ++ q ∧
          u = before ++ p ∧ v = q ++ after := by
      obtain ⟨before, l, after, p, q, hs, hq, hl, rfl, hva⟩ := ih hw
      exact ⟨k.piece ++ before, l, after, p, q, .behind k hs, hq, hl,
        by rw [hu, List.append_assoc], hva⟩
    rw [List.map_cons, List.flatten_cons] at h
    rcases List.append_eq_append_iff.1 h with ⟨w, hu, hw⟩ | ⟨q, hk, hva⟩
    · exact hlater hu hw
    · by_cases hq : q = []
      · subst hq
        rw [List.append_nil] at hk
        exact hlater (w := []) (by rw [hk, List.append_nil]) (by rw [hva]; rfl)
      · exact ⟨[], k, _, u, q, .here k ls, hq, hk, rfl, hva⟩

theorem Stands.trichotomy (h : Stands ls before l after) (h' : Stands ls before' l' after') :
    (before = before' ∧ l = l') ∨ before ++ l.piece <+: before' ∨
      before' ++ l'.piece <+: before := by
  induction h generalizing before' with
  | here l ls =>
    cases h' with
    | here => exact .inl ⟨rfl, rfl⟩
    | behind _ h' => exact .inr (.inl (List.prefix_append l.piece _))
  | behind k h ih =>
    cases h' with
    | here => exact .inr (.inr (List.prefix_append l'.piece _))
    | behind _ h' =>
      rw [List.append_assoc, List.append_assoc, List.prefix_append_right_inj,
        List.prefix_append_right_inj, List.append_cancel_left_eq]
      exact ih h'

theorem Stands.span?_of_meets (h : Stands ls before l after) {s : Span} (hs : s ∈ spansFrom 0 ls)
    (hmeets : s.Meets before.byteSize (before.byteSize + l.piece.byteSize)) :
    l.span? before.byteSize = some s := by
  obtain ⟨before', l', after', h', hs'⟩ := mem_spansFrom_zero_iff.1 hs
  rcases h.trichotomy h' with ⟨rfl, rfl⟩ | hle | hle
  · exact hs'
  · obtain ⟨c, -, rfl⟩ := Option.map_eq_some_iff.1 hs'
    have hsize := Text.byteSize_mono hle
    rw [Text.byteSize_append] at hsize
    exact absurd hmeets.1 (Nat.not_lt.2 hsize)
  · obtain ⟨c, -, rfl⟩ := Option.map_eq_some_iff.1 hs'
    have hsize := Text.byteSize_mono hle
    rw [Text.byteSize_append] at hsize
    exact absurd hmeets.2 (Nat.not_lt.2 hsize)

theorem Stands.eq_nil_or_follows (h : Stands ls before l after) :
    before = [] ∨ ∃ before' k, Stands ls before' k (l.piece ++ after) ∧
      before = before' ++ k.piece := by
  induction h with
  | here l ls => exact .inl rfl
  | @behind k ls before l after h ih =>
    right
    rcases ih with rfl | ⟨before', k', h', rfl⟩
    · have hhere := Stands.here k ls
      rw [h.flatten_eq, List.nil_append] at hhere
      exact ⟨[], k, hhere, by rw [List.append_nil, List.nil_append]⟩
    · exact ⟨k.piece ++ before', k', .behind k h', by rw [List.append_assoc]⟩

end Lexeme

namespace Lexicon

structure MakesStep (lexicon : Lexicon) (previous : Option Char) (l : Lexeme) (after : Text) :
    Prop where
  ne_nil : l.piece ≠ []
  piece : (l.piece ++ after).take (lexicon.step previous (l.piece ++ after)).length = l.piece
  rest : (l.piece ++ after).drop (lexicon.step previous (l.piece ++ after)).length = after
  verdict : (lexicon.step previous (l.piece ++ after)).verdict = l.verdict

variable {lexicon : Lexicon} {previous : Option Char} {t before after : Text} {l : Lexeme}

theorem makesStep_scan (h : Lexeme.Stands (lexicon.scan previous t) before l after) :
    lexicon.MakesStep (before.getLast?.or previous) l after := by
  fun_induction scan lexicon previous t generalizing before with
  | case1 => cases h
  | case2 previous c t s piece =>
    rename_i ih
    have hne : piece ≠ [] := lexicon.take_step_ne_nil previous (List.cons_ne_nil c t)
    cases h with
    | here =>
      rw [flatten_scan, List.getLast?_nil, Option.none_or]
      have htext : piece ++ (c :: t).drop s.length = c :: t := List.take_append_drop _ _
      constructor
      · exact hne
      · rw [htext]
      · rw [htext]
      · rw [htext]
    | behind _ h =>
      have hlast := List.getLast?_eq_some_getLast hne
      rw [List.getLast?_append, Option.or_assoc, hlast, Option.some_or, ← hlast]
      exact ih h

/-- The rest of a region that was open in front of the line ends at a closing mark, or not in
the line. -/
structure Carries (lexicon : Lexicon) (state : LineState) (l : Lexeme) (after : Text) : Prop where
  isInside : state.isInside
  exists_region : ∃ r, .region r ∈ lexicon.rules ∧ l.verdict.category? = some r.category ∧
    (after = [] ∨ r.closing <:+ l.piece)

theorem region_of_findRegion? {rules : List Rule} {id : RegionId} {r : Region}
    (h : findRegion? rules id = some r) : .region r ∈ rules ∧ r.id = id := by
  obtain ⟨rule, hmem, hrule⟩ := List.exists_of_findSome?_eq_some h
  cases rule with
  | region r' =>
    simp only at hrule
    split at hrule
    · next hid =>
      cases hrule
      exact ⟨hmem, hid⟩
    · cases hrule
  | _ => cases hrule

theorem eq_append_of_stands {state : LineState} {x : LexedLine} (hx : lexicon.lex state t = .ok x)
    (h : Lexeme.Stands x.lexemes before l after) : t = before ++ (l.piece ++ after) :=
  (pieces_lex hx).1.symm.trans h.flatten_eq

theorem stands_lex_cases {state : LineState} {x : LexedLine} (hx : lexicon.lex state t = .ok x)
    (h : Lexeme.Stands x.lexemes before l after) :
    (before = [] ∧ lexicon.Carries state l after) ∨
      lexicon.MakesStep before.getLast? l after := by
  unfold lex at hx
  split at hx
  · cases hx
  · split at hx
    · cases hx
      have hstep := makesStep_scan h
      rw [Option.or_none] at hstep
      exact .inr hstep
    · split at hx
      · cases hx
      · next id r hr =>
        have hmem := (region_of_findRegion? hr).1
        split at hx
        · next n hn =>
          cases hx
          cases h with
          | here => exact .inl ⟨rfl, rfl, r, hmem, rfl, .inr (closing_suffix_take hn)⟩
          | behind _ h =>
            rw [List.getLast?_append]
            exact .inr (makesStep_scan h)
        · cases hx
          dsimp only at h
          split at h
          · cases h
          · cases h with
            | here => exact .inl ⟨rfl, rfl, r, hmem, rfl, .inl rfl⟩
            | behind _ h => cases h

end Lexicon

end Highlight
