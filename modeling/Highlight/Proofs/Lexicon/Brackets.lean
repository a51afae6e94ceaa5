import Highlight.Proofs.Lexicon.Places

/-!
# Brackets

Line tails, regions and delimited pieces open with a mark. Such a bracket comes before
anything else that a step could take, it always has a category, and it ends at a closing mark
or with the line (`isBracket_of_bracketed?`).
-/

namespace Highlight

namespace Rule

def opening? : Rule → Option Text
  | toLineEnd mark _ => some mark
  | region r => some r.opening
  | delimited d => some d.opening
  | numbers _ | sigilWord _ _ | markedWord _ _ => none

def closing? : Rule → Option Text
  | region r => some r.closing
  | delimited d => some d.closing
  | toLineEnd _ _ | numbers _ | sigilWord _ _ | markedWord _ _ => none

end Rule

namespace Step

/-- The step of the rules whose pieces open with a mark. -/
def bracketed? (rules : List Rule) (t : Text) : Option Step :=
  (toLineEnd? rules t).or ((region? rules t).or (delimited? rules t))

structure IsBracket (rules : List Rule) (t : Text) (s : Step) : Prop where
  opens : ∃ r ∈ rules, ∃ mark, r.opening? = some mark ∧ mark <+: t
  has_category : ∃ c, s.verdict.category? = some c
  closes : t.drop s.length = [] ∨
    ∃ r ∈ rules, ∃ mark, r.closing? = some mark ∧ mark <:+ t.take s.length

variable {rules : List Rule} {t : Text} {s : Step}

theorem isBracket_of_toLineEnd? (h : toLineEnd? rules t = some s) : IsBracket rules t s := by
  obtain ⟨r, hr, hs⟩ := List.exists_of_findSome?_eq_some h
  cases r with
  | toLineEnd mark c =>
    simp only [Option.ite_none_right_eq_some, Option.some.injEq] at hs
    obtain ⟨hmark, rfl⟩ := hs
    obtain ⟨rest, hrest⟩ := Option.isSome_iff_exists.1 hmark
    have hopens : mark <+: t := ⟨rest, (Text.after?_eq_some_iff.1 hrest).symm⟩
    exact ⟨⟨_, hr, mark, rfl, hopens⟩, ⟨c, rfl⟩, .inl List.drop_length⟩
  | _ => cases hs

theorem take_opening_append {opening rest closing : Text} {n : Nat} (h : closing <:+ rest.take n) :
    closing <:+ (opening ++ rest).take (opening.length + n) := by
  rw [List.take_length_add_append]
  exact h.trans (List.suffix_append opening _)

theorem isBracket_of_region? (h : region? rules t = some s) : IsBracket rules t s := by
  obtain ⟨r, hr, hs⟩ := List.exists_of_findSome?_eq_some h
  cases r with
  | region r =>
    simp only at hs
    split at hs
    · cases hs
    · next rest hrest =>
      obtain rfl := Text.after?_eq_some_iff.1 hrest
      have hopens : r.opening <+: r.opening ++ rest := List.prefix_append _ _
      split at hs
      · next n hn =>
        cases hs
        exact ⟨⟨_, hr, _, rfl, hopens⟩, ⟨_, rfl⟩,
          .inr ⟨_, hr, _, rfl, take_opening_append (closing_suffix_take hn)⟩⟩
      · cases hs
        exact ⟨⟨_, hr, _, rfl, hopens⟩, ⟨_, rfl⟩, .inl List.drop_length⟩
  | _ => cases hs

theorem isBracket_of_delimited? (h : delimited? rules t = some s) : IsBracket rules t s := by
  obtain ⟨r, hr, hs⟩ := List.exists_of_findSome?_eq_some h
  cases r with
  | delimited d =>
    obtain ⟨n, hn, rfl⟩ := Option.map_eq_some_iff.1 hs
    unfold Delimited.length? at hn
    split at hn
    · cases hn
    · next rest hrest =>
      obtain rfl := Text.after?_eq_some_iff.1 hrest
      have hopens : d.opening <+: d.opening ++ rest := List.prefix_append _ _
      split at hn
      · next n hclose =>
        cases hn
        exact ⟨⟨_, hr, _, rfl, hopens⟩, ⟨_, rfl⟩,
          .inr ⟨_, hr, _, rfl, take_opening_append (closing_suffix_take hclose)⟩⟩
      · split at hn
        · cases hn
        · cases hn
          exact ⟨⟨_, hr, _, rfl, hopens⟩, ⟨_, rfl⟩, .inl List.drop_length⟩
  | _ => cases hs

theorem isBracket_of_bracketed? (h : bracketed? rules t = some s) : IsBracket rules t s := by
  rcases Option.or_eq_some_iff.1 h with h | ⟨-, h⟩
  · exact isBracket_of_toLineEnd? h
  · rcases Option.or_eq_some_iff.1 h with h | ⟨-, h⟩
    · exact isBracket_of_region? h
    · exact isBracket_of_delimited? h

end Step

namespace Lexicon

variable {lexicon : Lexicon} {t : Text} {s : Step}

theorem step_eq_bracketed_getD (lexicon : Lexicon) (previous : Option Char) (t : Text) :
    lexicon.step previous t =
      ((Step.bracketed? lexicon.rules t).or
        ((Step.number? lexicon.rules previous t).or
          ((Step.sigilWord? lexicon.rules t).or (Step.word? lexicon t)))).getD (Step.other t) := by
  rw [step, Step.bracketed?, Option.or_assoc, Option.or_assoc]

theorem step_of_bracketed (h : Step.bracketed? lexicon.rules t = some s)
    (previous : Option Char) :
    lexicon.step previous t = s := by
  rw [step_eq_bracketed_getD, h, Option.some_or, Option.getD_some]

end Lexicon

end Highlight
