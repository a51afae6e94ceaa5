import Highlight.Text

/-!
# Categories

The semantic classes that a piece of source text can have, and their names in settings.
-/

namespace Highlight

inductive Category
  | keyword
  | preprocessorLike
  | controlFlow
  | type
  | constant
  | call
  | string
  | char
  | comment
  | number
  deriving DecidableEq, Repr, Inhabited

namespace Category

def all : List Category :=
  [keyword, preprocessorLike, controlFlow, type, constant, call, string, char, comment, number]

def name : Category → String
  | keyword => "Keyword"
  | preprocessorLike => "PreprocessorLike"
  | controlFlow => "ControlFlow"
  | type => "Type"
  | constant => "Constant"
  | call => "Call"
  | string => "String"
  | char => "Char"
  | comment => "Comment"
  | number => "Number"

/-- Names are case-sensitive; `Preprocessor` is short for `PreprocessorLike`. -/
def ofName? (t : Text) : Option Category :=
  if t = "Preprocessor".toList then some preprocessorLike
  else all.find? fun c => c.name.toList = t

theorem mem_all (c : Category) : c ∈ all := by cases c <;> decide

theorem ofName?_name (c : Category) : ofName? c.name.toList = some c := by cases c <;> decide

theorem ofName?_eq_some_iff {t : Text} {c : Category} :
    ofName? t = some c ↔
      t = c.name.toList ∨ (t = "Preprocessor".toList ∧ c = preprocessorLike) := by
  constructor
  · intro h
    unfold ofName? at h
    split at h
    · next ht => exact Or.inr ⟨ht, (Option.some.inj h).symm⟩
    · have := List.find?_some h
      exact Or.inl (of_decide_eq_true this).symm
  · rintro (rfl | ⟨rfl, rfl⟩)
    · exact ofName?_name c
    · rfl

end Category

end Highlight
