import Highlight.Category
import Highlight.Pattern

/-!
# Lexical rules

What a language is made of: comments to the end of the line, regions that may run over
several lines, pieces between two marks on one line, words behind a sigil, words in
front of a mark, and numbers. Each rule knows how many characters of a text it takes,
and a rule that could take none forever cannot be built.
-/

namespace Highlight

structure RegionId where
  code : UInt8
  code_ne_zero : code ≠ 0
  deriving DecidableEq

instance : Repr RegionId := ⟨fun id n => reprPrec id.code n⟩

inductive LineState
  | normal
  | inside (id : RegionId)
  deriving DecidableEq, Repr, Inhabited

namespace LineState

def ofCode (n : UInt8) : LineState := if h : n = 0 then normal else inside ⟨n, h⟩

def code : LineState → UInt8
  | normal => 0
  | inside id => id.code

def isInside : LineState → Bool
  | normal => false
  | inside _ => true

@[simp] theorem code_ofCode (n : UInt8) : (ofCode n).code = n := by
  unfold ofCode
  split <;> simp_all [code]

@[simp] theorem ofCode_code (s : LineState) : ofCode s.code = s := by
  cases s with
  | normal => rfl
  | inside id => simp [ofCode, code, id.code_ne_zero]

end LineState

/-- The number of characters up to and with the closing mark. An escape character makes
one unit with the character behind it, and the mark is found only between units, after
at most as many units as the limit allows. A mark needs text to stand in. -/
def findClosing (closing : Text) (escape : Option Char) : Option Nat → Text → Option Nat
  | _, [] => none
  | _, [c] => if (Text.after? [c] closing).isSome then some closing.length else none
  | limit, c :: d :: t =>
    if (Text.after? (c :: d :: t) closing).isSome then some closing.length
    else if limit = some 0 then none
    else if escape = some c then
      (findClosing closing escape (limit.map (· - 1)) t).map (· + 2)
    else (findClosing closing escape (limit.map (· - 1)) (d :: t)).map (· + 1)

structure Delimited where
  opening : Text
  closing : Text
  escape : Option Char
  limit : Option Nat
  category : Category
  has_mark : opening ≠ [] ∨ closing ≠ []

namespace Delimited

def ofMarks? (opening closing : Text) (escape : Option Char) (limit : Option Nat)
    (category : Category) : Option Delimited :=
  if h : opening ≠ [] ∨ closing ≠ [] then some ⟨opening, closing, escape, limit, category, h⟩
  else none

def isBounded (d : Delimited) : Bool := d.limit.isSome

def findClose (d : Delimited) (t : Text) : Option Nat := findClosing d.closing d.escape d.limit t

/-- A piece without a limit and without a closing mark takes the rest of the line. -/
def length? (d : Delimited) (t : Text) : Option Nat :=
  match t.after? d.opening with
  | none => none
  | some rest =>
    match d.findClose rest with
    | some n => some (d.opening.length + n)
    | none => if d.isBounded then none else some t.length

end Delimited

structure Region where
  name : Text
  opening : Text
  closing : Text
  escape : Option Char
  category : Category
  id : RegionId
  opening_ne_nil : opening ≠ []
  closing_ne_nil : closing ≠ []

namespace Region

def ofMarks? (name opening closing : Text) (category : Category) (code : UInt8) :
    Option Region :=
  if h : code ≠ 0 ∧ opening ≠ [] ∧ closing ≠ [] then
    some ⟨name, opening, closing, none, category, ⟨code, h.1⟩, h.2.1, h.2.2⟩
  else none

def withEscape (r : Region) (c : Char) : Region := { r with escape := some c }

def findEnd (r : Region) (t : Text) : Option Nat := findClosing r.closing r.escape none t

end Region

inductive Rule
  | toLineEnd (mark : Text) (category : Category)
  | region (r : Region)
  | delimited (d : Delimited)
  | numbers (m : Matcher)
  | sigilWord (sigil : Char) (category : Category)
  | markedWord (mark : Char) (category : Category)

def findRegion? (rules : List Rule) (id : RegionId) : Option Region :=
  rules.findSome? fun
    | .region r => if r.id = id then some r else none
    | _ => none

end Highlight
