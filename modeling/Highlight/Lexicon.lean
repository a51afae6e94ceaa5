import Highlight.Table
import Highlight.Rule
import Highlight.Span

/-!
# Cutting a line into lexemes

A lexicon is the vocabulary of a language with its rules. At each place of a line one
step decides how many characters make the next lexeme and what they are. Rules take
precedence by kind: comments to the end of the line, regions, delimited pieces, numbers,
words behind a sigil, and at last plain words.
-/

namespace Highlight

def isWordStart (c : Char) : Bool := c.isAlpha || c = '_'

def isWordChar (c : Char) : Bool := c.isAlphanum || c = '_'

theorem isAlpha_iff {c : Char} : c.isAlpha ↔ ('A' ≤ c ∧ c ≤ 'Z') ∨ ('a' ≤ c ∧ c ≤ 'z') := by
  have hupper : c.isUpper ↔ 'A' ≤ c ∧ c ≤ 'Z' := decide_eq_true_iff
  have hlower : c.isLower ↔ 'a' ≤ c ∧ c ≤ 'z' :=
    Bool.and_eq_true_iff.trans (and_congr decide_eq_true_iff decide_eq_true_iff)
  exact Bool.or_eq_true_iff.trans (or_congr hupper hlower)

def wordRun (t : Text) : Text := t.takeWhile isWordChar

def leadingWord (t : Text) : Text := if t.head?.any isWordStart then wordRun t else []

inductive Verdict
  | plain
  | span (category : Category)
  | unclosed (category : Category) (id : RegionId)
  deriving DecidableEq, Repr

namespace Verdict

def category? : Verdict → Option Category
  | plain => none
  | span c => some c
  | unclosed c _ => some c

def stateAfter : Verdict → LineState
  | unclosed _ id => .inside id
  | _ => .normal

end Verdict

structure Step where
  length : Nat
  verdict : Verdict
  deriving DecidableEq, Repr

structure Lexeme where
  piece : Text
  verdict : Verdict
  deriving DecidableEq, Repr

structure LexedLine where
  lexemes : List Lexeme
  after : LineState
  deriving DecidableEq, Repr

namespace Lexeme

def spansFrom : Nat → List Lexeme → List Span
  | _, [] => []
  | pos, l :: ls =>
    let stop := pos + l.piece.byteSize
    match l.verdict.category? with
    | some c => ⟨pos, stop, c⟩ :: spansFrom stop ls
    | none => spansFrom stop ls

def stateAfter (ls : List Lexeme) : LineState :=
  match ls.getLast? with
  | some l => l.verdict.stateAfter
  | none => .normal

end Lexeme

structure Lexicon where
  keywords : Table Text Category := ∅
  rules : List Rule := []

inductive LineError
  | lineBreak
  | unknownRegion (id : RegionId)
  deriving DecidableEq, Repr

namespace LineError

def reason : LineError → String
  | lineBreak => "line text contains a line break"
  | unknownRegion id => "no multiline rule with state " ++ toString id.code

def message (e : LineError) : String := "Invalid input: " ++ e.reason

end LineError

namespace Step

def toLineEnd? (rules : List Rule) (t : Text) : Option Step :=
  rules.findSome? fun
    | .toLineEnd mark c => if (t.after? mark).isSome then some ⟨t.length, .span c⟩ else none
    | _ => none

def region? (rules : List Rule) (t : Text) : Option Step :=
  rules.findSome? fun
    | .region r =>
      match t.after? r.opening with
      | none => none
      | some rest =>
        match r.findEnd rest with
        | some n => some ⟨r.opening.length + n, .span r.category⟩
        | none => some ⟨t.length, .unclosed r.category r.id⟩
    | _ => none

def delimited? (rules : List Rule) (t : Text) : Option Step :=
  rules.findSome? fun
    | .delimited d => (d.length? t).map fun n => ⟨n, .span d.category⟩
    | _ => none

/-- A number starts with a digit that no word character precedes. One that runs into word
characters is no number, and the whole run is plain. -/
def number? (rules : List Rule) (previous : Option Char) (t : Text) : Option Step :=
  if t.head?.any Char.isDigit && !previous.any isWordChar then
    rules.findSome? fun
      | .numbers m =>
        (m.reach? t).map fun n =>
          let glued := wordRun (t.drop n)
          if glued = [] then ⟨n, .span .number⟩ else ⟨n + glued.length, .plain⟩
      | _ => none
  else none

def sigilWord? (rules : List Rule) (t : Text) : Option Step :=
  rules.findSome? fun
    | .sigilWord sigil c =>
      match t.after? [sigil] with
      | none => none
      | some rest =>
        let word := leadingWord rest
        if word = [] then none else some ⟨1 + word.length, .span c⟩
    | _ => none

def markedCategory? (rules : List Rule) (rest : Text) : Option Category :=
  rules.findSome? fun
    | .markedWord mark c => if rest.head? = some mark then some c else none
    | _ => none

def word? (lexicon : Lexicon) (t : Text) : Option Step :=
  let word := leadingWord t
  if word = [] then none
  else
    let category? :=
      (markedCategory? lexicon.rules (t.drop word.length)).or (lexicon.keywords.get? word)
    some ⟨word.length, category?.elim .plain .span⟩

/-- Text that no rule takes is passed by single characters, and digits by runs. -/
def other (t : Text) : Step :=
  if t.head?.any Char.isDigit then ⟨(wordRun t).length, .plain⟩ else ⟨1, .plain⟩

end Step

namespace Lexicon

def step (lexicon : Lexicon) (previous : Option Char) (t : Text) : Step :=
  (Step.toLineEnd? lexicon.rules t).or
    ((Step.region? lexicon.rules t).or
      ((Step.delimited? lexicon.rules t).or
        ((Step.number? lexicon.rules previous t).or
          ((Step.sigilWord? lexicon.rules t).or (Step.word? lexicon t))))) |>.getD (Step.other t)

end Lexicon

end Highlight
