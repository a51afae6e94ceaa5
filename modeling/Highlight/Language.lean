import Highlight.Lexicon.Scan

/-!
# Languages

A language is a lexicon with a name and the extensions of its files. Lines are
classified one after the other, each from the state the line before it leaves. A line
that cannot be classified gets no spans and leaves the state as it was.
-/

namespace Highlight

structure Language where
  name : Text
  extensions : List Text := []
  lexicon : Lexicon := {}

structure Rejection where
  language : Text
  cause : LineError
  deriving DecidableEq, Repr

def Rejection.message (r : Rejection) : String :=
  "Invalid input: " ++ String.ofList r.language ++ ": " ++ r.cause.reason

structure LineRecord where
  spans : List Span
  before : LineState
  after : LineState
  deriving DecidableEq, Repr

namespace Language

def addExtension (l : Language) (e : Text) : Language :=
  { l with extensions := l.extensions ++ [e] }

def addKeyword (l : Language) (word : Text) (c : Category) : Language :=
  { l with lexicon.keywords := l.lexicon.keywords.insert word c }

def addKeywords (l : Language) (words : List (Text × Category)) : Language :=
  words.foldl (fun l w => l.addKeyword w.1 w.2) l

def addRule (l : Language) (r : Rule) : Language :=
  { l with lexicon.rules := l.lexicon.rules ++ [r] }

def classify (l : Language) (before : LineState) (t : Text) : Except Rejection ClassifiedLine :=
  (l.lexicon.classify before t).mapError (Rejection.mk l.name)

def record (l : Language) (before : LineState) (t : Text) : LineRecord :=
  match l.classify before t with
  | .ok c => ⟨c.spans, before, c.after⟩
  | .error _ => ⟨[], before, before⟩

/-- The records of lines that follow one another, the first of which starts in a given
state. -/
def recordsFrom (l : Language) : LineState → List Text → List LineRecord
  | _, [] => []
  | before, t :: ts =>
    let r := l.record before t
    r :: recordsFrom l r.after ts

def records (l : Language) (ts : List Text) : List LineRecord := l.recordsFrom .normal ts

@[simp] theorem record_before (l : Language) (before : LineState) (t : Text) :
    (l.record before t).before = before := by
  unfold record
  split <;> rfl

@[simp] theorem length_recordsFrom (l : Language) (before : LineState) (ts : List Text) :
    (l.recordsFrom before ts).length = ts.length := by
  induction ts generalizing before with
  | nil => rfl
  | cons t ts ih => simp [recordsFrom, ih]

end Language

end Highlight
