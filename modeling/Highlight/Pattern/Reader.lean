import Highlight.Pattern

/-!
# Reading patterns

The written form of patterns: characters, classes such as `[0-9a-f_]`, groups,
alternatives, the repetitions `*`, `+`, `?` and `{m,n}`, the anchors `^` and `$`, the
dot, and a backslash before punctuation. A pattern that does not start with `^` is put
in a group behind one; a pattern that does is taken as it stands, so that its `^` binds
the first alternative only. The text is read token by token (`token?`), and each token
changes the groups that are open (`Token.levels?`).

This is a fragment of the syntax of regular expressions. Lazy repetitions, named groups, flags,
nested classes and those that a backslash names are not read, and a text that has them gives no
pattern here.
-/

namespace Highlight.Pattern.Reader

structure Level where
  alternatives : List Pattern := []
  items : List Pattern := []

namespace Level

def push (l : Level) (p : Pattern) : Level := { l with items := p :: l.items }

def nextAlternative (l : Level) : Level :=
  { alternatives := seqAll l.items.reverse :: l.alternatives }

def close (l : Level) : Pattern := altAll l.nextAlternative.alternatives.reverse

def repeatLast? (l : Level) (f : Pattern → Pattern) : Option Level :=
  match l.items with
  | [] => none
  | p :: ps => some { l with items := f p :: ps }

end Level

/-- A character that stands for itself behind a backslash; `\<` and `\>` would be the ends of
words. -/
def isPunctuation (c : Char) : Bool :=
  c.val < 0x80 && c.val > 0x20 && !c.isAlphanum && c != '<' && c != '>'

def isClassOperator : Text → Bool
  | c :: d :: _ => c == d && (c == '&' || c == '-' || c == '~')
  | _ => false

def classChar? : Text → Option (Char × Text)
  | '\\' :: c :: t => if isPunctuation c then some (c, t) else none
  | c :: t => if c = '[' ∨ c = '\\' then none else some (c, t)
  | [] => none

/-- A member of a class, or the range of those between two. A hyphen in front of the closing
bracket stands for itself. -/
def classRange? (t : Text) : Option ((Char × Char) × Text) := do
  let (a, t) ← classChar? t
  match t with
  | '-' :: b :: u =>
    if b = ']' ∨ b = '-' then return ((a, a), t)
    else
      let (b, t) ← classChar? (b :: u)
      if a ≤ b then return ((a, b), t) else none
  | t => return ((a, a), t)

def classRanges? : Nat → Text → Option (List (Char × Char) × Text)
  | 0, _ => none
  | _ + 1, ']' :: t => some ([], t)
  | n + 1, t =>
    if isClassOperator t then none
    else do
      let (r, t) ← classRange? t
      let (rs, t) ← classRanges? n t
      return (r :: rs, t)

def classBody? (negated : Bool) (t : Text) : Option (CharClass × Text) :=
  match classRanges? t.length t with
  | some (r :: rs, rest) => some (⟨r :: rs, negated⟩, rest)
  | _ => none

def charClass? : Text → Option (CharClass × Text)
  | '^' :: t => classBody? true t
  | t => classBody? false t

def count? (t : Text) : Option (Nat × Text) :=
  let digits := t.takeWhile Char.isDigit
  let n := digits.foldl (fun n c => 10 * n + (c.toNat - '0'.toNat)) 0
  if digits = [] ∨ 4 < digits.length ∨ 1000 < n then none
  else some (n, t.dropWhile Char.isDigit)

def upperBound? (low : Nat) : Text → Option ((Pattern → Pattern) × Text)
  | '\x7d' :: t => some (fun p => seq (times p low) (star p), t)
  | t => do
    let (high, t) ← count? t
    match t with
    | '\x7d' :: t =>
      if low ≤ high then return (fun p => seq (times p low) (upTo p (high - low)), t) else none
    | _ => none

def bounds? (t : Text) : Option ((Pattern → Pattern) × Text) := do
  let (low, t) ← count? t
  match t with
  | '\x7d' :: t => return (fun p => times p low, t)
  | ',' :: t => upperBound? low t
  | _ => none

/-- A repetition mark followed by a question mark would ask for the shortest match, which
patterns do not have. -/
def isLazy (t : Text) : Bool := t.head? = some '?'

inductive Token
  | bar
  | opening
  | closing
  | atom (p : Pattern)
  | repetition (f : Pattern → Pattern)

def repetition? (f : Pattern → Pattern) (t : Text) : Option (Token × Text) :=
  if isLazy t then none else some (.repetition f, t)

def groupMark? : Text → Option (Token × Text)
  | '?' :: ':' :: t => some (.opening, t)
  | '?' :: _ => none
  | t => some (.opening, t)

def token? (c : Char) (t : Text) : Option (Token × Text) :=
  match c with
  | '|' => some (.bar, t)
  | '(' => groupMark? t
  | ')' => some (.closing, t)
  | '[' => (charClass? t).map fun (k, t) => (.atom (one k), t)
  | '*' => repetition? star t
  | '+' => repetition? plus t
  | '?' => repetition? optional t
  | '\x7b' => (bounds? t).bind fun (f, t) => repetition? f t
  | '.' => some (.atom (one ⟨[('\n', '\n')], true⟩), t)
  | '^' => some (.atom atStart, t)
  | '$' => some (.atom atEnd, t)
  | '\\' =>
    match t with
    | [] => none
    | d :: t => if isPunctuation d then some (.atom (char d), t) else none
  | c => some (.atom (char c), t)

def Token.levels? (level : Level) (outer : List Level) : Token → Option (Level × List Level)
  | bar => some (level.nextAlternative, outer)
  | opening => some ({}, level :: outer)
  | closing =>
    match outer with
    | [] => none
    | parent :: outer => some (parent.push level.close, outer)
  | atom p => some (level.push p, outer)
  | repetition f => (level.repeatLast? f).map fun level => (level, outer)

/-- Reads to the end of the pattern. Each round takes at least one character, so the
length of the text bounds the rounds. -/
def read? : Nat → Level → List Level → Text → Option Pattern
  | _, level, [], [] => some level.close
  | _, _, _ :: _, [] => none
  | 0, _, _, _ :: _ => none
  | n + 1, level, outer, c :: t => do
    let (k, t) ← token? c t
    let (level, outer) ← k.levels? level outer
    read? n level outer t

end Highlight.Pattern.Reader

namespace Highlight.Pattern

def ofText? (t : Text) : Option Pattern :=
  let written := if t.head? = some '^' then t else ['^', '(', '?', ':'] ++ t ++ [')']
  Reader.read? written.length {} [] written

end Highlight.Pattern
