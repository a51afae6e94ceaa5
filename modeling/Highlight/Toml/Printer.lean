import Highlight.Toml.Value

/-!
# Writing TOML values

Values on one line, as they stand in messages. A string is written in the plainest form
that can hold it: in double quotes as it is, in single quotes, in triple quotes, and last
with escapes.
-/

namespace Highlight.Toml

def longestRun (c : Char) : Text → Nat → Nat → Nat
  | [], _, best => best
  | d :: t, run, best =>
    let run := if d = c then run + 1 else 0
    longestRun c t run (max best run)

def needsEscape (c : Char) : Bool := (c.val < 0x20 && c ≠ '\t' && c ≠ '\n') || c.val = 0x7F

inductive Quoting
  | basic
  | literal
  | multilineBasic
  | multilineLiteral
  deriving DecidableEq, Repr

namespace Quoting

def delimiter : Quoting → Text
  | basic => ['"']
  | literal => ['\'']
  | multilineBasic => ['"', '"', '"']
  | multilineLiteral => ['\'', '\'', '\'']

def isMultiline : Quoting → Bool
  | basic | literal => false
  | multilineBasic | multilineLiteral => true

def choose (t : Text) : Quoting :=
  let quotes := longestRun '"' t 0 0
  let apostrophes := longestRun '\'' t 0 0
  let newline := t.contains '\n'
  let codes := t.any needsEscape
  let backslash := t.contains '\\'
  if !codes && !backslash && quotes = 0 && !newline then basic
  else if !codes && apostrophes = 0 && !newline then literal
  else if !codes && !backslash && quotes ≤ 2 then multilineBasic
  else if !codes && apostrophes ≤ 2 then multilineLiteral
  else if newline then multilineBasic
  else basic

def hexDigits (width n : Nat) : Text :=
  let ds := (Nat.toDigits 16 n).map Char.toUpper
  List.replicate (width - ds.length) '0' ++ ds

def escaped? (multiline : Bool) (c : Char) : Option Text :=
  if c = '\x08' then some ['\\', 'b']
  else if c = '\t' then some ['\\', 't']
  else if c = '\n' then (if multiline then none else some ['\\', 'n'])
  else if c = '\x0c' then some ['\\', 'f']
  else if c = '\r' then some ['\\', 'r']
  else if c = '\\' then some ['\\', '\\']
  else if needsEscape c then some ('\\' :: 'u' :: hexDigits 4 c.toNat)
  else none

/-- A text with its escapes. Over several lines two quotes in a row may stand for
themselves, on one line none; `run` counts those just passed. -/
def escape (multiline : Bool) : Nat → Text → Text
  | _, [] => []
  | run, c :: t =>
    if c = '"' then
      if run < (if multiline then 2 else 0) then '"' :: escape multiline (run + 1) t
      else '\\' :: '"' :: escape multiline 0 t
    else
      match escaped? multiline c with
      | some e => e ++ escape multiline 0 t
      | none => c :: escape multiline 0 t

def write (q : Quoting) (t : Text) : Text :=
  let body := match q with
    | basic => escape false 0 t
    | multilineBasic => escape true 0 t
    | literal | multilineLiteral => t
  let lead := if q.isMultiline && t.contains '\n' then ['\n'] else []
  q.delimiter ++ lead ++ body ++ q.delimiter

end Quoting

def writeString (t : Text) : Text := (Quoting.choose t).write t

def writeKey (t : Text) : Text :=
  let bare (c : Char) : Bool := c.isAlphanum || c = '_' || c = '-'
  let codes := t.any fun c => needsEscape c || c = '\n'
  if t ≠ [] ∧ t.all bare then t
  else if !codes && !t.contains '\\' && !t.contains '"' then Quoting.basic.write t
  else if !codes && !t.contains '\'' then Quoting.literal.write t
  else Quoting.basic.write t

def writeInteger (n : Int) : Text :=
  (if n < 0 then ['-'] else []) ++ Nat.toDigits 10 n.natAbs

def separated : List Text → Text
  | [] => []
  | [t] => t
  | t :: ts => t ++ ',' :: ' ' :: separated ts

def inBraces (pairs : List Text) : Text :=
  if pairs = [] then ['\x7b', '\x7d'] else '\x7b' :: ' ' :: separated pairs ++ [' ', '\x7d']

def pairText (key : Text) (value : Text) : Text := writeKey key ++ ' ' :: '=' :: ' ' :: value

mutual

def Value.nested : Value → Text
  | .string t => writeString t
  | .integer n => writeInteger n
  | .float x => x.text
  | .boolean b => if b then "true".toList else "false".toList
  | .datetime d => d.text
  | .array vs => '[' :: separated (valueTexts vs) ++ [']']
  | .table es => inBraces (entryTexts es)

def valueTexts : List Value → List Text
  | [] => []
  | v :: vs => v.nested :: valueTexts vs

def entryTexts : List (Text × Value) → List Text
  | [] => []
  | (key, v) :: es => pairText key v.nested :: entryTexts es

end

/-- A value by itself. Only here does a date-time take the form of a table. -/
def Value.text : Value → Text
  | .datetime d => inBraces [pairText datetimeKey (writeString d.text)]
  | v => v.nested

end Highlight.Toml
