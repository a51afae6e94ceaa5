import Highlight.Text

/-!
# Strings of TOML documents

Strings in double quotes have escapes, strings in single quotes have none, and each sort
may run over several lines between triple quotes. The readers start behind the opening
quotes and give the string with the text behind the closing ones.
-/

namespace Highlight.Toml

def isBlank (c : Char) : Bool := c = ' ' || c = '\t'

def newline? : Text → Option Text
  | '\n' :: t => some t
  | '\r' :: '\n' :: t => some t
  | _ => none

def isPrintable (c : Char) : Bool := c = '\t' || (c.val ≥ 0x20 && c.val ≠ 0x7F)

def push (c : Char) (r : Option (Text × Text)) : Option (Text × Text) :=
  r.map fun r => (c :: r.1, r.2)

namespace Quoted

def hexDigit? (c : Char) : Option Nat :=
  if c.isDigit then some (c.toNat - '0'.toNat)
  else if 'a' ≤ c ∧ c ≤ 'f' then some (10 + c.toNat - 'a'.toNat)
  else if 'A' ≤ c ∧ c ≤ 'F' then some (10 + c.toNat - 'A'.toNat)
  else none

def codePoint? (n : Nat) : Option Char := if n.isValidChar then some (Char.ofNat n) else none

def escape? : Char → Option Char
  | 'b' => some '\x08'
  | 't' => some '\t'
  | 'n' => some '\n'
  | 'f' => some '\x0c'
  | 'r' => some '\r'
  | '"' => some '"'
  | '\\' => some '\\'
  | _ => none

/-- Where a reader stands: among plain characters, behind a backslash, among the digits
of a code point, or among the blanks that a backslash at a line's end takes away, before
the line's end or behind it. -/
inductive Mode
  | plain
  | escaped
  | codePoint (left value : Nat)
  | lineEnd
  | nextLine
  deriving DecidableEq

def basic? : Mode → Text → Option (Text × Text)
  | _, [] => none
  | .plain, c :: t =>
    if c = '"' then some ([], t)
    else if c = '\\' then basic? .escaped t
    else if isPrintable c then push c (basic? .plain t)
    else none
  | .escaped, c :: t =>
    if c = 'u' then basic? (.codePoint 4 0) t
    else if c = 'U' then basic? (.codePoint 8 0) t
    else match escape? c with
      | some d => push d (basic? .plain t)
      | none => none
  | .codePoint left value, c :: t =>
    match hexDigit? c with
    | none => none
    | some d =>
      if left = 1 then
        match codePoint? (16 * value + d) with
        | some e => push e (basic? .plain t)
        | none => none
      else basic? (.codePoint (left - 1) (16 * value + d)) t
  | _, _ => none

/-- What is closed by triple quotes: up to two quotes more belong to the string. -/
def closing? (quote : Char) (t : Text) : Option (Text × Text) :=
  match t.after? [quote, quote, quote] with
  | none => none
  | some rest =>
    match rest.after? [quote, quote] with
    | some rest => some ([quote, quote], rest)
    | none =>
      match rest.after? [quote] with
      | some rest => some ([quote], rest)
      | none => some ([], rest)

def isLineEnd (c : Char) (t : Text) : Bool := c = '\n' || (c = '\r' && t.head? = some '\n')

def multilineBasic? : Mode → Text → Option (Text × Text)
  | _, [] => none
  | mode, c :: t =>
    let mode := if mode = .nextLine && !isBlank c && !isLineEnd c t then .plain else mode
    match mode with
    | .plain =>
      match closing? '"' (c :: t) with
      | some r => some r
      | none =>
        if c = '\\' then multilineBasic? .escaped t
        else if c = '\n' then push c (multilineBasic? .plain t)
        else if isLineEnd c t then multilineBasic? .plain t
        else if isPrintable c then push c (multilineBasic? .plain t)
        else none
    | .escaped =>
      if c = 'u' then multilineBasic? (.codePoint 4 0) t
      else if c = 'U' then multilineBasic? (.codePoint 8 0) t
      else if isBlank c then multilineBasic? .lineEnd t
      else if c = '\n' then multilineBasic? .nextLine t
      else if isLineEnd c t then multilineBasic? .lineEnd t
      else match escape? c with
        | some d => push d (multilineBasic? .plain t)
        | none => none
    | .codePoint left value =>
      match hexDigit? c with
      | none => none
      | some d =>
        if left = 1 then
          match codePoint? (16 * value + d) with
          | some e => push e (multilineBasic? .plain t)
          | none => none
        else multilineBasic? (.codePoint (left - 1) (16 * value + d)) t
    | .lineEnd =>
      if c = '\n' then multilineBasic? .nextLine t
      else if isBlank c || isLineEnd c t then multilineBasic? .lineEnd t
      else none
    | .nextLine => multilineBasic? .nextLine t

def literal? : Text → Option (Text × Text)
  | [] => none
  | c :: t =>
    if c = '\'' then some ([], t)
    else if isPrintable c then push c (literal? t)
    else none

def multilineLiteral? : Text → Option (Text × Text)
  | [] => none
  | c :: t =>
    match closing? '\'' (c :: t) with
    | some r => some r
    | none =>
      if c = '\n' then push c (multilineLiteral? t)
      else if isLineEnd c t then multilineLiteral? t
      else if isPrintable c then push c (multilineLiteral? t)
      else none

def dropLineEnd (t : Text) : Text := (newline? t).getD t

def read? (t : Text) : Option (Text × Text) :=
  match t.after? ['"', '"', '"'], t.after? ['\'', '\'', '\''], t with
  | some body, _, _ => multilineBasic? .plain (dropLineEnd body)
  | _, some body, _ => multilineLiteral? (dropLineEnd body)
  | _, _, '"' :: body => basic? .plain body
  | _, _, '\'' :: body => literal? body
  | _, _, _ => none

def readLine? : Text → Option (Text × Text)
  | '"' :: body => basic? .plain body
  | '\'' :: body => literal? body
  | _ => none

end Quoted

end Highlight.Toml
