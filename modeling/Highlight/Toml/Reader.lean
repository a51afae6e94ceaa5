import Highlight.Toml.Draft
import Highlight.Toml.Quoted
import Highlight.Toml.Scalar

/-!
# Reading TOML documents

A document is a sequence of lines: key-value pairs, headers of tables, and headers of
arrays of tables, each perhaps with a comment. Arrays may run over several lines, inline
tables may not. Values nest less than eighty deep, and keys have less than eighty parts.
-/

namespace Highlight.Toml

def depthLimit : Nat := 80

def skipBlanks (t : Text) : Text := t.dropWhile isBlank

def skipComment? : Text → Option Text
  | [] => some []
  | c :: t =>
    if c = '\n' || (c = '\r' && t.head? = some '\n') then some (c :: t)
    else if isPrintable c then skipComment? t
    else none

def endLine? (t : Text) : Option Text := do
  let t ← match skipBlanks t with
    | '#' :: t => skipComment? t
    | t => some t
  if t = [] then some [] else newline? t

/-- Passes blanks, line ends and comments within an array. Each round passes a line, so the
length of the text bounds the rounds. -/
def skipFiller? : Nat → Text → Option Text
  | 0, t => some t
  | n + 1, t =>
    match skipBlanks t with
    | '#' :: t => do skipFiller? n (← newline? (← skipComment? t))
    | t =>
      match newline? t with
      | some t => skipFiller? n t
      | none => some t

namespace Key

def isBare (c : Char) : Bool := c.isAlphanum || c = '_' || c = '-'

def simple? (t : Text) : Option (Text × Text) :=
  match t with
  | '"' :: _ | '\'' :: _ => Quoted.readLine? t
  | t =>
    let bare := t.takeWhile isBare
    if bare = [] then none else some (bare, t.drop bare.length)

def parts? : Nat → Text → Option (List Text × Text)
  | 0, _ => none
  | n + 1, t => do
    let (part, t) ← simple? (skipBlanks t)
    match skipBlanks t with
    | '.' :: t =>
      let (parts, t) ← parts? n t
      return (part :: parts, t)
    | t => return ([part], t)

def read? (t : Text) : Option (List Text × Text × Text) := do
  let (parts, t) ← parts? (depthLimit - 1) t
  return (parts.dropLast, ← parts.getLast?, t)

end Key

abbrev NodeReader := Text → Option (Node × Text)

def pair? (item : NodeReader) (t : Text) : Option (List Text × Text × Node × Text) := do
  let (path, key, t) ← Key.read? t
  let (n, t) ← item (skipBlanks (← t.after? ['=']))
  return (path, key, n, t)

def arrayItems? (item : NodeReader) : Nat → Text → Option (List Node × Text)
  | 0, _ => none
  | rounds + 1, t => do
    let t ← skipFiller? t.length t
    match t with
    | ']' :: t => return ([], t)
    | t =>
      let (n, t) ← item t
      let t ← skipFiller? t.length t
      match t with
      | ',' :: t =>
        let (ns, t) ← arrayItems? item rounds t
        return (n :: ns, t)
      | ']' :: t => return ([n], t)
      | _ => none

def inlinePairs? (item : NodeReader) : Nat → Draft → Text → Option (Draft × Text)
  | 0, _, _ => none
  | rounds + 1, d, t => do
    let (path, key, n, t) ← pair? item t
    let d ← d.addKey? path key n .header
    match skipBlanks t with
    | ',' :: t => inlinePairs? item rounds d t
    | '\x7d' :: t => return (d, t)
    | _ => none

def inlineTable? (item : NodeReader) (t : Text) : Option (Node × Text) := do
  let (d, t) ← match skipBlanks t with
    | '\x7d' :: t => some ([], t)
    | t => inlinePairs? item t.length [] t
  return (.table .braces d, t)

def node? : Nat → NodeReader
  | depth, t =>
    match t with
    | '"' :: _ | '\'' :: _ => (Quoted.read? t).map fun r => (.value (.string r.1), r.2)
    | '[' :: t =>
      match depth with
      | 0 => none
      | depth + 1 => (arrayItems? (node? depth) (t.length + 1) t).map fun r => (.array r.1, r.2)
    | '\x7b' :: t =>
      match depth with
      | 0 => none
      | depth + 1 => inlineTable? (node? depth) t
    | t => (Scalar.read? t).map fun r => (.value r.1, r.2)

structure DocumentState where
  draft : Draft := []
  header : List Text := []

def header? (closing t : Text) : Option (List Text × Text × Text) := do
  let (path, key, t) ← Key.read? t
  return (path, key, ← endLine? (← t.after? closing))

def lines? : Nat → DocumentState → Text → Option DocumentState
  | n, s, t =>
    match skipBlanks t with
    | [] => some s
    | t =>
      match n with
      | 0 => none
      | n + 1 =>
        match newline? t, t with
        | some t, _ => lines? n s t
        | none, '#' :: t => do lines? n s (← skipComment? t)
        | none, '[' :: '[' :: t => do
          let (path, key, t) ← header? [']', ']'] t
          lines? n ⟨← s.draft.openNext? path key, path ++ [key]⟩ t
        | none, '[' :: t => do
          let (path, key, t) ← header? [']'] t
          lines? n ⟨← s.draft.openTable? path key, path ++ [key]⟩ t
        | none, t => do
          let (path, key, v, t) ← pair? (node? (depthLimit - 1)) t
          lines? n { s with draft := ← s.draft.addAt? s.header path key v } (← endLine? t)

/-- The entries of a document, or none if it is not well formed. A byte order mark at its
beginning does not count. -/
def parse? (t : Text) : Option Entries := do
  let t := (t.after? ['\ufeff']).getD t
  let s ← lines? (t.length + 1) {} t
  return Entries.ofList (← closeEntries? s.draft)

end Highlight.Toml
