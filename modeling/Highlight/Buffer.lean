import Highlight.LineEdit
import Highlight.Path

/-!
# Buffers and their edits

A buffer is a document with its name, its use and its filetype. An edit is first
described by the lines that it touches; a description exists exactly if the edit can be
made. Making an edit is bracketed by two hooks, which see the buffer before and after it.
-/

namespace Highlight

inductive BufferKind
  | file
  | scratch
  | special
  deriving DecidableEq, Repr, Inhabited

structure Buffer where
  lines : List Text := [[]]
  name : Text
  path : Option Text := none
  kind : BufferKind := .file
  filetype : Option Text := none
  modified : Bool := false
  deriving DecidableEq, Repr

inductive Edit
  | insert (line offset : Nat) (text : Text)
  | newline (line offset : Nat)
  | delete (line start stop : Nat)
  | join (line : Nat)
  | deleteLine (line : Nat)
  deriving DecidableEq, Repr

inductive EditError
  | lineOutOfRange (line count : Nat)
  | notBoundary (offset line : Nat)
  | reversed
  | noNextLine
  deriving DecidableEq, Repr

namespace EditError

def message : EditError → String
  | lineOutOfRange line count =>
    "Line " ++ toString line ++ " is out of range (buffer has " ++ toString count ++ " lines)"
  | notBoundary offset line =>
    "Invalid input: byte " ++ toString offset ++ " is not a character boundary of line " ++
      toString line
  | reversed => "Invalid input: delete range ends before it starts"
  | noNextLine => "Invalid input: no line to join with"

end EditError

namespace Edit

def line : Edit → Nat
  | insert l _ _ | newline l _ | delete l _ _ | join l | deleteLine l => l

def checkBoundary (text : Text) (line offset : Nat) : Except EditError Unit :=
  if text.IsBoundary offset then .ok () else .error (.notBoundary offset line)

def range (e : Edit) (lines : List Text) : Except EditError LineEdit :=
  match lines[e.line]? with
  | none => .error (.lineOutOfRange e.line lines.length)
  | some text =>
    match e with
    | insert l offset inserted => do
      checkBoundary text l offset
      return ⟨l, 1, 1 + inserted.count '\n'⟩
    | newline l offset => do
      checkBoundary text l offset
      return ⟨l, 1, 2⟩
    | delete l start stop => do
      checkBoundary text l start
      checkBoundary text l stop
      if stop < start then throw .reversed
      return .single l
    | join l => if l + 1 < lines.length then return ⟨l, 2, 1⟩ else throw .noNextLine
    | deleteLine l => if lines.length = 1 then return .single 0 else return ⟨l, 1, 0⟩

def surround (before : Text) (lines : List Text) (after : Text) : List Text :=
  match lines with
  | [] => [before ++ after]
  | [l] => [before ++ l ++ after]
  | l :: m :: ls => (before ++ l) :: surround [] (m :: ls) after

/-- The lines after an edit. The last line that is left is emptied and not deleted. -/
def applied? (e : Edit) (lines : List Text) : Option (List Text) :=
  match e with
  | insert l offset inserted => do
    let (before, after) ← (← lines[l]?).splitAt? offset
    return lines.take l ++ surround before inserted.splitLines after ++ lines.drop (l + 1)
  | newline l offset => do
    let (before, after) ← (← lines[l]?).splitAt? offset
    return lines.take l ++ before :: after :: lines.drop (l + 1)
  | delete l start stop => do
    let (_, left) ← (← lines[l]?).cut? start stop
    return lines.set l left
  | join l => do
    return (lines.eraseIdx (l + 1)).set l ((← lines[l]?) ++ (← lines[l + 1]?))
  | deleteLine l => if lines.length = 1 then some [[]] else some (lines.eraseIdx l)

end Edit

structure EditHooks (σ : Type) where
  before : Buffer → LineEdit → σ → σ
  after : Buffer → LineEdit → σ → σ

namespace Buffer

def scratch : Buffer := { name := "*scratch*".toList, kind := .scratch }

instance : Inhabited Buffer := ⟨scratch⟩

def ofLines (name : Text) (lines : List Text) : Buffer :=
  { name := name, lines := if lines = [] then [[]] else lines }

def ofFile (path content : Text) : Buffer :=
  { ofLines ((Path.fileName? path).getD "unnamed".toList) content.fileLines with path := some path }

def apply (b : Buffer) (e : Edit) : Except EditError LineEdit × Buffer :=
  match e.range b.lines with
  | .error err => (.error err, b)
  | .ok r => (.ok r, { b with lines := (e.applied? b.lines).getD b.lines, modified := true })

/-- Makes an edit between its two hooks. An edit that cannot be made is not told. -/
def applyWith {σ : Type} (b : Buffer) (hooks : EditHooks σ) (e : Edit) (s : σ) :
    Except EditError LineEdit × Buffer × σ :=
  match e.range b.lines with
  | .error err => (.error err, b, s)
  | .ok r =>
    let s := hooks.before b r s
    match b.apply e with
    | (.error err, b) => (.error err, b, s)
    | (.ok r, b) => (.ok r, b, hooks.after b r s)

end Buffer

end Highlight
