import Highlight.Language
import Highlight.LineEdit

/-!
# The line cache

A cache keeps the records of the first lines of a document. Reading a line extends the
cache down to it. An edit is announced before it happens and reported after it: the
records before the edit stay, its own lines are classified anew, and behind it lines are
classified only until one starts in the state that its old record starts in. From there
on the old records are right again. Any edit may be announced or reported, also one that no
document has room for; its numbers are added as natural numbers, without a bound where the sums
would wrap around.
-/

namespace Highlight

structure PendingEdit where
  edit : LineEdit
  lineCount : Nat
  touchesRegion : Bool
  deriving DecidableEq, Repr

structure LineCache where
  language : Language
  lines : List LineRecord := []
  pending : Option PendingEdit := none

inductive CacheError
  | lineOutOfRange (line count : Nat)
  | announcedOutOfRange (edit : LineEdit) (count : Nat)
  | lineCountMismatch (expected count : Nat)
  | unannounced (edit announced : LineEdit)
  | reportedOutOfRange (edit : LineEdit) (count : Nat)
  deriving DecidableEq, Repr

namespace CacheError

def message : CacheError → String
  | lineOutOfRange line count =>
    "Line " ++ toString line ++ " is out of range (buffer has " ++ toString count ++ " lines)"
  | announcedOutOfRange e count =>
    "Invalid input: edit of lines " ++ e.oldText ++ " outside buffer of " ++ toString count ++
      " lines"
  | lineCountMismatch expected count =>
    "Invalid input: expected " ++ toString expected ++ " lines after edit, buffer has " ++
      toString count
  | unannounced e announced =>
    "Invalid input: post-modify " ++ e.text ++ " does not match pre-modify " ++ announced.text
  | reportedOutOfRange e count =>
    "Invalid input: edited lines " ++ e.newText ++ " outside buffer of " ++ toString count ++
      " lines"

end CacheError

namespace LineRecord

def stateAfter (rs : List LineRecord) : LineState :=
  match rs.getLast? with
  | some r => r.after
  | none => .normal

end LineRecord

/-- The records of lines behind an edit, the first of which now starts in a given state,
and how many of them are new. Old records are used again from the first one on that
starts in the state that the line has now. -/
def Language.settle (l : Language) :
    LineState → List LineRecord → List Text → List LineRecord × Nat
  | _, [], _ => ([], 0)
  | s, old :: olds, ts =>
    if old.before = s then (old :: olds, 0)
    else
      match ts with
      | [] => ([], 0)
      | t :: ts =>
        let r := l.record s t
        let (rs, n) := settle l r.after olds ts
        (r :: rs, n + 1)

namespace Language

variable (l : Language) {s : LineState} {old : LineRecord} {olds : List LineRecord}

theorem settle_of_eq (h : old.before = s) (ts : List Text) :
    l.settle s (old :: olds) ts = (old :: olds, 0) := by
  cases ts <;> simp only [settle, if_pos h]

theorem settle_nil_of_ne (h : old.before ≠ s) : l.settle s (old :: olds) [] = ([], 0) := by
  simp only [settle, if_neg h]

theorem settle_cons_of_ne (h : old.before ≠ s) (t : Text) (ts : List Text) :
    l.settle s (old :: olds) (t :: ts) =
      (l.record s t :: (l.settle (l.record s t).after olds ts).1,
        (l.settle (l.record s t).after olds ts).2 + 1) := by
  simp only [settle, if_neg h]

end Language

namespace LineCache

def cachedSpans (c : LineCache) (line : Nat) : Option (List Span) :=
  (c.lines[line]?).map LineRecord.spans

def stateAfterLine (c : LineCache) (line : Nat) : Option LineState :=
  (c.lines[line]?).map LineRecord.after

def stateBefore (c : LineCache) : Nat → LineState
  | 0 => .normal
  | line + 1 => (c.stateAfterLine line).getD .normal

def invalidateFrom (c : LineCache) (line : Nat) : LineCache :=
  { c with lines := c.lines.take line }

def invalidateAll (c : LineCache) : LineCache := { c with lines := [], pending := none }

def extendTo (c : LineCache) (source : List Text) (n : Nat) : LineCache :=
  let kept := c.lines.take source.length
  let missing := (source.take n).drop kept.length
  { c with lines := kept ++ c.language.recordsFrom (LineRecord.stateAfter kept) missing }

def spans (c : LineCache) (source : List Text) (line : Nat) :
    Except CacheError (List Span) × LineCache :=
  if source.length ≤ line then (.error (.lineOutOfRange line source.length), c)
  else
    let c := c.extendTo source (line + 1)
    (.ok ((c.cachedSpans line).getD []), c)

def announce (c : LineCache) (source : List Text) (e : LineEdit) :
    Except CacheError Bool × LineCache :=
  if source.length < e.oldStop then (.error (.announcedOutOfRange e source.length), c)
  else
    let touched := (c.lines.drop e.start).take (max e.removed 1)
    let touches := (c.stateBefore e.start).isInside || touched.any (·.after.isInside)
    (.ok touches, { c with pending := some ⟨e, source.length, touches⟩ })

/-- Brings the records up to date with an edit that leads to the given document, and tells
how many lines were classified. -/
def apply (c : LineCache) (source : List Text) (e : LineEdit) :
    Except CacheError Nat × LineCache :=
  if source.length < e.newStop then
    (.error (.reportedOutOfRange e source.length), c.invalidateFrom e.start)
  else if c.lines.length ≤ e.start then (.ok 0, c)
  else
    let kept := c.lines.take e.start
    let inserted := (source.drop e.start).take e.inserted
    let changed := kept ++ c.language.recordsFrom (LineRecord.stateAfter kept) inserted
    let (settled, n) := c.language.settle (LineRecord.stateAfter changed)
      (c.lines.drop e.oldStop) (source.drop e.newStop)
    (.ok (e.inserted + n), { c with lines := (changed ++ settled).take source.length })

/-- Reports an edit after it was made. Without its announcement the records behind an edit
that moves lines cannot be used any more. -/
def report (c : LineCache) (source : List Text) (e : LineEdit) :
    Except CacheError Nat × LineCache :=
  let idle := { c with pending := none }
  match c.pending with
  | some p =>
    if p.edit = e then
      let expected := p.lineCount - e.removed + e.inserted
      if expected = source.length then idle.apply source e
      else (.error (.lineCountMismatch expected source.length), idle.invalidateFrom e.start)
    else (.error (.unannounced e p.edit), idle.invalidateFrom (min p.edit.start e.start))
  | none =>
    if e.kind = .change then idle.apply source e else (.ok 0, idle.invalidateFrom e.start)

end LineCache

end Highlight
