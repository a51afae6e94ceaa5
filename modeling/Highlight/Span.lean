import Highlight.Category

/-!
# Spans and segments

A span gives a category to the bytes of a line from `start` up to `stop`. The spans of a
line are well formed if they are nonempty, in order, apart, and cut the line between
characters. Segments cover the whole line: the pieces under the spans with their
categories, and the pieces between them with none.
-/

namespace Highlight

structure Span where
  start : Nat
  stop : Nat
  category : Category
  deriving DecidableEq, Repr, Inhabited

abbrev Segment := Text × Option Category

namespace Span

def length (s : Span) : Nat := s.stop - s.start

def IsEmpty (s : Span) : Prop := s.stop ≤ s.start

instance (s : Span) : Decidable s.IsEmpty := inferInstanceAs (Decidable (_ ≤ _))

def text (s : Span) (line : Text) : Text := (line.slice? s.start s.stop).getD []

def shift (n : Nat) (s : Span) : Span := { s with start := n + s.start, stop := n + s.stop }

def WellFormedFrom (line : Text) : Nat → List Span → Prop
  | _, [] => True
  | pos, s :: ss =>
    pos ≤ s.start ∧ s.start < s.stop ∧ line.IsBoundary s.start ∧ line.IsBoundary s.stop ∧
      WellFormedFrom line s.stop ss

instance decidableWellFormedFrom (line : Text) :
    (pos : Nat) → (spans : List Span) → Decidable (WellFormedFrom line pos spans)
  | _, [] => isTrue trivial
  | _, s :: ss =>
    have := decidableWellFormedFrom line s.stop ss
    inferInstanceAs (Decidable (_ ∧ _ ∧ _ ∧ _ ∧ _))

def WellFormed (line : Text) (spans : List Span) : Prop := WellFormedFrom line 0 spans

instance (line : Text) (spans : List Span) : Decidable (WellFormed line spans) :=
  inferInstanceAs (Decidable (WellFormedFrom line 0 spans))

def gap? (line : Text) (start stop : Nat) : Option (List Segment) :=
  if start < stop then (line.slice? start stop).map fun piece => [(piece, none)] else some []

/-- The segments of a line from an offset on. Spans that overlap give their pieces all the same;
there are no segments only if some span is not a part of the line. -/
def segmentsFrom? (line : Text) : Nat → List Span → Option (List Segment)
  | pos, [] => gap? line pos line.byteSize
  | pos, s :: ss => do
    let between ← gap? line pos s.start
    let piece ← line.slice? s.start s.stop
    let tail ← segmentsFrom? line s.stop ss
    return between ++ (piece, some s.category) :: tail

def segments? (line : Text) (spans : List Span) : Option (List Segment) :=
  segmentsFrom? line 0 spans

end Span

end Highlight
