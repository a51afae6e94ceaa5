import Highlight.Span
import Highlight.Display.CharWidth

/-!
# Columns of a line

Characters take columns from left to right, and a tab reaches to the next column that
the tab width divides. `columnSpans` maps the spans of a line to columns and clips them
to a window. It gives up at the first span that does not lie on the text behind the span
before it, since such spans belong to another text.
-/

namespace Highlight

structure Metrics where
  tabWidth : Nat
  /-- The columns of each character but the tab. -/
  width : Char → Nat
  tabWidth_pos : 0 < tabWidth

namespace Metrics

def ofTabWidth (n : Nat) (width : Char → Nat := charWidth) : Metrics := ⟨max n 1, width, by omega⟩

instance : Inhabited Metrics := ⟨ofTabWidth 8⟩

def cellWidth (m : Metrics) (col : Nat) (c : Char) : Nat :=
  if c = '\t' then m.tabWidth - col % m.tabWidth else m.width c

def columnAfter (m : Metrics) : Nat → Text → Nat
  | col, [] => col
  | col, c :: t => m.columnAfter (col + m.cellWidth col c) t

theorem columnAfter_append (m : Metrics) (col : Nat) (t u : Text) :
    m.columnAfter col (t ++ u) = m.columnAfter (m.columnAfter col t) u := by
  induction t generalizing col with
  | nil => rfl
  | cons c t ih => simp [columnAfter, ih]

theorem le_columnAfter (m : Metrics) (col : Nat) (t : Text) : col ≤ m.columnAfter col t := by
  induction t generalizing col with
  | nil => exact Nat.le_refl col
  | cons c t ih => exact Nat.le_trans (Nat.le_add_right col _) (ih _)

end Metrics

structure Window where
  start : Nat
  stop : Nat
  deriving DecidableEq, Repr, Inhabited

/-- A window that shows a whole line. It has a column to spare, which characters without
a width at the end of the line need. -/
def Window.covering (m : Metrics) (line : Text) : Window := ⟨0, m.columnAfter 0 line + 1⟩

structure ColumnSpan where
  start : Nat
  stop : Nat
  category : Category
  deriving DecidableEq, Repr, Inhabited

structure Place where
  offset : Nat
  column : Nat
  rest : Text
  deriving DecidableEq, Repr

namespace Place

def first (line : Text) : Place := ⟨0, 0, line⟩

def advance? (m : Metrics) (p : Place) (offset : Nat) : Option Place :=
  if offset < p.offset then none
  else (p.rest.splitAt? (offset - p.offset)).map fun parts =>
    ⟨offset, m.columnAfter p.column parts.1, parts.2⟩

end Place

namespace Window

def clip (w : Window) (start stop : Nat) (c : Category) : List ColumnSpan :=
  let start := max start w.start
  let stop := min stop w.stop
  if start < stop then [⟨start, stop, c⟩] else []

end Window

namespace Metrics

def columnSpansFrom (m : Metrics) (w : Window) : Place → List Span → List ColumnSpan
  | _, [] => []
  | p, s :: ss =>
    match p.advance? m s.start with
    | none => []
    | some a =>
      if w.stop ≤ a.column then []
      else
        match a.advance? m s.stop with
        | none => []
        | some b => w.clip a.column b.column s.category ++ m.columnSpansFrom w b ss

def columnSpans (m : Metrics) (line : Text) (spans : List Span) (w : Window) :
    List ColumnSpan :=
  m.columnSpansFrom w (.first line) spans

end Metrics

end Highlight
