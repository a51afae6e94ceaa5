import Highlight.Display.Columns
import Highlight.Display.Style

/-!
# Painting lines

A line is painted as a row of cells, one for each character that fits in the window as a
whole. A cell has the category of the column span over its first column. Control
sequences are put in where the category changes, and the style is reset at the end of
the line, so that each line begins in the plain style.
-/

namespace Highlight

inductive Control
  | reset
  | foreground (index : Nat)
  | background (index : Nat)
  | bold
  | italic
  | underline
  deriving DecidableEq, Repr

inductive Item
  | glyphs (t : Text)
  | control (c : Control)
  deriving DecidableEq, Repr

namespace Control

def parameters : Control → String
  | reset => "0"
  | bold => "1"
  | italic => "3"
  | underline => "4"
  | foreground n => "38;5;" ++ toString n
  | background n => "48;5;" ++ toString n

def encode (c : Control) : Text := '\x1b' :: '[' :: c.parameters.toList ++ ['m']

end Control

def Item.encode : Item → Text
  | glyphs t => t
  | control c => c.encode

def Style.controls (s : Style) : List Control :=
  (s.foreground.paletteIndex?.map Control.foreground).toList ++
    (s.background.paletteIndex?.map Control.background).toList ++
    (if s.bold then [.bold] else []) ++
    (if s.italic then [.italic] else []) ++
    (if s.underline then [.underline] else [])

def categoryControls : Option Category → List Control
  | none => [.reset]
  | some c => .reset :: c.style.controls

structure Cell where
  char : Char
  column : Nat
  width : Nat
  category : Option Category
  deriving DecidableEq, Repr

def Cell.glyphs (c : Cell) : Text :=
  if c.char = '\t' then List.replicate c.width ' ' else [c.char]

namespace Metrics

/-- The cells of a text that begins at a given column. Column spans are dropped once the
text has passed them. -/
def cellsFrom (m : Metrics) (w : Window) : Nat → List ColumnSpan → Text → List Cell
  | _, _, [] => []
  | col, spans, c :: t =>
    if w.stop ≤ col then []
    else
      let width := m.cellWidth col c
      if w.start ≤ col ∧ col + width ≤ w.stop then
        let spans := spans.dropWhile fun s => s.stop ≤ col
        let here := spans.head?.filter fun s => s.start ≤ col
        ⟨c, col, width, here.map ColumnSpan.category⟩ :: m.cellsFrom w (col + width) spans t
      else m.cellsFrom w (col + width) spans t

def cells (m : Metrics) (line : Text) (spans : List ColumnSpan) (w : Window) : List Cell :=
  m.cellsFrom w 0 spans line

end Metrics

inductive Coloring
  | plain
  | colored
  deriving DecidableEq, Repr, Inhabited

def Coloring.change (coloring : Coloring) (c : Option Category) : List Item :=
  match coloring with
  | .plain => []
  | .colored => (categoryControls c).map Item.control

def Coloring.paint (coloring : Coloring) : Option Category → List Cell → List Item
  | current, [] => if current.isSome then coloring.change none else []
  | current, cell :: cells =>
    (if cell.category = current then [] else coloring.change cell.category) ++
      .glyphs cell.glyphs :: coloring.paint cell.category cells

def Coloring.paintLine (coloring : Coloring) (m : Metrics) (line : Text)
    (spans : List ColumnSpan) (w : Window) : List Item :=
  coloring.paint none (m.cells line spans w) ++ [.glyphs ['\n']]

def Item.encodeAll (items : List Item) : Text := items.flatMap Item.encode

end Highlight
