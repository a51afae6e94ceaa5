import Highlight.Display.Painting
import Highlight.Highlighter

/-!
# Listings of files

A listing shows lines of a file from one to another, each with its visible columns. The
lines are prepared together and then drawn one by one, as an editor would do.
-/

namespace Highlight

/-- What is listed. The lines are those from the first number up to the second one; without them
all lines are shown, and without columns each line as a whole. -/
structure Listing where
  settings : Settings := {}
  path : Text
  content : Text
  lines : Option (Nat × Nat) := none
  columns : Option Window := none
  coloring : Coloring := .plain
  width : Char → Nat := charWidth

namespace Listing

def highlighter (l : Listing) : Highlighter := .ofSettings l.settings l.width

def buffer (l : Listing) : Buffer :=
  { Buffer.ofFile l.path l.content with filetype := l.highlighter.detect? l.path }

def extent (l : Listing) : Nat × Nat :=
  let count := l.buffer.lines.length
  match l.lines with
  | none => (0, count)
  | some (start, stop) => (min start count, min stop count - min start count)

def drawLines (l : Listing) (b : Buffer) : Highlighter → List Nat → List Item
  | _, [] => []
  | h, line :: lines =>
    let text := (b.lines[line]?).getD []
    let w := l.columns.getD (.covering h.metrics text)
    let (spans, h') := h.draw 0 (some b) line w
    l.coloring.paintLine h.metrics text spans w ++ l.drawLines b h' lines

def items (l : Listing) : List Item :=
  let b := l.buffer
  let (start, count) := l.extent
  let h := l.highlighter.prepare 0 (some b) start (start + count)
  l.drawLines b h (List.range' start count)

def text (l : Listing) : Text := Item.encodeAll l.items

end Listing

end Highlight
