import Highlight.Proofs.Display.Agreement

/-!
# Colors around the plain text

Lines are painted one after the other on one terminal. What is written with colors is what is
written without them, with control sequences in between; each character is shown in the
style of the category that is current at its column, and each line leaves the terminal in the
plain style in which the next one finds it.
-/

namespace Highlight

def Item.isGlyphs : Item → Bool
  | glyphs _ => true
  | control _ => false

/-- A line that is to be painted. Nothing is asked of its column spans. -/
structure PaintCall where
  line : Text
  spans : List ColumnSpan
  window : Window

namespace PaintCall

def cells (call : PaintCall) (m : Metrics) : List Cell := m.cells call.line call.spans call.window

def items (call : PaintCall) (coloring : Coloring) (m : Metrics) : List Item :=
  coloring.paintLine m call.line call.spans call.window

end PaintCall

def Coloring.paintAll (coloring : Coloring) (m : Metrics) (calls : List PaintCall) : List Item :=
  calls.flatMap fun call => call.items coloring m

namespace Coloring

theorem paint_plain (current : Option Category) (cells : List Cell) :
    plain.paint current cells = cells.map fun cell => .glyphs cell.glyphs := by
  induction cells generalizing current with
  | nil => cases current <;> rfl
  | cons cell cells ih =>
    rw [paint, ih]
    split <;> rfl

theorem filter_change (coloring : Coloring) (c : Option Category) :
    (coloring.change c).filter Item.isGlyphs = [] := by
  cases coloring with
  | plain => rfl
  | colored => simp [change, Item.isGlyphs]

theorem filter_paint (coloring : Coloring) (current : Option Category) (cells : List Cell) :
    (coloring.paint current cells).filter Item.isGlyphs =
      cells.map fun cell => .glyphs cell.glyphs := by
  induction cells generalizing current with
  | nil => cases current <;> simp [paint, filter_change]
  | cons cell cells ih =>
    have hchange : (if cell.category = current then [] else coloring.change cell.category).filter
        Item.isGlyphs = [] := by
      split
      · rfl
      · exact filter_change coloring cell.category
    rw [paint, List.filter_append, hchange, List.nil_append, List.map_cons, ← ih cell.category]
    rfl

theorem filter_items (coloring : Coloring) (m : Metrics) (call : PaintCall) :
    (call.items coloring m).filter Item.isGlyphs = call.items plain m := by
  rw [PaintCall.items, PaintCall.items, paintLine, paintLine, List.filter_append, filter_paint,
    paint_plain]
  rfl

theorem filter_paintAll (coloring : Coloring) (m : Metrics) (calls : List PaintCall) :
    (coloring.paintAll m calls).filter Item.isGlyphs = plain.paintAll m calls := by
  induction calls with
  | nil => rfl
  | cons call calls ih =>
    rw [paintAll, List.flatMap_cons, List.filter_append, filter_items, ← paintAll, ih]
    rfl

end Coloring

namespace PaintCall

variable (call : PaintCall) (m : Metrics)

theorem after_cells : Pen.plain.after (Coloring.colored.paint none (call.cells m)) = .plain :=
  (Coloring.shown_paint none (call.cells m)).2

theorem after_items : Pen.plain.after (call.items .colored m) = .plain := by
  rw [items, Coloring.paintLine, Pen.after_append]
  exact congrArg (Pen.after · [.glyphs ['\n']]) (call.after_cells m)

end PaintCall

namespace Metrics

theorem of_mem_cellsFrom {m : Metrics} {w : Window} {spans : List ColumnSpan} {col : Nat}
    {t : Text} {cell : Cell} (h : cell ∈ m.cellsFrom w col spans t) :
    cell.char ∈ t ∧ cell.category = ColumnSpan.categoryAt? spans cell.column := by
  induction t generalizing col with
  | nil => cases h
  | cons c t ih =>
    rw [cellsFrom_cons] at h
    split at h
    · cases h
    · rcases List.mem_append.1 h with hhead | htail
      · split at hhead
        · obtain rfl := List.mem_singleton.1 hhead
          exact ⟨List.mem_cons_self, rfl⟩
        · cases hhead
      · exact (ih htail).imp_left (List.mem_cons_of_mem c)

end Metrics

namespace Coloring

theorem after_paintAll (m : Metrics) (calls : List PaintCall) :
    Pen.plain.after (colored.paintAll m calls) = .plain := by
  induction calls with
  | nil => rfl
  | cons call calls ih =>
    rw [paintAll, List.flatMap_cons, Pen.after_append, call.after_items m]
    exact ih

theorem shown_paintAll (m : Metrics) (calls : List PaintCall) :
    Pen.plain.shown (colored.paintAll m calls) = calls.flatMap fun call =>
      (call.cells m).map (fun cell => (Pen.ofCategory? cell.category, cell.glyphs)) ++
        [(.plain, ['\n'])] := by
  induction calls with
  | nil => rfl
  | cons call calls ih =>
    rw [paintAll, List.flatMap_cons, List.flatMap_cons, Pen.shown_append, call.after_items m,
      PaintCall.items, shown_paintLine, ← paintAll, ih]
    rfl

/-- Without its control sequences a colored painting of lines is the plain one. A terminal
shows each cell in the style of its category, which is the current one at its column, or in
the plain style if there is none, and the pen is plain at each newline that ends a line. No two
categories have one style, and none has the plain one. -/
theorem paintAll_colored (m : Metrics) (calls : List PaintCall) :
    (colored.paintAll m calls).filter Item.isGlyphs = plain.paintAll m calls ∧
    Pen.plain.shown (colored.paintAll m calls) = (calls.flatMap fun call =>
      (call.cells m).map (fun cell => (Pen.ofCategory? cell.category, cell.glyphs)) ++
        [(.plain, ['\n'])]) ∧
    (∀ call : PaintCall, ∀ cell ∈ call.cells m,
      cell.category = ColumnSpan.categoryAt? call.spans cell.column) ∧
    (∀ call : PaintCall,
      colored.paintAll m (calls ++ [call]) =
        colored.paintAll m calls ++ colored.paint none (call.cells m) ++ [.glyphs ['\n']] ∧
      Pen.plain.after (colored.paintAll m calls ++ colored.paint none (call.cells m)) = .plain) ∧
    Function.Injective Pen.ofCategory? := by
  refine ⟨filter_paintAll colored m calls, shown_paintAll m calls, ?_, ?_,
    Pen.ofCategory?_injective⟩
  · intro call cell hcell
    exact (Metrics.of_mem_cellsFrom hcell).2
  · intro call
    constructor
    · simp only [paintAll, List.flatMap_append, List.flatMap_singleton, List.append_assoc]
      rfl
    · rw [Pen.after_append, after_paintAll, call.after_cells m]

/-- A keyword with a blank behind it, and a comment whose first column the window cuts off. -/
theorem paintAll_colored_keyword :
    let m := Metrics.ofTabWidth 8
    let calls : List PaintCall := [⟨['i', 'f', ' '], [⟨0, 2, .keyword⟩], ⟨0, 4⟩⟩,
      ⟨['/', '/'], [⟨0, 2, .comment⟩], ⟨1, 3⟩⟩]
    colored.paintAll m calls = [.control .reset, .control (.foreground 5), .control .bold,
        .glyphs ['i'], .glyphs ['f'], .control .reset, .glyphs [' '], .glyphs ['\n'],
        .control .reset, .control (.foreground 8), .control .italic, .glyphs ['/'],
        .control .reset, .glyphs ['\n']] ∧
      plain.paintAll m calls = [.glyphs ['i'], .glyphs ['f'], .glyphs [' '], .glyphs ['\n'],
        .glyphs ['/'], .glyphs ['\n']] ∧
      Pen.plain.shown (colored.paintAll m calls) =
        [({ foreground := .magenta, bold := true }, ['i']),
          ({ foreground := .magenta, bold := true }, ['f']), (.plain, [' ']), (.plain, ['\n']),
          ({ foreground := .brightBlack, italic := true }, ['/']), (.plain, ['\n'])] := by
  intro m calls
  obtain ⟨hplain, hshown, -⟩ := paintAll_colored m calls
  exact ⟨by decide +kernel, hplain.symm.trans (by decide +kernel),
    hshown.trans (by decide +kernel)⟩

end Coloring

end Highlight
