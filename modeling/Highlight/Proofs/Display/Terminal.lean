import Highlight.Display.Painting
import Mathlib.Data.List.Nodup

/-!
# What a terminal shows

A terminal prints text in the style of its pen, which control sequences change. It has a palette
of its own for the numbers in them, so nothing that is painted can be shown in a color unless its
number was sent. Painted cells show in the styles of their categories, whatever the sequences
between them leave out, and no two categories look the same.
-/

namespace Highlight

/-- The colors that a terminal has for the numbers from zero on. -/
def palette : List Color :=
  [.black, .red, .green, .yellow, .blue, .magenta, .cyan, .white, .brightBlack, .brightRed,
    .brightGreen, .brightYellow, .brightBlue, .brightMagenta, .brightCyan, .brightWhite]

abbrev Pen := Style

namespace Pen

def plain : Pen := Style.plain

def ofCategory? : Option Category → Pen
  | none => plain
  | some c => c.style

/-- The effect of one control sequence. A number that the palette does not have changes nothing. -/
def control (pen : Pen) : Control → Pen
  | .reset => plain
  | .foreground n => { pen with foreground := palette[n]?.getD pen.foreground }
  | .background n => { pen with background := palette[n]?.getD pen.background }
  | .bold => { pen with bold := true }
  | .italic => { pen with italic := true }
  | .underline => { pen with underline := true }

def after : Pen → List Item → Pen
  | pen, [] => pen
  | pen, .glyphs _ :: items => pen.after items
  | pen, .control c :: items => (pen.control c).after items

def shown : Pen → List Item → List (Pen × Text)
  | _, [] => []
  | pen, .glyphs t :: items => (pen, t) :: pen.shown items
  | pen, .control c :: items => (pen.control c).shown items

theorem ofCategory?_injective : Function.Injective ofCategory? := by
  have hnodup : (Category.all.map Category.style).Nodup := by decide
  rintro (_ | c) (_ | d) h
  · rfl
  · exact absurd h.symm d.style_ne_plain
  · exact absurd h c.style_ne_plain
  · exact congrArg some (List.inj_on_of_nodup_map hnodup c.mem_all d.mem_all h)

variable (pen : Pen)

theorem after_append (l r : List Item) : pen.after (l ++ r) = (pen.after l).after r := by
  induction l generalizing pen with
  | nil => rfl
  | cons item l ih => cases item <;> exact ih _

theorem shown_append (l r : List Item) :
    pen.shown (l ++ r) = pen.shown l ++ (pen.after l).shown r := by
  induction l generalizing pen with
  | nil => rfl
  | cons item l ih => cases item <;> simp [shown, after, ih]

theorem after_controls (cs : List Control) :
    pen.after (cs.map Item.control) = cs.foldl control pen := by
  induction cs generalizing pen with
  | nil => rfl
  | cons c cs ih => exact ih _

@[simp] theorem shown_controls (cs : List Control) : pen.shown (cs.map Item.control) = [] := by
  induction cs generalizing pen with
  | nil => rfl
  | cons c cs ih => exact ih _

theorem foldl_controls_plain (s : Style) : s.controls.foldl control plain = s := by
  have hfg : ∀ c : Color, (c.paletteIndex?.map Control.foreground).toList.foldl control plain =
      { plain with foreground := c } := by
    intro c
    cases c <;> rfl
  have hbg : ∀ (fg c : Color), (c.paletteIndex?.map Control.background).toList.foldl control
      { plain with foreground := fg } = { plain with foreground := fg, background := c } := by
    intro fg c
    cases c <;> rfl
  simp only [Style.controls, List.foldl_append, hfg, hbg]
  obtain ⟨fg, bg, bold, italic, underline⟩ := s
  cases bold <;> cases italic <;> cases underline <;> rfl

@[simp] theorem after_change (c : Option Category) :
    pen.after (Coloring.colored.change c) = ofCategory? c := by
  rw [Coloring.change, after_controls]
  cases c with
  | none => rfl
  | some c => exact foldl_controls_plain c.style

@[simp] theorem shown_change (coloring : Coloring) (c : Option Category) :
    pen.shown (coloring.change c) = [] := by
  cases coloring with
  | plain => rfl
  | colored => exact shown_controls pen _

end Pen

namespace Coloring

theorem shown_paint (current : Option Category) (cells : List Cell) :
    (Pen.ofCategory? current).shown (colored.paint current cells) =
        cells.map (fun cell => (Pen.ofCategory? cell.category, cell.glyphs)) ∧
      (Pen.ofCategory? current).after (colored.paint current cells) = .plain := by
  induction cells generalizing current with
  | nil => cases current <;> simp [paint, Pen.shown, Pen.after, Pen.ofCategory?]
  | cons cell cells ih =>
    obtain ⟨hshown, hafter⟩ := ih cell.category
    have hpen : (Pen.ofCategory? current).after
        (if cell.category = current then [] else colored.change cell.category) =
        Pen.ofCategory? cell.category := by
      split
      · next h => rw [h]; rfl
      · exact Pen.after_change _ _
    have hnone : (Pen.ofCategory? current).shown
        (if cell.category = current then [] else colored.change cell.category) = [] := by
      split
      · rfl
      · exact Pen.shown_change _ _ _
    rw [paint, Pen.shown_append, Pen.after_append, hpen, hnone]
    exact ⟨congrArg (List.cons _) hshown, hafter⟩

theorem shown_paintLine (m : Metrics) (line : Text) (spans : List ColumnSpan) (w : Window) :
    Pen.plain.shown (colored.paintLine m line spans w) =
      (m.cells line spans w).map (fun cell => (Pen.ofCategory? cell.category, cell.glyphs)) ++
        [(.plain, ['\n'])] := by
  have h := shown_paint none (m.cells line spans w)
  rw [Pen.ofCategory?] at h
  rw [paintLine, Pen.shown_append, h.1, h.2]
  rfl

end Coloring

end Highlight
