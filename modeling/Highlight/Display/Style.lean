import Highlight.Category

/-!
# Terminal styles

The palette of sixteen colors, the style a piece of text is shown in, and the style of
each category. The plain style leaves every choice to the terminal.
-/

namespace Highlight

inductive Color
  | plain
  | black
  | red
  | green
  | yellow
  | blue
  | magenta
  | cyan
  | white
  | brightBlack
  | brightRed
  | brightGreen
  | brightYellow
  | brightBlue
  | brightMagenta
  | brightCyan
  | brightWhite
  deriving DecidableEq, Repr, Inhabited

namespace Color

def name : Color → String
  | plain => "Default"
  | black => "Black"
  | red => "Red"
  | green => "Green"
  | yellow => "Yellow"
  | blue => "Blue"
  | magenta => "Magenta"
  | cyan => "Cyan"
  | white => "White"
  | brightBlack => "BrightBlack"
  | brightRed => "BrightRed"
  | brightGreen => "BrightGreen"
  | brightYellow => "BrightYellow"
  | brightBlue => "BrightBlue"
  | brightMagenta => "BrightMagenta"
  | brightCyan => "BrightCyan"
  | brightWhite => "BrightWhite"

def paletteIndex? : Color → Option Nat
  | plain => none
  | black => some 0
  | red => some 1
  | green => some 2
  | yellow => some 3
  | blue => some 4
  | magenta => some 5
  | cyan => some 6
  | white => some 7
  | brightBlack => some 8
  | brightRed => some 9
  | brightGreen => some 10
  | brightYellow => some 11
  | brightBlue => some 12
  | brightMagenta => some 13
  | brightCyan => some 14
  | brightWhite => some 15

end Color

structure Style where
  foreground : Color := .plain
  background : Color := .plain
  bold : Bool := false
  italic : Bool := false
  underline : Bool := false
  deriving DecidableEq, Repr, Inhabited

def Style.plain : Style := {}

def Category.style : Category → Style
  | .keyword => { foreground := .magenta, bold := true }
  | .preprocessorLike => { foreground := .brightMagenta }
  | .controlFlow => { foreground := .yellow, bold := true }
  | .type => { foreground := .brightBlue }
  | .constant => { foreground := .brightRed }
  | .call => { foreground := .blue }
  | .string => { foreground := .green }
  | .char => { foreground := .brightGreen }
  | .comment => { foreground := .brightBlack, italic := true }
  | .number => { foreground := .cyan }

theorem Category.style_ne_plain (c : Category) : c.style ≠ Style.plain := by
  cases c <;> decide

end Highlight
