import Highlight.Main
import Highlight.Pattern.Reader
import Highlight.Proofs.Buffer.Bracketing
import Highlight.Proofs.Buffer.Document
import Highlight.Proofs.Buffer.Splice
import Highlight.Proofs.CommandLine.LineRange
import Highlight.Proofs.CommandLine.PlainOutput
import Highlight.Proofs.Display.Agreement
import Highlight.Proofs.Display.Clipping
import Highlight.Proofs.Display.Marks
import Highlight.Proofs.Display.Tiling
import Highlight.Proofs.Highlighter.AddedWords
import Highlight.Proofs.Highlighter.Drawing
import Highlight.Proofs.Highlighter.Excursion
import Highlight.Proofs.Highlighter.Redraw
import Highlight.Proofs.Highlighter.Registry
import Highlight.Proofs.Highlighter.Replacement
import Highlight.Proofs.Lexicon.Brackets
import Highlight.Proofs.Lexicon.BracketsOnly
import Highlight.Proofs.Lexicon.Carry
import Highlight.Proofs.Lexicon.Kinds
import Highlight.Proofs.Lexicon.Offsets
import Highlight.Proofs.Lexicon.Places
import Highlight.Proofs.Lexicon.Recoloring
import Highlight.Proofs.Lexicon.Restart
import Highlight.Proofs.Lexicon.Segments
import Highlight.Proofs.Lexicon.Separation
import Highlight.Proofs.Lexicon.States
import Highlight.Proofs.Lexicon.Units
import Highlight.Proofs.Lexicon.Words
import Highlight.Proofs.LineCache.Acceptance
import Highlight.Proofs.LineCache.Coherence
import Highlight.Proofs.LineCache.Filling
import Highlight.Proofs.LineCache.Propagation
import Highlight.Proofs.LineCache.Rejection
import Highlight.Proofs.LineCache.Repetition
import Highlight.Proofs.LineCache.Stepwise
import Highlight.Proofs.Pattern.Alphabet
import Highlight.Proofs.Pattern.Anchoring
import Highlight.Proofs.Pattern.Greedy
import Highlight.Proofs.Pattern.Grouping
import Highlight.Proofs.Pattern.Lookahead
import Highlight.Proofs.Pattern.Numerals
import Highlight.Proofs.Settings.Documents
import Highlight.Proofs.Zig.Brackets
import Highlight.Proofs.Zig.Spaces
import Highlight.Proofs.Zig.Words
