import Highlight.LineCache
import Highlight.Display.Columns

/-!
# Visible spans of a cached line

Looking at a line does not fill the cache: a line without a record shows no spans.
-/

namespace Highlight

def LineCache.columnSpans (c : LineCache) (m : Metrics) (source : List Text) (line : Nat)
    (w : Window) : Except CacheError (List ColumnSpan) :=
  match source[line]? with
  | none => .error (.lineOutOfRange line source.length)
  | some text =>
    match c.cachedSpans line with
    | some spans => .ok (m.columnSpans text spans w)
    | none => .ok []

end Highlight
