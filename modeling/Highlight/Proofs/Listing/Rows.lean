import Highlight.Listing
import Highlight.Proofs.Buffer.Document
import Highlight.Proofs.Display.Stripping
import Highlight.Proofs.Highlighter.Excursion

/-!
# The rows of a listing

A listing draws its lines one after the other, on one highlighter whose cache grows with each
of them. No row notices: it is what is painted of its line with the spans that a fresh
classification of the whole file gives to it. A listing of some lines is therefore a part of
the listing of all lines, row by row (`text_of_lines`).
-/

namespace Highlight

theorem Control.newline_not_mem_encode (c : Control) : '\n' ∉ c.encode := by
  have hdigits (n : Nat) : '\n' ∉ Nat.toDigits 10 n := by
    intro h
    exact absurd (Nat.isDigit_of_mem_toDigits (by decide) (by decide) h) (by decide)
  cases c <;> simp [encode, parameters, hdigits]

theorem Control.newline_not_mem_encodeAll (cs : List Control) :
    '\n' ∉ Item.encodeAll (cs.map Item.control) := by
  rw [Item.encodeAll, List.flatMap_map, List.mem_flatMap]
  rintro ⟨c, -, hc⟩
  exact c.newline_not_mem_encode hc

theorem Cell.newline_not_mem_glyphs {cell : Cell} (h : cell.char ≠ '\n') : '\n' ∉ cell.glyphs := by
  unfold glyphs
  split
  · simp
  · simpa using h.symm

theorem Coloring.newline_not_mem_paint (coloring : Coloring) (current : Option Category)
    {cells : List Cell} (h : ∀ cell ∈ cells, cell.char ≠ '\n') :
    '\n' ∉ Item.encodeAll (coloring.paint current cells) := by
  have hchange (c : Option Category) : '\n' ∉ Item.encodeAll (coloring.change c) := by
    cases coloring with
    | plain => exact List.not_mem_nil
    | colored => exact Control.newline_not_mem_encodeAll _
  induction cells generalizing current with
  | nil =>
    rw [paint]
    split
    · exact hchange none
    · exact List.not_mem_nil
  | cons cell cells ih =>
    obtain ⟨hcell, hcells⟩ := List.forall_mem_cons.1 h
    simp only [paint, Item.encodeAll, List.flatMap_append, List.flatMap_cons, List.mem_append,
      not_or]
    refine ⟨?_, Cell.newline_not_mem_glyphs hcell, ih cell.category hcells⟩
    split
    · exact List.not_mem_nil
    · exact hchange cell.category

namespace Listing

def row (l : Listing) (line : Nat) : Text :=
  let m := l.highlighter.metrics
  let text := (l.buffer.lines[line]?).getD []
  let w := l.columns.getD (.covering m text)
  Item.encodeAll (l.coloring.paint none (m.cells text (l.highlighter.drawFresh l.buffer line w) w))

def rows (l : Listing) : List Text := (List.range l.buffer.lines.length).map l.row

variable (l : Listing)

theorem lines_buffer : l.buffer.lines = (Buffer.ofFile l.path l.content).lines := rfl

theorem length_rows : l.rows.length = max 1 l.content.fileLines.length := by
  rw [rows, List.length_map, List.length_range, lines_buffer, Buffer.ofFile, Buffer.ofLines]
  dsimp only
  split
  · next h => rw [h]; rfl
  · next h => exact (Nat.max_eq_right (List.length_pos_iff.2 h)).symm

theorem newlineFree_rows : Text.NewlineFree l.rows := by
  have hlines : Text.NewlineFree l.buffer.lines :=
    Opening.NewlineFree.lines (o := .file l.path l.content) trivial
  intro r hr
  obtain ⟨line, -, rfl⟩ := List.mem_map.1 hr
  refine Coloring.newline_not_mem_paint _ _ fun cell hcell heq => ?_
  have hmem := heq ▸ (Metrics.of_mem_cellsFrom hcell).1
  cases htext : l.buffer.lines[line]? with
  | none => simp [htext] at hmem
  | some text =>
    rw [htext, Option.getD_some] at hmem
    exact hlines text (List.mem_of_getElem? htext) hmem

theorem remembers : l.highlighter.Remembers l.highlighter 0 l.buffer l.buffer.lines := by
  refine ⟨(Highlighter.Reachable.ofSettings l.settings l.width).consistent, rfl, fun {r} _ => ?_⟩
  have hnone : l.highlighter.caches.get? 0 = none := rfl
  have hcache : l.highlighter.cacheFor 0 r = ⟨r.stamp, { language := r.language }⟩ := by
    rw [Highlighter.cacheFor, hnone]
  rw [hcache]
  exact (LineCache.coherent_of_lines_eq_nil rfl).reflects

variable {l} {g : Highlighter}

theorem drawLines_cons (l : Listing) (b : Buffer) (g : Highlighter) (line : Nat)
    (lines : List Nat) :
    l.drawLines b g (line :: lines) =
      let text := (b.lines[line]?).getD []
      let w := l.columns.getD (.covering g.metrics text)
      l.coloring.paintLine g.metrics text (g.draw 0 (some b) line w).1 w ++
        l.drawLines b (g.draw 0 (some b) line w).2 lines :=
  rfl

theorem encodeAll_drawLines (hg : l.highlighter.Remembers g 0 l.buffer l.buffer.lines)
    (lines : List Nat) :
    Item.encodeAll (l.drawLines l.buffer g lines) =
      (lines.map l.row).flatMap (· ++ ['\n']) := by
  induction lines generalizing g with
  | nil => rfl
  | cons line lines ih =>
    have hmetrics : g.metrics = l.highlighter.metrics := by rw [hg.frame]
    have hbuffer : ((∅ : Table Nat Buffer).insert 0 l.buffer).get? 0 = some l.buffer := rfl
    have hdrawn (w : Window) : l.highlighter.Remembers (g.draw 0 (some l.buffer) line w).2 0
        l.buffer l.buffer.lines := hg.draw hbuffer 0 line w
    rw [drawLines_cons, Item.encodeAll, List.flatMap_append, ← Item.encodeAll, ← Item.encodeAll,
      ih (hdrawn _), hg.draw_eq, hmetrics, Coloring.paintLine, Item.encodeAll,
      List.flatMap_append, ← Item.encodeAll]
    rfl

theorem text_eq (l : Listing) :
    l.text = ((List.range' l.extent.1 l.extent.2).map l.row).flatMap (· ++ ['\n']) := by
  have hbuffer : ((∅ : Table Nat Buffer).insert 0 l.buffer).get? 0 = some l.buffer := rfl
  exact encodeAll_drawLines (l.remembers.prepare hbuffer 0 l.extent.1 (l.extent.1 + l.extent.2)) _

theorem text_of_whole (h : l.lines = none) : l.text = l.rows.flatMap (· ++ ['\n']) := by
  have hextent : l.extent = (0, l.buffer.lines.length) := by rw [extent, h]
  rw [text_eq, hextent, rows, List.range_eq_range']

theorem range'_min (start stop count : Nat) :
    List.range' (min start count) (min stop count - min start count) =
      ((List.range count).take stop).drop start := by
  rw [List.take_range, List.range_eq_range', List.drop_range']
  by_cases h : start ≤ count
  · rw [Nat.min_eq_left h, Nat.zero_add, Nat.mul_one]
  · rw [Nat.min_eq_right (Nat.le_of_not_le h), Nat.sub_eq_zero_of_le (Nat.min_le_right _ _),
      Nat.sub_eq_zero_of_le (by omega)]
    rfl

theorem text_of_lines {start stop : Nat} (h : l.lines = some (start, stop)) :
    l.text = ((l.rows.take stop).drop start).flatMap (· ++ ['\n']) := by
  have hextent : l.extent = (min start l.buffer.lines.length,
      min stop l.buffer.lines.length - min start l.buffer.lines.length) := by
    rw [extent, h]
  rw [text_eq, hextent, range'_min, rows, ← List.map_take, ← List.map_drop]

end Listing

end Highlight
