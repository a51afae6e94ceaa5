import Highlight.Proofs.Display.Projection
import Highlight.Proofs.Display.Terminal

/-!
# Painting agrees with the spans

The spans of a line are mapped to columns, and the cells of the line take their categories
from columns. For a character with a width nothing is lost on the way: it is shown in the
style of the span that contains its bytes, whatever the window cuts off. A character
without a width has no column of its own, so nothing is said about its style.
-/

namespace Highlight

/-- The category of the span that contains the character at an offset. -/
def Span.categoryAt? (spans : List Span) (offset : Nat) (c : Char) : Option Category :=
  (spans.find? fun s => s.start ≤ offset ∧ offset + c.utf8Size ≤ s.stop).map Span.category

/-- The category that a cell takes from the column spans. -/
def ColumnSpan.categoryAt? (spans : List ColumnSpan) (col : Nat) : Option Category :=
  ((spans.dropWhile fun s => s.stop ≤ col).head?.filter fun s => s.start ≤ col).map
    ColumnSpan.category

namespace Metrics

end Metrics

variable {m : Metrics} {w : Window} {line before after : Text} {c : Char}

namespace ColumnSpan

variable {spans : List ColumnSpan} {n col : Nat}

theorem dropWhile_dropWhile (h : n ≤ col) :
    ((spans.dropWhile fun s => s.stop ≤ n).dropWhile fun s => s.stop ≤ col) =
      spans.dropWhile fun s => s.stop ≤ col := by
  induction spans with
  | nil => rfl
  | cons s ss ih =>
    by_cases hn : s.stop ≤ n
    · have hcol : s.stop ≤ col := Nat.le_trans hn h
      simpa [hn, hcol] using ih
    · simp [hn]

theorem categoryAt?_append {front : List ColumnSpan} (h : ∀ s ∈ front, s.stop ≤ col) :
    categoryAt? (front ++ spans) col = categoryAt? spans col := by
  rw [categoryAt?, List.dropWhile_append_of_pos (by simpa using h), ← categoryAt?]

theorem categoryAt?_cons_of_covers {s : ColumnSpan} (hstart : s.start ≤ col)
    (hstop : col < s.stop) : categoryAt? (s :: spans) col = some s.category := by
  simp [categoryAt?, Nat.not_le.2 hstop, Option.filter, hstart]

theorem categoryAt?_eq_none (h : ∀ s ∈ spans, col < s.start) : categoryAt? spans col = none := by
  rw [categoryAt?, Option.map_eq_none_iff, Option.filter_eq_none_iff]
  intro s hs
  have hmem := (List.dropWhile_sublist _).subset (List.mem_of_head? hs)
  simpa using h s hmem

end ColumnSpan

namespace Span

variable {spans : List Span} {s : Span} {offset : Nat}

theorem categoryAt?_cons_of_contains (hstart : s.start ≤ offset)
    (hstop : offset + c.utf8Size ≤ s.stop) :
    categoryAt? (s :: spans) offset c = some s.category := by
  simp [categoryAt?, hstart, hstop]

theorem categoryAt?_cons_of_stop_le (h : s.stop ≤ offset) :
    categoryAt? (s :: spans) offset c = categoryAt? spans offset c := by
  have hc := Text.utf8Size_pos c
  rw [categoryAt?, List.find?_cons_of_neg (by simp; omega), ← categoryAt?]

theorem categoryAt?_eq_none (h : ∀ s ∈ spans, offset < s.start) :
    categoryAt? spans offset c = none := by
  rw [categoryAt?, Option.map_eq_none_iff, List.find?_eq_none]
  intro s hs
  have := h s hs
  simp
  omega

end Span

theorem Window.mem_project {s : Span} {cs : ColumnSpan} (h : cs ∈ w.project m line s) :
    m.columnAt line s.start ≤ cs.start ∧ cs.stop ≤ m.columnAt line s.stop := by
  simp only [project, clip] at h
  split at h
  · obtain rfl := List.mem_singleton.1 h
    exact ⟨Nat.le_max_left .., Nat.min_le_left ..⟩
  · cases h

namespace Metrics

theorem columnAt_cases (hline : line = before ++ c :: after) {n : Nat} (hn : line.IsBoundary n) :
    (n ≤ before.byteSize ∧ m.columnAt line n ≤ m.columnAfter 0 before) ∨
      (before.byteSize + c.utf8Size ≤ n ∧
        m.columnAfter 0 before + m.cellWidth (m.columnAfter 0 before) c ≤ m.columnAt line n) := by
  subst hline
  have hbefore : Text.IsBoundary before.byteSize (before ++ c :: after) :=
    Text.isBoundary_iff.2 ⟨before, c :: after, rfl, rfl⟩
  by_cases hle : n ≤ before.byteSize
  · exact .inl ⟨hle, by simpa using columnAt_mono (m := m) hn hbefore hle⟩
  obtain ⟨l, r, hl, rfl⟩ := Text.isBoundary_iff.1 hn
  obtain ⟨mid, rfl, hmid⟩ := Text.append_of_byteSize_le hl (by omega)
  cases mid with
  | nil => simp at hle
  | cons d mid =>
    obtain ⟨rfl, -⟩ := List.cons.inj hmid
    right
    rw [hl, columnAt_append, columnAfter_append, Text.byteSize_append]
    exact ⟨by simp only [Text.byteSize]; omega, m.le_columnAfter _ mid⟩

theorem categoryAt?_project (hline : line = before ++ c :: after) {pos : Nat} {spans : List Span}
    (h : Span.WellFormedFrom line pos spans)
    (hwidth : 0 < m.cellWidth (m.columnAfter 0 before) c) (hstart : w.start ≤ m.columnAfter 0 before)
    (hstop : m.columnAfter 0 before < w.stop) :
    ColumnSpan.categoryAt? (spans.flatMap (w.project m line)) (m.columnAfter 0 before) =
      Span.categoryAt? spans before.byteSize c := by
  have hsize := Text.utf8Size_pos c
  induction spans generalizing pos with
  | nil => rfl
  | cons s ss ih =>
    have ⟨_, hlt, hsstart, hsstop, hss⟩ := h
    rcases columnAt_cases (m := m) hline hsstop with ⟨hend, hendcol⟩ | ⟨hend, hendcol⟩
    · -- the span ends before the character
      have hfront : ∀ cs ∈ w.project m line s, cs.stop ≤ m.columnAfter 0 before :=
        fun cs hcs => Nat.le_trans (Window.mem_project hcs).2 hendcol
      rw [List.flatMap_cons, ColumnSpan.categoryAt?_append hfront, ih hss,
        Span.categoryAt?_cons_of_stop_le hend]
    rcases columnAt_cases (m := m) hline hsstart with ⟨hbegin, hbegincol⟩ | ⟨hbegin, hbegincol⟩
    · -- the span contains the character, and the window leaves its columns
      have hclip : w.project m line s = [⟨max (m.columnAt line s.start) w.start,
          min (m.columnAt line s.stop) w.stop, s.category⟩] := by
        simp only [Window.project, Window.clip]
        exact if_pos (by omega)
      rw [List.flatMap_cons, hclip, Span.categoryAt?_cons_of_contains hbegin hend]
      exact ColumnSpan.categoryAt?_cons_of_covers (by simp only; omega) (by simp only; omega)
    · -- the span and all behind it begin after the character
      have hself : Span.WellFormedFrom line s.start (s :: ss) :=
        And.intro (Nat.le_refl _) ⟨hlt, hsstart, hsstop, hss⟩
      rw [ColumnSpan.categoryAt?_eq_none, Span.categoryAt?_eq_none]
      · intro t ht
        have := (hself.of_mem ht).1
        omega
      · intro cs hcs
        obtain ⟨t, ht, hcs⟩ := List.mem_flatMap.1 hcs
        obtain ⟨hle, hb⟩ := hself.of_mem ht
        have hmono := columnAt_mono (m := m) hsstart hb hle
        have := (Window.mem_project hcs).1
        omega

theorem cellsFrom_dropWhile {n col : Nat} (h : n ≤ col) (spans : List ColumnSpan) (t : Text) :
    m.cellsFrom w col (spans.dropWhile fun s => s.stop ≤ n) t = m.cellsFrom w col spans t := by
  induction t generalizing col with
  | nil => rfl
  | cons c t ih =>
    simp only [cellsFrom]
    rw [ColumnSpan.dropWhile_dropWhile h, ih (Nat.le_trans h (Nat.le_add_right ..))]

theorem cellsFrom_cons (col : Nat) (spans : List ColumnSpan) (t : Text) :
    m.cellsFrom w col spans (c :: t) =
      if w.stop ≤ col then []
      else
        (if w.start ≤ col ∧ col + m.cellWidth col c ≤ w.stop then
          [⟨c, col, m.cellWidth col c, ColumnSpan.categoryAt? spans col⟩] else []) ++
          m.cellsFrom w (col + m.cellWidth col c) spans t := by
  simp only [cellsFrom, cellsFrom_dropWhile (Nat.le_add_right col (m.cellWidth col c))]
  split
  · rfl
  · split <;> rfl

end Metrics

end Highlight
