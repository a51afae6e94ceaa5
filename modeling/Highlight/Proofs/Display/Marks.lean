import Highlight.Proofs.Display.Clipping
import Highlight.Proofs.Display.Tiling

/-!
# Characters without a width

A combining character stands in the column behind its base, where the next character begins. So it
is drawn exactly if that column is one of the window, and it takes the category of the next
character and not that of its base (`cells_marks`). At the right edge of a window, and at the end
of a span, this parts it from its base.
-/

namespace Highlight

namespace Metrics

def IsMark (m : Metrics) (c : Char) : Prop := c ≠ '\t' ∧ m.width c = 0

instance (m : Metrics) (c : Char) : Decidable (m.IsMark c) :=
  inferInstanceAs (Decidable (c ≠ '\t' ∧ m.width c = 0))

variable {m : Metrics} {w : Window} {line before after marks : Text} {base c : Char} {col : Nat}

theorem IsMark.cellWidth_eq (h : m.IsMark c) (col : Nat) : m.cellWidth col c = 0 := by
  rw [cellWidth, if_neg h.1, h.2]

theorem cellWidth_pos (h : ¬ m.IsMark c) (col : Nat) : 0 < m.cellWidth col c := by
  rw [cellWidth]
  split
  · exact Nat.sub_pos_of_lt (Nat.mod_lt col m.tabWidth_pos)
  · next hc => exact Nat.pos_of_ne_zero fun hwidth => h ⟨hc, hwidth⟩

theorem columnAfter_marks (h : ∀ c ∈ marks, m.IsMark c) (col : Nat) :
    m.columnAfter col marks = col := by
  induction marks with
  | nil => rfl
  | cons c marks ih =>
    obtain ⟨hc, hmarks⟩ := List.forall_mem_cons.1 h
    rw [columnAfter, hc.cellWidth_eq, Nat.add_zero, ih hmarks]

theorem cellsFrom_append (spans : List ColumnSpan) (col : Nat) (t u : Text) :
    m.cellsFrom w col spans (t ++ u) =
      m.cellsFrom w col spans t ++ m.cellsFrom w (m.columnAfter col t) spans u := by
  induction t generalizing col with
  | nil => rfl
  | cons c t ih =>
    by_cases hstop : w.stop ≤ col
    · have hle := m.le_columnAfter col (c :: t)
      rw [cellsFrom_of_stop_le hstop, cellsFrom_of_stop_le hstop,
        cellsFrom_of_stop_le (Nat.le_trans hstop hle)]
      rfl
    · rw [List.cons_append, cellsFrom_cons, cellsFrom_cons, if_neg hstop, if_neg hstop, ih,
        List.append_assoc]
      rfl

theorem cellsFrom_marks {spans : List ColumnSpan} (h : ∀ c ∈ marks, m.IsMark c)
    (hstart : w.start ≤ col) :
    m.cellsFrom w col spans marks =
      if col < w.stop then marks.map (⟨·, col, 0, ColumnSpan.categoryAt? spans col⟩) else [] := by
  split
  · next hstop =>
    induction marks with
    | nil => rfl
    | cons c marks ih =>
      obtain ⟨hc, hmarks⟩ := List.forall_mem_cons.1 h
      have hwidth := hc.cellWidth_eq col
      rw [cellsFrom_cons_of_fits hstart hstop (by omega), hwidth, Nat.add_zero, ih hmarks]
      rfl
  · next hstop => exact cellsFrom_of_stop_le (Nat.le_of_not_lt hstop) spans marks

theorem categoryAt?_project_end {pos : Nat} {spans : List Span}
    (h : Span.WellFormedFrom line pos spans) :
    ColumnSpan.categoryAt? (spans.flatMap (w.project m line)) (m.columnAfter 0 line) = none := by
  have hstop : ∀ cs ∈ spans.flatMap (w.project m line), cs.stop ≤ m.columnAfter 0 line := by
    intro cs hcs
    obtain ⟨s, hs, hcs⟩ := List.mem_flatMap.1 hcs
    rw [← Span.placed_of_wellFormedFrom h] at hs
    obtain ⟨-, -, -, hboundary⟩ := Span.mem_placed hs
    exact Nat.le_trans (Window.mem_project hcs).2 (columnAt_le_columnAfter hboundary)
  rw [← List.append_nil (spans.flatMap _), ColumnSpan.categoryAt?_append hstop]
  rfl

/-- The category of the next character with a width, or none at the end of the line. -/
def nextCategory? (spans : List Span) (before after : Text) : Option Category :=
  after.head?.bind (Span.categoryAt? spans before.byteSize)

theorem categoryAt?_columnSpans (hline : line = before ++ after) {spans : List Span}
    (h : Span.WellFormed line spans) (hafter : ∀ c ∈ after.head?, ¬ m.IsMark c)
    (hstart : w.start ≤ m.columnAfter 0 before) (hstop : m.columnAfter 0 before < w.stop) :
    ColumnSpan.categoryAt? (m.columnSpans line spans w) (m.columnAfter 0 before) =
      nextCategory? spans before after := by
  rw [columnSpans_eq, Span.placed_of_wellFormedFrom h]
  cases after with
  | nil =>
    rw [List.append_nil] at hline
    rw [← hline, categoryAt?_project_end h]
    rfl
  | cons c after =>
    have hwidth := cellWidth_pos (hafter c rfl) (m.columnAfter 0 before)
    exact categoryAt?_project hline h hwidth hstart hstop

end Metrics

/-! ## Marks and their base -/

def Span.Holds (spans : List Span) (before t : Text) : Prop :=
  ∃ s ∈ spans, s.start ≤ before.byteSize ∧ (before ++ t).byteSize ≤ s.stop

/-- All marks behind a base are drawn, and those that share its span have its category. -/
def Cell.MarksStay (spans : List Span) (before : Text) (base : Cell) (marks : Text)
    (drawn : List Cell) : Prop :=
  drawn.map Cell.char = marks ∧
    ∀ inside outside, marks = inside ++ outside → Span.Holds spans before (base.char :: inside) →
      ∀ cell ∈ drawn.take inside.length, cell.category = base.category

variable {m : Metrics} {w : Window} {line before after marks : Text} {base : Char}
  {spans : List Span}

theorem Span.Holds.of_append {t u : Text} (h : Holds spans before (t ++ u)) :
    Holds spans before t := by
  obtain ⟨s, hs, hstart, hstop⟩ := h
  rw [← List.append_assoc, Text.byteSize_append] at hstop
  exact ⟨s, hs, hstart, by omega⟩

theorem Cell.marksStay_iff {cell : Cell} {col : Nat} {next : Option Category} {visible : Prop}
    [Decidable visible] :
    MarksStay spans before cell marks
        (if visible then marks.map (⟨·, col, 0, next⟩) else []) ↔
      marks = [] ∨ visible ∧
        (Span.Holds spans before (cell.char :: marks.take 1) → next = cell.category) := by
  by_cases hnil : marks = []
  · subst hnil
    refine iff_of_true ⟨by split <;> rfl, fun _ _ _ _ drawn hdrawn => ?_⟩ (.inl rfl)
    split at hdrawn <;> simp at hdrawn
  obtain ⟨first, rest, rfl⟩ := List.exists_cons_of_ne_nil hnil
  constructor
  · rintro ⟨hall, hcategory⟩
    by_cases hvisible : visible
    · rw [if_pos hvisible] at hcategory
      exact .inr ⟨hvisible, fun hholds =>
        hcategory [first] rest rfl hholds _ List.mem_cons_self⟩
    · rw [if_neg hvisible] at hall
      cases hall
  · rintro (h | ⟨hvisible, hnext⟩)
    · cases h
    rw [if_pos hvisible]
    refine ⟨List.map_map.trans (List.map_id _), fun inside outside heq hholds drawn hdrawn => ?_⟩
    cases inside with
    | nil => cases hdrawn
    | cons c inside =>
      -- The first mark is among those that share the span.
      obtain ⟨rfl, -⟩ := List.cons.inj heq
      have hfirst : Span.Holds spans before ([cell.char, first] ++ inside) := hholds
      obtain ⟨_, -, rfl⟩ := List.mem_map.1 (List.mem_of_mem_take hdrawn)
      exact hnext hfirst.of_append

namespace Metrics

/-- On a line with well-formed spans, the marks behind a base that is drawn are drawn exactly if
the column behind the base is one of the window, all in the category of the next character with a
width. So they stay with the base unless the window ends there, or the first of them shares a span
with the base and the next character has another category. -/
theorem cells_marks {start width : Nat} (hspans : Span.WellFormed line spans)
    (hline : line = before ++ base :: (marks ++ after)) (hbase : ¬ m.IsMark base)
    (hmarks : ∀ c ∈ marks, m.IsMark c) (hafter : ∀ c ∈ after.head?, ¬ m.IsMark c)
    (hcol : m.columnAfter 0 before = start) (hwidth : m.cellWidth start base = width)
    (hstart : w.start ≤ start) (hstop : start + width ≤ w.stop) :
    let columns := m.columnSpans line spans w
    let cell : Cell := ⟨base, start, width, Span.categoryAt? spans before.byteSize base⟩
    let next := nextCategory? spans (before ++ base :: marks) after
    let drawn : List Cell :=
      if start + width < w.stop then marks.map (⟨·, start + width, 0, next⟩) else []
    m.cells line columns w = m.cellsFrom w 0 columns before ++
        cell :: (drawn ++ m.cellsFrom w (start + width) columns after) ∧
      (cell.MarksStay spans before marks drawn ↔
        marks = [] ∨ start + width < w.stop ∧
          (Span.Holds spans before (base :: marks.take 1) → next = cell.category)) := by
  intro columns cell next drawn
  refine ⟨?_, Cell.marksStay_iff⟩
  have hpos : 0 < width := hwidth ▸ cellWidth_pos hbase start
  have hbehind : m.columnAfter 0 (before ++ base :: marks) = start + width := by
    rw [columnAfter_append, hcol, columnAfter, hwidth, columnAfter_marks hmarks]
  have hcategory : ColumnSpan.categoryAt? columns start = cell.category := by
    have hhead : ∀ c ∈ (base :: (marks ++ after)).head?, ¬ m.IsMark c := fun c hc =>
      Option.some.inj hc ▸ hbase
    have hnext := categoryAt?_columnSpans hline hspans hhead (w := w) (by omega) (by omega)
    rw [hcol] at hnext
    exact hnext
  have hcell : m.cellsFrom w start columns (base :: (marks ++ after)) =
      cell :: m.cellsFrom w (start + width) columns (marks ++ after) := by
    rw [cellsFrom_cons_of_fits hstart (by omega) (by omega), hwidth, hcategory]
  have hdrawn : m.cellsFrom w (start + width) columns marks = drawn := by
    rw [cellsFrom_marks hmarks (by omega)]
    refine ite_congr rfl (fun hvisible => ?_) fun _ => rfl
    have hline' : line = (before ++ base :: marks) ++ after := by
      rw [hline, List.append_assoc, List.cons_append]
    have hnext := categoryAt?_columnSpans hline' hspans hafter (w := w) (by omega) (by omega)
    rw [hbehind] at hnext
    rw [hnext]
  rw [cells, hline, cellsFrom_append, hcol, hcell, cellsFrom_append, columnAfter_marks hmarks,
    hdrawn]

theorem cells_marks_comment :
    let m := ofTabWidth 4
    let line : Text := ['/', '/', '\t', 'e', '\u0301', '\u0308', '世']
    let spans : List Span := [⟨0, 6, .comment⟩]
    let base : Cell := ⟨'e', 4, 1, some .comment⟩
    let drawn : List Cell := [⟨'\u0301', 5, 0, none⟩, ⟨'\u0308', 5, 0, none⟩]
    Span.WellFormed line spans ∧
      m.cells line (m.columnSpans line spans ⟨2, 6⟩) ⟨2, 6⟩ =
        ⟨'\t', 2, 2, some .comment⟩ :: base :: drawn ∧
      ¬ base.MarksStay spans ['/', '/', '\t'] ['\u0301', '\u0308'] drawn := by
  intro m line spans base drawn
  have hspans : Span.WellFormed line spans := by decide
  have hline : line = ['/', '/', '\t'] ++ 'e' :: (['\u0301', '\u0308'] ++ ['世']) := rfl
  have hmarks : ∀ c ∈ ['\u0301', '\u0308'], m.IsMark c :=
    List.forall_mem_cons.2 ⟨by decide +kernel, List.forall_mem_singleton.2 (by decide +kernel)⟩
  have hwide : ¬ m.IsMark '世' := by decide +kernel
  have hafter : ∀ c ∈ ['世'].head?, ¬ m.IsMark c := fun c hc => Option.some.inj hc ▸ hwide
  have hcol : m.columnAfter 0 ['/', '/', '\t'] = 4 := by decide +kernel
  have hwidth : m.cellWidth 4 'e' = 1 := by decide +kernel
  obtain ⟨hcells, hstay⟩ := cells_marks (w := ⟨2, 6⟩) hspans hline (by decide +kernel) hmarks
    hafter hcol hwidth (by decide) (by decide)
  have hholds : Span.Holds spans ['/', '/', '\t'] ['e', '\u0301'] :=
    ⟨_, List.mem_cons_self, by decide, by decide⟩
  refine ⟨hspans, hcells.trans (by decide +kernel), fun h => ?_⟩
  rcases hstay.1 h with hnil | ⟨-, hnext⟩
  · cases hnil
  · exact absurd (hnext hholds) (by decide)

/-- The right edge of a window cuts an accent from its letter, and at the end of a comment the
accent is not in the style of its letter. -/
theorem not_marksStay_accent :
    let m := ofTabWidth 8
    let line : Text := ['/', '/', 'e', '\u0301']
    let spans : List Span := [⟨0, 5, .comment⟩]
    let front : List Cell := [⟨'/', 0, 1, some .comment⟩, ⟨'/', 1, 1, some .comment⟩]
    let base : Cell := ⟨'e', 2, 1, some .comment⟩
    Span.WellFormed line spans ∧
      (m.cells line (m.columnSpans line spans ⟨0, 3⟩) ⟨0, 3⟩ = front ++ [base] ∧
        ¬ base.MarksStay spans ['/', '/'] ['\u0301'] []) ∧
      m.cells line (m.columnSpans line spans ⟨0, 4⟩) ⟨0, 4⟩ =
          front ++ [base, ⟨'\u0301', 3, 0, none⟩] ∧
        ¬ base.MarksStay spans ['/', '/'] ['\u0301'] [⟨'\u0301', 3, 0, none⟩] := by
  intro m line spans front base
  have hholds : Span.Holds spans ['/', '/'] ['e', '\u0301'] :=
    ⟨_, List.mem_cons_self, by decide, by decide⟩
  refine ⟨by decide, ⟨by decide +kernel, ?_⟩, by decide +kernel, ?_⟩
  · rintro ⟨hall, -⟩
    cases hall
  · rintro ⟨-, hcategory⟩
    exact absurd (hcategory _ [] rfl hholds _ List.mem_cons_self) (by decide)

end Metrics

end Highlight
