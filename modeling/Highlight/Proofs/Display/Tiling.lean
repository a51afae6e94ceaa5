import Highlight.Proofs.Display.Stripping

/-!
# Windows side by side

What a window shows of a line is one block of its characters, behind those that begin before
the window. The blocks of two windows side by side follow one another in the line if no
character is cut by the edge between them, so together they show what one window over both
shows (`exists_blocks`). Characters without a width at the edge belong to the window that
begins there.
-/

namespace Highlight

namespace Metrics

def row (m : Metrics) (spans : List ColumnSpan) : Nat → Text → List Cell
  | _, [] => []
  | col, c :: t =>
    ⟨c, col, m.cellWidth col c, ColumnSpan.categoryAt? spans col⟩ ::
      m.row spans (col + m.cellWidth col c) t

def expand (m : Metrics) : Nat → Text → Text
  | _, [] => []
  | col, c :: t =>
    (if c = '\t' then List.replicate (m.cellWidth col c) ' ' else [c]) ++
      m.expand (col + m.cellWidth col c) t

/-- Some character of a text that begins at a column takes columns on both sides of an edge. -/
def Straddles (m : Metrics) (col edge : Nat) (t : Text) : Prop :=
  ∃ before c after, t = before ++ c :: after ∧ m.columnAfter col before < edge ∧
    edge < m.columnAfter col before + m.cellWidth (m.columnAfter col before) c

variable {m : Metrics} {w : Window} {spans : List ColumnSpan} {col edge : Nat} {c : Char}
  {t : Text}

theorem flatMap_glyphs_row (m : Metrics) (spans : List ColumnSpan) (col : Nat) (t : Text) :
    (m.row spans col t).flatMap Cell.glyphs = m.expand col t := by
  induction t generalizing col with
  | nil => rfl
  | cons c t ih =>
    rw [row, List.flatMap_cons, ih]
    rfl

theorem not_straddles_nil (m : Metrics) (col edge : Nat) : ¬ m.Straddles col edge [] := by
  rintro ⟨before, c, after, h, -⟩
  exact List.append_ne_nil_of_right_ne_nil before (List.cons_ne_nil c after) h.symm

theorem straddles_cons :
    m.Straddles col edge (c :: t) ↔
      (col < edge ∧ edge < col + m.cellWidth col c) ∨
        m.Straddles (col + m.cellWidth col c) edge t := by
  constructor
  · rintro ⟨before, d, after, h, hcut⟩
    rcases List.cons_eq_append_iff.1 h with ⟨rfl, hd⟩ | ⟨front, rfl, rfl⟩
    · obtain ⟨rfl, -⟩ := List.cons.inj hd
      exact .inl hcut
    · exact .inr ⟨front, d, after, rfl, hcut⟩
  · rintro (hcut | ⟨before, d, after, rfl, hcut⟩)
    · exact ⟨[], c, t, rfl, hcut⟩
    · exact ⟨c :: before, d, after, rfl, hcut⟩

instance decidableStraddles (m : Metrics) (edge : Nat) :
    (col : Nat) → (t : Text) → Decidable (m.Straddles col edge t)
  | col, [] => isFalse (not_straddles_nil m col edge)
  | col, c :: t =>
    have := decidableStraddles m edge (col + m.cellWidth col c) t
    decidable_of_iff _ straddles_cons.symm

theorem cellsFrom_of_stop_le (h : w.stop ≤ col) (spans : List ColumnSpan) (t : Text) :
    m.cellsFrom w col spans t = [] := by
  cases t with
  | nil => rfl
  | cons c t => rw [cellsFrom_cons, if_pos h]

theorem cellsFrom_cons_of_fits (hstart : w.start ≤ col) (hlt : col < w.stop)
    (hstop : col + m.cellWidth col c ≤ w.stop) :
    m.cellsFrom w col spans (c :: t) =
      ⟨c, col, m.cellWidth col c, ColumnSpan.categoryAt? spans col⟩ ::
        m.cellsFrom w (col + m.cellWidth col c) spans t := by
  rw [cellsFrom_cons, if_neg (by omega), if_pos ⟨hstart, hstop⟩, List.singleton_append]

end Metrics

end Highlight
