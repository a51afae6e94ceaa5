import Highlight.Display.Columns

/-!
# Columns of offsets

The place at an offset is found by one cut of the line. Advancing from place to place finds
the same places, so the columns of each span are those between the columns of its ends, as
long as the offsets of the spans do not go back and lie between characters.
-/

namespace Highlight

def Place.at? (m : Metrics) (line : Text) (n : Nat) : Option Place :=
  (line.splitAt? n).map fun parts => ⟨n, m.columnAfter 0 parts.1, parts.2⟩

def Metrics.columnAt (m : Metrics) (line : Text) (n : Nat) : Nat :=
  ((Place.at? m line n).map Place.column).getD 0

/-- The spans up to the first one that goes back or does not lie on the line. -/
def Span.placed (line : Text) : Nat → List Span → List Span
  | _, [] => []
  | pos, s :: ss =>
    if pos ≤ s.start ∧ s.start ≤ s.stop ∧ line.IsBoundary s.start ∧ line.IsBoundary s.stop then
      s :: placed line s.stop ss
    else []

def Window.project (w : Window) (m : Metrics) (line : Text) (s : Span) : List ColumnSpan :=
  w.clip (m.columnAt line s.start) (m.columnAt line s.stop) s.category

variable {m : Metrics} {line : Text}

namespace Place

@[simp] theorem at?_zero : at? m line 0 = some (first line) := by
  cases line <;> rfl

theorem at?_append (l r : Text) :
    at? m (l ++ r) l.byteSize = some ⟨l.byteSize, m.columnAfter 0 l, r⟩ := by
  simp [at?, Text.splitAt?_byteSize]

theorem at?_eq_some_iff {n : Nat} {p : Place} : at? m line n = some p ↔
    ∃ l, line = l ++ p.rest ∧ n = l.byteSize ∧ p.offset = n ∧ p.column = m.columnAfter 0 l := by
  constructor
  · intro h
    obtain ⟨⟨l, r⟩, hs, rfl⟩ := Option.map_eq_some_iff.1 h
    obtain ⟨hline, hn⟩ := Text.splitAt?_eq_some_iff.1 hs
    exact ⟨l, hline, hn, rfl, rfl⟩
  · rintro ⟨l, hline, rfl, hoffset, hcolumn⟩
    rw [hline, at?_append, ← hoffset, ← hcolumn]

@[simp] theorem isSome_at? {n : Nat} : (at? m line n).isSome ↔ line.IsBoundary n := by
  simp [at?, Text.IsBoundary]

theorem at?_eq_none_iff {n : Nat} : at? m line n = none ↔ ¬ line.IsBoundary n := by
  rw [← isSome_at? (m := m), Option.not_isSome_iff_eq_none]

theorem advance?_of_at? {k : Nat} {p : Place} (h : at? m line k = some p) (n : Nat) :
    p.advance? m n = if n < k then none else at? m line n := by
  obtain ⟨l, hline, hk, hoffset, hcolumn⟩ := at?_eq_some_iff.1 h
  rw [advance?, hoffset]
  split
  · rfl
  · next hle =>
    apply Option.ext
    intro q
    rw [at?_eq_some_iff, Option.map_eq_some_iff]
    constructor
    · rintro ⟨⟨l', r⟩, hs, rfl⟩
      obtain ⟨hrest, hn⟩ := Text.splitAt?_eq_some_iff.1 hs
      refine ⟨l ++ l', by simp [hline, hrest], ?_, rfl, ?_⟩
      · rw [Text.byteSize_append]
        omega
      · rw [hcolumn, Metrics.columnAfter_append]
    · rintro ⟨l', hline', hn, hq, hcol⟩
      have hsame : l ++ p.rest = l' ++ q.rest := hline.symm.trans hline'
      obtain ⟨mid, rfl, hrest⟩ := Text.append_of_byteSize_le hsame (by omega)
      rw [Text.byteSize_append] at hn
      refine ⟨(mid, q.rest), Text.splitAt?_eq_some_iff.2 ⟨hrest, by omega⟩, ?_⟩
      rw [hcolumn, ← Metrics.columnAfter_append, ← hcol, ← hq]

end Place

namespace Metrics

@[simp] theorem columnAt_append (l r : Text) :
    m.columnAt (l ++ r) l.byteSize = m.columnAfter 0 l := by
  simp [columnAt, Place.at?_append]

theorem columnAt_of_at? {n : Nat} {p : Place} (h : Place.at? m line n = some p) :
    m.columnAt line n = p.column := by
  rw [columnAt, h]
  rfl

theorem columnAt_mono {a b : Nat} (ha : line.IsBoundary a) (hb : line.IsBoundary b)
    (hab : a ≤ b) : m.columnAt line a ≤ m.columnAt line b := by
  obtain ⟨l, r, rfl, rfl⟩ := Text.isBoundary_iff.1 ha
  obtain ⟨l', r', heq, rfl⟩ := Text.isBoundary_iff.1 hb
  obtain ⟨mid, rfl, rfl⟩ := Text.append_of_byteSize_le heq hab
  rw [heq, columnAt_append, ← heq, columnAt_append, columnAfter_append]
  exact m.le_columnAfter _ mid

end Metrics

namespace Window

theorem clip_of_stop_le {w : Window} {start : Nat} (h : w.stop ≤ start) (stop : Nat)
    (c : Category) : w.clip start stop c = [] := by
  simp only [clip]
  exact if_neg (by omega)

end Window

namespace Span

theorem mem_placed {pos : Nat} {spans : List Span} {s : Span} (h : s ∈ placed line pos spans) :
    pos ≤ s.start ∧ s.start ≤ s.stop ∧ line.IsBoundary s.start ∧ line.IsBoundary s.stop := by
  induction spans generalizing pos with
  | nil => cases h
  | cons t ts ih =>
    rw [placed] at h
    split at h
    · next ht =>
      rcases List.mem_cons.1 h with rfl | hs
      · exact ht
      · have := ih hs
        exact ⟨by omega, this.2⟩
    · cases h

theorem placed_of_wellFormedFrom {pos : Nat} {spans : List Span}
    (h : WellFormedFrom line pos spans) : placed line pos spans = spans := by
  induction spans generalizing pos with
  | nil => rfl
  | cons s ss ih =>
    obtain ⟨hpos, hlt, hstart, hstop, hss⟩ := h
    rw [placed, if_pos ⟨hpos, Nat.le_of_lt hlt, hstart, hstop⟩, ih hss]

theorem WellFormedFrom.of_mem {pos : Nat} {spans : List Span} {s : Span}
    (h : WellFormedFrom line pos spans) (hs : s ∈ spans) :
    pos ≤ s.start ∧ line.IsBoundary s.start := by
  rw [← placed_of_wellFormedFrom h] at hs
  obtain ⟨hle, -, hstart, -⟩ := mem_placed hs
  exact ⟨hle, hstart⟩

end Span

namespace Metrics

theorem flatMap_project_eq_nil {w : Window} {pos : Nat} {spans : List Span}
    (hpos : line.IsBoundary pos) (h : w.stop ≤ m.columnAt line pos) :
    (Span.placed line pos spans).flatMap (w.project m line) = [] := by
  rw [List.flatMap_eq_nil_iff]
  intro s hs
  obtain ⟨hle, -, hstart, -⟩ := Span.mem_placed hs
  exact Window.clip_of_stop_le (Nat.le_trans h (columnAt_mono hpos hstart hle)) _ _

theorem columnSpansFrom_eq {w : Window} {k : Nat} {p : Place} (hp : Place.at? m line k = some p)
    (spans : List Span) :
    m.columnSpansFrom w p spans = (Span.placed line k spans).flatMap (w.project m line) := by
  induction spans generalizing k p with
  | nil => rfl
  | cons s ss ih =>
    rw [columnSpansFrom, Place.advance?_of_at? hp]
    by_cases hk : s.start < k
    · rw [if_pos hk, Span.placed, if_neg (by omega)]
      rfl
    rw [if_neg hk]
    cases ha : Place.at? m line s.start with
    | none => rw [Span.placed, if_neg (by simp [Place.at?_eq_none_iff.1 ha])]; rfl
    | some a =>
      have hstart : line.IsBoundary s.start := Place.isSome_at?.1 (Option.isSome_of_eq_some ha)
      have hcol := columnAt_of_at? ha
      simp only
      by_cases hw : w.stop ≤ a.column
      · have hplaced : Span.placed line k (s :: ss) = Span.placed line s.start (s :: ss) := by
          simp [Span.placed, Nat.not_lt.1 hk]
        rw [if_pos hw, hplaced, flatMap_project_eq_nil hstart (by rwa [hcol])]
      rw [if_neg hw, Place.advance?_of_at? ha]
      by_cases hlt : s.stop < s.start
      · rw [if_pos hlt, Span.placed, if_neg (by omega)]
        rfl
      rw [if_neg hlt]
      cases hb : Place.at? m line s.stop with
      | none => rw [Span.placed, if_neg (by simp [Place.at?_eq_none_iff.1 hb])]; rfl
      | some b =>
        have hstop : line.IsBoundary s.stop := Place.isSome_at?.1 (Option.isSome_of_eq_some hb)
        rw [Span.placed, if_pos ⟨Nat.not_lt.1 hk, Nat.not_lt.1 hlt, hstart, hstop⟩,
          List.flatMap_cons, Window.project, hcol, columnAt_of_at? hb, ← ih hb]

theorem columnSpans_eq (w : Window) (spans : List Span) :
    m.columnSpans line spans w = (Span.placed line 0 spans).flatMap (w.project m line) :=
  columnSpansFrom_eq Place.at?_zero spans

end Metrics

end Highlight
