import Highlight.Proofs.Lexicon.Pieces
import Mathlib.Data.List.Chain

/-!
# Segments of a line

Spans that are parts of a line have segments, in whatever order they stand. Well-formed ones
cut the line into segments that together are the line, none of which is empty, with no two gaps
side by side. The spans can be read off the segments again (`Segment.spansFrom`), so a line with
other spans has other segments (`segments?_decomposes`).
-/

namespace Highlight

def Span.gap (piece : Text) : List Segment := if piece = [] then [] else [(piece, none)]

namespace Segment

/-- The spans of segments that follow one another from an offset on. -/
def spansFrom : Nat → List Segment → List Span
  | _, [] => []
  | pos, (piece, some c) :: segments =>
    ⟨pos, pos + piece.byteSize, c⟩ :: spansFrom (pos + piece.byteSize) segments
  | pos, (piece, none) :: segments => spansFrom (pos + piece.byteSize) segments

/-- The segments of the text that begins at an offset of a line, and the spans from there on. -/
structure Decomposition (pos : Nat) (rest : Text) (spans : List Span) (segments : List Segment) :
    Prop where
  ne_nil : ∀ s ∈ segments, s.1 ≠ []
  flatten : (segments.map Prod.fst).flatten = rest
  apart : segments.IsChain fun s s' => s.2.isSome ∨ s'.2.isSome
  spans : spansFrom pos segments = spans

variable {pos : Nat} {rest piece between : Text} {c : Category} {spans : List Span}
  {segments : List Segment}

theorem decompose_gap (pos : Nat) (rest : Text) : Decomposition pos rest [] (Span.gap rest) := by
  unfold Span.gap
  split
  · next h => exact ⟨by simp, h.symm, .nil, rfl⟩
  · next h => exact ⟨by simpa using h, by simp, .singleton _, rfl⟩

theorem Decomposition.cons (h : Decomposition (pos + piece.byteSize) rest spans segments)
    (hpiece : piece ≠ []) (c : Category) :
    Decomposition pos (piece ++ rest) (⟨pos, pos + piece.byteSize, c⟩ :: spans)
      ((piece, some c) :: segments) where
  ne_nil := List.forall_mem_cons.2 ⟨hpiece, h.ne_nil⟩
  flatten := congrArg (piece ++ ·) h.flatten
  apart := List.isChain_cons.2 ⟨fun _ _ => .inl rfl, h.apart⟩
  spans := congrArg (_ :: ·) h.spans

theorem Decomposition.gap_append (h : Decomposition (pos + between.byteSize) rest spans
    ((piece, some c) :: segments)) :
    Decomposition pos (between ++ rest) spans
      (Span.gap between ++ (piece, some c) :: segments) := by
  unfold Span.gap
  split
  · next hnil =>
    subst hnil
    exact h
  · next hne =>
    exact ⟨List.forall_mem_cons.2 ⟨hne, h.ne_nil⟩, congrArg (between ++ ·) h.flatten,
      List.isChain_cons_cons.2 ⟨.inr rfl, h.apart⟩, h.spans⟩

end Segment

namespace Span

variable {line before rest : Text} {s : Span} {spans : List Span}

theorem exists_pieces {start stop : Nat} (hbefore : before.byteSize ≤ start) (hlt : start < stop)
    (hstart : Text.IsBoundary start (before ++ rest))
    (hstop : Text.IsBoundary stop (before ++ rest)) :
    ∃ between piece after, rest = between ++ (piece ++ after) ∧ piece ≠ [] ∧
      start = before.byteSize + between.byteSize ∧ stop = start + piece.byteSize := by
  obtain ⟨l, piece, after, hline, rfl, rfl⟩ :=
    Text.exists_append_of_boundaries hstart hstop (Nat.le_of_lt hlt)
  obtain ⟨between, rfl, hrest⟩ := Text.append_of_byteSize_le hline hbefore
  refine ⟨between, piece, after, hrest, ?_, Text.byteSize_append _ _, rfl⟩
  rintro rfl
  exact Nat.lt_irrefl _ hlt

theorem gap?_append (before between after : Text) :
    gap? (before ++ (between ++ after)) before.byteSize (before.byteSize + between.byteSize) =
      some (gap between) := by
  unfold gap? gap
  by_cases h : between = []
  · rw [if_pos h, h, Text.byteSize, Nat.add_zero, if_neg (Nat.lt_irrefl _)]
  · rw [if_neg h, if_pos (Nat.lt_add_of_pos_right (Text.byteSize_pos h)), Text.slice?_append,
      Option.map_some]

theorem segmentsFrom?_cons (before between piece after : Text) (c : Category)
    (spans : List Span) :
    segmentsFrom? (before ++ (between ++ (piece ++ after))) before.byteSize
        (⟨before.byteSize + between.byteSize,
          before.byteSize + between.byteSize + piece.byteSize, c⟩ :: spans) =
      (segmentsFrom? (before ++ (between ++ (piece ++ after)))
          (before.byteSize + between.byteSize + piece.byteSize) spans).map
        fun tail => gap between ++ (piece, some c) :: tail := by
  have hpiece := Text.slice?_append (before ++ between) piece after
  rw [Text.byteSize_append, List.append_assoc] at hpiece
  rw [segmentsFrom?]
  simp only [gap?_append, hpiece, Option.bind_eq_bind, Option.bind_some]
  exact Option.map_eq_bind.symm

theorem segmentsFrom?_decompose (hwf : WellFormedFrom (before ++ rest) before.byteSize spans) :
    ∃ segments, segmentsFrom? (before ++ rest) before.byteSize spans = some segments ∧
      Segment.Decomposition before.byteSize rest spans segments := by
  induction spans generalizing before rest with
  | nil =>
    refine ⟨gap rest, ?_, Segment.decompose_gap _ rest⟩
    have hgap := gap?_append before rest []
    rwa [List.append_nil, ← Text.byteSize_append] at hgap
  | cons s spans ih =>
    obtain ⟨start, stop, c⟩ := s
    obtain ⟨hbefore, hlt, hstart, hstop, htail⟩ := hwf
    dsimp only at hbefore hlt hstart hstop htail
    obtain ⟨between, piece, after, rfl, hpiece, rfl, rfl⟩ :=
      exists_pieces hbefore hlt hstart hstop
    have hline : before ++ (between ++ (piece ++ after)) =
        (before ++ (between ++ piece)) ++ after := by
      rw [List.append_assoc, List.append_assoc]
    have hsize : (before ++ (between ++ piece)).byteSize =
        before.byteSize + between.byteSize + piece.byteSize := by
      rw [Text.byteSize_append, Text.byteSize_append, Nat.add_assoc]
    rw [hline, ← hsize] at htail
    obtain ⟨tail, htail, hdecompose⟩ := ih htail
    rw [hsize] at htail hdecompose
    refine ⟨_, ?_, (hdecompose.cons hpiece c).gap_append⟩
    rw [segmentsFrom?_cons, hline, htail, Option.map_some]

theorem isSome_gap? {start stop : Nat} (hstart : line.IsBoundary start)
    (hstop : line.IsBoundary stop) : (gap? line start stop).isSome := by
  unfold gap?
  split
  · next hlt =>
    rw [Option.isSome_map]
    exact Text.isSome_slice?_iff.2 ⟨Nat.le_of_lt hlt, hstart, hstop⟩
  · rfl

theorem isSome_segmentsFrom?_iff {pos : Nat} (hpos : line.IsBoundary pos) :
    (segmentsFrom? line pos spans).isSome ↔ ∀ s ∈ spans, (line.slice? s.start s.stop).isSome := by
  induction spans generalizing pos with
  | nil =>
    rw [segmentsFrom?]
    simpa using isSome_gap? hpos line.isBoundary_byteSize
  | cons s spans ih =>
    rw [List.forall_mem_cons, segmentsFrom?]
    by_cases hslice : (line.slice? s.start s.stop).isSome
    · obtain ⟨-, hstart, hstop⟩ := Text.isSome_slice?_iff.1 hslice
      obtain ⟨between, hbetween⟩ := Option.isSome_iff_exists.1 (isSome_gap? hpos hstart)
      obtain ⟨piece, hpiece⟩ := Option.isSome_iff_exists.1 hslice
      rw [← ih hstop, hbetween, hpiece]
      cases segmentsFrom? line s.stop spans <;> simp
    · rw [Option.not_isSome_iff_eq_none.1 hslice]
      cases gap? line pos s.start <;> simp

/-- Segments fail to exist only where a span is not a part of the line. -/
theorem isSome_segments?_iff :
    (segments? line spans).isSome ↔ ∀ s ∈ spans, (line.slice? s.start s.stop).isSome :=
  isSome_segmentsFrom?_iff (Text.isBoundary_iff.2 ⟨[], line, rfl, rfl⟩)

example : segments? ['a', 'b', 'c', 'd'] [⟨0, 2, .keyword⟩, ⟨1, 3, .type⟩] =
    some [(['a', 'b'], some .keyword), (['b', 'c'], some .type), (['d'], none)] := by decide

end Span

theorem Lexicon.wellFormed_of_classify {lexicon : Lexicon} {state : LineState} {t : Text}
    {c : ClassifiedLine} (h : lexicon.classify state t = .ok c) : Span.WellFormed t c.spans := by
  obtain ⟨l, hl, rfl⟩ := exists_lex_of_classify h
  exact (classified_eq hl).1

namespace Span

/-- The segments of a line keep its text and its spans: both can be read off them, and every
line that is classified has such segments. -/
theorem segments?_decomposes (line : Text) :
    (∀ spans, WellFormed line spans → ∃ segments, segments? line spans = some segments ∧
      Segment.Decomposition 0 line spans segments) ∧
    (∀ spans spans', WellFormed line spans → WellFormed line spans' → spans ≠ spans' →
      segments? line spans ≠ segments? line spans') ∧
    ∀ lexicon state c, Lexicon.classify lexicon state line = .ok c →
      ∃ segments, segments? line c.spans = some segments ∧
        Segment.Decomposition 0 line c.spans segments := by
  have hall (spans : List Span) (h : WellFormed line spans) : ∃ segments,
      segments? line spans = some segments ∧ Segment.Decomposition 0 line spans segments := by
    have hempty : WellFormedFrom ([] ++ line) (Text.byteSize []) spans := h
    exact segmentsFrom?_decompose hempty
  refine ⟨hall, ?_, ?_⟩
  · intro spans spans' h h' hne heq
    obtain ⟨segments, hs, hd⟩ := hall spans h
    obtain ⟨segments', hs', hd'⟩ := hall spans' h'
    rw [hs, hs', Option.some.injEq] at heq
    subst heq
    exact hne (hd.spans.symm.trans hd'.spans)
  · intro lexicon state c hc
    exact hall c.spans (Lexicon.wellFormed_of_classify hc)

theorem segments?_decomposes_adjacent :
    let line : Text := ['a', 'b', 'é', '"', '"']
    let spans : List Span := [⟨0, 1, .keyword⟩, ⟨1, 2, .type⟩, ⟨4, 6, .string⟩]
    let segments : List Segment := [(['a'], some .keyword), (['b'], some .type), (['é'], none),
      (['"', '"'], some .string)]
    WellFormed line spans ∧ segments? line spans = some segments ∧
      Segment.Decomposition 0 line spans segments := by
  intro line spans segments
  have hwf : WellFormed line spans := by decide
  have hsegments : segments? line spans = some segments := by decide
  obtain ⟨_, hsome, hdecomposition⟩ := (segments?_decomposes line).1 spans hwf
  cases hsegments.symm.trans hsome
  exact ⟨hwf, hsegments, hdecomposition⟩

end Span

end Highlight
